/-! What can go wrong when a path is looked up, read or written. -/

namespace ModularBuild

inductive FileFault
  | notFound
  | execFormat
  | permissionDenied
  | alreadyExists
  | notADirectory
  | isADirectory
  | nameTooLong
  | tooManyLinks
  | notUtf8
  | nulInPath
  | notARegularFile
  deriving DecidableEq, Repr, Inhabited

namespace FileFault

/-- The number the system gives the fault, if the system raises it. -/
def code? : FileFault → Option Nat
  | notFound => some 2
  | execFormat => some 8
  | permissionDenied => some 13
  | alreadyExists => some 17
  | notADirectory => some 20
  | isADirectory => some 21
  | nameTooLong => some 36
  | tooManyLinks => some 40
  | notUtf8 | nulInPath | notARegularFile => none

def summary : FileFault → String
  | notFound => "No such file or directory"
  | execFormat => "Exec format error"
  | permissionDenied => "Permission denied"
  | alreadyExists => "File exists"
  | notADirectory => "Not a directory"
  | isADirectory => "Is a directory"
  | nameTooLong => "File name too long"
  | tooManyLinks => "Too many levels of symbolic links"
  | notUtf8 => "stream did not contain valid UTF-8"
  | nulInPath => "file name contained an unexpected NUL byte"
  | notARegularFile => "the source path is neither a regular file nor a symlink to a regular file"

def message (fault : FileFault) : String :=
  match fault.code? with
  | some n => fault.summary ++ " (os error " ++ toString n ++ ")"
  | none => fault.summary

end FileFault
end ModularBuild
