/-! Why a path has no place in the name field of an archive header. -/

namespace ModularBuild

inductive NameFault
  | absolute
  | parentPart
  | noPart
  | tooLong
  | nulByte
  deriving DecidableEq, Repr

def NameFault.message : NameFault → String
  | absolute => "paths in archives must be relative"
  | parentPart => "paths in archives must not have `..`"
  | noPart => "paths in archives must have at least one component"
  | tooLong => "provided value is too long"
  | nulByte => "provided value contains a nul byte"

end ModularBuild
