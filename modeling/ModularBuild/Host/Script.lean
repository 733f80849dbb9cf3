import ModularBuild.FileTree.Change
import ModularBuild.Host.Program
import ModularBuild.Host.Script.Syntax
import ModularBuild.Text.DecimalDigit
import ModularBuild.Text.Lossy

/-! Running shell scripts on a file tree. A script sees its arguments, prints, writes files
and ends with a status or a signal. -/

namespace ModularBuild.Script

/-- Where an output goes. What a program prints on its standard output is not kept. -/
inductive Sink
  | discard
  | errors
  | file (path : Path)
  deriving DecidableEq, Repr

structure Sinks where
  output : Sink
  errors : Sink

def Sinks.get (s : Sinks) (descriptor : Nat) : Sink :=
  if descriptor = 2 then s.errors else s.output

def Sinks.set (s : Sinks) (descriptor : Nat) (sink : Sink) : Sinks :=
  if descriptor = 2 then { s with errors := sink } else { s with output := sink }

structure Shell where
  name : String
  arguments : List String
  bindings : List (List Char × String)
  tree : FileTree
  errorOutput : Bytes
  status : Nat
  ended : Option ExitStatus

namespace Shell

def write (s : Shell) (sink : Sink) (b : Bytes) : Shell :=
  match sink with
  | .discard => s
  | .errors => { s with errorOutput := s.errorOutput ++ b }
  | .file path =>
    let old := (s.tree.readBytes path).toOption.getD []
    match s.tree.writeFile path (old ++ b) with
    | .ok tree => { s with tree }
    | .error _ => { s with status := 1 }

/-- The number by which the script knows its own process. -/
def ownProcess : String := "self"

def value (s : Shell) (name : List Char) : String :=
  match name with
  | ['@'] | ['*'] => " ".intercalate s.arguments
  | ['#'] => toString s.arguments.length
  | ['?'] => toString s.status
  | ['$'] => ownProcess
  | ['0'] => s.name
  | [c] =>
    if c.isDigit then s.arguments.getD (c.toNat - 49) ""
    else (s.bindings.lookup name).getD ""
  | _ => (s.bindings.lookup name).getD ""

/-- All arguments together are as many words as there are arguments. -/
def expand (s : Shell) (w : Word) : List String :=
  if w = [.parameter ['@']] then s.arguments
  else [String.join (w.map fun p => match p with
    | .literal cs => String.ofList cs
    | .parameter name => s.value name)]

def expandAll (s : Shell) (words : List Word) : List String := words.flatMap s.expand

/-- Up to three octal digits, as a byte, and what follows them. -/
def octalByte (cs : List Char) : Option (UInt8 × List Char) :=
  let digits := (cs.take 3).takeWhile fun c => '0' ≤ c && c ≤ '7'
  if digits.isEmpty then none
  else some (UInt8.ofNat (Text.ofDigits 8 (digits.map fun c => c.toNat - 48)),
    cs.drop digits.length)

def charBytes (c : Char) : Bytes := Bytes.ofText (String.singleton c)

def escapes : List (Char × UInt8) :=
  [('n', 10), ('t', 9), ('r', 13), ('a', 7), ('b', 8), ('f', 12), ('v', 11), ('\\', 92), ('"', 34)]

/-- Writes a format: backslash escapes, and arguments in the places marked for them. Every
step takes a character, so the length is fuel enough. -/
def formatted : Nat → List Char → List String → Bytes
  | 0, _, _ => []
  | _, [], _ => []
  | fuel + 1, '\\' :: rest, args =>
    match octalByte rest with
    | some (b, rest) => b :: formatted fuel rest args
    | none =>
      match rest with
      | c :: rest =>
        match escapes.lookup c with
        | some b => b :: formatted fuel rest args
        | none => 92 :: charBytes c ++ formatted fuel rest args
      | [] => [92]
  | fuel + 1, '%' :: '%' :: rest, args => 37 :: formatted fuel rest args
  | fuel + 1, '%' :: _ :: rest, args =>
    Bytes.ofText (args.headD "") ++ formatted fuel rest args.tail
  | fuel + 1, c :: rest, args => charBytes c ++ formatted fuel rest args

def format (text : String) (args : List String) : Bytes :=
  formatted text.length text.toList args

def signals : List (String × Nat) :=
  ExitStatus.signalNames.flatMap fun (n, name) =>
    [("-" ++ toString n, n), ("-" ++ (name.drop 3).toString, n), ("-" ++ name, n)]

def isSelf (s : String) : Bool := s == ownProcess

def call (s : Shell) (sinks : Sinks) (words : List String) : Shell :=
  match words with
  | [] => s
  | name :: args =>
    if name = "printf" then
      { s with status := 0 }.write sinks.output (format (args.headD "") args.tail)
    else if name = "echo" then
      let text := " ".intercalate args
      { s with status := 0 }.write sinks.output (format (text.replace "%" "%%") [] ++ [10])
    else if name = "exit" then
      let status := (args.head?.bind (·.toNat?)).getD s.status
      { s with ended := some (.code (status % 256)) }
    else if name = "kill" then
      match args with
      | [signal, process] =>
        if isSelf process then { s with ended := (signals.lookup signal).map ExitStatus.signal }
        else { s with status := 1 }
      | [process] =>
        if isSelf process then { s with ended := some (.signal 15) } else { s with status := 1 }
      | _ => { s with status := 2 }
    else if name = ":" || name = "true" then { s with status := 0 }
    else if name = "false" then { s with status := 1 }
    else
      { s with status := 127 }.write sinks.errors
        (Bytes.ofText (s.name ++ ": " ++ name ++ ": not found\n"))

/-- Opens the targets of redirections from left to right. -/
def redirect (s : Shell) (sinks : Sinks) : List Redirect → Shell × Sinks
  | [] => (s, sinks)
  | r :: rest =>
    let word := String.join (s.expand r.word)
    match r.target with
    | .descriptor => s.redirect (sinks.set r.descriptor (sinks.get (word.toNat?.getD 1))) rest
    | .file append =>
      let path : Path := ⟨word⟩
      let s := if append then s else
        match s.tree.writeFile path [] with
        | .ok tree => { s with tree }
        | .error _ => { s with status := 2 }
      s.redirect (sinks.set r.descriptor (.file path)) rest

mutual

def run (sinks : Sinks) (s : Shell) : Command → Shell
  | .simple words redirects =>
    let (s, sinks) := s.redirect sinks redirects
    s.call sinks (s.expandAll words)
  | .forEach name words body redirects =>
    let (s, sinks) := s.redirect sinks redirects
    (s.expandAll words).foldl
      (fun s value => runAll sinks { s with bindings := (name, value) :: s.bindings } body) s

def runAll (sinks : Sinks) (s : Shell) : List Command → Shell
  | [] => s
  | c :: rest => if s.ended.isSome then s else runAll sinks (run sinks s c) rest

end

end Shell

/-! ## Starting a program -/

/-- The directories in which a program is looked for by its bare name. -/
def searchPath : List String :=
  ["/usr/local/sbin", "/usr/local/bin", "/usr/sbin", "/usr/bin", "/sbin", "/bin"]

def shells : List String :=
  ["/bin/sh", "/usr/bin/sh", "/bin/dash", "/usr/bin/dash", "/bin/bash", "/usr/bin/bash"]

/-- The file of a program that is not named by a path. -/
def locate (t : FileTree) (program : Path) : Except FileFault Path :=
  if program.chars.contains '/' then .ok program
  else if program.chars.isEmpty then .error .notFound
  else
    match (searchPath.map fun dir => Path.join ⟨dir⟩ program).find? t.isFile with
    | some path => .ok path
    | none => .error .notFound

/-- The interpreter that the first line of a script names. -/
def interpreter? : Bytes → Option String
  | 35 :: 33 :: rest =>
    let line := Text.lossyFrom none (rest.takeWhile (· != 10))
    let line := line.dropWhile fun c => c == ' ' || c == '\t'
    some (String.ofList (line.takeWhile fun c => c != ' ' && c != '\t'))
  | _ => none

def launch : Launcher := fun program args t => do
  let path ← locate t program
  match ← t.stat path with
  | (_, .file bytes true) =>
    match interpreter? bytes with
    | none => throw .execFormat
    | some shell =>
      if !shells.contains shell then throw .notFound
      let s := Shell.runAll ⟨.discard, .errors⟩
        ⟨path.text, args, [], t, [], 0, none⟩ (parse (Text.lossyFrom none bytes))
      return ⟨s.ended.getD (.code s.status), s.errorOutput, s.tree⟩
  | _ => throw .permissionDenied

end ModularBuild.Script
