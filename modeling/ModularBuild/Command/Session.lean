import ModularBuild.Command.Settings
import ModularBuild.FileTree.Change

/-! A command while it runs: it reads and changes the file tree, prints, reports and logs,
and may fail. -/

namespace ModularBuild

inductive CommandError
  | build (e : BuildError)
  | noNotice (project : Path)
  | noFileName (output : Path)
  deriving DecidableEq, Repr

def CommandError.message : CommandError → String
  | build e => e.message
  | noNotice project =>
    "Configuration error: no notice file given and " ++ project.text ++ " declares none"
  | noFileName output => "Invalid argument: " ++ output.text ++ " has no file name"

structure Session where
  tree : FileTree
  /-- What was printed on the standard output, and on the error output. -/
  output : String
  errors : String

/-- The settings and the surroundings of a command. -/
structure Context where
  settings : Settings
  host : Host

abbrev Command (α : Type) := ExceptT CommandError (StateM Session) α

/-- The kinds of status lines. -/
inductive Status
  | success
  | warning
  | info
  deriving DecidableEq, Repr

namespace Status

def word : Status → String
  | success => "OK"
  | warning => "WARN"
  | info => "INFO"

def sign : Status → String
  | success => "✓"
  | warning => "⚠"
  | info => "ℹ"

def colour : Status → Nat
  | success => 32
  | warning => 33
  | info => 34

/-- What a status line starts with. A sign in colour is bold too. -/
def lead (c : Context) (s : Status) : String :=
  if !c.settings.usesColor c.host then s.word
  else if c.host.stylesSigns then "\x1b[" ++ toString s.colour ++ "m" ++ styled 1 s.sign
  else s.sign

end Status

namespace Command

def print (text : String) : Command Unit :=
  modify fun s => { s with output := s.output ++ text }

def printError (text : String) : Command Unit :=
  modify fun s => { s with errors := s.errors ++ text }

/-- Writes a status line, unless the command is quiet. -/
def report (c : Context) (status : Status) (message : String) : Command Unit :=
  if c.settings.verbosity.isQuiet then return
  else printError (status.lead c ++ " " ++ message ++ "\n")

def log (c : Context) (e : Event) : Command Unit :=
  if (c.settings.filter c.host).wants e then
    printError (e.line (c.settings.usesColor c.host))
  else return

def logAll (c : Context) (events : List Event) : Command Unit := events.forM (log c)

/-- Looks at the file tree. -/
def inspect {α : Type} (f : FileTree → Except BuildError α) : Command α := do
  match f (← get).tree with
  | .ok a => return a
  | .error e => throw (.build e)

def check {α : Type} (r : Except BuildError α) : Command α :=
  match r with
  | .ok a => return a
  | .error e => throw (.build e)

def setTree (t : FileTree) : Command Unit := modify fun s => { s with tree := t }

/-- Changes the file tree; what was changed before a fault stays changed. -/
def change {α : Type} (d : Disk FileFault α) : Command α := do
  let (result, t) := d.runOn (← get).tree
  setTree t
  match result with
  | .ok a => return a
  | .error fault => throw (.build (.system fault))

/-- The result, and the session that is left. -/
def runOn {α : Type} (c : Command α) (s : Session) : Except CommandError α × Session :=
  (ExceptT.run c).run s

end Command
end ModularBuild
