import ModularBuild.Command.Event
import ModularBuild.Host.Program
import ModularBuild.Project

/-! The settings that every command shares, and what a command sees of its host. -/

namespace ModularBuild

inductive Verbosity
  | quiet
  | normal
  | verbose
  | debug
  deriving DecidableEq, Repr

namespace Verbosity

/-- Quiet wins over any number of requests for more output. -/
def ofFlags (quiet : Bool) (verbose : Nat) : Verbosity :=
  if quiet then .quiet
  else match verbose with
    | 0 => .normal
    | 1 => .verbose
    | _ => .debug

def isQuiet (v : Verbosity) : Bool := v = .quiet

def isVerbose (v : Verbosity) : Bool := v = .verbose || v = .debug

def level : Verbosity → Level
  | quiet => .error
  | normal => .warn
  | verbose => .info
  | debug => .debug

def logFilter (v : Verbosity) : String := String.ofList (v.level.name.toList.map Char.toLower)

def name : Verbosity → String
  | quiet => "Quiet"
  | normal => "Normal"
  | verbose => "Verbose"
  | debug => "Debug"

end Verbosity

inductive ColorChoice
  | auto
  | always
  | never
  deriving DecidableEq, Repr

def ColorChoice.name : ColorChoice → String
  | auto => "Auto"
  | always => "Always"
  | never => "Never"

structure Settings where
  verbosity : Verbosity
  color : ColorChoice
  project : Path
  /-- Property arguments, `key` or `key=value`. -/
  properties : List String
  deriving DecidableEq, Repr

/-- Where a project is described, unless another file is named. -/
def standardProjectFile : Path := ⟨"forja.yaml"⟩

def Settings.standard : Settings := ⟨.normal, .auto, standardProjectFile, []⟩

def Settings.data (s : Settings) : Data :=
  .object [("verbosity", .text s.verbosity.name), ("color", .text s.color.name),
    ("project", .text s.project.text), ("properties", .texts s.properties)]

/-- The surroundings of a command. -/
structure Host where
  environment : Table String String
  /-- Whether the standard output is a terminal. -/
  terminal : Bool
  launch : Launcher
  /-- The encoder that packs the contents of compressed archives. -/
  deflate : Bytes → Bytes

namespace Settings

def usesColor (s : Settings) (host : Host) : Bool :=
  match s.color with
  | .always => true
  | .never => false
  | .auto => host.terminal

/-- Resolves the flags of a project under the property arguments and the environment. -/
def resolver (s : Settings) (environment : Table String String) (p : Project) : FlagResolver :=
  (p.resolver.setArguments s.properties).withSnapshot environment

/-- The variable that says which log events are wanted. -/
def logVariable : String := "RUST_LOG"

/-- A readable filter in the environment wins over the verbosity. -/
def filter (s : Settings) (host : Host) : LogFilter :=
  ((host.environment.find? logVariable).bind LogFilter.parse?).getD
    [⟨none, s.verbosity.level.rank⟩]

end Settings

/-- Whether signs are set in colours: when that is forced, or on a terminal that allows it. -/
def Host.stylesSigns (host : Host) : Bool :=
  let value (name standard : String) := (host.environment.find? name).getD standard
  (host.terminal && (host.environment.find? "NO_COLOR").isNone && value "CLICOLOR" "1" != "0") ||
    value "CLICOLOR_FORCE" "0" != "0"

end ModularBuild
