import ModularBuild.Command.Invocation

/-! A whole run from the command line: what is printed, the exit code, and the file tree
afterwards. -/

namespace ModularBuild

structure Outcome where
  code : Nat
  output : String
  errors : String
  tree : FileTree

namespace CommandLine

def release : String := "0.4.0"

def usageText : String :=
  "Usage: " ++ Invocation.program ++ " [OPTIONS] <COMMAND>\n\n" ++
  "Commands:\n" ++
  "  modules   List modules with their effective configuration\n" ++
  "  coverage  Aggregate coverage of all modules into one report\n" ++
  "  archive   Build a reproducible archive\n" ++
  "  notice    Print the copyright end year of a notice file\n" ++
  "  flags     Show resolved feature flags\n"

def perform (c : Context) : Action → Command Unit
  | .modules format => Command.modules c format
  | .coverage request => Command.coverage c request
  | .archive request => Command.archive c request
  | .notice file => Command.notice c file
  | .flags format => Command.flags c format

def runAction (host : Host) (settings : Settings) (action : Action) (t : FileTree) : Outcome :=
  match (perform ⟨settings, host⟩ action).runOn ⟨t, "", ""⟩ with
  | (.ok (), s) => ⟨0, s.output, s.errors, s.tree⟩
  | (.error e, s) => ⟨1, s.output, s.errors ++ "Error: " ++ e.message ++ "\n", s.tree⟩

/-- Runs a command line. One that is not understood changes nothing. -/
def run (host : Host) (args : List String) (t : FileTree) : Outcome :=
  match Invocation.ofArguments args with
  | none => ⟨2, "", "error: the arguments are not understood\n\n" ++ usageText, t⟩
  | some (.version program) => ⟨0, program ++ " " ++ release ++ "\n", "", t⟩
  | some .help => ⟨0, usageText, "", t⟩
  | some (.run settings action) => runAction host settings action t

end CommandLine
end ModularBuild
