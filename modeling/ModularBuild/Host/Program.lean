import ModularBuild.FileTree

/-! Programs outside the library, as far as they can be seen from here: how one ends, what
it says, and what it does to the file tree. -/

namespace ModularBuild

inductive ExitStatus
  | code (n : Nat)
  | signal (number : Nat)
  deriving DecidableEq, Repr

namespace ExitStatus

def signalNames : List (Nat × String) :=
  [(1, "SIGHUP"), (2, "SIGINT"), (3, "SIGQUIT"), (4, "SIGILL"), (5, "SIGTRAP"), (6, "SIGABRT"),
   (7, "SIGBUS"), (8, "SIGFPE"), (9, "SIGKILL"), (10, "SIGUSR1"), (11, "SIGSEGV"),
   (12, "SIGUSR2"), (13, "SIGPIPE"), (14, "SIGALRM"), (15, "SIGTERM"), (16, "SIGSTKFLT")]

def text : ExitStatus → String
  | code n => "exit status: " ++ toString n
  | signal n =>
    "signal: " ++ toString n ++ ((signalNames.lookup n).elim "" fun name => " (" ++ name ++ ")")

end ExitStatus

/-- A program that has ended. -/
structure ProgramRun where
  status : ExitStatus
  errorOutput : Bytes
  tree : FileTree

/-- Runs the named program with arguments, or says why it cannot be run. -/
abbrev Launcher := Path → List String → FileTree → Except FileFault ProgramRun

end ModularBuild
