/-! A progress bar, as far as it matters: whether there is one, and how far it has got. -/

namespace ModularBuild

/-- The position of the bar, if one is running. -/
abbrev Progress := Option Nat

namespace Progress

/-- A quiet command starts no bar, and there is none over nothing. -/
def start (quiet : Bool) (total : Nat) (p : Progress) : Progress :=
  if quiet || total = 0 then p else some 0

def step (p : Progress) : Progress := p.map (· + 1)

def finish (_ : Progress) : Progress := none

/-- What is said about a bar when it is over. -/
def stagingSummary (p : Progress) (total : Nat) : Option String :=
  p.map fun staged =>
    "staged " ++ toString staged ++ " of " ++ toString total ++ " class file(s)"

end Progress
end ModularBuild
