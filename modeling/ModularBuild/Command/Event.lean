import ModularBuild.Text.Quoted

/-! Log events, how they are written, and which of them are wanted. -/

namespace ModularBuild

inductive Level
  | error
  | warn
  | info
  | debug
  | trace
  deriving DecidableEq, Repr

namespace Level

def name : Level → String
  | error => "ERROR"
  | warn => "WARN"
  | info => "INFO"
  | debug => "DEBUG"
  | trace => "TRACE"

/-- The larger, the less urgent. -/
def rank : Level → Nat
  | error => 1
  | warn => 2
  | info => 3
  | debug => 4
  | trace => 5

/-- The number of the colour in which the level is shown. -/
def colour : Level → Nat
  | error => 31
  | warn => 33
  | info => 32
  | debug => 34
  | trace => 35

end Level

/-- A value in an event. A quoted one is shown so that its ends can be seen. -/
inductive EventValue
  | plain (s : String)
  | quoted (s : String)
  deriving DecidableEq, Repr

def EventValue.text : EventValue → String
  | plain s => s
  | quoted s => Text.quote s

def EventValue.number (n : Nat) : EventValue := .plain (toString n)

structure Event where
  level : Level
  /-- The part of the program that speaks, from the outside in. -/
  component : List String
  message : String
  fields : List (String × EventValue)
  deriving DecidableEq, Repr

/-- Sets the text in a style of the terminal. -/
def styled (code : Nat) (s : String) : String :=
  "\x1b[" ++ toString code ++ "m" ++ s ++ "\x1b[0m"

/-- One line: level, message, and the fields with their names. -/
def Event.line (colours : Bool) (e : Event) : String :=
  let level := if colours then styled e.level.colour ("".pushn ' ' (5 - e.level.name.length) ++
    e.level.name) else e.level.name
  let field (f : String × EventValue) : String :=
    if colours then " " ++ styled 3 f.1 ++ styled 2 "=" ++ f.2.text
    else " " ++ f.1 ++ "=" ++ f.2.text
  level ++ " " ++ e.message ++ String.join (e.fields.map field) ++ "\n"

/-! ## Filters -/

/-- What is wanted from the components whose name starts in a certain way. Rank zero wants
nothing. -/
structure LogRule where
  component : Option String
  rank : Nat
  deriving DecidableEq, Repr

/-- The rules that were given; a later one replaces an earlier one for the same name. -/
abbrev LogFilter := List LogRule

namespace LogFilter

def ranks : List (String × Nat) :=
  [("off", 0), ("error", 1), ("warn", 2), ("info", 3), ("debug", 4), ("trace", 5), ("0", 0),
   ("1", 1), ("2", 2), ("3", 3), ("4", 4), ("5", 5)]

def rank? (s : String) : Option Nat := ranks.lookup (String.ofList (s.toList.map Char.toLower))

def isComponentChar (c : Char) : Bool := c.isAlphanum || c == '_' || c == ':' || c == '-'

/-- Reads a level, the start of a component name, or both with an equals sign between. A name
without a level wants everything. -/
def rule? (s : String) : Option LogRule :=
  match rank? s with
  | some rank => some ⟨none, rank⟩
  | none =>
    let name := s.toList.takeWhile isComponentChar
    if name.isEmpty then none
    else
      match s.toList.drop name.length with
      | [] | ['='] => some ⟨some (String.ofList name), Level.trace.rank⟩
      | '=' :: level => (rank? (String.ofList level)).map fun r => ⟨some (String.ofList name), r⟩
      | _ => none

/-- Reads rules with commas between them. Without any rule only errors are wanted. -/
def parse? (s : String) : Option LogFilter := do
  let parts := (s.splitOn ",").filter (· ≠ "")
  let rules ← parts.mapM rule?
  return if rules.isEmpty then [⟨none, Level.error.rank⟩] else rules

/-- How closely a rule names a component, if it does. -/
def LogRule.closeness (component : String) (r : LogRule) : Option Nat :=
  match r.component with
  | none => some 0
  | some name =>
    if name.toList.isPrefixOf component.toList then some (name.length + 1) else none

/-- The rule that names a component most closely decides. -/
def rankFor (filter : LogFilter) (component : String) : Nat :=
  (filter.foldl (fun best r =>
    match LogRule.closeness component r with
    | some n => if best.1 ≤ n then (n, r.rank) else best
    | none => best) (0, 0)).2

def wants (filter : LogFilter) (e : Event) : Bool :=
  e.level.rank ≤ rankFor filter ("::".intercalate e.component)

end LogFilter
end ModularBuild
