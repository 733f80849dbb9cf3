/-! Reading of command-line arguments: options with and without values, long and short ones,
and operands. What they mean is not known here. -/

namespace ModularBuild

/-- What follows an option: nothing, its value, or no further reading at all. -/
inductive Follow
  | nothing
  | value
  | halt
  deriving DecidableEq, Repr

/-- An option by its long name, and perhaps by a letter. -/
structure OptionSpec where
  long : String
  short : Option Char
  follow : Follow
  deriving DecidableEq, Repr

/-- An option as it was given; without a value the text is empty. -/
structure OptionUse where
  long : String
  value : String
  deriving DecidableEq, Repr

inductive Argument
  | option (use : OptionUse)
  | operand (s : String)
  deriving DecidableEq, Repr

namespace Argument

/-- An option with what else its argument holds: a value, or more letters. -/
inductive Form
  | escape
  | long (name : String) (value : Option String)
  | short (letters : List Char)
  | operand

/-- A dash alone is an operand. -/
def form (arg : String) : Form :=
  match arg.toList with
  | ['-', '-'] => .escape
  | '-' :: '-' :: rest =>
    let name := rest.takeWhile (· != '=')
    let value := match rest.drop name.length with
      | [] => none
      | _ :: value => some (String.ofList value)
    .long (String.ofList name) value
  | '-' :: c :: rest => .short (c :: rest)
  | _ => .operand

def isOperand (arg : String) : Bool :=
  match form arg with
  | .operand => true
  | _ => false

/-- How a group of letters ends: complete, waiting for a value, or with a halt. -/
inductive Ending
  | complete
  | waiting (long : String)
  | halted

/-- Letters of options, up to one that takes the rest as its value or halts. -/
def letters (options : List OptionSpec) : List Char → Option (List OptionUse × Ending)
  | [] => some ([], .complete)
  | c :: rest => do
    let o ← options.find? (·.short == some c)
    match o.follow, rest with
    | .halt, _ => return ([⟨o.long, ""⟩], .halted)
    | .value, [] => return ([], .waiting o.long)
    | .value, '=' :: value => return ([⟨o.long, String.ofList value⟩], .complete)
    | .value, value => return ([⟨o.long, String.ofList value⟩], .complete)
    | .nothing, rest =>
      let (uses, ending) ← letters options rest
      return (⟨o.long, ""⟩ :: uses, ending)

/-- The uses that one argument stands for, and how it ends. An option that is not known, or
has a value that it does not take, is an error. -/
def uses (options : List OptionSpec) : Form → Option (List OptionUse × Ending)
  | .long name value => do
    let o ← options.find? (·.long == name)
    match o.follow, value with
    | .nothing, none => return ([⟨name, ""⟩], .complete)
    | .halt, none => return ([⟨name, ""⟩], .halted)
    | .value, some value => return ([⟨name, value⟩], .complete)
    | .value, none => return ([], .waiting name)
    | _, some _ => none
  | .short cs => letters options cs
  | .escape | .operand => none

/-- Reads arguments one after the other. With `stopAtOperand` the reading ends at the first
operand, and everything from there on is left over. -/
def read (options : List OptionSpec) (stopAtOperand : Bool) :
    List String → Option (List Argument × List String)
  | [] => some ([], [])
  | arg :: rest =>
    match form arg with
    | .escape => some (rest.map operand, [])
    | .operand =>
      if stopAtOperand then some ([], arg :: rest)
      else do
        let (args, left) ← read options stopAtOperand rest
        return (operand arg :: args, left)
    | form => do
      let (given, ending) ← uses options form
      match ending, rest with
      | .halted, _ => return (given.map option, [])
      | .complete, rest =>
        let (args, left) ← read options stopAtOperand rest
        return (given.map option ++ args, left)
      | .waiting _, [] => none
      | .waiting long, value :: rest =>
        if !isOperand value then none
        else
          let (args, left) ← read options stopAtOperand rest
          return (given.map option ++ option ⟨long, value⟩ :: args, left)

end Argument
end ModularBuild
