import ModularBuild.Decimal.Binary64
import ModularBuild.Yaml.Node

/-! What a plain scalar means: nothing, a truth value, a number, or a text. -/

namespace ModularBuild.Yaml

/-- The widths of whole numbers that are told apart. -/
inductive IntWidth
  | word
  | double
  deriving DecidableEq, Repr

inductive Scalar
  | null
  | bool (b : Bool)
  | unsigned (width : IntWidth) (n : Nat)
  | negative (width : IntWidth) (n : Nat)
  | float (text : String)
  | text (s : String)
  deriving DecidableEq, Repr

namespace Scalar

def isNull (s : String) : Bool := s == "null" || s == "Null" || s == "NULL" || s == "~"

def bool? (s : String) : Option Bool :=
  if s == "true" || s == "True" || s == "TRUE" then some true
  else if s == "false" || s == "False" || s == "FALSE" then some false
  else none

def digitValue? (base : Nat) (c : Char) : Option Nat :=
  let n :=
    if '0' ≤ c && c ≤ '9' then c.toNat - 48
    else if 'a' ≤ c && c ≤ 'z' then c.toNat - 87
    else if 'A' ≤ c && c ≤ 'Z' then c.toNat - 55
    else base
  if n < base then some n else none

/-- A number in the base, without a sign and with at least one digit. -/
def natInBase? (base : Nat) (cs : List Char) : Option Nat :=
  if cs.isEmpty then none
  else cs.foldlM (fun n c => (digitValue? base c).map (base * n + ·)) 0

/-- A sign that a number may have once, dropped. -/
def withoutSign : List Char → List Char
  | '+' :: rest => rest
  | '-' :: rest => rest
  | cs => cs

/-- A zero followed by more digits is no number. -/
def isPaddedZero (cs : List Char) : Bool :=
  match withoutSign cs with
  | '0' :: rest => !rest.isEmpty && rest.all Char.isDigit
  | _ => false

/-- The digits of a number with their base, after a sign. -/
def based? : List Char → Option (Nat × List Char)
  | '0' :: 'x' :: rest => some (16, rest)
  | '0' :: 'o' :: rest => some (8, rest)
  | '0' :: 'b' :: rest => some (2, rest)
  | _ => none

/-- A number with a base in front, or a decimal one. If what follows the base has a digit
too many for the width or of another base, the decimal reading has no chance either. -/
def magnitude? (cs body : List Char) : Option Nat :=
  match based? body with
  | some (base, digits) => natInBase? base digits
  | none => if isPaddedZero cs then none else natInBase? 10 body

def unsignedBound : IntWidth → Nat
  | .word => Nat.pow 2 64
  | .double => Nat.pow 2 128

def int? (s : String) : Option Scalar :=
  let cs := s.toList
  let fitting (bound : IntWidth → Nat) (n : Nat) (wrap : IntWidth → Nat → Scalar) :=
    if n < bound .word then some (wrap .word n)
    else if n < bound .double then some (wrap .double n)
    else none
  match cs with
  | '-' :: body =>
    (magnitude? cs body).bind fun n =>
      fitting (fun w => unsignedBound w / 2 + 1) n .negative
  | '+' :: body => (magnitude? cs body).bind fun n => fitting unsignedBound n .unsigned
  | body => (magnitude? cs body).bind fun n => fitting unsignedBound n .unsigned

/-- A decimal with a point or an exponent, as its sign, its digits and its power of ten. -/
def decimal? (cs : List Char) : Option (Bool × Nat × Int) := do
  let below := cs.head? == some '-'
  let body := withoutSign cs
  let whole := body.takeWhile Char.isDigit
  let rest := body.drop whole.length
  let (fraction, rest) := match rest with
    | '.' :: rest => (rest.takeWhile Char.isDigit, rest.dropWhile Char.isDigit)
    | rest => ([], rest)
  let digits ← natInBase? 10 (whole ++ fraction)
  let exponent ← match rest with
    | [] => some (0 : Int)
    | c :: power =>
      if c ≠ 'e' && c ≠ 'E' then none
      else (natInBase? 10 (withoutSign power)).map fun n =>
        if power.head? == some '-' then -(n : Int) else (n : Int)
  return (below, digits, exponent - fraction.length)

/-- The printed form of a number that is written as a float. -/
def float? (s : String) : Option String :=
  let signed := s.toList
  let cs := match signed with
    | '+' :: rest => rest
    | cs => cs
  if signed.head? == some '+' && (cs.head? == some '+' || cs.head? == some '-') then none
  else
    let word := String.ofList cs
    if word == ".inf" || word == ".Inf" || word == ".INF" then some "inf"
    else if s == "-.inf" || s == "-.Inf" || s == "-.INF" then some "-inf"
    else if s == ".nan" || s == ".NaN" || s == ".NAN" then some "NaN"
    else do
      let (below, digits, power) ← decimal? cs
      let x ← Binary64.ofDecimal? below digits power
      return x.positional

/-- The meaning of a plain scalar without a tag. -/
def ofPlain (s : String) : Scalar :=
  if s.isEmpty || isNull s then .null
  else match bool? s with
    | some b => .bool b
    | none => match int? s with
      | some n => n
      | none =>
        if isPaddedZero s.toList then .text s
        else match float? s with
          | some digits => .float digits
          | none => .text s

end Scalar
end ModularBuild.Yaml
