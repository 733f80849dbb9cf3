/-! Double-precision numbers in exact arithmetic: the one nearest to a decimal, and the
shortest decimal that is nearest to it. Both work on whole numbers only. -/

namespace ModularBuild

/-- The finite number `mantissa * 2 ^ exponent`, with its sign kept apart. -/
structure Binary64 where
  negative : Bool
  mantissa : Nat
  exponent : Int
  deriving DecidableEq, Repr

namespace Binary64

def minExponent : Int := -1074
def maxExponent : Int := 971
def mantissaBound : Nat := Nat.pow 2 53

/-- A decimal with more digits before or after the point is too large, or reads as zero. -/
def decimalReach : Int := 400

/-- A quotient rounded to the nearest whole number, a half to the even neighbour. -/
def roundDiv (num den : Nat) : Nat :=
  let q := num / den
  let twice := 2 * (num % den)
  if twice < den then q
  else if den < twice then q + 1
  else if q % 2 = 0 then q else q + 1

/-- The fraction times a power of two, as numerator and denominator. -/
def scale (num den : Nat) (power : Int) : Nat × Nat :=
  if power < 0 then (num, den * Nat.pow 2 power.natAbs) else (num * Nat.pow 2 power.natAbs, den)

/-- The number nearest to a positive fraction, or none if that is out of range. -/
def nearest? (num den : Nat) : Option (Nat × Int) :=
  let guess : Int := (num.log2 : Int) - den.log2 - 53
  let fits (e : Int) : Bool :=
    let (n, d) := scale num den (-e)
    n / d < mantissaBound
  let e := if fits guess then guess else if fits (guess + 1) then guess + 1 else guess + 2
  let e := max e minExponent
  let (n, d) := scale num den (-e)
  let m := roundDiv n d
  let (m, e) := if m = mantissaBound then (m / 2, e + 1) else (m, e)
  if maxExponent < e then none else some (m, e)

/-- The number nearest to `digits * 10 ^ power`. -/
def ofDecimal? (negative : Bool) (digits : Nat) (power : Int) : Option Binary64 :=
  let size : Int := (Nat.toDigits 10 digits).length + power
  if digits = 0 || size < -decimalReach then some ⟨negative, 0, 0⟩
  else if decimalReach < size then none
  else
    let (num, den) :=
      if power < 0 then (digits, Nat.pow 10 power.natAbs) else (digits * Nat.pow 10 power.natAbs, 1)
    (nearest? num den).map fun (m, e) => ⟨negative, m, e⟩

/-- A decimal on the grid of the power of ten that reads back as the value, which lies
between `low` and `high`. All three are in units of `1 / den`. -/
def onGrid? (low value high den : Nat) (closed : Bool) (power : Int) : Option Nat :=
  let up := if power < 0 then Nat.pow 10 power.natAbs else 1
  let unit := if power < 0 then den else den * Nat.pow 10 power.natAbs
  let below := value * up / unit
  let inside (n : Nat) : Bool :=
    if closed then low * up ≤ n * unit && n * unit ≤ high * up
    else low * up < n * unit && n * unit < high * up
  match inside below, inside (below + 1) with
  | true, true => if 2 * (value * up - below * unit) ≤ unit then some below else some (below + 1)
  | true, false => some below
  | false, true => some (below + 1)
  | false, false => none

/-- Tries the grids from coarse to fine. -/
def searchGrid (low value high den : Nat) (closed : Bool) : Nat → Int → Option (Nat × Int)
  | 0, _ => none
  | fuel + 1, power =>
    match onGrid? low value high den closed power with
    | some n => some (n, power)
    | none => searchGrid low value high den closed fuel (power - 1)

/-- The digits and the power of ten of the shortest decimal that reads back. -/
def shortest (x : Binary64) : Nat × Int :=
  if x.mantissa = 0 then (0, 0)
  else
    let (value, den) := scale (4 * x.mantissa) 4 x.exponent
    let (unit, _) := scale 1 4 x.exponent
    let halfBelow :=
      if x.mantissa = mantissaBound / 2 && minExponent < x.exponent then unit else 2 * unit
    (searchGrid (value - halfBelow) value (value + 2 * unit) den (x.mantissa % 2 = 0) 700
      310).getD (0, 0)

/-- All digits written out, with at least one digit after the point. -/
def positional (x : Binary64) : String :=
  let (digits, power) := x.shortest
  let ds := Nat.toDigits 10 digits
  let body :=
    if 0 ≤ power then ds ++ List.replicate power.toNat '0' ++ ['.', '0']
    else
      let places := power.natAbs
      let padded := List.replicate (places + 1 - ds.length) '0' ++ ds
      padded.take (padded.length - places) ++ '.' :: padded.drop (padded.length - places)
  String.ofList (if x.negative then '-' :: body else body)

end Binary64
end ModularBuild
