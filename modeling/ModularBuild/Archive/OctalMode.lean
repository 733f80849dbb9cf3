import ModularBuild.Text.Blank
import ModularBuild.Text.DecimalDigit

/-! Permission bits as octal text. -/

namespace ModularBuild.OctalMode

def maxMode : Nat := 0o7777

def isOctalDigit (c : Char) : Bool := '0' ≤ c && c ≤ '7'

/-- Drops the marks of octal notation at the front, however many there are. -/
def withoutMarks : List Char → List Char
  | '0' :: 'o' :: rest => withoutMarks rest
  | cs => cs

def withoutPlus : List Char → List Char
  | '+' :: rest => rest
  | cs => cs

/-- Reads a mode, with blanks around it, octal marks and a plus sign allowed. -/
def parse? (raw : String) : Option Nat :=
  let digits := withoutPlus (withoutMarks (Text.trimChars raw.toList))
  if digits.isEmpty || !digits.all isOctalDigit then none
  else
    let mode := Text.ofDigits 8 (digits.map fun c => c.toNat - 48)
    if mode ≤ maxMode then some mode else none

def render (mode : Nat) : String := String.ofList (Nat.toDigits 8 mode)

end ModularBuild.OctalMode
