import ModularBuild.Bytes

/-! Text from bytes that need not be UTF-8. Where the bytes stop making sense a replacement
character stands for the longest piece that could have begun a character. -/

namespace ModularBuild.Text

def replacement : Char := '\ufffd'

/-- For a first byte: how many bytes follow, and the range of the next one. -/
def leadByte? (b : Nat) : Option (Nat × Nat × Nat) :=
  if 0xc2 ≤ b && b ≤ 0xdf then some (1, 0x80, 0xbf)
  else if b = 0xe0 then some (2, 0xa0, 0xbf)
  else if b = 0xed then some (2, 0x80, 0x9f)
  else if 0xe1 ≤ b && b ≤ 0xef then some (2, 0x80, 0xbf)
  else if b = 0xf0 then some (3, 0x90, 0xbf)
  else if b = 0xf4 then some (3, 0x80, 0x8f)
  else if 0xf1 ≤ b && b ≤ 0xf3 then some (3, 0x80, 0xbf)
  else none

/-- What is still missing of a character: how many bytes, the range of the next one, and
the value so far. -/
structure Unfinished where
  missing : Nat
  low : Nat
  high : Nat
  value : Nat

def lossyFrom : Option Unfinished → Bytes → List Char
  | none, [] => []
  | some _, [] => [replacement]
  | state, b :: rest =>
    let n := b.toNat
    let fresh : List Char :=
      if n < 0x80 then Char.ofNat n :: lossyFrom none rest
      else match leadByte? n with
        | none => replacement :: lossyFrom none rest
        | some (missing, low, high) =>
          lossyFrom (some ⟨missing, low, high, n % 2 ^ (6 - missing)⟩) rest
    match state with
    | none => fresh
    | some u =>
      if u.low ≤ n && n ≤ u.high then
        let value := u.value * 64 + n % 64
        if u.missing = 1 then Char.ofNat value :: lossyFrom none rest
        else lossyFrom (some ⟨u.missing - 1, 0x80, 0xbf, value⟩) rest
      else replacement :: fresh

def lossy (b : Bytes) : String := String.ofList (lossyFrom none b)

end ModularBuild.Text
