import ModularBuild.Text.CharTables

/-! A text between double quotes, written so that it can be read back and shown on one
line: quotes, backslashes and line controls are escaped by name, and what would not show
is escaped by its code point. -/

namespace ModularBuild.Text

/-- Hexadecimal digits without leading zeros. -/
def hexDigits (n : Nat) : List Char := Nat.toDigits 16 n

def escapeCodePoint (c : Char) : List Char :=
  ['\\', 'u', '\x7b'] ++ hexDigits c.toNat ++ ['\x7d']

def escapeChar (c : Char) : List Char :=
  match c with
  | '\x00' => ['\\', '0']
  | '\t' => ['\\', 't']
  | '\r' => ['\\', 'r']
  | '\n' => ['\\', 'n']
  | '"' => ['\\', '"']
  | '\\' => ['\\', '\\']
  | c =>
    if inRanges c.toNat extendingRanges || inRanges c.toNat unprintableRanges then
      escapeCodePoint c
    else [c]

def quote (s : String) : String :=
  String.ofList ('"' :: s.toList.flatMap escapeChar ++ ['"'])

end ModularBuild.Text
