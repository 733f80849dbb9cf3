/-! White space in the sense of Unicode, and the removal of it from the ends of a text. -/

namespace ModularBuild.Text

/-- The characters with the Unicode property White_Space. -/
def isBlank (c : Char) : Bool :=
  ('\t' ≤ c && c ≤ '\r') || c == ' ' || c == '\u0085' || c == '\u00a0' || c == '\u1680' ||
  ('\u2000' ≤ c && c ≤ '\u200a') || c == '\u2028' || c == '\u2029' || c == '\u202f' ||
  c == '\u205f' || c == '\u3000'

/-- Drops the blanks at both ends. -/
def trimChars (cs : List Char) : List Char :=
  ((cs.dropWhile isBlank).reverse.dropWhile isBlank).reverse

def trim (s : String) : String := String.ofList (trimChars s.toList)

/-- Holds nothing but blanks. -/
def allBlank (s : String) : Bool := s.toList.all isBlank

/-- Maps the letters A to Z to lower case and leaves everything else alone. -/
def lowerAscii (s : String) : String := String.ofList (s.toList.map Char.toLower)

end ModularBuild.Text
