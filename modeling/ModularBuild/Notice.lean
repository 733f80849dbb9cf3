import ModularBuild.Error
import ModularBuild.FileTree
import ModularBuild.Text.Blank
import ModularBuild.Text.DecimalDigit
import ModularBuild.Text.Lines

/-! The years of a copyright notice. They stand on the first line that carries the marker;
no later line and no later span can make up for a bad one. -/

namespace ModularBuild

structure YearSpan where
  first : Nat
  last : Nat
  deriving DecidableEq, Repr

namespace Notice

def marker : String := "Copyright"

/-- Takes four decimal digits of any script. -/
def fourDigits? (cs : List Char) : Option (List Char × List Char) :=
  let digits := cs.take 4
  if digits.length = 4 && digits.all Text.isDecimalDigit then some (digits, cs.drop 4) else none

/-- Reads the marker, a space and two years with a dash between them. -/
def spanHere? (cs : List Char) : Option (List Char × List Char) := do
  let lead := marker.toList ++ [' ']
  guard (lead.isPrefixOf cs)
  let (first, rest) ← fourDigits? (cs.drop lead.length)
  match rest with
  | '-' :: rest =>
    let (last, _) ← fourDigits? rest
    return (first, last)
  | _ => none

/-- The leftmost span of a line. -/
def span? : List Char → Option (List Char × List Char)
  | [] => none
  | c :: rest => (spanHere? (c :: rest)).or (span? rest)

/-- The year that four digits denote, if they are ASCII digits. -/
def year? (digits : List Char) : Option Nat :=
  if digits.all Char.isDigit then
    some (Text.ofDigits 10 (digits.map fun c => c.toNat - 48))
  else none

def markerLine? (text : String) : Option (List Char) :=
  (Text.lineChars text.toList).find? (Text.occursIn marker.toList)

def lineSpan? (line : List Char) : Option YearSpan := do
  let (first, last) ← span? line
  let first ← year? first
  let last ← year? last
  if first ≤ last then return ⟨first, last⟩ else none

/-- The years on the first line with the marker. -/
def span (text : String) : Except BuildError YearSpan :=
  match markerLine? text with
  | none => .error (.noticeMarkerMissing marker)
  | some line =>
    match lineSpan? line with
    | some years => .ok years
    | none => .error (.noticePatternMismatch (String.ofList (Text.trimChars line)))

/-- The year of the last edit. -/
def lastYear (text : String) : Except BuildError Nat := (span text).map (·.last)

def readLastYear (t : FileTree) (path : Path) : Except BuildError Nat := do
  match t.readText path with
  | .ok text => lastYear text
  | .error fault => throw (.system fault)

end Notice
end ModularBuild
