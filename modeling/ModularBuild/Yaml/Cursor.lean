import ModularBuild.Yaml.Token

/-! A reading position in a YAML text: what is left to read, and how much was read. -/

namespace ModularBuild.Yaml

structure Cursor where
  rest : List Char
  index : Nat
  line : Nat
  column : Nat
  deriving Repr, Inhabited

def isBreak (c : Char) : Bool :=
  c == '\n' || c == '\r' || c == '\u0085' || c == '\u2028' || c == '\u2029'

def isSpaceOrTab (c : Char) : Bool := c == ' ' || c == '\t'

/-- A letter, digit, dash or underscore of ASCII. -/
def isWordChar (c : Char) : Bool := c.isAlphanum || c == '-' || c == '_'

/-- The characters that a stream may hold at all. -/
def isReadable (c : Char) : Bool :=
  c == '\t' || c == '\n' || c == '\r' || (' ' ≤ c && c ≤ '~') || c == '\u0085' ||
  ('\u00a0' ≤ c && c ≤ '\ufffd') || 0x10000 ≤ c.toNat

namespace Cursor

def ofChars (cs : List Char) : Cursor := ⟨cs, 0, 0, 0⟩

def mark (cur : Cursor) : Mark := ⟨cur.line, cur.column⟩

def peek (cur : Cursor) (n : Nat) : Option Char := cur.rest[n]?

def atEnd (cur : Cursor) : Bool := cur.rest.isEmpty

/-- Whether the n-th character from here is the given one. -/
def has (cur : Cursor) (n : Nat) (c : Char) : Bool := cur.peek n == some c

/-- Whether a blank, a line break or the end of the text is n characters ahead. -/
def blankOrEndAt (cur : Cursor) (n : Nat) : Bool :=
  match cur.peek n with
  | none => true
  | some c => isSpaceOrTab c || isBreak c

def breakOrEndAt (cur : Cursor) (n : Nat) : Bool :=
  match cur.peek n with
  | none => true
  | some c => isBreak c

def breakAt (cur : Cursor) (n : Nat) : Bool := (cur.peek n).any isBreak

def blankAt (cur : Cursor) (n : Nat) : Bool := (cur.peek n).any isSpaceOrTab

/-- Moves on by characters of the same line. -/
def advance (cur : Cursor) (n : Nat) : Cursor :=
  ⟨cur.rest.drop n, cur.index + n, cur.line, cur.column + n⟩

/-- Moves over a line break. A carriage return and the line feed after it are one break.
All breaks read as a line feed, but for the separators of lines and paragraphs. -/
def takeBreak (cur : Cursor) : Char × Cursor :=
  match cur.rest with
  | '\r' :: '\n' :: rest => ('\n', ⟨rest, cur.index + 2, cur.line + 1, 0⟩)
  | c :: rest =>
    (if c = '\u2028' || c = '\u2029' then c else '\n', ⟨rest, cur.index + 1, cur.line + 1, 0⟩)
  | [] => ('\n', cur)

def takeWhile (cur : Cursor) (p : Char → Bool) : List Char × Cursor :=
  let taken := cur.rest.takeWhile p
  (taken, cur.advance taken.length)

def skipWhile (cur : Cursor) (p : Char → Bool) : Cursor := (cur.takeWhile p).2

/-- Passes over blanks, a comment and one line break; fails on anything else before the
break. -/
def finishLine (cur : Cursor) : Option Cursor :=
  let cur := cur.skipWhile isSpaceOrTab
  let cur := if cur.has 0 '#' then cur.skipWhile (!isBreak ·) else cur
  if !cur.breakOrEndAt 0 then none
  else if cur.breakAt 0 then some cur.takeBreak.2
  else some cur

/-- The three dashes or dots that begin or end a document stand at the start of a line. -/
def atDocumentMarker (cur : Cursor) (c : Char) : Bool :=
  cur.column == 0 && cur.has 0 c && cur.has 1 c && cur.has 2 c && cur.blankOrEndAt 3

def atAnyDocumentMarker (cur : Cursor) : Bool :=
  cur.atDocumentMarker '-' || cur.atDocumentMarker '.'

end Cursor
end ModularBuild.Yaml
