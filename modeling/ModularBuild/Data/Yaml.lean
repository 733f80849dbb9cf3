import ModularBuild.Data
import ModularBuild.Yaml.Cursor
import ModularBuild.Yaml.Scalar

/-! Values as a block-style YAML document. A text is written plain where that reads back as
the same text, and otherwise between quotes or, with line feeds in it, as a block. -/

namespace ModularBuild.Data

open Yaml (Style Scalar isBreak isSpaceOrTab)

/-- A character that is shown as it is in a YAML text. -/
def isShown (c : Char) : Bool :=
  c == '\n' || (' ' ≤ c && c ≤ '~') ||
  ('\u00a0' ≤ c && c ≤ '\ufffd' && c != '\ufeff') || 0x10000 ≤ c.toNat

/-- The ways in which a text may be written. -/
structure Forms where
  multiline : Bool
  plain : Bool
  singleQuoted : Bool
  block : Bool

/-- A character with its neighbours. -/
def withNeighbours : Option Char → List Char → List (Option Char × Char × Option Char)
  | _, [] => []
  | before, c :: rest => (before, c, rest.head?) :: withNeighbours (some c) rest

def isBlankOrBreak (c : Char) : Bool := isSpaceOrTab c || isBreak c

/-- A character that would not be read as part of a plain text where it stands. -/
def isIndicator : Option Char × Char × Option Char → Bool
  | (none, c, after) =>
    "#,[]\x7b\x7d&*!|>'\"%@`".toList.contains c ||
    ((c == '?' || c == ':' || c == '-') && after.all isBlankOrBreak)
  | (some before, c, after) =>
    (c == ':' && after.all isBlankOrBreak) || (c == '#' && isBlankOrBreak before)

def forms (cs : List Char) : Forms :=
  if cs.isEmpty then ⟨false, true, true, false⟩
  else
    let marker := "---".toList.isPrefixOf cs || "...".toList.isPrefixOf cs
    let indicators := marker || (withNeighbours none cs).any isIndicator
    let hidden := !cs.all isShown
    let multiline := cs.any isBreak
    let edge (c : Option Char) := c.any fun c => c == ' ' || isBreak c
    let follows (p q : Char → Bool) := (withNeighbours none cs).any fun (before, c, _) =>
      before.any p && q c
    let breakSpace := follows isBreak (· == ' ')
    let spaceBreak := follows (· == ' ') isBreak
    let trailingSpace := cs.getLast? == some ' '
    let safe := !spaceBreak && !hidden
    { multiline
      plain := safe && !breakSpace && !multiline && !indicators && !edge cs.head? &&
        !edge cs.getLast?
      singleQuoted := safe && !breakSpace
      block := safe && !trailingSpace }

/-- The form that the meaning of a text asks for. A text that would be read as something
else than a text wants quotes. -/
def wantedStyle (s : String) : Style :=
  if s.toList.contains '\n' then .literal
  else match Scalar.ofPlain s with
    | .text _ => if Scalar.isPaddedZero s.toList then .singleQuoted else .plain
    | _ => .singleQuoted

def chosenStyle (isKey : Bool) (s : String) : Style :=
  let f := forms s.toList
  let style := wantedStyle s
  let style := if isKey && f.multiline then .doubleQuoted else style
  let style := if style = .plain && !f.plain then .singleQuoted else style
  let style := if style = .singleQuoted && !f.singleQuoted then .doubleQuoted else style
  if style = .literal && (!f.block || isKey) then .doubleQuoted else style

def upperHex (n : Nat) : Char := (Nat.digitChar n).toUpper

/-- The lowest hexadecimal digits of a number, in the given count. -/
def hexTail : Nat → Nat → List Char
  | 0, _ => []
  | count + 1, n => hexTail count (n / 16) ++ [upperHex (n % 16)]

def escapeHidden (c : Char) : List Char :=
  let named : List (Char × Char) :=
    [('\x00', '0'), ('\x07', 'a'), ('\x08', 'b'), ('\t', 't'), ('\n', 'n'), ('\x0b', 'v'),
     ('\x0c', 'f'), ('\r', 'r'), ('\x1b', 'e'), ('"', '"'), ('\\', '\\'), ('\u0085', 'N'),
     ('\u00a0', '_'), ('\u2028', 'L'), ('\u2029', 'P')]
  match named.lookup c with
  | some letter => ['\\', letter]
  | none =>
    if c.toNat ≤ 0xff then '\\' :: 'x' :: hexTail 2 c.toNat
    else if c.toNat ≤ 0xffff then '\\' :: 'u' :: hexTail 4 c.toNat
    else '\\' :: 'U' :: hexTail 8 c.toNat

def doubleQuoted (cs : List Char) : List Char :=
  let body := cs.flatMap fun c =>
    if !isShown c || isBreak c || c == '"' || c == '\\' then escapeHidden c else [c]
  '"' :: body ++ ['"']

/-- A single-quoted text. A line feed is written as two, and a new line is indented. -/
def singleQuotedFrom (indent : Nat) : Bool → List Char → List Char
  | afterBreak, [] => (if afterBreak then List.replicate indent ' ' else []) ++ ['\'']
  | afterBreak, c :: rest =>
    if isBreak c then
      (if !afterBreak && c == '\n' then ['\n', '\n'] else [c]) ++ singleQuotedFrom indent true rest
    else
      (if afterBreak && c != ' ' then List.replicate indent ' ' else []) ++
      (if c = '\'' then ['\'', '\''] else [c]) ++
      singleQuotedFrom indent (afterBreak && c == ' ') rest

/-- The lines of a block text, each indented, with empty lines left empty. -/
def literalLines (indent : Nat) : Bool → List Char → List Char
  | _, [] => []
  | afterBreak, c :: rest =>
    if isBreak c then c :: literalLines indent true rest
    else
      (if afterBreak then List.replicate indent ' ' else []) ++
      c :: literalLines indent false rest

/-- The signs after the bar: an indentation that cannot be seen from the first line, and how
many line breaks there are at the end. -/
def literalHints (cs : List Char) : List Char :=
  let hidden := cs.head?.any fun c => c == ' ' || isBreak c
  let chomp : List Char := match cs.reverse with
    | [] => ['-']
    | last :: before =>
      if !isBreak last then ['-']
      else match before with
        | [] => ['+']
        | c :: _ => if isBreak c then ['+'] else []
  (if hidden then ['2'] else []) ++ chomp

/-- A scalar whose further lines are indented to the given column. -/
def scalarChars (isKey : Bool) (indent : Nat) (s : String) : List Char :=
  match chosenStyle isKey s with
  | .literal => '|' :: literalHints s.toList ++ '\n' :: literalLines indent true s.toList
  | .singleQuoted => '\'' :: singleQuotedFrom indent false s.toList
  | .doubleQuoted => doubleQuoted s.toList
  | _ => s.toList

/-- Ends the line, unless a block text has ended it. -/
def endLine (cs : List Char) : List Char :=
  if cs.getLast?.any isBreak then cs else cs ++ ['\n']

def maxSimpleKey : Nat := 128

/-- A key that fits on one line stands before its colon; any other is marked as a key. -/
def isSimpleKey (s : String) : Bool :=
  s.utf8ByteSize ≤ maxSimpleKey && !s.toList.any isBreak

def spaces (n : Nat) : List Char := List.replicate n ' '

mutual

/-- The entries of an object; the first one starts at the current column. -/
def yamlFields (indent : Nat) (first : Bool) : List (String × Data) → List Char
  | [] => []
  | (name, value) :: rest =>
    (if first then [] else spaces indent) ++
    (if isSimpleKey name then
      scalarChars true (indent + 2) name ++ ':' :: yamlMember indent value
    else
      '?' :: ' ' :: endLine (scalarChars false (indent + 2) name) ++
      spaces indent ++ ':' :: ' ' :: yamlInline (indent + 2) value) ++
    yamlFields indent false rest

/-- The items of a list, each behind a dash. -/
def yamlItems (indent : Nat) (first : Bool) : List Data → List Char
  | [] => []
  | item :: rest =>
    (if first then [] else spaces indent) ++ '-' :: ' ' :: yamlInline (indent + 2) item ++
    yamlItems indent false rest

/-- A value behind the colon of its key. -/
def yamlMember (indent : Nat) : Data → List Char
  | null => " null\n".toList
  | bool b => ' ' :: (toString b).toList ++ ['\n']
  | text s => ' ' :: endLine (scalarChars false (indent + 2) s)
  | list [] => " []\n".toList
  | list (item :: rest) => '\n' :: spaces indent ++ yamlItems indent true (item :: rest)
  | object [] => " \x7b\x7d\n".toList
  | object (field :: rest) =>
    '\n' :: spaces (indent + 2) ++ yamlFields (indent + 2) true (field :: rest)

/-- A value that starts at the current column, where collections are indented to. -/
def yamlInline (indent : Nat) : Data → List Char
  | null => "null\n".toList
  | bool b => (toString b).toList ++ ['\n']
  | text s => endLine (scalarChars false indent s)
  | list [] => "[]\n".toList
  | list (item :: rest) => yamlItems indent true (item :: rest)
  | object [] => "\x7b\x7d\n".toList
  | object (field :: rest) => yamlFields indent true (field :: rest)

end

/-- The value as a YAML document. -/
def yaml (d : Data) : String := String.ofList (yamlInline 0 d)

end ModularBuild.Data
