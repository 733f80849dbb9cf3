import ModularBuild.Bytes
import ModularBuild.Yaml.Cursor

/-! Reading the text of a scalar in each of its five styles. Every loop takes at least one
character in a step, so its fuel, the length of what is left, is enough. -/

namespace ModularBuild.Yaml.Token

/-- The white space between two pieces of a scalar. Blanks count until the first line break;
from then on only the breaks do. -/
structure Gap where
  blanks : List Char
  firstBreak : List Char
  laterBreaks : List Char
  broken : Bool
  deriving Inhabited

def Gap.none : Gap := ⟨[], [], [], false⟩

/-- What a gap stands for. A single line break reads as a space, and of several the first
one is dropped. -/
def Gap.text (gap : Gap) : List Char :=
  if !gap.broken then gap.blanks
  else if gap.firstBreak = ['\n'] then
    if gap.laterBreaks.isEmpty then [' '] else gap.laterBreaks
  else gap.firstBreak ++ gap.laterBreaks

def Gap.isEmpty (gap : Gap) : Bool := !gap.broken && gap.blanks.isEmpty

/-- Reads blanks and breaks into the gap. Within a plain scalar a tab must not stand where
the indentation is still below `indent`. -/
def scanGap (indent : Nat) : Nat → Gap → Cursor → Option (Gap × Cursor)
  | 0, gap, cur => some (gap, cur)
  | fuel + 1, gap, cur =>
    match cur.rest with
    | [] => some (gap, cur)
    | c :: _ =>
      if isSpaceOrTab c then
        if gap.broken then
          if c = '\t' && cur.column < indent then none
          else scanGap indent fuel gap (cur.advance 1)
        else scanGap indent fuel { gap with blanks := gap.blanks ++ [c] } (cur.advance 1)
      else if isBreak c then
        let (b, after) := cur.takeBreak
        if gap.broken then
          scanGap indent fuel { gap with laterBreaks := gap.laterBreaks ++ [b] } after
        else scanGap indent fuel { gap with firstBreak := [b], broken := true } after
      else some (gap, cur)

/-! ## Plain scalars -/

/-- Where a plain scalar ends inside a line: at a colon before white space, and in a flow
collection also at the signs of such a collection. -/
def endsPlain (inFlow : Bool) (cur : Cursor) : Bool :=
  cur.blankOrEndAt 0 || (cur.has 0 ':' && cur.blankOrEndAt 1) ||
  (inFlow && (cur.peek 0).any fun c => ",[]\x7b\x7d".toList.contains c)

/-- A colon right before a sign of a flow collection is refused. -/
def strayColon (inFlow : Bool) (cur : Cursor) : Bool :=
  inFlow && cur.has 0 ':' && (cur.peek 1).any fun c => ",?[]\x7b\x7d".toList.contains c

/-- The characters up to the next white space or the end of the scalar. -/
def scanWord (inFlow : Bool) : Nat → List Char → Cursor → Option (List Char × Cursor)
  | 0, word, cur => some (word.reverse, cur)
  | fuel + 1, word, cur =>
    match cur.rest with
    | [] => some (word.reverse, cur)
    | c :: _ =>
      if cur.blankOrEndAt 0 then some (word.reverse, cur)
      else if strayColon inFlow cur then none
      else if endsPlain inFlow cur then some (word.reverse, cur)
      else scanWord inFlow fuel (c :: word) (cur.advance 1)

structure Plain where
  text : List Char
  /-- The cursor after the last gap, where reading goes on. -/
  next : Cursor
  /-- The mark after the last character. -/
  stop : Mark
  /-- Whether the last gap held a line break. -/
  broken : Bool

def scanPlainFrom (inFlow : Bool) (indent : Nat) :
    Nat → List Char → Gap → Mark → Cursor → Option Plain
  | 0, text, gap, stop, cur => some ⟨text, cur, stop, gap.broken⟩
  | fuel + 1, text, gap, stop, cur => do
    if cur.atAnyDocumentMarker || cur.has 0 '#' then return ⟨text, cur, stop, gap.broken⟩
    let (word, after) ← scanWord inFlow cur.rest.length [] cur
    let (text, stop, broken) :=
      if word.isEmpty then (text, stop, gap.broken)
      else (text ++ gap.text ++ word, after.mark, false)
    let blankAhead := after.blankAt 0 || after.breakAt 0
    if !blankAhead then return ⟨text, after, stop, broken⟩
    let (gap, after) ←
      scanGap indent after.rest.length (if word.isEmpty then gap else .none) after
    if !inFlow && after.column < indent then return ⟨text, after, stop, gap.broken⟩
    scanPlainFrom inFlow indent fuel text gap stop after

/-- A plain scalar. In block context its lines stand at least at column `indent`. -/
def scanPlain (inFlow : Bool) (indent : Nat) (cur : Cursor) : Option Plain :=
  scanPlainFrom inFlow indent (cur.rest.length + 1) [] .none cur.mark cur

/-! ## Quoted scalars -/

/-- The character that a letter after a backslash stands for. -/
def namedEscape? : Char → Option Char
  | '0' => some '\x00'
  | 'a' => some '\x07'
  | 'b' => some '\x08'
  | 't' => some '\t'
  | '\t' => some '\t'
  | 'n' => some '\n'
  | 'v' => some '\x0b'
  | 'f' => some '\x0c'
  | 'r' => some '\r'
  | 'e' => some '\x1b'
  | ' ' => some ' '
  | '"' => some '"'
  | '/' => some '/'
  | '\\' => some '\\'
  | 'N' => some '\u0085'
  | '_' => some '\u00a0'
  | 'L' => some '\u2028'
  | 'P' => some '\u2029'
  | _ => none

def codeLength? : Char → Option Nat
  | 'x' => some 2
  | 'u' => some 4
  | 'U' => some 8
  | _ => none

def hexNumber? (digits : List Char) : Option Nat :=
  digits.foldlM (fun n c => (Bytes.hexValue? c).map (16 * n + ·)) 0

/-- The character of an escape that begins at the cursor. -/
def scanEscape (cur : Cursor) : Option (Char × Cursor) := do
  let letter ← cur.peek 1
  match codeLength? letter with
  | none => return (← namedEscape? letter, cur.advance 2)
  | some width =>
    let digits := (cur.rest.drop 2).take width
    if digits.length < width then none
    let n ← hexNumber? digits
    if (0xd800 ≤ n && n ≤ 0xdfff) || 0x10ffff < n then none
    return (Char.ofNat n, cur.advance (2 + width))

/-- The characters up to white space, the closing quote, or an escaped line break. The last
result tells whether the piece ended in such a break. -/
def scanPiece (single : Bool) : Nat → List Char → Cursor →
    Option (List Char × Cursor × Bool)
  | 0, piece, cur => some (piece.reverse, cur, false)
  | fuel + 1, piece, cur =>
    match cur.rest with
    | [] => some (piece.reverse, cur, false)
    | c :: _ =>
      if cur.blankOrEndAt 0 then some (piece.reverse, cur, false)
      else if single then
        if c = '\'' then
          if cur.has 1 '\'' then scanPiece single fuel ('\'' :: piece) (cur.advance 2)
          else some (piece.reverse, cur, false)
        else scanPiece single fuel (c :: piece) (cur.advance 1)
      else if c = '"' then some (piece.reverse, cur, false)
      else if c = '\\' then
        if cur.breakAt 1 then some (piece.reverse, (cur.advance 1).takeBreak.2, true)
        else do
          let (e, after) ← scanEscape cur
          scanPiece single fuel (e :: piece) after
      else scanPiece single fuel (c :: piece) (cur.advance 1)

def scanQuotedFrom (single : Bool) : Nat → List Char → Cursor → Option (List Char × Cursor)
  | 0, _, _ => none
  | fuel + 1, text, cur => do
    if cur.atAnyDocumentMarker || cur.atEnd then none
    let (piece, after, escaped) ← scanPiece single cur.rest.length [] cur
    if after.has 0 (if single then '\'' else '"') then return (text ++ piece, after.advance 1)
    let gap := if escaped then { Gap.none with broken := true } else Gap.none
    let (gap, after) ← scanGap 0 after.rest.length gap after
    scanQuotedFrom single fuel (text ++ piece ++ gap.text) after

/-- A scalar between quotes; the cursor stands at the first quote. -/
def scanQuoted (single : Bool) (cur : Cursor) : Option (List Char × Cursor) :=
  let inner := cur.advance 1
  scanQuotedFrom single (inner.rest.length + 1) [] inner

/-! ## Block scalars -/

inductive Chomp
  | strip
  | clip
  | keep
  deriving DecidableEq

/-- The signs behind the bar or angle of a block scalar: how its end is cut, and how far its
lines are indented, in either order. -/
def scanBlockHeader (cur : Cursor) : Option (Chomp × Nat × Cursor) := do
  let chompAt (cur : Cursor) : Chomp × Cursor :=
    if cur.has 0 '+' then (.keep, cur.advance 1)
    else if cur.has 0 '-' then (.strip, cur.advance 1)
    else (.clip, cur)
  let indentAt (cur : Cursor) : Option (Nat × Cursor) :=
    match cur.peek 0 with
    | some c =>
      if c.isDigit then if c = '0' then none else some (c.toNat - 48, cur.advance 1)
      else some (0, cur)
    | none => some (0, cur)
  let (chomp, after) := chompAt cur
  let (increment, after) ← indentAt after
  let (chomp, after) :=
    if chomp = .clip && increment ≠ 0 then chompAt after else (chomp, after)
  return (chomp, increment, ← after.finishLine)

/-- Passes over indentation and empty lines, and collects the breaks of the latter. While
`indent` is zero the indentation is still unknown, and `widest` is the widest seen. -/
def scanEmptyLines (indent : Nat) : Nat → Nat → List Char → Cursor →
    Option (Nat × List Char × Cursor)
  | 0, widest, breaks, cur => some (widest, breaks, cur)
  | fuel + 1, widest, breaks, cur =>
    let spaces := (cur.rest.takeWhile (· == ' ')).length
    let cur := cur.advance (if indent = 0 then spaces else min spaces (indent - cur.column))
    let widest := max widest cur.column
    if (indent = 0 || cur.column < indent) && cur.has 0 '\t' then none
    else if cur.breakAt 0 then
      let (b, after) := cur.takeBreak
      scanEmptyLines indent fuel widest (breaks ++ [b]) after
    else some (widest, breaks, cur)

/-- The lines of a block scalar. `pending` is the break of the line before, and `breaks` are
those of the empty lines after it. -/
def scanBlockLines (literal : Bool) (indent : Nat) :
    Nat → List Char → List Char → List Char → Bool → Cursor →
    Option (List Char × List Char × List Char × Cursor)
  | 0, text, pending, breaks, _, cur => some (text, pending, breaks, cur)
  | fuel + 1, text, pending, breaks, leadingBlank, cur =>
    if cur.column ≠ indent || cur.atEnd then some (text, pending, breaks, cur)
    else do
      let blank := cur.blankAt 0
      let joint :=
        if !literal && pending = ['\n'] && !leadingBlank && !blank then
          if breaks.isEmpty then [' '] else []
        else pending
      let (line, after) := cur.takeWhile (!isBreak ·)
      let (pending, after) :=
        if after.atEnd then ([], after) else let (b, next) := after.takeBreak; ([b], next)
      let (_, later, after) ← scanEmptyLines indent (after.rest.length + 1) 0 [] after
      scanBlockLines literal indent fuel (text ++ joint ++ breaks ++ line) pending later blank
        after

/-- A literal or folded scalar; `parent` is the indentation around it, if there is one. -/
def scanBlock (literal : Bool) (parent : Option Nat) (cur : Cursor) :
    Option (List Char × Cursor) := do
  let (chomp, increment, cur) ← scanBlockHeader (cur.advance 1)
  let known := if increment = 0 then 0 else parent.getD 0 + increment
  let (widest, breaks, cur) ← scanEmptyLines known (cur.rest.length + 1) 0 [] cur
  let least := match parent with
    | some n => n + 1
    | none => 1
  let indent := if known = 0 then max widest least else known
  let (text, pending, breaks, cur) ←
    scanBlockLines literal indent (cur.rest.length + 1) [] [] breaks false cur
  let tail := match chomp with
    | .strip => []
    | .clip => pending
    | .keep => pending ++ breaks
  return (text ++ tail, cur)

end ModularBuild.Yaml.Token
