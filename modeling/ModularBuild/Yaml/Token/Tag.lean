import ModularBuild.Bytes
import ModularBuild.Yaml.Cursor

/-! Reading directives, anchors and tags. `none` stands for a text that is no YAML. -/

namespace ModularBuild.Yaml.Token

def isTagChar (inBrackets : Bool) (c : Char) : Bool :=
  isWordChar c || ";/?:@&=+$.%!~*'()".toList.contains c ||
  (inBrackets && (c == ',' || c == '[' || c == ']'))

/-- How many bytes a UTF-8 sequence with this first byte has. -/
def sequenceWidth (first : Nat) : Nat :=
  if first < 0x80 then 1
  else if 0xc0 ≤ first && first < 0xe0 then 2
  else if 0xe0 ≤ first && first < 0xf0 then 3
  else if 0xf0 ≤ first && first < 0xf8 then 4
  else 0

/-- One byte written as a percent sign and two hexadecimal digits. -/
def percentByte? : List Char → Option (Nat × List Char)
  | '%' :: hi :: lo :: rest => do
    let h ← Bytes.hexValue? hi
    let l ← Bytes.hexValue? lo
    return (16 * h + l, rest)
  | _ => none

/-- The continuation bytes of an escaped character. -/
def continuation : Nat → List Char → Option (Bytes × List Char)
  | 0, cs => some ([], cs)
  | n + 1, cs => do
    let (b, rest) ← percentByte? cs
    if b / 64 ≠ 2 then none
    let (tail, rest) ← continuation n rest
    return (UInt8.ofNat b :: tail, rest)

/-- The characters of a tag, percent escapes decoded, and what follows them. The fuel is
the length of the text, of which each step takes something. -/
def tagBytes (inBrackets : Bool) : Nat → List Char → Option (Bytes × List Char)
  | 0, cs => some ([], cs)
  | _, [] => some ([], [])
  | fuel + 1, c :: rest =>
    if !isTagChar inBrackets c then some ([], c :: rest)
    else if c = '%' then do
      let (first, after) ← percentByte? (c :: rest)
      let width := sequenceWidth first
      if width = 0 then none
      let (tail, after) ← continuation (width - 1) after
      let (more, after) ← tagBytes inBrackets fuel after
      return (UInt8.ofNat first :: tail ++ more, after)
    else do
      let (more, after) ← tagBytes inBrackets fuel rest
      return (Bytes.ofText (String.singleton c) ++ more, after)

/-- The suffix of a tag. `head` was read already and counts for it, but for its first
character. -/
def tagSuffix (inBrackets : Bool) (head : List Char) (cur : Cursor) :
    Option (String × Cursor) := do
  let (bytes, rest) ← tagBytes inBrackets cur.rest.length cur.rest
  if head.isEmpty && bytes.isEmpty then none
  let text ← bytes.text?
  return (String.ofList (head.drop 1) ++ text, cur.advance (cur.rest.length - rest.length))

/-- An exclamation mark, word characters, and perhaps another exclamation mark. -/
def tagHandle (directive : Bool) (cur : Cursor) : Option (List Char × Cursor) :=
  if !cur.has 0 '!' then none
  else
    let (word, after) := (cur.advance 1).takeWhile isWordChar
    if after.has 0 '!' then some ('!' :: word ++ ['!'], after.advance 1)
    else if directive && !word.isEmpty then none
    else some ('!' :: word, after)

/-- A tag with its handle and suffix. A tag in angle brackets has an empty handle, and so
has the lone exclamation mark. -/
def scanTag (inFlow : Bool) (cur : Cursor) : Option (TokenKind × Cursor) := do
  let (handle, suffix, cur) ←
    if cur.has 1 '<' then do
      let (suffix, cur) ← tagSuffix true [] (cur.advance 2)
      if !cur.has 0 '>' then none
      pure ("", suffix, cur.advance 1)
    else do
      let (handle, cur) ← tagHandle false cur
      if 1 < handle.length && handle.getLast? = some '!' then do
        let (suffix, cur) ← tagSuffix false [] cur
        pure (String.ofList handle, suffix, cur)
      else do
        let (suffix, cur) ← tagSuffix false handle cur
        if suffix.isEmpty then pure ("", "!", cur) else pure ("!", suffix, cur)
  if (inFlow && cur.has 0 ',') || cur.blankOrEndAt 0 then some (.tag handle suffix, cur)
  else none

/-- The name after the sign of an anchor or alias. -/
def scanAnchor (cur : Cursor) : Option (String × Cursor) :=
  let (name, after) := (cur.advance 1).takeWhile isWordChar
  let closed := after.blankOrEndAt 0 ||
    (after.peek 0).any fun c => "?:,]\x7d%@`".toList.contains c
  if name.isEmpty || !closed then none else some (String.ofList name, after)

/-- At most nine digits. -/
def scanNumber (cur : Cursor) : Option (Nat × Cursor) :=
  let (digits, after) := cur.takeWhile Char.isDigit
  if digits.isEmpty || 9 < digits.length then none
  else some (digits.foldl (fun n d => 10 * n + (d.toNat - 48)) 0, after)

def scanDirective (cur : Cursor) : Option (TokenKind × Cursor) := do
  let (name, cur) := (cur.advance 1).takeWhile isWordChar
  if name.isEmpty || !cur.blankOrEndAt 0 then none
  let cur := cur.skipWhile isSpaceOrTab
  let (kind, cur) ←
    if name = "YAML".toList then do
      let (major, cur) ← scanNumber cur
      if !cur.has 0 '.' then none
      let (minor, cur) ← scanNumber (cur.advance 1)
      pure (.versionDirective major minor, cur)
    else if name = "TAG".toList then do
      let (handle, cur) ← tagHandle true cur
      if !cur.blankAt 0 then none
      let (expansion, cur) ← tagSuffix true [] (cur.skipWhile isSpaceOrTab)
      if !cur.blankOrEndAt 0 then none
      pure (.tagDirective (String.ofList handle) expansion, cur)
    else none
  return (kind, ← cur.finishLine)

end ModularBuild.Yaml.Token
