import ModularBuild.Yaml.Token.Scalar
import ModularBuild.Yaml.Token.Tag

/-! From text to tokens. Indentation is turned into tokens that begin and end block
collections. What may be a mapping key is only known when its colon comes, so each open
context remembers the place where a key may have begun, and the key token is put in there
afterwards. `none` stands for a text that is no YAML. -/

namespace ModularBuild.Yaml

/-- A place where a key may have begun: how many tokens stand before it, and whether the
text is broken if no key follows. -/
structure KeyPlace where
  position : Nat
  required : Bool
  mark : Mark
  index : Nat
  deriving Repr, Inhabited

structure Lexer where
  cur : Cursor
  /-- The tokens so far, last first. -/
  tokens : List Token
  count : Nat
  /-- The columns of the open block collections, innermost first. -/
  indents : List Nat
  flowDepth : Nat
  /-- One entry for each open flow collection and one for the block context, innermost
  first. -/
  keys : List (Option KeyPlace)
  keyAllowed : Bool

namespace Lexer

def ofChars (cs : List Char) : Lexer := ⟨.ofChars cs, [], 0, [], 0, [none], true⟩

def inFlow (lx : Lexer) : Bool := 0 < lx.flowDepth

def push (lx : Lexer) (kind : TokenKind) (start stop : Mark) : Lexer :=
  { lx with tokens := ⟨kind, start, stop⟩ :: lx.tokens, count := lx.count + 1 }

/-- Puts a token in front of those from the position on. -/
def insertAt (lx : Lexer) (position : Nat) (kind : TokenKind) (mark : Mark) : Lexer :=
  let later := lx.count - position
  { lx with
    tokens := lx.tokens.take later ++ ⟨kind, mark, mark⟩ :: lx.tokens.drop later
    count := lx.count + 1 }

/-- Adds a token for the next n characters of the line and moves over them. -/
def take (lx : Lexer) (kind : TokenKind) (n : Nat) : Lexer :=
  let after := lx.cur.advance n
  { lx.push kind lx.cur.mark after.mark with cur := after }

/-- The longest text between the start of a key and its colon. -/
def maxKeyLength : Nat := 1024

def keyIsStale (cur : Cursor) (key : KeyPlace) : Bool :=
  key.mark.line < cur.line || key.index + maxKeyLength < cur.index

/-- Forgets the key places that lie too far back; one of them being required is an error. -/
def dropStaleKeys (lx : Lexer) : Option Lexer := do
  let keys ← lx.keys.mapM fun key =>
    match key with
    | none => some none
    | some k =>
      if !keyIsStale lx.cur k then some (some k) else if k.required then none else some none
  return { lx with keys }

/-- Forgets the key place of the innermost context. -/
def dropKey (lx : Lexer) : Option Lexer :=
  match lx.keys with
  | some k :: rest => if k.required then none else some { lx with keys := none :: rest }
  | _ => some lx

/-- Remembers that a key may begin here. -/
def saveKey (lx : Lexer) : Option Lexer := do
  if !lx.keyAllowed then return lx
  let required := !lx.inFlow && lx.indents.head? == some lx.cur.column
  let lx ← lx.dropKey
  return { lx with
    keys := some ⟨lx.count, required, lx.cur.mark, lx.cur.index⟩ :: lx.keys.drop 1 }

/-- Whether a block collection at the column would lie inside the current one. -/
def deeper (lx : Lexer) (column : Nat) : Bool :=
  match lx.indents.head? with
  | none => true
  | some indent => indent < column

/-- Opens a block collection at the column, unless one is open there. -/
def roll (lx : Lexer) (column position : Nat) (kind : TokenKind) (mark : Mark) : Lexer :=
  if lx.inFlow || !lx.deeper column then lx
  else { lx.insertAt position kind mark with indents := column :: lx.indents }

/-- Closes the block collections that are open to the right of the column; all of them, if
there is no column. -/
def unroll (lx : Lexer) (column : Option Nat) : Lexer :=
  if lx.inFlow then lx
  else
    let closed := match column with
      | none => lx.indents
      | some c => lx.indents.takeWhile (c < ·)
    let lx := closed.foldl (fun lx _ => lx.push .blockEnd lx.cur.mark lx.cur.mark) lx
    { lx with indents := lx.indents.drop closed.length }

/-- Passes over white space, comments and line breaks. Tabs are white space except where
they would be indentation. -/
def skipToToken : Nat → Lexer → Lexer
  | 0, lx => lx
  | fuel + 1, lx =>
    let cur := if lx.cur.column = 0 && lx.cur.has 0 '\ufeff' then lx.cur.advance 1 else lx.cur
    let tabs := lx.inFlow || !lx.keyAllowed
    let cur := cur.skipWhile fun c => c == ' ' || (tabs && c == '\t')
    let cur := if cur.has 0 '#' then cur.skipWhile (!isBreak ·) else cur
    if cur.breakAt 0 then
      skipToToken fuel { lx with
        cur := cur.takeBreak.2
        keyAllowed := lx.keyAllowed || !lx.inFlow }
    else { lx with cur := cur }

def openFlow (lx : Lexer) (kind : TokenKind) : Option Lexer := do
  let lx ← lx.saveKey
  return { lx.take kind 1 with
    keys := none :: lx.keys, flowDepth := lx.flowDepth + 1, keyAllowed := true }

def closeFlow (lx : Lexer) (kind : TokenKind) : Option Lexer := do
  let lx ← lx.dropKey
  let lx := if lx.inFlow then
    { lx with keys := lx.keys.drop 1, flowDepth := lx.flowDepth - 1 } else lx
  return { lx.take kind 1 with keyAllowed := false }

def flowEntry (lx : Lexer) : Option Lexer := do
  let lx ← lx.dropKey
  return { lx.take .flowEntry 1 with keyAllowed := true }

def blockEntry (lx : Lexer) : Option Lexer := do
  if !lx.inFlow && !lx.keyAllowed then none
  let lx := lx.roll lx.cur.column lx.count .blockSequenceStart lx.cur.mark
  let lx ← lx.dropKey
  return { lx.take .blockEntry 1 with keyAllowed := true }

def explicitKey (lx : Lexer) : Option Lexer := do
  if !lx.inFlow && !lx.keyAllowed then none
  let lx := lx.roll lx.cur.column lx.count .blockMappingStart lx.cur.mark
  let lx ← lx.dropKey
  return { lx.take .key 1 with keyAllowed := !lx.inFlow }

def value (lx : Lexer) : Option Lexer :=
  match lx.keys with
  | some k :: rest =>
    let lx := lx.insertAt k.position .key k.mark
    let lx := lx.roll k.mark.column k.position .blockMappingStart k.mark
    some ({ lx with keys := none :: rest, keyAllowed := false }.take .value 1)
  | _ =>
    if !lx.inFlow && !lx.keyAllowed then none
    else
      let lx := lx.roll lx.cur.column lx.count .blockMappingStart lx.cur.mark
      some ({ lx with keyAllowed := !lx.inFlow }.take .value 1)

def documentMarker (lx : Lexer) (kind : TokenKind) : Option Lexer := do
  let lx ← (lx.unroll none).dropKey
  return { lx.take kind 3 with keyAllowed := false }

def directive (lx : Lexer) : Option Lexer := do
  let lx ← (lx.unroll none).dropKey
  let (kind, after) ← Token.scanDirective lx.cur
  return { lx.push kind lx.cur.mark after.mark with cur := after, keyAllowed := false }

/-- Adds a token that may begin a key. -/
def content (lx : Lexer) (kind : TokenKind) (after : Cursor) : Option Lexer := do
  let lx ← lx.saveKey
  return { lx.push kind lx.cur.mark after.mark with cur := after, keyAllowed := false }

def plain (lx : Lexer) : Option Lexer := do
  let saved ← lx.saveKey
  let indent := match lx.indents.head? with
    | none => 0
    | some n => n + 1
  let p ← Token.scanPlain lx.inFlow indent lx.cur
  return { saved.push (.scalar (String.ofList p.text) .plain) lx.cur.mark p.stop with
    cur := p.next, keyAllowed := p.broken }

def block (lx : Lexer) (literal : Bool) : Option Lexer := do
  let lx ← lx.dropKey
  let (text, after) ← Token.scanBlock literal lx.indents.head? lx.cur
  let style := if literal then Style.literal else Style.folded
  return { lx.push (.scalar (String.ofList text) style) lx.cur.mark after.mark with
    cur := after, keyAllowed := true }

def quoted (lx : Lexer) (single : Bool) : Option Lexer := do
  let (text, after) ← Token.scanQuoted single lx.cur
  lx.content (.scalar (String.ofList text) (if single then .singleQuoted else .doubleQuoted))
    after

/-- Reads the next token, or tokens; at the end of the text this is the end of the stream. -/
def step (lx : Lexer) : Option Lexer := do
  let lx ← (lx.skipToToken (lx.cur.rest.length + 1)).dropStaleKeys
  let lx := lx.unroll (some lx.cur.column)
  let cur := lx.cur
  match cur.peek 0 with
  | none =>
    let cur := if cur.column = 0 then cur else { cur with line := cur.line + 1, column := 0 }
    let lx ← ({ lx with cur := cur }.unroll none).dropKey
    return lx.push .streamEnd cur.mark cur.mark
  | some c =>
    if cur.column = 0 && c = '%' then lx.directive
    else if cur.atDocumentMarker '-' then lx.documentMarker .documentStart
    else if cur.atDocumentMarker '.' then lx.documentMarker .documentEnd
    else if c = '[' then lx.openFlow .flowSequenceStart
    else if c = '\x7b' then lx.openFlow .flowMappingStart
    else if c = ']' then lx.closeFlow .flowSequenceEnd
    else if c = '\x7d' then lx.closeFlow .flowMappingEnd
    else if c = ',' then lx.flowEntry
    else if c = '-' && cur.blankOrEndAt 1 then lx.blockEntry
    else if c = '?' && (lx.inFlow || cur.blankOrEndAt 1) then lx.explicitKey
    else if c = ':' && (lx.inFlow || cur.blankOrEndAt 1) then lx.value
    else if c = '*' then do
      let (name, after) ← Token.scanAnchor cur
      lx.content (.ref name) after
    else if c = '&' then do
      let (name, after) ← Token.scanAnchor cur
      lx.content (.anchor name) after
    else if c = '!' then do
      let (kind, after) ← Token.scanTag lx.inFlow cur
      lx.content kind after
    else if c = '|' && !lx.inFlow then lx.block true
    else if c = '>' && !lx.inFlow then lx.block false
    else if c = '\'' then lx.quoted true
    else if c = '"' then lx.quoted false
    else if "-?:,[]\x7b\x7d#&*!|>'\"%@`".toList.contains c || cur.blankOrEndAt 0 then
      if c = '-' && !cur.blankAt 1 then lx.plain
      else if !lx.inFlow && (c = '?' || c = ':') && !cur.blankOrEndAt 1 then lx.plain
      else none
    else lx.plain

/-- Steps to the end of the stream. Each step takes at least one character, so the fuel
suffices. -/
def finish : Nat → Lexer → Option Lexer
  | 0, _ => none
  | fuel + 1, lx => do
    let lx ← lx.step
    match lx.tokens with
    | ⟨.streamEnd, _, _⟩ :: _ => return lx
    | _ => finish fuel lx

end Lexer

/-- All tokens of a text. -/
def Token.scan? (text : String) : Option (List Token) := do
  let cs := text.toList
  if !cs.all isReadable then none
  let lx ← Lexer.finish (cs.length + 1) (.ofChars cs)
  return lx.tokens.reverse

end ModularBuild.Yaml
