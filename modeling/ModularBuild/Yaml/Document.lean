import ModularBuild.Yaml.Node
import ModularBuild.Yaml.Token.Lexer

/-! From tokens to the document they spell. A text holds exactly one document, or none at
all. `none` as a result stands for a text that is no YAML. -/

namespace ModularBuild.Yaml

structure Composer where
  tokens : List Token
  /-- The tag handles of this document with what they stand for. -/
  handles : List (String × String)
  /-- The anchor names seen, each with the number of its latest node. -/
  names : List (String × Nat)
  opened : Nat
  anchors : List Anchored

abbrev Compose := StateT Composer Option

namespace Compose

def peek : Compose Token := do
  match (← get).tokens with
  | t :: _ => return t
  | [] => failure

def skip : Compose Unit := modify fun s => { s with tokens := s.tokens.drop 1 }

def peekKind : Compose TokenKind := do return (← peek).kind

/-- Takes the next token if it is of this kind. -/
def accept (kind : TokenKind) : Compose Bool := do
  if (← peekKind) = kind then
    skip
    return true
  else return false

def expect (kind : TokenKind) : Compose Unit := do
  if !(← accept kind) then failure

def emptyScalar (mark : Mark) : Node := .scalar mark none .plain ""

/-- Numbers an anchor by the count of names before it. -/
def openAnchor (name : String) : Compose (Nat × Nat) := do
  let s ← get
  let number := s.names.length
  set { s with
    names := (name, number) :: s.names.filter (·.1 ≠ name)
    opened := s.opened + 1 }
  return (number, s.opened)

def closeAnchor (opening : Option (Nat × Nat)) (node : Node) : Compose Unit :=
  match opening with
  | none => return
  | some (number, opened) =>
    modify fun s => { s with anchors := ⟨number, opened, node⟩ :: s.anchors }

structure Properties where
  start : Option Mark
  anchor : Option String
  tag : Option (String × String)

/-- An anchor and a tag in front of a node, in either order. -/
def properties : Compose Properties := do
  let first ← peek
  match first.kind with
  | .anchor name =>
    skip
    match ← peekKind with
    | .tag handle suffix => skip; return ⟨some first.start, some name, some (handle, suffix)⟩
    | _ => return ⟨some first.start, some name, none⟩
  | .tag handle suffix =>
    skip
    match ← peekKind with
    | .anchor name => skip; return ⟨some first.start, some name, some (handle, suffix)⟩
    | _ => return ⟨some first.start, none, some (handle, suffix)⟩
  | _ => return ⟨none, none, none⟩

/-- The full tag. The handle has to be known, except for the empty one of a tag that is
given as it is. -/
def resolveTag (tag : Option (String × String)) : Compose (Option String) := do
  match tag with
  | none => return none
  | some (handle, suffix) =>
    if handle.isEmpty then return some suffix
    else match (← get).handles.lookup handle with
      | some expansion => return some (expansion ++ suffix)
      | none => failure

def isOneOf (kind : TokenKind) (kinds : List TokenKind) : Bool := kinds.contains kind

/-- Properties without content are an empty scalar; without properties there is no node. -/
def bare (props : Properties) (tag : Option String) (start : Mark) : Compose Node := do
  if props.anchor.isNone && tag.isNone then failure
  let opening ← props.anchor.mapM openAnchor
  let n := Node.scalar start tag .plain ""
  closeAnchor opening n
  return n

mutual

/-- A node. Block collections are allowed only in block context, and a sequence that is not
indented only as a member of a block mapping. -/
def node (inBlock indentless : Bool) : Nat → Compose Node
  | 0 => failure
  | fuel + 1 => do
    let first ← peek
    match first.kind with
    | .ref name =>
      skip
      match (← get).names.lookup name with
      | some number => return .ref first.start number
      | none => failure
    | _ =>
      let props ← properties
      let tag ← resolveTag props.tag
      let token ← peek
      let start := props.start.getD token.start
      match token.kind with
      | .blockEntry =>
        if indentless then
          let opening ← props.anchor.mapM openAnchor
          let items ← indentlessItems fuel
          let n := Node.sequence start tag items
          closeAnchor opening n
          return n
        else bare props tag start
      | .scalar text style =>
        let opening ← props.anchor.mapM openAnchor
        skip
        let n := Node.scalar start (if tag = some "!" then none else tag) style text
        closeAnchor opening n
        return n
      | .flowSequenceStart =>
        let opening ← props.anchor.mapM openAnchor
        skip
        let n := Node.sequence start tag (← flowItems true fuel)
        closeAnchor opening n
        return n
      | .flowMappingStart =>
        let opening ← props.anchor.mapM openAnchor
        skip
        let n := Node.mapping start tag (← flowEntries true fuel)
        closeAnchor opening n
        return n
      | .blockSequenceStart =>
        if !inBlock then bare props tag start
        else
          let opening ← props.anchor.mapM openAnchor
          skip
          let n := Node.sequence start tag (← blockItems fuel)
          closeAnchor opening n
          return n
      | .blockMappingStart =>
        if !inBlock then bare props tag start
        else
          let opening ← props.anchor.mapM openAnchor
          skip
          let n := Node.mapping start tag (← blockEntries fuel)
          closeAnchor opening n
          return n
      | _ => bare props tag start

def indentlessItems : Nat → Compose (List Node)
  | 0 => failure
  | fuel + 1 => do
    let entry ← peek
    if entry.kind ≠ .blockEntry then return []
    skip
    let item ←
      if isOneOf (← peekKind) [.blockEntry, .key, .value, .blockEnd] then
        pure (emptyScalar entry.stop)
      else node true false fuel
    return item :: (← indentlessItems fuel)

def blockItems : Nat → Compose (List Node)
  | 0 => failure
  | fuel + 1 => do
    let entry ← peek
    match entry.kind with
    | .blockEntry =>
      skip
      let item ←
        if isOneOf (← peekKind) [.blockEntry, .blockEnd] then pure (emptyScalar entry.stop)
        else node true false fuel
      return item :: (← blockItems fuel)
    | .blockEnd => skip; return []
    | _ => failure

def blockEntries : Nat → Compose (List (Node × Node))
  | 0 => failure
  | fuel + 1 => do
    let entry ← peek
    match entry.kind with
    | .key =>
      skip
      let k ←
        if isOneOf (← peekKind) [.key, .value, .blockEnd] then pure (emptyScalar entry.stop)
        else node true true fuel
      let colon ← peek
      let v ←
        if colon.kind = .value then do
          skip
          if isOneOf (← peekKind) [.key, .value, .blockEnd] then pure (emptyScalar colon.stop)
          else node true true fuel
        else pure (emptyScalar colon.start)
      return (k, v) :: (← blockEntries fuel)
    | .blockEnd => skip; return []
    | _ => failure

/-- The items of a flow sequence. An item that begins with a key is a mapping of one
entry. -/
def flowItems (first : Bool) : Nat → Compose (List Node)
  | 0 => failure
  | fuel + 1 => do
    if ← accept .flowSequenceEnd then return []
    if !first then expect .flowEntry
    let token ← peek
    match token.kind with
    | .key =>
      skip
      let k ←
        if isOneOf (← peekKind) [.value, .flowEntry, .flowSequenceEnd] then do
          let next ← peek
          skip
          pure (emptyScalar next.stop)
        else node false false fuel
      let v ←
        if ← accept .value then do
          let next ← peek
          if isOneOf next.kind [.flowEntry, .flowSequenceEnd] then pure (emptyScalar next.start)
          else node false false fuel
        else pure (emptyScalar (← peek).start)
      return .mapping token.start none [(k, v)] :: (← flowItems false fuel)
    | .flowSequenceEnd => skip; return []
    | _ =>
      let item ← node false false fuel
      return item :: (← flowItems false fuel)

def flowEntries (first : Bool) : Nat → Compose (List (Node × Node))
  | 0 => failure
  | fuel + 1 => do
    if ← accept .flowMappingEnd then return []
    if !first then expect .flowEntry
    let token ← peek
    match token.kind with
    | .key =>
      skip
      let next ← peek
      let k ←
        if isOneOf next.kind [.value, .flowEntry, .flowMappingEnd] then
          pure (emptyScalar next.start)
        else node false false fuel
      let v ←
        if ← accept .value then do
          let next ← peek
          if isOneOf next.kind [.flowEntry, .flowMappingEnd] then pure (emptyScalar next.start)
          else node false false fuel
        else pure (emptyScalar (← peek).start)
      return (k, v) :: (← flowEntries false fuel)
    | .flowMappingEnd => skip; return []
    | _ =>
      let k ← node false false fuel
      let v := emptyScalar (← peek).start
      return (k, v) :: (← flowEntries false fuel)

end

/-- The handles that every document knows. -/
def standardHandles : List (String × String) := [("!", "!"), ("!!", "tag:yaml.org,2002:")]

/-- The directives in front of a document: at most one version, which is 1.1 or 1.2, and at
most one meaning for a handle. -/
def directives : Nat → Bool → List (String × String) → Compose (List (String × String))
  | 0, _, _ => failure
  | fuel + 1, versioned, handles => do
    match ← peekKind with
    | .versionDirective major minor =>
      if versioned || major ≠ 1 || (minor ≠ 1 && minor ≠ 2) then failure
      skip
      directives fuel true handles
    | .tagDirective handle expansion =>
      if (handles.lookup handle).isSome then failure
      skip
      directives fuel versioned (handles ++ [(handle, expansion)])
    | _ => return handles

def isDirective : TokenKind → Bool
  | .versionDirective .. | .tagDirective .. => true
  | _ => false

/-- Passes over the markers of document ends. -/
def documentEnds : Nat → Compose Unit
  | 0 => failure
  | fuel + 1 => do if ← accept .documentEnd then documentEnds fuel

/-- The one document of a stream, which may be empty but must not be followed by another. -/
def stream (fuel : Nat) : Compose (Option Node) := do
  let first ← peekKind
  if first = .streamEnd then return none
  let root ←
    if isDirective first || first = .documentStart then do
      let handles ← directives fuel false []
      modify fun s => { s with handles := handles ++ standardHandles }
      expect .documentStart
      let token ← peek
      if isDirective token.kind ||
          isOneOf token.kind [.documentStart, .documentEnd, .streamEnd] then
        pure (emptyScalar token.start)
      else node true false fuel
    else node true false fuel
  documentEnds fuel
  expect .streamEnd
  return some root

end Compose

/-- The document that a text spells. -/
def Document.read? (text : String) : Option Document := do
  let tokens ← Token.scan? text
  let fuel := 2 * tokens.length + 2
  let (root, s) ← (Compose.stream fuel).run ⟨tokens, Compose.standardHandles, [], 0, []⟩
  return ⟨root, s.anchors⟩

end ModularBuild.Yaml
