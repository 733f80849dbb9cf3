import ModularBuild.Table
import ModularBuild.Yaml.Document
import ModularBuild.Yaml.Fault

/-! Reading typed values from a document. Entries are read in the order in which they are
written, so the first fault of the text is the one that is reported. -/

namespace ModularBuild.Yaml

/-- Reading counts the aliases that it follows. -/
abbrev Decode := StateT Nat (Except Fault)

/-- A node in its surroundings. -/
structure Value where
  document : Document
  /-- How many aliases may be followed in all. -/
  aliasLimit : Nat
  /-- How many collections may still be entered. -/
  depth : Nat
  trail : Trail
  node : Node

namespace Value

def fail {α : Type} (cause : Cause) : Decode α := throw (.shape cause .unknown)

/-- Gives a fault without a place the place of this value. -/
def placed {α : Type} (v : Value) (d : Decode α) : Decode α :=
  tryCatch d fun fault =>
    match fault with
    | .shape .tooManyAliases .unknown => throw fault
    | .shape cause .unknown => throw (.shape cause (.node v.trail v.node.mark))
    | _ => throw fault

/-- The node that an alias stands for; any other node stands for itself. -/
def target (v : Value) : Decode Value := do
  match v.node with
  | .ref _ number =>
    let jumps := (← get) + 1
    set jumps
    if v.aliasLimit < jumps then fail .tooManyAliases
    match v.document.target? number with
    | some node => return { v with node }
    | none => fail .tooManyAliases
  | _ => return v

def nullTag : String := "tag:yaml.org,2002:null"
def boolTag : String := "tag:yaml.org,2002:bool"
def intTag : String := "tag:yaml.org,2002:int"
def floatTag : String := "tag:yaml.org,2002:float"

def isLocal (tag : String) : Bool := tag.toList.head? == some '!'

/-- The meaning of a scalar. A tag of the standard demands a meaning; a tag of the document's
own leaves it open; any other tag makes the scalar a text. -/
def meaning (tag : Option String) (style : Style) (text : String) : Except Cause Scalar :=
  let refuse (expected : String) : Except Cause Scalar :=
    .error (.invalidValue (.scalar (.text text)) expected)
  match tag with
  | none => .ok (if style = .plain then Scalar.ofPlain text else .text text)
  | some tag =>
    if tag = boolTag then (Scalar.bool? text).elim (refuse "a boolean") (.ok <| .bool ·)
    else if tag = intTag then (Scalar.int? text).elim (refuse "an integer") .ok
    else if tag = floatTag then (Scalar.float? text).elim (refuse "a float") (.ok <| .float ·)
    else if tag = nullTag then if Scalar.isNull text then .ok .null else refuse "null"
    else if isLocal tag && style = .plain then .ok (Scalar.ofPlain text)
    else .ok (.text text)

/-- The fault of a node that is not what is expected. -/
def mismatch {α : Type} (node : Node) (expected : String) : Decode α :=
  match node with
  | .scalar _ tag style text =>
    match meaning tag style text with
    | .ok s => fail (.invalidType (.scalar s) expected)
    | .error cause => fail cause
  | .sequence .. => fail (.invalidType .sequence expected)
  | .mapping .. => fail (.invalidType .mapping expected)
  | .ref .. => fail .tooManyAliases

/-- A scalar of any kind, taken as text; `expected` names what it is for. -/
def scalarText (v : Value) (expected : String) : Decode String :=
  v.placed do
    let v ← v.target
    v.placed <|
      match v.node with
      | .scalar _ _ _ text => return text
      | node => mismatch node expected

def text (v : Value) : Decode String := v.scalarText "a string"

def bool (v : Value) : Decode Bool :=
  v.placed do
    let v ← v.target
    v.placed <|
      match v.node with
      | .scalar _ tag style text =>
        let literal := style = .plain || (style = .literal && tag = some boolTag)
        match if literal then Scalar.bool? text else none with
        | some b => return b
        | none => mismatch v.node "a boolean"
      | node => mismatch node "a boolean"

/-- Whether a plain scalar says that nothing is there. -/
def saysNothing (tag : Option String) (style : Style) (text : String) : Decode Bool :=
  if style ≠ .plain then return false
  else match tag with
    | some tag =>
      if tag = nullTag then
        if Scalar.isNull text then return true
        else fail (.invalidValue (.scalar (.text text)) "null")
      else return false
    | none => return text.isEmpty || Scalar.isNull text

def option {α : Type} (v : Value) (read : Value → Decode α) : Decode (Option α) := do
  let v ← v.target
  match v.node with
  | .scalar _ tag style text =>
    if ← saysNothing tag style text then return none else return some (← read v)
  | _ => return some (← read v)

/-- A plain scalar without any text is an empty collection. -/
def isEmptyPlain : Node → Bool
  | .scalar _ _ .plain text => text.isEmpty
  | _ => false

/-- The value as seen from a collection around it. -/
def member (v : Value) (trail : Trail) (node : Node) : Value :=
  { v with depth := v.depth - 1, trail, node }

/-- Enters a collection, unless too many are open. -/
def enter (v : Value) : Decode Unit :=
  if v.depth = 0 then throw (.shape .tooDeep (.mark v.node.mark)) else return

def readItems {α : Type} (v : Value) (read : Value → Decode α) :
    Nat → List Node → Decode (List α)
  | _, [] => return []
  | index, item :: rest => do
    let a ← read (v.member (.item v.trail index) item)
    return a :: (← readItems v read (index + 1) rest)

def list {α : Type} (v : Value) (read : Value → Decode α) : Decode (List α) :=
  v.placed do
    let v ← v.target
    v.placed do
      match v.node with
      | .sequence _ _ items => v.enter; readItems v read 0 items
      | node => if isEmptyPlain node then return [] else mismatch node "a sequence"

/-- An entry of a mapping, key and value as values of their own. A value is named by its key
if that is written out as a scalar. -/
def entryValues (v : Value) (entry : Node × Node) : Value × Value :=
  let trail := match entry.1 with
    | .scalar _ _ _ name => Trail.field v.trail name
    | _ => Trail.unnamed v.trail
  (v.member v.trail entry.1, v.member trail entry.2)

def foldEntries {σ : Type} (v : Value) (step : σ → Value → Value → Decode σ) :
    σ → List (Node × Node) → Decode σ
  | s, [] => return s
  | s, entry :: rest => do
    let (key, value) := v.entryValues entry
    foldEntries v step (← step s key value) rest

/-- Folds over the entries of a mapping and finishes with what was collected. -/
def mapping {σ α : Type} (v : Value) (expected : String) (initial : σ)
    (step : σ → Value → Value → Decode σ) (finish : σ → Decode α) : Decode α :=
  v.placed do
    let v ← v.target
    v.placed do
      match v.node with
      | .mapping _ _ entries => v.enter; finish (← foldEntries v step initial entries)
      | node => if isEmptyPlain node then finish initial else mismatch node expected

/-- A mapping whose keys are the names of fields. -/
def fields {σ α : Type} (v : Value) (type : String) (initial : σ)
    (step : σ → String → Value → Decode σ) (finish : σ → Decode α) : Decode α :=
  v.mapping ("struct " ++ type) initial
    (fun s key value => do step s (← key.scalarText "field identifier") value) finish

/-- A field may be given once. -/
def once {α : Type} (name : String) (old : Option α) (d : Decode α) : Decode (Option α) := do
  if old.isSome then fail (.duplicateField name)
  return some (← d)

def required {α : Type} (name : String) (field : Option α) : Decode α :=
  match field with
  | some a => return a
  | none => fail (.missingField name)

/-- The name behind the exclamation mark of a local tag. -/
def tagName? (tag : Option String) : Option String := do
  let tag ← tag
  match tag.toList with
  | ['!'] => some "!"
  | '!' :: name => some (String.ofList name)
  | _ => none

def choose {α : Type} (known : List (String × α)) (name : String) : Decode α :=
  match known.lookup name with
  | some a => return a
  | none => fail (.unknownVariant name (known.map (·.1)))

/-- Only an empty or null plain scalar carries nothing besides its tag. -/
def bare (v : Value) : Decode Unit :=
  v.placed <|
    match v.node with
    | .scalar _ _ style text =>
      if style = .plain && (text.isEmpty || Scalar.isNull text) then return
      else fail (.invalidValue (.scalar (.text text)) "null")
    | node => mismatch node "unit"

/-- One of several names, written as a scalar or as a tag. -/
def variant {α : Type} (v : Value) (known : List (String × α)) : Decode α := do
  let v ← v.target
  let tag := match v.node with
    | .scalar _ tag .. | .sequence _ tag _ | .mapping _ tag _ => tag
    | .ref .. => none
  match tagName? tag with
  | some name =>
    let a ← choose known name
    v.bare
    return a
  | none =>
    v.placed <|
      match v.node with
      | .scalar _ _ _ text => choose known text
      | node => mismatch node "a YAML tag starting with '!'"

/-- A table whose rows are read in order, so the last value under a key stays. -/
def table {κ α : Type} [LT κ] [DecidableLT κ] [LE κ] [Std.IsLinearOrder κ]
    [Std.LawfulOrderLT κ] (v : Value) (readKey : Value → Decode κ)
    (read : Value → Decode α) : Decode (Table κ α) :=
  v.mapping "a map" ∅
    (fun t key value => do
      let k ← readKey key
      return t.insert k (← read value))
    pure

/-- A value of any shape, of which only the outermost form is kept. The depth bounds the
collections inside it. -/
def contentWithin : Nat → Value → Decode Found
  | depth, v =>
    v.placed do
      let v ← v.target
      v.placed do
        let tag := match v.node with
          | .scalar _ tag .. | .sequence _ tag _ | .mapping _ tag _ => tag
          | .ref .. => none
        if (tagName? tag).isSome then fail .taggedContent
        match v.node with
        | .scalar _ tag style text =>
          match meaning tag style text with
          | .ok s =>
            match s with
            | .unsigned .double _ | .negative .double _ =>
              fail (.invalidType (.scalar s) "any value")
            | s => return .scalar s
          | .error cause => fail cause
        | .sequence mark _ items =>
          match depth with
          | 0 => throw (.shape .tooDeep (.mark mark))
          | depth + 1 =>
            let _ ← readItems v (contentWithin depth) 0 items
            return .sequence
        | .mapping mark _ entries =>
          match depth with
          | 0 => throw (.shape .tooDeep (.mark mark))
          | depth + 1 =>
            foldEntries v (fun _ key value => do
              let _ ← contentWithin depth key
              let _ ← contentWithin depth value) () entries
            return .mapping
        | .ref .. => fail .tooManyAliases

def content (v : Value) : Decode Found := contentWithin v.depth v

end Value

/-- Collections that may be open at once. -/
def maxDepth : Nat := 128

/-- Reads the document of a text. A text without a document is read as an empty scalar. -/
def decode {α : Type} (text : String) (read : Value → Decode α) : Except Fault α := do
  match Document.read? text with
  | none => throw .notYaml
  | some document =>
    let node := document.root.getD (.scalar ⟨0, 0⟩ none .plain "")
    let value : Value := ⟨document, 100 * document.weight, maxDepth, .root, node⟩
    let (a, _) ← (read value).run 0
    return a

end ModularBuild.Yaml
