import ModularBuild.Yaml.Token

/-! A YAML document as a tree. Aliases stay in the tree as numbers, since an anchored
collection may refer to itself. -/

namespace ModularBuild.Yaml

inductive Node
  | scalar (mark : Mark) (tag : Option String) (style : Style) (text : String)
  | ref (mark : Mark) (anchor : Nat)
  | sequence (mark : Mark) (tag : Option String) (items : List Node)
  | mapping (mark : Mark) (tag : Option String) (entries : List (Node × Node))
  deriving Inhabited, Repr

namespace Node

def mark : Node → Mark
  | scalar m .. | ref m .. | sequence m .. | mapping m .. => m

mutual

/-- How many marks a reader passes in the node: one for each scalar and alias, and two for
the ends of each collection. -/
def weight : Node → Nat
  | scalar .. | ref .. => 1
  | sequence _ _ items => weights items + 2
  | mapping _ _ entries => entryWeights entries + 2

def weights : List Node → Nat
  | [] => 0
  | n :: rest => weight n + weights rest

def entryWeights : List (Node × Node) → Nat
  | [] => 0
  | (k, v) :: rest => weight k + weight v + entryWeights rest

end

end Node

/-- An anchored node. `opened` counts the anchors opened before it in the document. -/
structure Anchored where
  number : Nat
  opened : Nat
  node : Node
  deriving Inhabited

/-- One document; a stream without content has no root. -/
structure Document where
  root : Option Node
  anchors : List Anchored
  deriving Inhabited

namespace Document

/-- Of the nodes with the same number, the one that was opened last. -/
def target? (doc : Document) (number : Nat) : Option Node :=
  let found := (doc.anchors.filter (·.number = number)).foldl
    (fun best a => match best with
      | none => some a
      | some b => if b.opened < a.opened then some a else some b) none
  found.map (·.node)

def weight (doc : Document) : Nat :=
  match doc.root with
  | none => 1
  | some node => node.weight

end Document
end ModularBuild.Yaml
