/-! Values for display: what the listings and plans are made of before they are written as
JSON or YAML. The fields of an object keep their order. -/

namespace ModularBuild

inductive Data
  | null
  | bool (b : Bool)
  | text (s : String)
  | list (items : List Data)
  | object (fields : List (String × Data))
  deriving Inhabited, Repr

namespace Data

def ofOption (s : Option String) : Data := s.elim null text

def texts (items : List String) : Data := list (items.map text)

/-- An object with one field for each row. -/
def rows {α : Type} (f : α → Data) (pairs : List (String × α)) : Data :=
  object (pairs.map fun p => (p.1, f p.2))

end Data
end ModularBuild
