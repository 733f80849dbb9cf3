import ModularBuild.Data

/-! Values as indented JSON. -/

namespace ModularBuild.Data

def jsonHex (n : Nat) : Char := Nat.digitChar n

def jsonEscape (c : Char) : List Char :=
  if c = '"' then ['\\', '"']
  else if c = '\\' then ['\\', '\\']
  else if c = '\n' then ['\\', 'n']
  else if c = '\r' then ['\\', 'r']
  else if c = '\t' then ['\\', 't']
  else if c = '\x08' then ['\\', 'b']
  else if c = '\x0c' then ['\\', 'f']
  else if c.toNat < 32 then
    ['\\', 'u', '0', '0', jsonHex (c.toNat / 16), jsonHex (c.toNat % 16)]
  else [c]

def jsonString (s : String) : List Char := '"' :: s.toList.flatMap jsonEscape ++ ['"']

def jsonIndent (depth : Nat) : List Char := '\n' :: List.replicate (2 * depth) ' '

mutual

def jsonChars (depth : Nat) : Data → List Char
  | null => "null".toList
  | bool b => (toString b).toList
  | text s => jsonString s
  | list [] => ['[', ']']
  | list (item :: rest) =>
    '[' :: jsonIndent (depth + 1) ++ jsonChars (depth + 1) item ++
      jsonItems (depth + 1) rest ++ jsonIndent depth ++ [']']
  | object [] => ['\x7b', '\x7d']
  | object ((name, value) :: rest) =>
    '\x7b' :: jsonIndent (depth + 1) ++ jsonString name ++ ':' :: ' ' ::
      jsonChars (depth + 1) value ++ jsonFields (depth + 1) rest ++ jsonIndent depth ++ ['\x7d']

def jsonItems (depth : Nat) : List Data → List Char
  | [] => []
  | item :: rest => ',' :: jsonIndent depth ++ jsonChars depth item ++ jsonItems depth rest

def jsonFields (depth : Nat) : List (String × Data) → List Char
  | [] => []
  | (name, value) :: rest =>
    ',' :: jsonIndent depth ++ jsonString name ++ ':' :: ' ' ::
      jsonChars depth value ++ jsonFields depth rest

end

/-- The value over several lines, indented by two spaces for each level. -/
def json (d : Data) : String := String.ofList (jsonChars 0 d)

end ModularBuild.Data
