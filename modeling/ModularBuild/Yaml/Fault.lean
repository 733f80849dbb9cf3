import ModularBuild.Text.Quoted
import ModularBuild.Yaml.Scalar

/-! Why a YAML text is refused: it is no YAML, or its document has not the shape that is
asked for. In the second case the fault says what is wrong and, if known, where. -/

namespace ModularBuild.Yaml

/-- What stood in a document, as it is named in a fault. -/
inductive Found
  | scalar (s : Scalar)
  | sequence
  | mapping
  deriving DecidableEq, Repr

def IntWidth.note (unsigned : Bool) : IntWidth → String
  | .word => ""
  | .double => if unsigned then " as u128" else " as i128"

def Found.describe : Found → String
  | .scalar .null => "unit value"
  | .scalar (.bool b) => "boolean `" ++ toString b ++ "`"
  | .scalar (.unsigned w n) => "integer `" ++ toString n ++ "`" ++ w.note true
  | .scalar (.negative w n) =>
    "integer `" ++ (if n = 0 then "0" else "-" ++ toString n) ++ "`" ++ w.note false
  | .scalar (.float digits) => "floating point `" ++ digits ++ "`"
  | .scalar (.text s) => "string " ++ Text.quote s
  | .sequence => "sequence"
  | .mapping => "map"

/-- What is wrong with a document. -/
inductive Cause
  | invalidType (found : Found) (expected : String)
  | invalidValue (found : Found) (expected : String)
  | unknownVariant (name : String) (known : List String)
  | missingField (name : String)
  | duplicateField (name : String)
  | noVariant (choice : String)
  | taggedContent
  | notOctal (raw : String)
  | tooDeep
  | tooManyAliases
  deriving DecidableEq, Repr

/-- Names to choose from. -/
def alternatives (names : List String) : String :=
  let quoted := names.map fun n => "`" ++ n ++ "`"
  match quoted with
  | [] => "there are no variants"
  | [a] => a
  | [a, b] => a ++ " or " ++ b
  | all => "one of " ++ ", ".intercalate all

def Cause.message : Cause → String
  | invalidType found expected => "invalid type: " ++ found.describe ++ ", expected " ++ expected
  | invalidValue found expected =>
    "invalid value: " ++ found.describe ++ ", expected " ++ expected
  | unknownVariant name known =>
    "unknown variant `" ++ name ++ "`, expected " ++ alternatives known
  | missingField name => "missing field `" ++ name ++ "`"
  | duplicateField name => "duplicate field `" ++ name ++ "`"
  | noVariant choice => "no variant of enum " ++ choice ++ " found in flattened data"
  | taggedContent => "untagged and internally tagged enums do not support enum input"
  | notOctal raw => "invalid octal mode '" ++ raw ++ "'"
  | tooDeep => "recursion limit exceeded"
  | tooManyAliases => "repetition limit exceeded"

/-- The way from the root of a document to a node in it. -/
inductive Trail
  | root
  | field (parent : Trail) (name : String)
  | item (parent : Trail) (index : Nat)
  | unnamed (parent : Trail)
  deriving DecidableEq, Repr

def Trail.text : Trail → String
  | .root => "."
  | .field .root name => name
  | .field parent name => parent.text ++ "." ++ name
  | .item parent index => parent.text ++ "[" ++ toString index ++ "]"
  | .unnamed .root => "?"
  | .unnamed parent => parent.text ++ ".?"

/-- Where a fault shows. A limit has at most a mark. -/
inductive Place
  | unknown
  | mark (m : Mark)
  | node (trail : Trail) (m : Mark)
  deriving DecidableEq, Repr

inductive Fault
  | notYaml
  | shape (cause : Cause) (place : Place)
  deriving DecidableEq, Repr

/-- Lines and columns are shown counted from one; the very start of a text is not shown. -/
def Mark.suffix (m : Mark) : String :=
  if m.line = 0 && m.column = 0 then ""
  else " at line " ++ toString (m.line + 1) ++ " column " ++ toString (m.column + 1)

def Fault.message : Fault → String
  | notYaml => "not a YAML text"
  | shape cause .unknown => cause.message
  | shape cause (.mark m) => cause.message ++ m.suffix
  | shape cause (.node .root m) => cause.message ++ m.suffix
  | shape cause (.node trail m) => trail.text ++ ": " ++ cause.message ++ m.suffix

end ModularBuild.Yaml
