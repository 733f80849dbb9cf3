import ModularBuild.Data
import ModularBuild.Text.Blank

/-! Feature flags: how one is declared, and how a resolved one is shown. -/

namespace ModularBuild

/-- Reads a truth value the way build properties are written. -/
def parseSwitch (raw : String) : Option Bool :=
  let word := Text.lowerAscii (Text.trim raw)
  if word = "true" || word = "yes" || word = "on" || word = "1" then some true
  else if word = "false" || word = "no" || word = "off" || word = "0" then some false
  else none

/-- A declared flag. The properties that set it are looked at in order. -/
structure FlagSpec where
  name : String
  properties : List String
  environment : Option String
  default : Bool
  deriving DecidableEq, Repr, Inhabited

/-- A flag whose first property is its own name. -/
def FlagSpec.named (name : String) (aliases : List String) (environment : Option String)
    (default : Bool) : FlagSpec :=
  ⟨name, name :: aliases, environment, default⟩

/-- The input that decided a flag. -/
inductive FlagSource
  | property (name : String)
  | environment (name : String)
  | default
  deriving DecidableEq, Repr

structure Resolution where
  name : String
  value : Bool
  source : FlagSource
  deriving DecidableEq, Repr

def FlagSpec.data (spec : FlagSpec) : Data :=
  .object [("name", .text spec.name), ("properties", .texts spec.properties),
    ("env", .ofOption spec.environment), ("default", .bool spec.default)]

def FlagSource.data : FlagSource → Data
  | property name => .object [("source", .text "property"), ("name", .text name)]
  | environment name => .object [("source", .text "environment"), ("name", .text name)]
  | default => .object [("source", .text "default")]

def Resolution.data (r : Resolution) : Data :=
  .object [("name", .text r.name), ("value", .bool r.value), ("source", r.source.data)]

end ModularBuild
