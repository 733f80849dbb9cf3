import ModularBuild.Flag
import ModularBuild.Table

/-! Resolution of flags. A property wins over the environment, and that over the default; a
value that is no truth value counts as not set, so resolution never fails. -/

namespace ModularBuild

structure FlagResolver where
  specs : Table String FlagSpec
  properties : Table String String
  environment : Table String String

namespace FlagResolver

def empty : FlagResolver := ⟨∅, ∅, ∅⟩

/-- Declares a flag, in place of an earlier declaration of its name. -/
def declare (r : FlagResolver) (spec : FlagSpec) : FlagResolver :=
  { r with specs := r.specs.insert spec.name spec }

def declareAll (r : FlagResolver) (specs : List FlagSpec) : FlagResolver :=
  specs.foldl declare r

def setProperty (r : FlagResolver) (key value : String) : FlagResolver :=
  { r with properties := r.properties.insert key value }

/-- Reads `key=value`, or a bare key, which has the empty value. -/
def splitArgument (arg : String) : String × String :=
  let key := arg.toList.takeWhile (· != '=')
  (String.ofList key, String.ofList ((arg.toList.drop key.length).drop 1))

def setArguments (r : FlagResolver) (args : List String) : FlagResolver :=
  args.foldl (fun r arg => let (key, value) := splitArgument arg; r.setProperty key value) r

def withEnvironment (r : FlagResolver) (environment : Table String String) : FlagResolver :=
  { r with environment }

/-- Takes over only the variables that the declared flags ask for. -/
def withSnapshot (r : FlagResolver) (process : Table String String) : FlagResolver :=
  let asked := r.specs.values.filterMap (·.environment)
  r.withEnvironment <| .ofList <| asked.filterMap fun name =>
    (process.find? name).map fun value => (name, value)

def names (r : FlagResolver) : List String := r.specs.keys

/-- A property that is set to nothing stands for true. -/
def propertyValue (r : FlagResolver) (key : String) : Option Bool :=
  (r.properties.find? key).bind fun raw => if Text.allBlank raw then some true else parseSwitch raw

def environmentValue (r : FlagResolver) (name : String) : Option Bool :=
  (r.environment.find? name).bind parseSwitch

/-- The first of the properties that has a truth value. -/
def decidingProperty (r : FlagResolver) : List String → Option (String × Bool)
  | [] => none
  | key :: rest =>
    match r.propertyValue key with
    | some value => some (key, value)
    | none => r.decidingProperty rest

def decide (r : FlagResolver) (spec : FlagSpec) : Resolution :=
  match r.decidingProperty spec.properties with
  | some (key, value) => ⟨spec.name, value, .property key⟩
  | none =>
    match spec.environment.bind fun name => (r.environmentValue name).map fun v => (name, v) with
    | some (name, value) => ⟨spec.name, value, .environment name⟩
    | none => ⟨spec.name, spec.default, .default⟩

/-- Resolves one flag. An undeclared flag has the property of its name, and else is off. -/
def explain (r : FlagResolver) (name : String) : Resolution :=
  match r.specs.find? name with
  | some spec => r.decide spec
  | none =>
    match r.propertyValue name with
    | some value => ⟨name, value, .property name⟩
    | none => ⟨name, false, .default⟩

def resolve (r : FlagResolver) (name : String) : Bool := (r.explain name).value

def resolveAll (r : FlagResolver) : List Resolution := r.specs.values.map r.decide

/-! ## The flags that are always declared -/

/-- Whether the build runs under continuous integration. -/
def continuousIntegration : String := "ci"

def enableSpotBugs : String := "enableSpotBugs"

def builtin : FlagResolver :=
  (empty.declare (.named continuousIntegration [] (some "CI") false)).declare
    (.named enableSpotBugs ["enableSpotbugs"] none false)

end FlagResolver
end ModularBuild
