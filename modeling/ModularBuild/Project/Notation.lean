import ModularBuild.Project
import ModularBuild.Yaml.Decode

/-! The YAML notation of a project file. -/

namespace ModularBuild

open Yaml (Decode Value)

namespace Yaml.Value

def path (v : Value) : Decode Path := do return ⟨← v.scalarText "path string"⟩

def texts (v : Value) : Decode (List String) := v.list text

def textTable (v : Value) : Decode (Table String String) := v.table text text

/-- A mapping from tools to values. -/
def perTool {α : Type} (v : Value) (read : Value → Decode α) : Decode (PerTool (Option α)) :=
  v.mapping "a map" (PerTool.const none)
    (fun p key value => do
      let tool ← key.variant Tool.named
      return p.set tool (some (← read value)))
    pure

end Yaml.Value

namespace FlagSpec

structure Draft where
  name : Option String
  properties : Option (List String)
  environment : Option (Option String)
  default : Option Bool

def read (v : Value) : Decode FlagSpec :=
  v.fields "FlagSpec" (⟨none, none, none, none⟩ : Draft)
    (fun d key value => do
      if key = "name" then return { d with name := ← Value.once key d.name value.text }
      else if key = "properties" then
        return { d with properties := ← Value.once key d.properties value.texts }
      else if key = "env" then
        return { d with environment := ← Value.once key d.environment (value.option Value.text) }
      else if key = "default" then
        return { d with default := ← Value.once key d.default value.bool }
      else return d)
    (fun d => do
      let name ← Value.required "name" d.name
      return {
        name
        properties := d.properties.getD []
        environment := d.environment.getD none
        default := d.default.getD false })

end FlagSpec

namespace ModuleEntry

structure Draft where
  name : Option String
  dir : Option Path
  plugins : Option (List String)
  overrides : Option (Table String String)
  executionData : Option (Option Path)
  classDirs : Option (List Path)
  sourceDirs : Option (List Path)

def read (v : Value) : Decode ModuleEntry :=
  v.fields "ModuleEntry" (⟨none, none, none, none, none, none, none⟩ : Draft)
    (fun d key value => do
      if key = "name" then return { d with name := ← Value.once key d.name value.text }
      else if key = "dir" then return { d with dir := ← Value.once key d.dir value.path }
      else if key = "plugins" then
        return { d with plugins := ← Value.once key d.plugins value.texts }
      else if key = "overrides" then
        return { d with overrides := ← Value.once key d.overrides value.textTable }
      else if key = "execution_data" then
        return { d with
          executionData := ← Value.once key d.executionData (value.option Value.path) }
      else if key = "class_dirs" then
        return { d with classDirs := ← Value.once key d.classDirs (value.list Value.path) }
      else if key = "source_dirs" then
        return { d with sourceDirs := ← Value.once key d.sourceDirs (value.list Value.path) }
      else return d)
    (fun d => do
      let name ← Value.required "name" d.name
      let dir ← Value.required "dir" d.dir
      return {
        name, dir
        plugins := d.plugins.getD []
        overrides := d.overrides.getD ∅
        executionData := d.executionData.getD none
        classDirs := d.classDirs.getD []
        sourceDirs := d.sourceDirs.getD [] })

end ModuleEntry

namespace PolicyBundle

structure Draft where
  group : Option (Option String)
  encoding : Option String
  toolchains : Option (PerTool (Option String))
  manifest : Option (Table String String)
  plugins : Option (List String)

/-- What is not given is as in the default bundle. -/
def read (v : Value) : Decode PolicyBundle :=
  v.fields "PolicyBundle" (⟨none, none, none, none, none⟩ : Draft)
    (fun d key value => do
      if key = "group" then
        return { d with group := ← Value.once key d.group (value.option Value.text) }
      else if key = "encoding" then
        return { d with encoding := ← Value.once key d.encoding value.text }
      else if key = "toolchains" then
        return { d with toolchains := ← Value.once key d.toolchains (value.perTool Value.text) }
      else if key = "manifest" then
        return { d with manifest := ← Value.once key d.manifest value.textTable }
      else if key = "plugins" then
        return { d with plugins := ← Value.once key d.plugins value.texts }
      else return d)
    (fun d => pure
      { group := d.group.getD default.group
        encoding := d.encoding.getD default.encoding
        toolchains := d.toolchains.getD default.toolchains
        manifest := d.manifest.getD default.manifest
        plugins := d.plugins.getD default.plugins })

end PolicyBundle

namespace Project

/-- The patterns of the coverage section. -/
def readExclude (v : Value) : Decode (List String) :=
  v.fields "CoverageSection" (none : Option (List String))
    (fun exclude key value => do
      if key = "exclude" then Value.once key exclude value.texts else return exclude)
    (fun exclude => pure (exclude.getD standardExclude))

structure Draft where
  name : Option (Option String)
  modules : Option (List ModuleEntry)
  policy : Option PolicyBundle
  knownToolchains : Option (PerTool (Option (List String)))
  exclude : Option (List String)
  notice : Option (Option Path)
  flags : Option (List FlagSpec)

def read (v : Value) : Decode Project :=
  v.fields "ProjectConfig" (⟨none, none, none, none, none, none, none⟩ : Draft)
    (fun d key value => do
      if key = "name" then
        return { d with name := ← Value.once key d.name (value.option Value.text) }
      else if key = "modules" then
        return { d with modules := ← Value.once key d.modules (value.list ModuleEntry.read) }
      else if key = "policy" then
        return { d with policy := ← Value.once key d.policy (PolicyBundle.read value) }
      else if key = "known_toolchains" then
        return { d with
          knownToolchains := ← Value.once key d.knownToolchains (value.perTool Value.texts) }
      else if key = "coverage" then
        return { d with exclude := ← Value.once key d.exclude (readExclude value) }
      else if key = "notice" then
        return { d with notice := ← Value.once key d.notice (value.option Value.path) }
      else if key = "flags" then
        return { d with flags := ← Value.once key d.flags (value.list FlagSpec.read) }
      else return d)
    (fun d => pure
      { name := d.name.getD none
        modules := d.modules.getD []
        policy := d.policy.getD .default
        knownToolchains := d.knownToolchains.getD (.const none)
        exclude := d.exclude.getD standardExclude
        notice := d.notice.getD none
        flags := d.flags.getD []
        root := ⟨"."⟩ })

/-- Reads and checks a project in the current directory. -/
def ofYaml (yaml : String) : Except BuildError Project := do
  let p ← (Yaml.decode yaml read).mapError .yaml
  p.check
  return p

/-- The directory of a file, written so that paths can start from it. -/
def rootOf (path : Path) : Path :=
  match path.parent? with
  | some dir => if dir.text = "" then ⟨"."⟩ else dir
  | none => ⟨"."⟩

/-- Reads a project file; the project's paths start from its directory. -/
def load (t : FileTree) (path : Path) : Except BuildError Project := do
  let yaml ← (t.readText path).mapError (.unreadableProject path)
  let p ← ofYaml yaml
  return { p with root := rootOf path }

end Project
end ModularBuild
