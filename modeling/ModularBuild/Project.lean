import ModularBuild.Coverage.Aggregation
import ModularBuild.Module.Registry

/-! A project: its modules, the policy for all of them, and its settings for reports and
flags. Everything else about a project is computed from these. -/

namespace ModularBuild

/-- A module as it is declared. Its places are relative to its directory. -/
structure ModuleEntry where
  name : String
  dir : Path
  plugins : List String
  overrides : Table String String
  executionData : Option Path
  classDirs : List Path
  sourceDirs : List Path
  deriving DecidableEq

structure Project where
  name : Option String
  modules : List ModuleEntry
  policy : PolicyBundle
  knownToolchains : PerTool (Option (List String))
  /-- Patterns of classes that reports leave out. -/
  exclude : List String
  notice : Option Path
  flags : List FlagSpec
  /-- The directory that the project's paths are relative to. -/
  root : Path
  deriving DecidableEq

namespace Project

def standardExclude : List String := [moduleDescriptor]

def empty : Project where
  name := none
  modules := []
  policy := .default
  knownToolchains := .const none
  exclude := standardExclude
  notice := none
  flags := []
  root := ⟨""⟩

/-- Checks the modules one after the other; `seen` are the names of those before. -/
def checkModules (seen : List String) : List ModuleEntry → Except BuildError Unit
  | [] => .ok ()
  | e :: rest =>
    if Text.allBlank e.name then .error .blankModuleName
    else if e.dir.isAbsolute then .error (.absoluteModuleDir e.name)
    else if e.name ∈ seen then .error (.duplicateModule e.name)
    else checkModules (e.name :: seen) rest

def check (p : Project) : Except BuildError Unit := do
  checkModules [] p.modules
  if Text.allBlank p.policy.encoding then throw .blankEncoding

def moduleDir (p : Project) (e : ModuleEntry) : Path := p.root.join e.dir

def moduleOf (p : Project) (e : ModuleEntry) : Module :=
  .ofParts e.name (p.moduleDir e) e.plugins e.overrides.rows

/-- The modules before the policy is applied. -/
def registry (p : Project) : Except BuildError Registry :=
  Registry.ofModules (p.modules.map p.moduleOf)

/-- The built-in versions and those that the project adds. -/
def catalog (p : Project) : Catalog :=
  p.knownToolchains.present.foldl (fun c (tool, versions) => c.addVersions tool versions)
    Catalog.builtin

def propagator (p : Project) : Except BuildError Propagator :=
  Propagator.ofBundle p.policy p.catalog

/-- The modules with the policy applied. -/
def configuredRegistry (p : Project) : Except BuildError Registry := do
  let policy ← p.propagator
  let registry ← p.registry
  return registry.propagateAll policy

/-- The declared places of a module, and the conventional ones where none are declared. -/
def coverageOf (p : Project) (e : ModuleEntry) : ModuleCoverage :=
  let dir := p.moduleDir e
  let standard := ModuleCoverage.conventional e.name dir
  { standard with
    executionData := (e.executionData.map dir.join).or standard.executionData
    classDirs := if e.classDirs.isEmpty then standard.classDirs else e.classDirs.map dir.join
    sourceDirs := if e.sourceDirs.isEmpty then standard.sourceDirs else e.sourceDirs.map dir.join }

def coverageInputs (p : Project) : List ModuleCoverage := p.modules.map p.coverageOf

def exclusions (p : Project) : Except BuildError ExclusionRules :=
  ExclusionRules.ofPatterns p.exclude

/-- Resolves the built-in flags and those of the project. -/
def resolver (p : Project) : FlagResolver := FlagResolver.builtin.declareAll p.flags

def noticePath (p : Project) : Option Path := p.notice.map p.root.join

end Project

def ModuleEntry.data (e : ModuleEntry) : Data :=
  .object [("name", .text e.name), ("dir", .text e.dir.text), ("plugins", .texts e.plugins),
    ("overrides", .rows .text e.overrides.rows),
    ("execution_data", .ofOption (e.executionData.map (·.text))),
    ("class_dirs", .paths e.classDirs), ("source_dirs", .paths e.sourceDirs)]

def Project.data (p : Project) : Data :=
  .object [("name", .ofOption p.name), ("modules", .list (p.modules.map (·.data))),
    ("policy", p.policy.data),
    ("known_toolchains", .object (p.knownToolchains.present.map fun (tool, versions) =>
      (tool.name, .texts versions))),
    ("coverage", .object [("exclude", .texts p.exclude)]),
    ("notice", .ofOption (p.notice.map (·.text))), ("flags", .list (p.flags.map (·.data)))]

end ModularBuild
