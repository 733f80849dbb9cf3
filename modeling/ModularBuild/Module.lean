import ModularBuild.Data
import ModularBuild.Path
import ModularBuild.Table

/-! Modules: the units of a project that are built on their own. A module grows by plugins
and settings; an explicit override of a setting always stands. -/

namespace ModularBuild

/-- A set of plugins, in the order of their names. No operation takes a plugin away. -/
structure PluginSet where
  table : Table String Unit
  deriving DecidableEq

namespace PluginSet

def empty : PluginSet := ⟨∅⟩

def contains (s : PluginSet) (plugin : String) : Bool := s.table.contains plugin

def add (s : PluginSet) (plugin : String) : PluginSet := ⟨s.table.insert plugin ()⟩

def addAll (s : PluginSet) (plugins : List String) : PluginSet := plugins.foldl add s

def ofList (plugins : List String) : PluginSet := empty.addAll plugins

def toList (s : PluginSet) : List String := s.table.keys

def size (s : PluginSet) : Nat := s.table.size

def isEmpty (s : PluginSet) : Bool := s.table.isEmpty

end PluginSet

/-- Where an effective value comes from. -/
inductive Provenance
  | override
  | propagated
  deriving DecidableEq, Repr

def Provenance.name : Provenance → String
  | override => "override"
  | propagated => "propagated"

structure ConfigValue where
  value : String
  provenance : Provenance
  deriving DecidableEq, Repr

structure Module where
  name : String
  dir : Path
  plugins : PluginSet
  overrides : Table String String
  effective : Table String ConfigValue
  deriving DecidableEq

namespace Module

/-- A module without plugins and settings. -/
def bare (name : String) (dir : Path) : Module := ⟨name, dir, .empty, ∅, ∅⟩

def hasPlugin (m : Module) (plugin : String) : Bool := m.plugins.contains plugin

def applyPlugin (m : Module) (plugin : String) : Module :=
  { m with plugins := m.plugins.add plugin }

def applyPlugins (m : Module) (plugins : List String) : Module := plugins.foldl applyPlugin m

theorem applyPlugins_eq (m : Module) (plugins : List String) :
    m.applyPlugins plugins = { m with plugins := m.plugins.addAll plugins } := by
  induction plugins generalizing m with
  | nil => rfl
  | cons plugin rest ih => exact ih (m.applyPlugin plugin)

/-- Sets an override; it takes effect at once. -/
def setOverride (m : Module) (key value : String) : Module :=
  { m with
    overrides := m.overrides.insert key value
    effective := m.effective.insert key ⟨value, .override⟩ }

def setOverrides (m : Module) (pairs : List (String × String)) : Module :=
  pairs.foldl (fun m p => m.setOverride p.1 p.2) m

/-- The entry that a propagated value leads to: the override, if there is one. -/
def entryFor (m : Module) (key value : String) : ConfigValue :=
  match m.overrides.find? key with
  | some explicit => ⟨explicit, .override⟩
  | none => ⟨value, .propagated⟩

def receive (m : Module) (key value : String) : Module :=
  { m with effective := m.effective.insert key (m.entryFor key value) }

/-- Whether receiving the value changes the effective configuration. -/
def changedBy (m : Module) (key value : String) : Bool :=
  m.effective.find? key != some (m.entryFor key value)

/-- The effective value of a setting. -/
def setting? (m : Module) (key : String) : Option String :=
  (m.effective.find? key).map (·.value)

def ofParts (name : String) (dir : Path) (plugins : List String)
    (overrides : List (String × String)) : Module :=
  ((bare name dir).applyPlugins plugins).setOverrides overrides

end Module

def ConfigValue.data (v : ConfigValue) : Data :=
  .object [("value", .text v.value), ("provenance", .text v.provenance.name)]

def Module.data (m : Module) : Data :=
  .object [("name", .text m.name), ("dir", .text m.dir.text),
    ("plugins", .texts m.plugins.toList), ("overrides", .rows .text m.overrides.rows),
    ("effective", .rows ConfigValue.data m.effective.rows)]

end ModularBuild
