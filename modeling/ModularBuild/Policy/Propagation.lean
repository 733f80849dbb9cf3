import ModularBuild.Policy.Bundle
import ModularBuild.Policy.Catalog

/-! Propagation of a policy to modules. A bundle is checked once, before any module is
touched; then its plugins are applied and those of its settings that the plugins allow. -/

namespace ModularBuild

/-- The pinned versions are looked up first, in the order of the tools. -/
def PolicyBundle.check (b : PolicyBundle) (catalog : Catalog) : Except BuildError Unit := do
  b.toolchains.present.forM fun (tool, version) => catalog.check tool version
  if Text.allBlank b.encoding then throw .blankEncoding

/-- A bundle that has been checked against a catalog. -/
structure Propagator where
  bundle : PolicyBundle
  encoding_not_blank : Text.allBlank bundle.encoding = false
  deriving DecidableEq

/-- What one propagation did to a module. -/
structure PropagationOutcome where
  pluginsApplied : Nat
  settingsChanged : Nat
  settingsSkipped : Nat
  deriving DecidableEq, Repr

def PropagationOutcome.isNoop (o : PropagationOutcome) : Bool :=
  o.pluginsApplied = 0 && o.settingsChanged = 0

namespace Propagator

def ofBundle (b : PolicyBundle) (catalog : Catalog) : Except BuildError Propagator :=
  match b.check catalog with
  | .error e => .error e
  | .ok () => if h : Text.allBlank b.encoding = false then .ok ⟨b, h⟩ else .error .blankEncoding

/-- How many of the plugins, applied one after the other, are new. -/
def countNew (m : Module) : List String → Nat
  | [] => 0
  | plugin :: rest =>
    (if m.hasPlugin plugin then 0 else 1) + countNew (m.applyPlugin plugin) rest

def applySetting (m : Module) (s : Setting) : Module :=
  if s.appliesTo m then m.receive s.key s.value else m

def applySettings (m : Module) (settings : List Setting) : Module := settings.foldl applySetting m

/-- How many of the settings, received one after the other, change something. -/
def countChanged (m : Module) : List Setting → Nat
  | [] => 0
  | s :: rest =>
    (if s.appliesTo m && m.changedBy s.key s.value then 1 else 0) +
      countChanged (applySetting m s) rest

/-- How many of the settings, each looked at when it is its turn, the module has no plugin
for. -/
def countSkipped (m : Module) : List Setting → Nat
  | [] => 0
  | s :: rest => (if s.appliesTo m then 0 else 1) + countSkipped (applySetting m s) rest

def propagate (p : Propagator) (m : Module) : Module :=
  applySettings (m.applyPlugins p.bundle.plugins) p.bundle.settings

def outcome (p : Propagator) (m : Module) : PropagationOutcome :=
  let equipped := m.applyPlugins p.bundle.plugins
  { pluginsApplied := countNew m p.bundle.plugins
    settingsChanged := countChanged equipped p.bundle.settings
    settingsSkipped := countSkipped equipped p.bundle.settings }

/-! ## What a propagation changes -/

theorem applySettings_eq (m : Module) (settings : List Setting) :
    applySettings m settings = { m with effective := (applySettings m settings).effective } := by
  induction settings generalizing m with
  | nil => rfl
  | cons s rest ih =>
    have hstep : applySettings m (s :: rest) = applySettings (applySetting m s) rest := rfl
    rw [hstep, ih (applySetting m s), applySetting]
    split <;> rfl

/-- Only plugins and effective values change. -/
theorem propagate_eq (p : Propagator) (m : Module) : p.propagate m =
    { m with
      plugins := m.plugins.addAll p.bundle.plugins
      effective := (p.propagate m).effective } := by
  rw [propagate, applySettings_eq, Module.applyPlugins_eq]

theorem name_propagate (p : Propagator) (m : Module) : (p.propagate m).name = m.name := by
  rw [propagate_eq]

end Propagator
end ModularBuild
