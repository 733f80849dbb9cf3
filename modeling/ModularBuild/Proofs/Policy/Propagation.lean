import ModularBuild.Policy.Propagation
import ModularBuild.Proofs.Table

/-! # What a propagation leaves behind

A propagation changes plugins and effective values only. The plugins afterwards are those of
the module and of the bundle, and the value under a key is decided by the last setting for it
that these plugins allow: with no such setting the value stays, with one it is the module's
override, if it has one, and else what the setting says. -/

namespace ModularBuild

namespace PluginSet

theorem contains_add (s : PluginSet) (plugin x : String) :
    (s.add plugin).contains x = (x == plugin || s.contains x) := by
  rw [contains, add, Table.contains, Table.find?_insert]
  by_cases h : x = plugin
  · simp [h]
  · simp [h, contains, Table.contains]

theorem contains_addAll (s : PluginSet) (plugins : List String) (x : String) :
    (s.addAll plugins).contains x = (plugins.contains x || s.contains x) := by
  induction plugins generalizing s with
  | nil => rfl
  | cons plugin rest ih =>
    have hstep : s.addAll (plugin :: rest) = (s.add plugin).addAll rest := rfl
    rw [hstep, ih, contains_add, List.contains_cons]
    cases x == plugin <;> cases rest.contains x <;> rfl

/-- Sets of the same plugins are the same. -/
theorem ext_contains {a b : PluginSet} (h : ∀ x, a.contains x = b.contains x) : a = b := by
  have ht : a.table = b.table := by
    refine Table.ext_find? fun x => ?_
    have hx : (a.table.find? x).isSome = (b.table.find? x).isSome := h x
    cases ha : a.table.find? x <;> cases hb : b.table.find? x
    · rfl
    · rw [ha, hb] at hx; cases hx
    · rw [ha, hb] at hx; cases hx
    · rfl
  obtain ⟨ta⟩ := a
  obtain ⟨tb⟩ := b
  exact congrArg _ ht

theorem addAll_addAll (s : PluginSet) (plugins : List String) :
    (s.addAll plugins).addAll plugins = s.addAll plugins := by
  refine ext_contains fun x => ?_
  rw [contains_addAll, contains_addAll]
  cases plugins.contains x <;> rfl

theorem add_addAll (s : PluginSet) (plugins : List String) (plugin : String) :
    (s.addAll plugins).add plugin = (s.add plugin).addAll plugins := by
  refine ext_contains fun x => ?_
  rw [contains_add, contains_addAll, contains_addAll, contains_add]
  cases plugins.contains x <;> cases x == plugin <;> rfl

end PluginSet

namespace Setting

variable {m m' : Module}

theorem appliesTo_iff {s : Setting} : s.appliesTo m = true ↔
    ∀ plugin, s.requiredPlugin = some plugin → m.plugins.contains plugin = true := by
  rw [appliesTo, Option.all_eq_true]
  rfl

/-- More plugins take no setting away. -/
theorem appliesTo_mono (h : ∀ x, m.plugins.contains x = true → m'.plugins.contains x = true)
    {s : Setting} (hs : s.appliesTo m = true) : s.appliesTo m' = true :=
  appliesTo_iff.mpr fun plugin hp => h plugin (appliesTo_iff.mp hs plugin hp)

theorem appliesTo_congr (h : m.plugins = m'.plugins) (s : Setting) :
    s.appliesTo m = s.appliesTo m' := by
  rw [appliesTo, appliesTo]
  unfold Module.hasPlugin
  rw [h]

end Setting

namespace Propagator

/-! ## Settings one after the other -/

theorem plugins_applySetting (m : Module) (s : Setting) :
    (applySetting m s).plugins = m.plugins := by
  rw [applySetting]
  split <;> rfl

theorem find?_applySetting (m : Module) (s : Setting) (key : String) :
    (applySetting m s).effective.find? key =
      if s.appliesTo m && s.key == key then some (m.entryFor key s.value)
      else m.effective.find? key := by
  rw [applySetting]
  cases s.appliesTo m with
  | false => rfl
  | true =>
    simp only [if_true, Module.receive, Table.find?_insert, Bool.true_and, beq_iff_eq]
    by_cases hk : s.key = key
    · rw [if_pos hk.symm, if_pos hk, hk]
    · rw [if_neg (Ne.symm hk), if_neg hk]

/-- The setting that has the last word on a key. -/
def ruling? (m : Module) (settings : List Setting) (key : String) : Option Setting :=
  (settings.filter fun s => s.appliesTo m && s.key == key).getLast?

theorem ruling?_congr {m m' : Module} (h : m.plugins = m'.plugins) (settings : List Setting)
    (key : String) : ruling? m settings key = ruling? m' settings key := by
  simp only [ruling?, Setting.appliesTo_congr h]

theorem ruling?_eq_none_iff {m : Module} {settings : List Setting} {key : String} :
    ruling? m settings key = none ↔
      ∀ s ∈ settings, s.key = key → s.appliesTo m = false := by
  simp only [ruling?, List.getLast?_eq_none_iff, List.filter_eq_nil_iff, Bool.and_eq_true,
    beq_iff_eq, not_and]
  constructor
  · intro h s hs hk
    cases ha : s.appliesTo m with
    | false => rfl
    | true => exact absurd hk (h s hs ha)
  · intro h s hs ha hk
    rw [h s hs hk] at ha
    cases ha

theorem ruling?_cons (m : Module) (s : Setting) (rest : List Setting) (key : String) :
    ruling? m (s :: rest) key =
      if s.appliesTo m && s.key == key then some ((ruling? m rest key).getD s)
      else ruling? m rest key := by
  rw [ruling?, List.filter_cons]
  split
  · rw [List.getLast?_cons]; rfl
  · rfl

/-- What does not rule with more plugins does not rule with fewer. -/
theorem ruling?_eq_none_of_more {m m' : Module}
    (h : ∀ x, m.plugins.contains x = true → m'.plugins.contains x = true)
    {settings : List Setting} {key : String} (hr : ruling? m' settings key = none) :
    ruling? m settings key = none := by
  refine ruling?_eq_none_iff.mpr fun s hs hk => ?_
  cases ha : s.appliesTo m with
  | false => rfl
  | true =>
    have hnone := ruling?_eq_none_iff.mp hr s hs hk
    rw [Setting.appliesTo_mono h ha] at hnone
    cases hnone

theorem find?_applySettings (m : Module) (settings : List Setting) (key : String) :
    (applySettings m settings).effective.find? key =
      match ruling? m settings key with
      | some s => some (m.entryFor key s.value)
      | none => m.effective.find? key := by
  induction settings generalizing m with
  | nil => rfl
  | cons s rest ih =>
    have hstep : applySettings m (s :: rest) = applySettings (applySetting m s) rest := rfl
    have hentry : ∀ value, (applySetting m s).entryFor key value = m.entryFor key value := by
      intro value; rw [applySetting]; split <;> rfl
    rw [hstep, ih, ruling?_congr (plugins_applySetting m s), ruling?_cons, find?_applySetting]
    simp only [hentry]
    cases s.appliesTo m && s.key == key <;> cases ruling? m rest key <;> rfl

/-! ## The whole bundle -/

/-- The module with the plugins of the bundle. -/
def equip (p : Propagator) (m : Module) : Module := m.applyPlugins p.bundle.plugins

theorem plugins_equip (p : Propagator) (m : Module) :
    (p.equip m).plugins = m.plugins.addAll p.bundle.plugins := by
  rw [equip, Module.applyPlugins_eq]

theorem dir_propagate (p : Propagator) (m : Module) : (p.propagate m).dir = m.dir := by
  rw [propagate_eq]

theorem overrides_propagate (p : Propagator) (m : Module) :
    (p.propagate m).overrides = m.overrides := by
  rw [propagate_eq]

theorem plugins_propagate (p : Propagator) (m : Module) :
    (p.propagate m).plugins = m.plugins.addAll p.bundle.plugins := by
  rw [propagate_eq]

theorem find?_propagate (p : Propagator) (m : Module) (key : String) :
    (p.propagate m).effective.find? key =
      match ruling? (p.equip m) p.bundle.settings key with
      | some s => some (m.entryFor key s.value)
      | none => m.effective.find? key := by
  have hentry : ∀ value, (p.equip m).entryFor key value = m.entryFor key value := by
    intro value; rw [equip, Module.applyPlugins_eq]; rfl
  have heffective : (p.equip m).effective = m.effective := by
    rw [equip, Module.applyPlugins_eq]
  have h := find?_applySettings (p.equip m) p.bundle.settings key
  simp only [hentry, heffective] at h
  exact h

theorem find?_propagate_of_unruled {p : Propagator} {m : Module} {key : String}
    (h : ruling? (p.equip m) p.bundle.settings key = none) :
    (p.propagate m).effective.find? key = m.effective.find? key := by
  rw [find?_propagate, h]

end Propagator
end ModularBuild
