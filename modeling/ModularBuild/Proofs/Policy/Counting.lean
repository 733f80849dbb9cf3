import Mathlib.Data.Set.Card
import ModularBuild.Proofs.Policy.Provenance

/-! # What a propagation counts

A propagation counts its steps as it goes: a plugin that was new, a setting that changed
something, a setting that was passed over. The counts are exact for the module as a whole because
no step undoes or repeats another: a plugin is no longer new once it has been applied, and no two
settings of a bundle have the same key. So each step that counts adds one element to the
difference between the module before and the module after, and each other step adds none. -/

namespace ModularBuild

namespace Module

variable {m m' : Module} {plugin key : String}

/-- The plugins that only the later of two modules has. -/
def gained (m m' : Module) : Set String := {x | m'.hasPlugin x = true ∧ m.hasPlugin x = false}

/-- The keys under which two modules have different entries, or only one of them has any. -/
def altered (m m' : Module) : Set String := {key | m'.effective.find? key ≠ m.effective.find? key}

theorem hasPlugin_applyPlugin (m : Module) (plugin x : String) :
    (m.applyPlugin plugin).hasPlugin x = (x == plugin || m.hasPlugin x) :=
  PluginSet.contains_add ..

theorem hasPlugin_applyPlugins (m : Module) (plugins : List String) (x : String) :
    (m.applyPlugins plugins).hasPlugin x = (plugins.contains x || m.hasPlugin x) := by
  rw [applyPlugins_eq]
  exact PluginSet.contains_addAll ..

theorem gained_of_known (h : m.hasPlugin plugin = true) :
    m.gained m' = (m.applyPlugin plugin).gained m' := by
  ext x
  by_cases hx : x = plugin
  · simp [gained, hasPlugin_applyPlugin, hx, h]
  · simp [gained, hasPlugin_applyPlugin, hx]

theorem gained_of_new (h : m.hasPlugin plugin = false) (h' : m'.hasPlugin plugin = true) :
    m.gained m' = insert plugin ((m.applyPlugin plugin).gained m') := by
  ext x
  by_cases hx : x = plugin
  · simp [gained, hx, h, h']
  · simp [gained, hasPlugin_applyPlugin, hx]

theorem altered_of_same {next : Module}
    (h : ∀ key, next.effective.find? key = m.effective.find? key) :
    m.altered m' = next.altered m' := by
  ext other
  simp [altered, h]

theorem altered_of_changed {next : Module} (hkey : next.effective.find? key ≠ m.effective.find? key)
    (hother : ∀ other, other ≠ key → next.effective.find? other = m.effective.find? other)
    (hlast : m'.effective.find? key = next.effective.find? key) :
    m.altered m' = insert key (next.altered m') := by
  ext other
  by_cases hk : other = key
  · subst hk
    simp [altered, hlast, hkey]
  · simp [altered, hk, hother other hk]

end Module

namespace Propagator

open ModularBuild.Module

variable {p : Propagator} {m : Module} {s : Setting} {key : String}

/-! ## The three counts -/

theorem encard_gained (m : Module) (plugins : List String) :
    (m.gained (m.applyPlugins plugins)).encard = countNew m plugins := by
  induction plugins generalizing m with
  | nil => simp [gained, applyPlugins, countNew]
  | cons plugin rest ih =>
    have hstep : m.applyPlugins (plugin :: rest) = (m.applyPlugin plugin).applyPlugins rest := rfl
    rw [countNew, hstep]
    cases hknown : m.hasPlugin plugin with
    | true => rw [gained_of_known hknown, ih]; simp
    | false =>
      have hlater : ((m.applyPlugin plugin).applyPlugins rest).hasPlugin plugin = true := by
        simp [hasPlugin_applyPlugins, hasPlugin_applyPlugin]
      have hnot : plugin ∉ (m.applyPlugin plugin).gained
          ((m.applyPlugin plugin).applyPlugins rest) := by
        simp [gained, hasPlugin_applyPlugin]
      rw [gained_of_new hknown hlater, Set.encard_insert_of_notMem hnot, ih]
      simp [add_comm]

theorem find?_applySetting_of_ne (m : Module) (h : key ≠ s.key) :
    (applySetting m s).effective.find? key = m.effective.find? key := by
  rw [find?_applySetting]
  simp [Ne.symm h]

/-- The test that is made for a setting tells whether it changes the entry under its key. -/
theorem changes_iff : (s.appliesTo m && m.changedBy s.key s.value) = true ↔
    (applySetting m s).effective.find? s.key ≠ m.effective.find? s.key := by
  rw [find?_applySetting, changedBy]
  cases s.appliesTo m with
  | false => simp
  | true =>
    simp only [Bool.true_and, bne_iff_ne, beq_self_eq_true, if_true]
    exact ne_comm

theorem find?_applySettings_of_not_mem {settings : List Setting}
    (h : key ∉ settings.map (·.key)) :
    (applySettings m settings).effective.find? key = m.effective.find? key := by
  have hnone : ruling? m settings key = none :=
    ruling?_eq_none_iff.mpr fun s hs hk => absurd (List.mem_map.mpr ⟨s, hs, hk⟩) h
  rw [find?_applySettings, hnone]

theorem encard_altered (m : Module) {settings : List Setting}
    (hdistinct : (settings.map (·.key)).Nodup) :
    (m.altered (applySettings m settings)).encard = countChanged m settings := by
  induction settings generalizing m with
  | nil => simp [altered, applySettings, countChanged]
  | cons s rest ih =>
    obtain ⟨hfirst, hrest⟩ := List.nodup_cons.mp hdistinct
    have hstep : applySettings m (s :: rest) = applySettings (applySetting m s) rest := rfl
    have hlast : (applySettings (applySetting m s) rest).effective.find? s.key =
        (applySetting m s).effective.find? s.key := find?_applySettings_of_not_mem hfirst
    rw [countChanged, hstep]
    by_cases hchanges : (s.appliesTo m && m.changedBy s.key s.value) = true
    · have hnot : s.key ∉ (applySetting m s).altered (applySettings (applySetting m s) rest) := by
        simp [altered, hlast]
      rw [if_pos hchanges, altered_of_changed (changes_iff.mp hchanges)
        (fun other hother => find?_applySetting_of_ne m hother) hlast,
        Set.encard_insert_of_notMem hnot, ih _ hrest]
      simp [add_comm]
    · have hsame : ∀ other,
          (applySetting m s).effective.find? other = m.effective.find? other := fun other => by
        by_cases hother : other = s.key
        · rw [hother]
          exact not_not.mp (changes_iff.not.mp hchanges)
        · exact find?_applySetting_of_ne m hother
      rw [if_neg hchanges, altered_of_same hsame, ih _ hrest]
      simp

theorem countSkipped_eq (m : Module) (settings : List Setting) :
    countSkipped m settings = settings.countP fun s => !s.appliesTo m := by
  induction settings generalizing m with
  | nil => rfl
  | cons s rest ih =>
    have hrest : ∀ other : Setting, other.appliesTo (applySetting m s) = other.appliesTo m :=
      Setting.appliesTo_congr (plugins_applySetting m s)
    rw [countSkipped, ih, List.countP_cons, add_comm]
    simp only [hrest]
    cases s.appliesTo m <;> rfl

/-! ## The whole propagation -/

theorem hasPlugin_propagate (p : Propagator) (m : Module) (x : String) :
    (p.propagate m).hasPlugin x = (p.equip m).hasPlugin x := by
  rw [hasPlugin, hasPlugin, plugins_propagate, plugins_equip]

theorem effective_equip (p : Propagator) (m : Module) : (p.equip m).effective = m.effective := by
  rw [equip, applyPlugins_eq]

theorem appliesTo_equip (p : Propagator) (m : Module) (s : Setting) :
    (!s.appliesTo (p.equip m)) =
      s.requiredPlugin.any fun plugin => !(p.propagate m).hasPlugin plugin := by
  rw [Setting.appliesTo]
  cases s.requiredPlugin <;> simp [hasPlugin_propagate]

/-- A propagation that adds no plugin and alters no entry leaves the module as it is. -/
theorem propagate_eq_self_iff :
    p.propagate m = m ↔ m.gained (p.propagate m) = ∅ ∧ m.altered (p.propagate m) = ∅ := by
  constructor
  · intro h
    rw [h]
    simp [gained, altered]
  · rintro ⟨hgained, haltered⟩
    have hplugins : (p.propagate m).plugins = m.plugins := by
      refine PluginSet.ext_contains fun x => ?_
      cases hx : m.plugins.contains x with
      | true => rw [plugins_propagate, PluginSet.contains_addAll, hx, Bool.or_true]
      | false =>
        have hnot := Set.eq_empty_iff_forall_notMem.mp hgained x
        simpa [gained, hasPlugin, hx] using hnot
    have heffective : (p.propagate m).effective = m.effective :=
      Table.ext_find? fun key => not_not.mp (Set.eq_empty_iff_forall_notMem.mp haltered key)
    rw [propagate_eq, ← plugins_propagate, hplugins, heffective]

/-- The outcome of a propagation tells how many plugins a module has gained, under how many keys
its configuration is another one, and how many settings of the bundle it has no plugin for. All
else stays, and nothing is counted exactly if nothing has changed. -/
theorem outcome_exact (p : Propagator) (m : Module) :
    let after := p.propagate m
    let o := p.outcome m
    {x | after.hasPlugin x = true ∧ m.hasPlugin x = false}.encard = o.pluginsApplied ∧
    {key | after.effective.find? key ≠ m.effective.find? key}.encard = o.settingsChanged ∧
    o.settingsSkipped = (p.bundle.settings.countP fun s =>
      s.requiredPlugin.any fun plugin => !after.hasPlugin plugin) ∧
    after.overrides = m.overrides ∧ after.name = m.name ∧ after.dir = m.dir ∧
    (o.isNoop = true ↔ after = m) := by
  intro after o
  have hgained : (m.gained after).encard = o.pluginsApplied := by
    have hsame : m.gained after = m.gained (p.equip m) := by
      simp only [gained, after, hasPlugin_propagate]
    rw [hsame]
    exact encard_gained m p.bundle.plugins
  have haltered : (m.altered after).encard = o.settingsChanged := by
    have hsame : m.altered after = (p.equip m).altered after :=
      altered_of_same fun key => by rw [effective_equip]
    rw [hsame]
    exact encard_altered (p.equip m) p.bundle.nodup_keys_settings
  refine ⟨hgained, haltered, ?_, overrides_propagate p m, name_propagate p m, dir_propagate p m, ?_⟩
  · refine (countSkipped_eq (p.equip m) p.bundle.settings).trans ?_
    simp only [appliesTo_equip, after]
  · rw [propagate_eq_self_iff, ← Set.encard_eq_zero, ← Set.encard_eq_zero, hgained, haltered,
      PropagationOutcome.isNoop]
    simp

/-- A plugin that the bundle names twice is gained once. -/
example : Propagator.outcome
    ⟨{ PolicyBundle.default with plugins := ["java", "java"] }, by decide +kernel⟩
    (.bare "app" ⟨"app"⟩) = ⟨1, 1, 0⟩ := by decide +kernel

end Propagator
end ModularBuild
