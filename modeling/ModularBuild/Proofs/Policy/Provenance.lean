import Mathlib.Data.List.Induction
import Mathlib.Data.List.Nodup
import ModularBuild.Proofs.Policy.Confluence

/-! # Where the effective values of a module come from

A module keeps two maps, of overrides and of effective values. After any run of changes from its
making they agree: an effective value is marked as an override exactly if it is one, and any
other was written by the last propagation with a setting for its key. The first is an
invariant of the single change; the second looks back on the run, so its induction takes the
changes from the last one. -/

namespace ModularBuild

/-! ## The keys of a bundle -/

namespace PolicyBundle

/-- The keys that do not depend on the bundle. -/
def fixedKeys : List String := "group" :: "encoding" :: Tool.all.map Tool.settingKey

theorem keys_toolSettings_sublist (b : PolicyBundle) :
    (b.toolSettings.map (·.key)).Sublist (Tool.all.map Tool.settingKey) := by
  rw [toolSettings, PerTool.present, List.map_map]
  induction Tool.all with
  | nil => exact .slnil
  | cons tool rest ih =>
    rw [List.filterMap_cons, List.map_cons]
    cases b.toolchains.get tool with
    | none => exact ih.cons _
    | some version => exact ih.cons_cons _

theorem keys_settings (b : PolicyBundle) : ∃ fixed, fixed.Sublist fixedKeys ∧
    b.settings.map (·.key) = fixed ++ b.manifest.keys.map ("manifest." ++ ·) := by
  have hmanifest : b.manifestSettings.map (·.key) =
      b.manifest.keys.map ("manifest." ++ ·) := by
    rw [manifestSettings, Table.keys, List.map_map, List.map_map]
    rfl
  have htools := b.keys_toolSettings_sublist
  cases hg : b.group with
  | none =>
    refine ⟨"encoding" :: b.toolSettings.map (·.key), (htools.cons_cons _).cons _, ?_⟩
    simp only [settings, hg, Option.map_none, Option.toList_none, List.nil_append,
      List.cons_append, List.map_cons, List.map_append, hmanifest]
  | some group =>
    refine ⟨"group" :: "encoding" :: b.toolSettings.map (·.key),
      (htools.cons_cons _).cons_cons _, ?_⟩
    simp only [settings, hg, Option.map_some, Option.toList_some, List.cons_append,
      List.nil_append, List.map_cons, List.map_append, hmanifest]

/-- No two settings of a bundle are for the same key. -/
theorem nodup_keys_settings (b : PolicyBundle) : (b.settings.map (·.key)).Nodup := by
  obtain ⟨fixed, hfixed, hkeys⟩ := b.keys_settings
  rw [hkeys, List.nodup_append]
  refine ⟨(show fixedKeys.Nodup by decide +kernel).sublist hfixed, ?_, ?_⟩
  · refine b.manifest.nodup_keys.map fun x y hxy => ?_
    have h := congrArg String.toList hxy
    rw [String.toList_append, String.toList_append] at h
    exact String.toList_inj.mp (List.append_cancel_left h)
  · rintro key hkey _ hm rfl
    obtain ⟨name, -, rfl⟩ := List.mem_map.mp hm
    -- no fixed key starts the way the keys of the manifest do
    have hfirst : ∀ k ∈ fixedKeys, k.toList.head? ≠ some 'm' := by decide +kernel
    refine hfirst _ (hfixed.subset hkey) ?_
    rw [String.toList_append]
    rfl

theorem setting_unique {b : PolicyBundle} {s s' : Setting} (hs : s ∈ b.settings)
    (hs' : s' ∈ b.settings) (h : s.key = s'.key) : s = s' :=
  List.inj_on_of_nodup_map b.nodup_keys_settings hs hs' h

end PolicyBundle

/-! ## What a propagation writes -/

namespace Propagator

variable {p : Propagator} {m : Module} {key value : String}

/-- The bundle has a setting of the value for the key, and the module has the plugin for it
once it has those of the bundle. -/
def Writes (p : Propagator) (m : Module) (key value : String) : Prop :=
  ∃ s ∈ p.bundle.settings, s.key = key ∧ s.value = value ∧ s.appliesTo (p.equip m) = true

theorem not_writes_of_unruled (h : ruling? (p.equip m) p.bundle.settings key = none) :
    ¬ p.Writes m key value := by
  rintro ⟨s, hs, hk, -, ha⟩
  rw [ruling?_eq_none_iff.mp h s hs hk] at ha
  cases ha

theorem writes_iff_of_ruled {s : Setting}
    (h : ruling? (p.equip m) p.bundle.settings key = some s) :
    p.Writes m key value ↔ s.value = value := by
  obtain ⟨hs, happlies⟩ := List.mem_filter.mp (List.mem_of_getLast? h)
  rw [Bool.and_eq_true, beq_iff_eq] at happlies
  constructor
  · rintro ⟨s', hs', hk, hv, -⟩
    rw [PolicyBundle.setting_unique hs hs' (happlies.2.trans hk.symm), hv]
  · intro hv
    exact ⟨s, hs, happlies.2, hv, happlies.1⟩

end Propagator

namespace Module

variable {m : Module} {changes : List Change} {key value : String}

/-- The last propagation of the run that has a setting for the key gave it this value. -/
def LastWritten (m : Module) (changes : List Change) (key value : String) : Prop :=
  ∃ before p after, changes = before ++ .policy p :: after ∧
    p.Writes (m.performAll before) key value ∧
    ∀ mid q rest other, after = mid ++ .policy q :: rest →
      ¬ q.Writes (m.performAll (before ++ .policy p :: mid)) key other

theorem performAll_append (m : Module) (a b : List Change) :
    m.performAll (a ++ b) = (m.performAll a).performAll b := List.foldl_append

theorem performAll_concat (m : Module) (changes : List Change) (c : Change) :
    m.performAll (changes ++ [c]) = (m.performAll changes).perform c := performAll_append ..

theorem applyPlugins_eq_performAll (m : Module) (plugins : List String) :
    m.applyPlugins plugins = m.performAll (plugins.map .plugin) := by
  rw [performAll, List.foldl_map]
  rfl

theorem not_lastWritten_nil : ¬ m.LastWritten [] key value := by
  rintro ⟨before, p, after, h, -⟩
  exact List.append_ne_nil_of_right_ne_nil before (List.cons_ne_nil _ _) h.symm

/-- A change that writes nothing under the key leaves the last value the last one. -/
theorem lastWritten_concat_of_not_writes {c : Change}
    (hc : ∀ p other, c = .policy p → ¬ p.Writes (m.performAll changes) key other) :
    m.LastWritten (changes ++ [c]) key value ↔ m.LastWritten changes key value := by
  constructor
  · rintro ⟨before, p, after, h, hw, hlater⟩
    rcases List.eq_nil_or_concat after with rfl | ⟨init, last, rfl⟩
    · obtain ⟨rfl, hlast⟩ := List.append_inj' h rfl
      exact absurd hw (hc p value (List.head_eq_of_cons_eq hlast))
    · rw [List.concat_eq_append, ← List.cons_append, ← List.append_assoc] at h
      obtain ⟨rfl, -⟩ := List.append_inj' h rfl
      refine ⟨before, p, init, rfl, hw, fun mid q rest other hmid => ?_⟩
      exact hlater mid q (rest ++ [last]) other (by simp [hmid])
  · rintro ⟨before, p, after, rfl, hw, hlater⟩
    refine ⟨before, p, after ++ [c], by simp, hw, fun mid q rest other hmid => ?_⟩
    rcases List.eq_nil_or_concat rest with rfl | ⟨init, last, rfl⟩
    · obtain ⟨rfl, hlast⟩ := List.append_inj' hmid rfl
      exact hc q other (List.head_eq_of_cons_eq hlast)
    · rw [List.concat_eq_append, ← List.cons_append, ← List.append_assoc] at hmid
      obtain ⟨rfl, -⟩ := List.append_inj' hmid rfl
      exact hlater mid q init other rfl

theorem lastWritten_concat_of_writes {p : Propagator} {v : String}
    (hp : p.Writes (m.performAll changes) key v) :
    m.LastWritten (changes ++ [.policy p]) key value ↔
      p.Writes (m.performAll changes) key value := by
  constructor
  · rintro ⟨before, q, after, h, hw, hlater⟩
    rcases List.eq_nil_or_concat after with rfl | ⟨init, last, rfl⟩
    · obtain ⟨rfl, hlast⟩ := List.append_inj' h rfl
      cases List.head_eq_of_cons_eq hlast
      exact hw
    · rw [List.concat_eq_append, ← List.cons_append, ← List.append_assoc] at h
      obtain ⟨rfl, hlast⟩ := List.append_inj' h rfl
      cases List.head_eq_of_cons_eq hlast
      exact absurd hp (hlater init p [] v (List.concat_eq_append ..))
  · intro hw
    refine ⟨changes, p, [], rfl, hw, fun mid q rest other h => ?_⟩
    exact absurd h.symm (List.append_ne_nil_of_right_ne_nil mid (List.cons_ne_nil _ _))

/-! ## One change -/

/-- The overrides are the effective values that are marked as such. -/
def Synced (m : Module) : Prop :=
  ∀ key value, m.effective.find? key = some ⟨value, .override⟩ ↔
    m.overrides.find? key = some value

theorem synced_bare (name : String) (dir : Path) : (bare name dir).Synced := by
  intro key value
  constructor <;> intro h <;> cases h

theorem Synced.setOverride (hm : m.Synced) (key value : String) :
    (m.setOverride key value).Synced := by
  intro other v
  simp only [Module.setOverride, Table.find?_insert]
  by_cases hk : other = key
  · simp [hk]
  · rw [if_neg hk, if_neg hk]
    exact hm other v

theorem Synced.propagate (hm : m.Synced) (p : Propagator) : (p.propagate m).Synced := by
  intro key value
  rw [Propagator.find?_propagate, Propagator.overrides_propagate]
  cases Propagator.ruling? (p.equip m) p.bundle.settings key with
  | none => exact hm key value
  | some s => cases ho : m.overrides.find? key <;> simp [entryFor, ho]

theorem Synced.perform (hm : m.Synced) (c : Change) : (m.perform c).Synced := by
  cases c with
  | plugin name => exact hm
  | override key value => exact hm.setOverride key value
  | policy p => exact hm.propagate p

theorem hasPlugin_perform {x : String} (c : Change) (hx : m.hasPlugin x = true) :
    (m.perform c).hasPlugin x = true := by
  cases c with
  | plugin name =>
    exact (PluginSet.contains_add ..).trans (Bool.or_eq_true_iff.mpr (.inr hx))
  | override key value => exact hx
  | policy p =>
    rw [hasPlugin, Module.perform, Propagator.plugins_propagate, PluginSet.contains_addAll]
    exact Bool.or_eq_true_iff.mpr (.inr hx)

theorem dir_perform (m : Module) (c : Change) : (m.perform c).dir = m.dir := by
  cases c with
  | plugin name => rfl
  | override key value => rfl
  | policy p => exact Propagator.dir_propagate p m

/-- Only an override of the key changes what the overrides have under it. -/
theorem overrides_perform {c : Change} (hc : ∀ value, c ≠ .override key value) :
    (m.perform c).overrides.find? key = m.overrides.find? key := by
  cases c with
  | plugin name => rfl
  | override other value =>
    have hk : key ≠ other := fun h => hc value (by rw [h])
    rw [Module.perform, Module.setOverride, Table.find?_insert, if_neg hk]
  | policy p => rw [Module.perform, Propagator.overrides_propagate]

theorem contains_overrides_perform (c : Change) (h : m.overrides.contains key = true) :
    (m.perform c).overrides.contains key = true := by
  cases c with
  | plugin name => exact h
  | override other value =>
    rw [Module.perform, Module.setOverride, Table.contains, Table.find?_insert]
    split
    · rfl
    · exact h
  | policy p => rwa [Module.perform, Propagator.overrides_propagate]

/-! ## Runs -/

/-- What each change of a run keeps, the run keeps. -/
theorem performAll_keeps {P : Module → Prop} (hkeep : ∀ c ∈ changes, ∀ m, P m → P (m.perform c))
    (hm : P m) : P (m.performAll changes) := by
  induction changes generalizing m with
  | nil => exact hm
  | cons c rest ih =>
    exact ih (fun x hx => hkeep x (List.mem_cons_of_mem _ hx)) (hkeep c List.mem_cons_self m hm)

theorem Synced.performAll (hm : m.Synced) (changes : List Change) :
    (m.performAll changes).Synced := performAll_keeps (fun c _ _ h => h.perform c) hm

theorem hasPlugin_performAll {x : String} (changes : List Change) (hx : m.hasPlugin x = true) :
    (m.performAll changes).hasPlugin x = true :=
  performAll_keeps (P := fun m => m.hasPlugin x = true) (fun c _ _ h => hasPlugin_perform c h) hx

theorem dir_performAll (m : Module) (changes : List Change) :
    (m.performAll changes).dir = m.dir :=
  performAll_keeps (P := fun m' => m'.dir = m.dir) (fun c _ m' h => (m'.dir_perform c).trans h) rfl

theorem overrides_performAll (h : ∀ value, Change.override key value ∉ changes) :
    (m.performAll changes).overrides.find? key = m.overrides.find? key := by
  refine performAll_keeps (P := fun m' => m'.overrides.find? key = m.overrides.find? key)
    (fun c hc m' hm' => ?_) rfl
  exact (overrides_perform fun value he => h value (he ▸ hc)).trans hm'

theorem contains_overrides_performAll (changes : List Change)
    (h : m.overrides.contains key = true) :
    (m.performAll changes).overrides.contains key = true :=
  performAll_keeps (P := fun m => m.overrides.contains key = true)
    (fun c _ _ h => contains_overrides_perform c h) h

/-- What is not overridden is what was written last. -/
theorem find?_performAll_propagated (name : String) (dir : Path) (changes : List Change)
    (key value : String) :
    ((bare name dir).performAll changes).effective.find? key = some ⟨value, .propagated⟩ ↔
      ((bare name dir).performAll changes).overrides.find? key = none ∧
        (bare name dir).LastWritten changes key value := by
  induction changes using List.reverseRecOn with
  | nil =>
    constructor
    · intro h; cases h
    · rintro ⟨-, h⟩; exact absurd h not_lastWritten_nil
  | append_singleton changes c ih =>
    rw [performAll_concat]
    cases c with
    | plugin name =>
      rw [lastWritten_concat_of_not_writes (by rintro p other h; cases h)]
      exact ih
    | override other v =>
      rw [lastWritten_concat_of_not_writes (by rintro p other h; cases h), perform, setOverride]
      simp only [Table.find?_insert]
      by_cases hk : key = other
      · simp [hk]
      · rw [if_neg hk, if_neg hk]
        exact ih
    | policy p =>
      rw [perform, Propagator.find?_propagate, Propagator.overrides_propagate]
      cases hr : Propagator.ruling? (p.equip ((bare name dir).performAll changes))
          p.bundle.settings key with
      | none =>
        rw [lastWritten_concat_of_not_writes]
        · exact ih
        · rintro q other h
          cases h
          exact Propagator.not_writes_of_unruled hr
      | some s =>
        rw [lastWritten_concat_of_writes ((Propagator.writes_iff_of_ruled hr).mpr rfl),
          Propagator.writes_iff_of_ruled hr]
        cases ho : ((bare name dir).performAll changes).overrides.find? key <;>
          simp [entryFor, ho]

/-- A module after a run of changes, and what it was after the first `n` of them. The run
may apply plugins one by one or many at a time, for the latter is the former repeated. -/
theorem effective_performAll_bare (name : String) (dir : Path) (changes : List Change) :
    let made := bare name dir
    let m := made.performAll changes
    (∀ key value, m.effective.find? key = some ⟨value, .override⟩ ↔
      m.overrides.find? key = some value) ∧
    (∀ key value, m.effective.find? key = some ⟨value, .propagated⟩ ↔
      m.overrides.find? key = none ∧ made.LastWritten changes key value) ∧
    (∀ n, let earlier := made.performAll (changes.take n)
      (∀ x, earlier.hasPlugin x = true → m.hasPlugin x = true) ∧
      m.name = earlier.name ∧ m.dir = earlier.dir ∧
      ∀ key, (earlier.overrides.contains key = true → m.overrides.contains key = true) ∧
        ((∀ value, Change.override key value ∉ changes.drop n) →
          m.overrides.find? key = earlier.overrides.find? key)) ∧
    ∀ plugins, m.applyPlugins plugins = made.performAll (changes ++ plugins.map .plugin) := by
  intro made m
  refine ⟨(synced_bare name dir).performAll changes,
    find?_performAll_propagated name dir changes, fun n => ?_, fun plugins => ?_⟩
  · have hm : m = (made.performAll (changes.take n)).performAll (changes.drop n) := by
      rw [← performAll_append, List.take_append_drop]
    rw [hm]
    exact ⟨fun x hx => hasPlugin_performAll _ hx, name_performAll _ _, dir_performAll _ _,
      fun key => ⟨contains_overrides_performAll _, overrides_performAll⟩⟩
  · rw [performAll_append, applyPlugins_eq_performAll]

def latin : Propagator where
  bundle := { PolicyBundle.default with group := some "org", encoding := "ISO-8859-1" }
  encoding_not_blank := by decide +kernel

def rollout : List Change :=
  [.plugin "java", .policy .defaults, .override "group" "team", .policy latin]

/-- The second policy has the last word on the encoding, but not on the group. -/
theorem lastWritten_rollout :
    (bare "app" ⟨"app"⟩).LastWritten rollout "encoding" "ISO-8859-1" ∧
    ((bare "app" ⟨"app"⟩).performAll rollout).effective.find? "group" =
      some ⟨"team", .override⟩ := by
  obtain ⟨hoverride, hpropagated, -⟩ := effective_performAll_bare "app" ⟨"app"⟩ rollout
  exact ⟨((hpropagated "encoding" "ISO-8859-1").mp (by decide +kernel)).2,
    (hoverride "group" "team").mpr (by decide +kernel)⟩

end Module
end ModularBuild
