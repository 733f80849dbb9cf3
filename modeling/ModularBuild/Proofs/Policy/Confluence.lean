import ModularBuild.Module.Change
import ModularBuild.Proofs.Policy.Propagation

/-! # Only the last propagation counts

A propagation makes an earlier one of the same policy undone: under a key that the earlier
one wrote it writes again, for plugins are never taken away and a setting that was allowed
stays allowed, and under any other key the earlier one left the value alone. This holds for
whatever single change comes between the two; a run follows by induction on its changes. -/

namespace ModularBuild

/-- Whether the change is a propagation. -/
def Change.isPolicy : Change → Bool
  | .policy _ => true
  | .plugin _ | .override .. => false

namespace Propagator

variable {p : Propagator}

/-- A bundle sees no difference between modules that differ only where it rules. -/
theorem propagate_congr {a b : Module} (hname : a.name = b.name) (hdir : a.dir = b.dir)
    (hoverrides : a.overrides = b.overrides)
    (hplugins : (p.equip a).plugins = (p.equip b).plugins)
    (hunruled : ∀ key, ruling? (p.equip b) p.bundle.settings key = none →
      a.effective.find? key = b.effective.find? key) :
    p.propagate a = p.propagate b := by
  have heffective : (p.propagate a).effective = (p.propagate b).effective := by
    refine Table.ext_find? fun key => ?_
    rw [find?_propagate, find?_propagate, ruling?_congr hplugins]
    cases hr : ruling? (p.equip b) p.bundle.settings key with
    | none => exact hunruled key hr
    | some s => simp only [Module.entryFor, hoverrides]
  rw [plugins_equip, plugins_equip] at hplugins
  rw [propagate_eq p a, propagate_eq p b, hplugins, heffective, hname, hdir, hoverrides]

/-! ## One change in between -/

theorem propagate_propagate (p : Propagator) (m : Module) :
    p.propagate (p.propagate m) = p.propagate m := by
  refine propagate_congr (name_propagate p m) (dir_propagate p m) (overrides_propagate p m) ?_
    fun key hr => find?_propagate_of_unruled hr
  rw [plugins_equip, plugins_equip, plugins_propagate, PluginSet.addAll_addAll]

theorem propagate_applyPlugin_propagate (p : Propagator) (m : Module) (plugin : String) :
    p.propagate ((p.propagate m).applyPlugin plugin) = p.propagate (m.applyPlugin plugin) := by
  refine propagate_congr (name_propagate p m) (dir_propagate p m) (overrides_propagate p m) ?_ ?_
  · rw [plugins_equip, plugins_equip, Module.applyPlugin, Module.applyPlugin, plugins_propagate,
      PluginSet.add_addAll, PluginSet.addAll_addAll]
  · intro key hr
    refine find?_propagate_of_unruled (ruling?_eq_none_of_more (fun x hx => ?_) hr)
    rw [plugins_equip] at hx ⊢
    simp only [Module.applyPlugin, PluginSet.contains_addAll, PluginSet.contains_add,
      Bool.or_eq_true] at hx ⊢
    exact hx.imp_right .inr

theorem propagate_setOverride_propagate (p : Propagator) (m : Module) (key value : String) :
    p.propagate ((p.propagate m).setOverride key value) =
      p.propagate (m.setOverride key value) := by
  have hplugins : (p.equip ((p.propagate m).setOverride key value)).plugins =
      (p.equip (m.setOverride key value)).plugins := by
    rw [plugins_equip, plugins_equip, Module.setOverride, Module.setOverride, plugins_propagate,
      PluginSet.addAll_addAll]
  have hoverrides : ((p.propagate m).setOverride key value).overrides =
      (m.setOverride key value).overrides := by
    simp only [Module.setOverride, overrides_propagate]
  refine propagate_congr (name_propagate p m) (dir_propagate p m) hoverrides hplugins ?_
  intro other hr
  have hequip : (p.equip (m.setOverride key value)).plugins = (p.equip m).plugins := by
    rw [plugins_equip, plugins_equip, Module.setOverride]
  rw [ruling?_congr hequip] at hr
  simp only [Module.setOverride, Table.find?_insert]
  rw [find?_propagate_of_unruled hr]

/-- A propagation before the change makes no difference to one after it. -/
theorem propagate_perform_propagate (p : Propagator) (m : Module) {c : Change}
    (hc : ∀ q, c = .policy q → q = p) :
    p.propagate ((p.propagate m).perform c) = p.propagate (m.perform c) := by
  cases c with
  | plugin name => exact propagate_applyPlugin_propagate p m name
  | override key value => exact propagate_setOverride_propagate p m key value
  | policy q =>
    have hq : q = p := hc q rfl
    subst hq
    rw [Module.perform, Module.perform, propagate_propagate]

/-! ## Runs -/

/-- A run keeps modules together that only a propagation tells apart. -/
theorem propagate_performAll_congr {changes : List Change}
    (h : ∀ c ∈ changes, c.isPolicy = false) {a b : Module}
    (hab : p.propagate a = p.propagate b) :
    p.propagate (a.performAll changes) = p.propagate (b.performAll changes) := by
  induction changes generalizing a b with
  | nil => exact hab
  | cons c rest ih =>
    have hc : ∀ q, c = .policy q → q = p := by
      rintro q rfl
      cases h _ List.mem_cons_self
    refine ih (fun x hx => h x (List.mem_cons_of_mem _ hx)) ?_
    rw [← propagate_perform_propagate p a hc, hab, propagate_perform_propagate p b hc]

theorem propagate_performAll (p : Propagator) (m : Module) {changes : List Change}
    (h : ∀ q, Change.policy q ∈ changes → q = p) :
    p.propagate (m.performAll changes) =
      p.propagate (m.performAll (changes.filter fun c => !c.isPolicy)) := by
  induction changes generalizing m with
  | nil => rfl
  | cons c rest ih =>
    have hrest := ih (m.perform c) fun q hq => h q (List.mem_cons_of_mem _ hq)
    cases c with
    | plugin name => exact hrest
    | override key value => exact hrest
    | policy q =>
      have hq : q = p := h q List.mem_cons_self
      subst hq
      refine hrest.trans (propagate_performAll_congr (fun c hc => ?_) (propagate_propagate q m))
      simpa using (List.mem_filter.mp hc).2

end Propagator

/-- A run that ends in a propagation of a policy, and has no other policy in it, comes to the
same module as the other changes of the run and one propagation after them. -/
theorem Module.performAll_policy (p : Propagator) (m : Module) :
    (∀ changes, (∀ q, Change.policy q ∈ changes → q = p) →
      m.performAll (changes ++ [.policy p]) =
        p.propagate (m.performAll (changes.filter fun c => !c.isPolicy))) ∧
    ∀ n, m.performAll (List.replicate (n + 1) (.policy p)) = p.propagate m := by
  have hlast : ∀ changes, m.performAll (changes ++ [.policy p]) =
      p.propagate (m.performAll changes) := by
    intro changes
    rw [performAll, List.foldl_append]
    rfl
  constructor
  · intro changes h
    rw [hlast, Propagator.propagate_performAll p m h]
  · intro n
    have hall : ∀ q, Change.policy q ∈ List.replicate n (Change.policy p) → q = p := by
      intro q hq
      exact Change.policy.inj (List.eq_of_mem_replicate hq)
    have hnone : (List.replicate n (Change.policy p)).filter (fun c => !c.isPolicy) = [] := by
      rw [List.filter_replicate]
      rfl
    rw [List.replicate_succ', hlast, Propagator.propagate_performAll p m hall, hnone]
    rfl

def Propagator.defaults : Propagator := ⟨.default, by decide +kernel⟩

theorem Module.performAll_defaults :
    (∀ q, Change.policy q ∈ [.policy .defaults, .plugin "java", .override "encoding" "ASCII"] →
      q = .defaults) ∧
    (Module.bare "app" ⟨"app"⟩).performAll
        [.policy .defaults, .plugin "java", .override "encoding" "ASCII", .policy .defaults] =
      Propagator.defaults.propagate ((Module.bare "app" ⟨"app"⟩).performAll
        [.plugin "java", .override "encoding" "ASCII"]) := by
  have h : ∀ q, Change.policy q ∈
      [.policy .defaults, .plugin "java", .override "encoding" "ASCII"] → q = .defaults := by
    intro q hq
    simpa using hq
  exact ⟨h, (performAll_policy .defaults (Module.bare "app" ⟨"app"⟩)).1 _ h⟩

end ModularBuild
