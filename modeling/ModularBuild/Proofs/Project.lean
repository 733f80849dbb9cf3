import ModularBuild.Project.Notation
import ModularBuild.Proofs.Module.Registry

/-! # The modules of a project

A checked project has distinct module names, so its registry is just its modules in their order.
Before the policy a module has the plugins of its entry; in the configured registry it has
those of the policy too. -/

namespace ModularBuild

theorem PluginSet.contains_ofList (plugins : List String) (x : String) :
    (ofList plugins).contains x = plugins.contains x := by
  rw [ofList, contains_addAll]
  exact Bool.or_false _

theorem Propagator.bundle_of_ofBundle {b : PolicyBundle} {catalog : Catalog} {p : Propagator}
    (h : ofBundle b catalog = .ok p) : p.bundle = b := by
  unfold ofBundle at h
  split at h
  · cases h
  · split at h
    · cases h; rfl
    · cases h

namespace Module

theorem setOverrides_eq (m : Module) (pairs : List (String × String)) :
    m.setOverrides pairs = { m with
      overrides := (m.setOverrides pairs).overrides
      effective := (m.setOverrides pairs).effective } := by
  induction pairs generalizing m with
  | nil => rfl
  | cons pair rest ih => exact ih (m.setOverride pair.1 pair.2)

variable (name : String) (dir : Path) (plugins : List String) (overrides : List (String × String))

theorem name_ofParts : (ofParts name dir plugins overrides).name = name := by
  rw [ofParts, setOverrides_eq, applyPlugins_eq]
  rfl

theorem plugins_ofParts : (ofParts name dir plugins overrides).plugins = .ofList plugins := by
  rw [ofParts, setOverrides_eq, applyPlugins_eq]
  rfl

end Module

namespace Project

variable {p : Project} {e : ModuleEntry}

theorem checkModules_eq_ok_iff {seen : List String} {entries : List ModuleEntry} :
    checkModules seen entries = .ok () ↔
      (∀ e ∈ entries, Text.allBlank e.name = false ∧ e.dir.isAbsolute = false ∧ e.name ∉ seen) ∧
        (entries.map (·.name)).Nodup := by
  induction entries generalizing seen with
  | nil => simp [checkModules]
  | cons e rest ih =>
    rw [checkModules, List.forall_mem_cons, List.map_cons, List.nodup_cons]
    cases hblank : Text.allBlank e.name with
    | true => simp
    | false =>
      cases habs : e.dir.isAbsolute with
      | true => simp
      | false =>
        by_cases hseen : e.name ∈ seen
        · simp [hseen]
        · simp only [Bool.false_eq_true, if_false, if_neg hseen, ih, List.mem_cons, not_or,
            List.mem_map, not_exists, not_and]
          constructor
          · rintro ⟨hall, hnodup⟩
            refine ⟨⟨⟨trivial, trivial, hseen⟩, fun x hx => ?_⟩, fun x hx => ?_, hnodup⟩
            · exact ⟨(hall x hx).1, (hall x hx).2.1, (hall x hx).2.2.2⟩
            · exact (hall x hx).2.2.1
          · rintro ⟨⟨-, hall⟩, hne, hnodup⟩
            exact ⟨fun x hx => ⟨(hall x hx).1, (hall x hx).2.1, hne x hx, (hall x hx).2.2⟩, hnodup⟩

theorem check_eq_ok_iff : p.check = .ok () ↔
    (∀ e ∈ p.modules, Text.allBlank e.name = false ∧ e.dir.isAbsolute = false) ∧
      (p.modules.map (·.name)).Nodup ∧ Text.allBlank p.policy.encoding = false := by
  rw [check, Outcome.bind_eq_ok_iff]
  cases hblank : Text.allBlank p.policy.encoding with
  | true => simp [throw, throwThe, MonadExceptOf.throw]
  | false =>
    simp only [Bool.false_eq_true, if_false, pure, Except.pure, and_true]
    rw [show (∃ u, checkModules [] p.modules = .ok u) ↔ checkModules [] p.modules = .ok () from
      ⟨fun ⟨_, h⟩ => h, fun h => ⟨(), h⟩⟩, checkModules_eq_ok_iff]
    simp

/-- A text is a project if it spells out one that passes the check. -/
theorem ofYaml_eq_ok_iff {yaml : String} :
    ofYaml yaml = .ok p ↔ Yaml.decode yaml read = .ok p ∧ p.check = .ok () := by
  constructor
  · intro h
    obtain ⟨p', hread, h⟩ := Outcome.bind_eq_ok_iff.mp h
    obtain ⟨_, hcheck, h⟩ := Outcome.bind_eq_ok_iff.mp h
    cases h
    exact ⟨Outcome.mapError_eq_ok_iff.mp hread, hcheck⟩
  · intro ⟨hread, hcheck⟩
    exact Outcome.bind_eq_ok_iff.mpr ⟨p, Outcome.mapError_eq_ok_iff.mpr hread,
      Outcome.bind_eq_ok_iff.mpr ⟨(), hcheck, rfl⟩⟩

/-- A project that was loaded has been checked. -/
theorem check_of_load {t : FileTree} {path : Path} (h : load t path = .ok p) :
    p.check = .ok () := by
  obtain ⟨yaml, -, h⟩ := Outcome.bind_eq_ok_iff.mp h
  obtain ⟨p', hread, h⟩ := Outcome.bind_eq_ok_iff.mp h
  cases h
  exact (ofYaml_eq_ok_iff.mp hread).2

/-! ## Registries -/

theorem name_moduleOf (p : Project) (e : ModuleEntry) : (p.moduleOf e).name = e.name :=
  Module.name_ofParts ..

theorem nodup_names_of_check (h : p.check = .ok ()) :
    ((p.modules.map p.moduleOf).map (·.name)).Nodup := by
  rw [List.map_map]
  simpa only [Function.comp_def, name_moduleOf] using (check_eq_ok_iff.mp h).2.1

theorem exists_registry (h : p.check = .ok ()) : ∃ r, p.registry = .ok r :=
  Registry.ofModules_of_nodup (nodup_names_of_check h)

theorem modules_of_registry {r : Registry} (h : p.registry = .ok r) :
    r.modules = p.modules.map p.moduleOf := Registry.modules_of_ofModules h

/-- The configured modules are those of the registry, each after one propagation. -/
theorem modules_of_configuredRegistry {r : Registry} (h : p.configuredRegistry = .ok r) :
    ∃ policy : Propagator, policy.bundle = p.policy ∧
      r.modules = p.modules.map fun e => policy.propagate (p.moduleOf e) := by
  obtain ⟨policy, hpolicy, h⟩ := Outcome.bind_eq_ok_iff.mp h
  obtain ⟨plain, hplain, h⟩ := Outcome.bind_eq_ok_iff.mp h
  cases h
  refine ⟨policy, Propagator.bundle_of_ofBundle hpolicy, ?_⟩
  rw [Registry.modules_propagateAll, modules_of_registry hplain, List.map_map]
  rfl

/-- The registry of a checked project has the module of each entry under its name. -/
theorem get?_registry (hcheck : p.check = .ok ()) (he : e ∈ p.modules) :
    ∃ r, p.registry = .ok r ∧ r.get? e.name = some (p.moduleOf e) := by
  obtain ⟨r, hr⟩ := exists_registry hcheck
  refine ⟨r, hr, Registry.get?_eq_some_iff.mpr ⟨?_, p.name_moduleOf e⟩⟩
  rw [modules_of_registry hr]
  exact List.mem_map_of_mem he

theorem hasPlugin_moduleOf (p : Project) (e : ModuleEntry) (plugin : String) :
    (p.moduleOf e).hasPlugin plugin = e.plugins.contains plugin := by
  rw [Module.hasPlugin, moduleOf, Module.plugins_ofParts, PluginSet.contains_ofList]

/-- In the configured registry the plugins are those of the entry and of the policy. -/
theorem get?_configuredRegistry (hcheck : p.check = .ok ()) (he : e ∈ p.modules) {r : Registry}
    (hr : p.configuredRegistry = .ok r) :
    ∃ m, r.get? e.name = some m ∧ ∀ plugin,
      m.hasPlugin plugin = (p.policy.plugins.contains plugin || e.plugins.contains plugin) := by
  obtain ⟨policy, hpolicy, hr⟩ := Outcome.bind_eq_ok_iff.mp hr
  obtain ⟨plain, hplain, hr⟩ := Outcome.bind_eq_ok_iff.mp hr
  cases hr
  obtain ⟨plain', hplain', hget⟩ := get?_registry hcheck he
  cases hplain.symm.trans hplain'
  refine ⟨_, Registry.get?_propagateAll policy hget, fun plugin => ?_⟩
  rw [Module.hasPlugin, Propagator.plugins_propagate, PluginSet.contains_addAll,
    Propagator.bundle_of_ofBundle hpolicy]
  exact congrArg _ (p.hasPlugin_moduleOf e plugin)

end Project
end ModularBuild
