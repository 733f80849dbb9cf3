import ModularBuild.Proofs.Policy.Catalog
import ModularBuild.Proofs.Policy.Provenance
import ModularBuild.Proofs.Project

/-! # The effective configuration of a project

In the configured registry of a project every module has, under each key, its own override or
else what the policy has for the key, if the plugin that this asks for is there in the end. The
policy is described by the settings that it yields, without the order in which they come. -/

namespace ModularBuild

/-! ## The settings of a policy -/

namespace PolicyBundle

/-- The policy has the value for the key, for all modules or for those with a plugin. -/
inductive Yields (b : PolicyBundle) : String → String → Option String → Prop
  | group {value : String} (h : b.group = some value) : Yields b "group" value none
  | encoding : Yields b "encoding" b.encoding (some "java")
  | tool {tool : Tool} {version : String} (h : b.toolchains.get tool = some version) :
      Yields b ("toolchain." ++ tool.name) version (if tool = .jacoco then some "jacoco" else none)
  | manifest {name value : String} (h : b.manifest.find? name = some value) :
      Yields b ("manifest." ++ name) value (some "java")

theorem mem_toolSettings_iff {b : PolicyBundle} {s : Setting} : s ∈ b.toolSettings ↔
    ∃ tool version, b.toolchains.get tool = some version ∧
      s = ⟨"toolchain." ++ tool.name, version, if tool = .jacoco then some "jacoco" else none⟩ := by
  have hplugin : ∀ tool : Tool,
      tool.requiredPlugin? = if tool = .jacoco then some "jacoco" else none := by
    intro tool
    cases tool <;> rfl
  simp only [toolSettings, List.mem_map]
  constructor
  · rintro ⟨⟨tool, version⟩, hpresent, rfl⟩
    exact ⟨tool, version, PerTool.mem_present_iff.mp hpresent, by rw [← hplugin]; rfl⟩
  · rintro ⟨tool, version, hversion, rfl⟩
    exact ⟨(tool, version), PerTool.mem_present_iff.mpr hversion, by rw [← hplugin]; rfl⟩

theorem mem_settings_iff {b : PolicyBundle} {s : Setting} :
    s ∈ b.settings ↔ b.Yields s.key s.value s.requiredPlugin := by
  simp only [settings, List.mem_append, List.mem_cons, Option.mem_toList, Option.map_eq_some_iff,
    mem_toolSettings_iff, manifestSettings, List.mem_map, or_assoc]
  constructor
  · rintro (⟨group, hgroup, rfl⟩ | rfl | ⟨tool, version, hversion, rfl⟩ | ⟨row, hrow, rfl⟩)
    · exact .group hgroup
    · exact .encoding
    · exact .tool hversion
    · exact .manifest (Table.find?_eq_some_iff.mpr hrow)
  · obtain ⟨key, value, plugin⟩ := s
    rintro (hgroup | _ | hversion | hvalue)
    · exact .inl ⟨value, hgroup, rfl⟩
    · exact .inr (.inl rfl)
    · exact .inr (.inr (.inl ⟨_, value, hversion, rfl⟩))
    · exact .inr (.inr (.inr ⟨_, Table.find?_eq_some_iff.mp hvalue, rfl⟩))

end PolicyBundle

/-! ## Modules before the policy -/

namespace Module

/-- Only overrides are effective. -/
def Undirected (m : Module) : Prop :=
  ∀ key, m.effective.find? key = (m.overrides.find? key).map (⟨·, .override⟩)

theorem Undirected.setOverrides {m : Module} (hm : m.Undirected) (pairs : List (String × String)) :
    (m.setOverrides pairs).Undirected := by
  induction pairs generalizing m with
  | nil => exact hm
  | cons pair rest ih =>
    refine ih (m := m.setOverride pair.1 pair.2) fun key => ?_
    rw [setOverride, Table.find?_insert, Table.find?_insert, hm key]
    split <;> rfl

theorem undirected_ofParts (name : String) (dir : Path) (plugins : List String)
    (overrides : List (String × String)) : (ofParts name dir plugins overrides).Undirected := by
  refine Undirected.setOverrides (fun key => ?_) overrides
  rw [applyPlugins_eq]
  rfl

theorem overrides_setOverrides (m : Module) (pairs : List (String × String)) :
    (m.setOverrides pairs).overrides = m.overrides.insertMany pairs := by
  induction pairs generalizing m with
  | nil => rfl
  | cons pair rest ih => exact ih (m.setOverride pair.1 pair.2)

theorem overrides_ofParts (name : String) (dir : Path) (plugins : List String)
    (overrides : Table String String) :
    (ofParts name dir plugins overrides.rows).overrides = overrides := by
  rw [ofParts, overrides_setOverrides, applyPlugins_eq]
  exact overrides.ofList_rows

end Module

/-! ## Modules under the policy -/

theorem Propagator.writes_iff {p : Propagator} {m : Module} {key value : String} :
    p.Writes m key value ↔ ∃ required, p.bundle.Yields key value required ∧
      ∀ plugin, required = some plugin → (p.propagate m).hasPlugin plugin = true := by
  simp only [Writes, PolicyBundle.mem_settings_iff, Setting.appliesTo_iff, Module.hasPlugin,
    plugins_equip, plugins_propagate]
  constructor
  · rintro ⟨s, hs, rfl, rfl, happlies⟩
    exact ⟨s.requiredPlugin, hs, happlies⟩
  · rintro ⟨required, hyields, happlies⟩
    exact ⟨⟨key, value, required⟩, hyields, rfl, rfl, happlies⟩

theorem Propagator.find?_propagate_undirected {p : Propagator} {m : Module} (hm : m.Undirected)
    {key : String} (hkey : m.overrides.find? key = none) {v : ConfigValue} :
    (p.propagate m).effective.find? key = some v ↔
      v.provenance = .propagated ∧ p.Writes m key v.value := by
  rw [find?_propagate]
  cases hr : ruling? (p.equip m) p.bundle.settings key with
  | none =>
    rw [hm key, hkey]
    constructor
    · intro h; cases h
    · rintro ⟨-, h⟩; exact absurd h (not_writes_of_unruled hr)
  | some s =>
    obtain ⟨value, provenance⟩ := v
    simp only [writes_iff_of_ruled hr, Module.entryFor, hkey, Option.some.injEq,
      ConfigValue.mk.injEq]
    constructor
    · rintro ⟨hvalue, hprovenance⟩
      exact ⟨hprovenance.symm, hvalue⟩
    · rintro ⟨hprovenance, hvalue⟩
      exact ⟨hvalue, hprovenance.symm⟩

namespace Project

variable {p : Project} {e : ModuleEntry} {r : Registry}

/-- The plugin comes to the module from its own entry or from the policy. -/
def Equips (p : Project) (e : ModuleEntry) (plugin : String) : Prop :=
  plugin ∈ e.plugins ∨ plugin ∈ p.policy.plugins

/-- The policy yields the value for the key, and no plugin that this asks for is missing. -/
def Grants (p : Project) (e : ModuleEntry) (key value : String) : Prop :=
  ∃ required, p.policy.Yields key value required ∧
    ∀ plugin, required = some plugin → p.Equips e plugin

/-- What the configured registry has for a declared module: the plugins of the entry and of the
policy, and under each key the override or else what the policy grants. -/
theorem effective_configuredRegistry (hr : p.configuredRegistry = .ok r) (he : e ∈ p.modules) :
    ∃ m, r.get? e.name = some m ∧
      (∀ plugin, m.hasPlugin plugin = true ↔ p.Equips e plugin) ∧
      (∀ key value, e.overrides.find? key = some value →
        m.effective.find? key = some ⟨value, .override⟩) ∧
      ∀ key, e.overrides.find? key = none → ∀ v, m.effective.find? key = some v ↔
        v.provenance = .propagated ∧ p.Grants e key v.value := by
  obtain ⟨policy, hpolicy, hmodules⟩ := modules_of_configuredRegistry hr
  have hoverrides : (p.moduleOf e).overrides = e.overrides := Module.overrides_ofParts ..
  have hundirected : (p.moduleOf e).Undirected := Module.undirected_ofParts _ _ _ _
  have hplugins : ∀ plugin, (policy.propagate (p.moduleOf e)).hasPlugin plugin = true ↔
      p.Equips e plugin := by
    intro plugin
    rw [Module.hasPlugin, Propagator.plugins_propagate, PluginSet.contains_addAll, hpolicy,
      show (p.moduleOf e).plugins.contains plugin = _ from p.hasPlugin_moduleOf e plugin,
      Bool.or_eq_true, List.contains_iff_mem, List.contains_iff_mem, Equips, or_comm]
  refine ⟨policy.propagate (p.moduleOf e), ?_, hplugins, fun key value hkey => ?_,
    fun key hkey v => ?_⟩
  · refine Registry.get?_eq_some_iff.mpr ⟨?_, ?_⟩
    · rw [hmodules]
      exact List.mem_map_of_mem he
    · rw [Propagator.name_propagate, name_moduleOf]
  · rw [Propagator.find?_propagate, hundirected key]
    simp only [Module.entryFor, hoverrides, hkey]
    split <;> rfl
  · rw [Propagator.find?_propagate_undirected hundirected (hoverrides ▸ hkey),
      Propagator.writes_iff, hpolicy]
    simp only [hplugins]
    rfl

/-- Two modules under one policy: the first compiles sources and has an encoding of its own. -/
def bilingual : Project :=
  { empty with
    modules :=
      [⟨"core", ⟨"core"⟩, ["java", "jacoco"], .ofList [("encoding", "ASCII"), ("owner", "team")],
        none, [], []⟩, ⟨"docs", ⟨"docs"⟩, [], ∅, none, [], []⟩]
    policy := { PolicyBundle.default with
      group := some "org"
      toolchains := ⟨none, none, some "0.8.4"⟩
      manifest := .ofList [("Title", "Example")] } }

theorem effective_bilingual : ∃ r, bilingual.configuredRegistry = .ok r ∧
    (∃ core, r.get? "core" = some core ∧
      core.effective.find? "encoding" = some ⟨"ASCII", .override⟩ ∧
      core.effective.find? "owner" = some ⟨"team", .override⟩ ∧
      core.effective.find? "toolchain.jacoco" = some ⟨"0.8.4", .propagated⟩ ∧
      core.effective.find? "manifest.Title" = some ⟨"Example", .propagated⟩) ∧
    ∃ docs, r.get? "docs" = some docs ∧ docs.hasPlugin "signing" = true ∧
      docs.effective.find? "group" = some ⟨"org", .propagated⟩ := by
  have hok : bilingual.configuredRegistry.isOk = true := by decide +kernel
  obtain ⟨r, hr⟩ := Outcome.isOk_iff.mp hok
  have hjacoco : bilingual.policy.toolchains.get .jacoco = some "0.8.4" := rfl
  have hjava : ∀ plugin, some "java" = some plugin →
      bilingual.Equips bilingual.modules[0] plugin := by
    rintro _ ⟨⟩
    exact .inl (by decide)
  obtain ⟨core, hcore, -, hown, hgranted⟩ :=
    effective_configuredRegistry hr (e := bilingual.modules[0]) (by simp)
  obtain ⟨docs, hdocs, hplugins, -, hshared⟩ :=
    effective_configuredRegistry hr (e := bilingual.modules[1]) (by simp)
  refine ⟨r, hr, ⟨core, hcore, hown _ _ (by decide +kernel), hown _ _ (by decide +kernel), ?_, ?_⟩,
    docs, hdocs, (hplugins _).mpr (.inr (by decide)), ?_⟩
  · refine (hgranted _ (by decide +kernel) _).mpr ⟨rfl, _, .tool hjacoco, ?_⟩
    rintro _ ⟨⟩
    exact .inl (by decide)
  · have htitle : bilingual.policy.manifest.find? "Title" = some "Example" := by decide +kernel
    exact (hgranted _ (by decide +kernel) _).mpr ⟨rfl, _, .manifest htitle, hjava⟩
  · exact (hshared _ rfl _).mpr ⟨rfl, _, .group rfl, fun _ h => nomatch h⟩

end Project
end ModularBuild
