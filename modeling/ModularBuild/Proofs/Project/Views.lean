import ModularBuild.Proofs.Policy.Catalog
import ModularBuild.Proofs.Project

/-! # The views of a checked project

The registry, the configured registry and the coverage inputs of a project are made from its
entries one by one, and each makes checks of its own. For a project that has been checked only one
of these can fail: a pinned version of a tool may be unknown. So the lists stay
aligned for whatever is read from a notation. -/

namespace ModularBuild

theorem Module.dir_ofParts (name : String) (dir : Path) (plugins : List String)
    (overrides : List (String × String)) : (ofParts name dir plugins overrides).dir = dir := by
  rw [ofParts, setOverrides_eq, applyPlugins_eq]
  rfl

namespace Project

variable {p : Project} {tool : Tool} {version : String} {r : Registry}

/-! ## Unknown versions -/

/-- The policy pins a version that is neither built in nor added by the project. -/
def Unknown (p : Project) (tool : Tool) (version : String) : Prop :=
  p.policy.toolchains.get tool = some version ∧
    Catalog.builtin.isKnown tool version = false ∧
    ∀ added, p.knownToolchains.get tool = some added → version ∉ added

theorem lacks_catalog_iff : p.catalog.Lacks p.policy tool version ↔ p.Unknown tool version := by
  rw [Catalog.Lacks, Unknown, Bool.eq_false_iff, Bool.eq_false_iff, ne_eq, ne_eq, catalog,
    Catalog.isKnown_foldl_addVersions, not_or]
  simp only [PerTool.mem_present_iff, not_exists, not_and]

/-- The checked names leave the policy as the only reason to have no configured registry. -/
theorem configuredRegistry_eq (hcheck : p.check = .ok ()) :
    ∃ r, p.registry = .ok r ∧ p.configuredRegistry = p.propagator.map r.propagateAll := by
  obtain ⟨r, hr⟩ := exists_registry hcheck
  refine ⟨r, hr, ?_⟩
  rw [configuredRegistry, hr]
  cases p.propagator <;> rfl

theorem exists_configuredRegistry_iff (hcheck : p.check = .ok ()) :
    (∃ r, p.configuredRegistry = .ok r) ↔ ∀ tool version, ¬ p.Unknown tool version := by
  have hpropagator :=
    Propagator.exists_ofBundle_iff (c := p.catalog) (check_eq_ok_iff.mp hcheck).2.2
  obtain ⟨r, -, hr⟩ := configuredRegistry_eq hcheck
  simp only [lacks_catalog_iff] at hpropagator
  rw [← hpropagator, hr, propagator]
  cases Propagator.ofBundle p.policy p.catalog <;> simp [Except.map]

theorem configuredRegistry_eq_error_iff (hcheck : p.check = .ok ()) {e : BuildError} :
    p.configuredRegistry = .error e ↔
      ∃ before tool after version, Tool.all = before ++ tool :: after ∧
        (∀ earlier ∈ before, ∀ v, ¬ p.Unknown earlier v) ∧ p.Unknown tool version ∧
        e = .unknownToolchain tool.name version (p.catalog.versions tool) := by
  have hpropagator := Propagator.ofBundle_eq_error_iff (c := p.catalog) (e := e)
    (check_eq_ok_iff.mp hcheck).2.2
  obtain ⟨r, -, hr⟩ := configuredRegistry_eq hcheck
  simp only [lacks_catalog_iff] at hpropagator
  rw [← hpropagator, hr, propagator]
  cases Propagator.ofBundle p.policy p.catalog <;> simp [Except.map]

/-! ## Aligned lists -/

/-- The names of the modules and their directories, in the order of declaration. -/
def places (p : Project) : List (String × Path) :=
  p.modules.map fun e => (e.name, p.root.join e.dir)

theorem places_registry (h : p.registry = .ok r) :
    (r.modules.map fun m => (m.name, m.dir)) = p.places := by
  rw [modules_of_registry h, List.map_map]
  refine List.map_congr_left fun e _ => ?_
  exact Prod.ext (p.name_moduleOf e) (Module.dir_ofParts ..)

theorem places_configuredRegistry (h : p.configuredRegistry = .ok r) :
    (r.modules.map fun m => (m.name, m.dir)) = p.places := by
  obtain ⟨policy, -, hmodules⟩ := modules_of_configuredRegistry h
  rw [hmodules, List.map_map]
  refine List.map_congr_left fun e _ => ?_
  exact Prod.ext ((policy.name_propagate _).trans (p.name_moduleOf e))
    ((policy.dir_propagate _).trans (Module.dir_ofParts ..))

/-- The places of a module's coverage, each seen from the module's directory: what the entry
declares, or else the conventional places. -/
def CoversDeclared (p : Project) (e : ModuleEntry) (c : ModuleCoverage) : Prop :=
  let dir := p.root.join e.dir
  c.module = e.name ∧
  c.executionData = some (dir.join (e.executionData.getD ⟨"build/jacoco/test.exec"⟩)) ∧
  c.classDirs =
    (if e.classDirs = [] then [⟨"build/classes/java/main"⟩] else e.classDirs).map dir.join ∧
  c.sourceDirs =
    (if e.sourceDirs = [] then [⟨"src/main/java"⟩] else e.sourceDirs).map dir.join

theorem coversDeclared_coverageOf (p : Project) (e : ModuleEntry) :
    p.CoversDeclared e (p.coverageOf e) := by
  refine ⟨rfl, ?_, ?_, ?_⟩
  · simp only [coverageOf]
    cases e.executionData <;> rfl
  · simp only [coverageOf, List.isEmpty_iff]
    split <;> rfl
  · simp only [coverageOf, List.isEmpty_iff]
    split <;> rfl

/-- The views agree with the declared modules, and the configured one is missing only for
an unknown version. -/
structure Consistent (p : Project) : Prop where
  registry : ∃ r, p.registry = .ok r ∧ (r.modules.map fun m => (m.name, m.dir)) = p.places
  coverage : List.Forall₂ p.CoversDeclared p.modules p.coverageInputs
  configured : ∀ r, p.configuredRegistry = .ok r →
    (r.modules.map fun m => (m.name, m.dir)) = p.places
  fails : (∃ e, p.configuredRegistry = .error e) ↔ ∃ tool version, p.Unknown tool version
  failure : ∀ e, p.configuredRegistry = .error e → ∃ before tool after version,
    [.checkstyle, .spotbugs, .jacoco] = before ++ tool :: after ∧
    (∀ earlier ∈ before, ∀ v, ¬ p.Unknown earlier v) ∧ p.Unknown tool version ∧
    e = .unknownToolchain tool.name version (p.catalog.versions tool)

theorem consistent_of_check (hcheck : p.check = .ok ()) : p.Consistent where
  registry := by
    obtain ⟨r, hr⟩ := exists_registry hcheck
    exact ⟨r, hr, places_registry hr⟩
  coverage := by
    rw [coverageInputs, List.forall₂_map_right_iff]
    exact List.forall₂_same.mpr fun e _ => p.coversDeclared_coverageOf e
  configured _ h := places_configuredRegistry h
  fails := by
    rw [← not_iff_not, ← Outcome.exists_ok_iff, exists_configuredRegistry_iff hcheck]
    simp only [not_exists]
  failure _ h := (configuredRegistry_eq_error_iff hcheck).mp h

/-! ## Projects from their notation -/

/-- What the check rejects: a blank name, an absolute directory, a name used twice or a policy
without an encoding. -/
def Flawed (p : Project) : Prop :=
  (∃ e ∈ p.modules, Text.allBlank e.name = true) ∨ (∃ e ∈ p.modules, e.dir.isAbsolute = true) ∨
    ¬ (p.modules.map (·.name)).Nodup ∨ Text.allBlank p.policy.encoding = true

theorem exists_check_eq_error_iff : (∃ e, p.check = .error e) ↔ p.Flawed := by
  have hsplit : p.Flawed ↔ ¬ p.check = .ok () := by
    simp only [check_eq_ok_iff, Flawed, not_and_or, not_forall, Bool.not_eq_false, exists_prop,
      and_or_left, exists_or, or_assoc]
  rw [hsplit]
  cases p.check <;> simp

/-- A project that is read from its notation has consistent views, wherever its root is, and a
project that the notation spells out is rejected only for its flaws. -/
theorem consistent_of_ofYaml (yaml : String) (root : Path) :
    (∀ p, ofYaml yaml = .ok p → ({ p with root } : Project).Consistent) ∧
      ∀ p, Yaml.decode yaml read = .ok p → ((∃ e, ofYaml yaml = .error e) ↔ p.Flawed) := by
  constructor
  · intro p h
    have hcheck : ({ p with root } : Project).check = .ok () := (ofYaml_eq_ok_iff.mp h).2
    exact consistent_of_check hcheck
  · intro p h
    have hread : ofYaml yaml = p.check.map fun _ => p := by
      rw [ofYaml, h]
      change (p.check >>= fun _ => Except.ok p) = _
      cases p.check <;> rfl
    rw [hread, ← exists_check_eq_error_iff]
    cases p.check <;> simp [Except.map]

/-- Declared and conventional places, a version that is added and one that nobody knows. -/
def pinned : String :=
  "modules:\n  - { name: core, dir: core, class_dirs: [out] }\n  - { name: http, dir: http }\n" ++
  "policy:\n  toolchains: { checkstyle: 9.0.1, jacoco: 0.1.0 }\n" ++
  "known_toolchains:\n  checkstyle: [9.0.1]\n"

def pinnedProject : Project :=
  { empty with
    modules :=
      [⟨"core", ⟨"core"⟩, [], ∅, none, [⟨"out"⟩], []⟩, ⟨"http", ⟨"http"⟩, [], ∅, none, [], []⟩]
    policy := { PolicyBundle.default with toolchains := ⟨some "9.0.1", none, some "0.1.0"⟩ }
    knownToolchains := ⟨some ["9.0.1"], none, none⟩
    root := ⟨"."⟩ }

def namesake : String :=
  "modules:\n  - { name: core, dir: core }\n  - { name: core, dir: copy }\n"

theorem consistent_pinned :
    (∃ p, ofYaml pinned = .ok p ∧ ({ p with root := ⟨"home"⟩ } : Project).Consistent ∧
      ∃ e, ({ p with root := ⟨"home"⟩ } : Project).configuredRegistry = .error e) ∧
    ∃ e, ofYaml namesake = .error e := by
  have hpinned : ofYaml pinned = .ok pinnedProject :=
    Outcome.toOption_eq_some_iff.mp (by decide +kernel)
  have hviews := (consistent_of_ofYaml pinned ⟨"home"⟩).1 _ hpinned
  have hnamesake : ((Yaml.decode namesake read).toOption.map (·.modules.map (·.name))) =
      some ["core", "core"] := by decide +kernel
  obtain ⟨p, hp, hnames⟩ := Option.map_eq_some_iff.mp hnamesake
  have hflawed : p.Flawed := .inr (.inr (.inl (by rw [hnames]; decide)))
  refine ⟨⟨_, hpinned, hviews, hviews.fails.mpr ⟨.jacoco, "0.1.0", rfl, by decide +kernel, ?_⟩⟩,
    ((consistent_of_ofYaml namesake ⟨"."⟩).2 p (Outcome.toOption_eq_some_iff.mp hp)).mpr hflawed⟩
  intro added h
  cases h

end Project
end ModularBuild
