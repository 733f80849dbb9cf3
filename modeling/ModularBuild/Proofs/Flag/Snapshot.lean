import ModularBuild.Command.Settings
import ModularBuild.Coverage.Report
import ModularBuild.Proofs.Flag.Resolution

/-! # What a snapshot of the environment leaves out

A snapshot holds the variables that some declaration names. Resolution looks up no others: a flag
asks for the variable of its own declaration, and a flag that is not declared for none. Resolvers
that agree on the variables asked for therefore resolve every flag in the same way. -/

namespace ModularBuild.FlagResolver

variable {a b r : FlagResolver} {name value : String}

/-- Some declaration names the variable. -/
def Asks (r : FlagResolver) (name : String) : Prop :=
  ∃ spec ∈ r.specs.values, spec.environment = some name

/-- Equal declarations and properties, and equal values of the variables asked for. -/
structure Agrees (a b : FlagResolver) : Prop where
  specs : a.specs = b.specs
  properties : a.properties = b.properties
  asked : ∀ name, a.Asks name → a.environment.find? name = b.environment.find? name

/-- Every flag is resolved in the same way, from the same input. -/
structure ResolvesLike (a b : FlagResolver) : Prop where
  explain : ∀ name, a.explain name = b.explain name
  resolveAll : a.resolveAll = b.resolveAll
  format : ReportFormat.select a = ReportFormat.select b

theorem Agrees.propertyValue (h : Agrees a b) (key : String) :
    a.propertyValue key = b.propertyValue key := by
  unfold FlagResolver.propertyValue
  rw [h.properties]

theorem Agrees.decidingProperty (h : Agrees a b) (keys : List String) :
    a.decidingProperty keys = b.decidingProperty keys := by
  induction keys with
  | nil => rfl
  | cons key rest ih =>
    unfold FlagResolver.decidingProperty
    rw [h.propertyValue, ih]

theorem Agrees.decide (h : Agrees a b) {spec : FlagSpec} (hspec : spec ∈ a.specs.values) :
    a.decide spec = b.decide spec := by
  have hvariable : ∀ name, spec.environment = some name →
      a.environmentValue name = b.environmentValue name := by
    intro name hname
    unfold environmentValue
    rw [h.asked name ⟨spec, hspec, hname⟩]
  unfold FlagResolver.decide
  rw [h.decidingProperty]
  cases hname : spec.environment with
  | none => rfl
  | some name => rw [Option.bind_some, Option.bind_some, hvariable name hname]

theorem Agrees.explain (h : Agrees a b) (name : String) : a.explain name = b.explain name := by
  unfold FlagResolver.explain
  rw [← h.specs, h.propertyValue]
  cases hspec : a.specs.find? name with
  | none => rfl
  | some spec => exact h.decide (Table.mem_values_iff.mpr ⟨name, hspec⟩)

theorem Agrees.resolvesLike (h : Agrees a b) : ResolvesLike a b where
  explain := h.explain
  resolveAll := by
    unfold FlagResolver.resolveAll
    rw [← h.specs]
    exact List.map_congr_left fun spec hspec => h.decide hspec
  format := by
    unfold ReportFormat.select resolve
    rw [h.explain]

/-- A snapshot holds the variables asked for that the process has, with their values there. -/
theorem find?_withSnapshot (r : FlagResolver) (process : Table String String) :
    (r.withSnapshot process).environment.find? name = some value ↔
      r.Asks name ∧ process.find? name = some value := by
  have hmem : ∀ pair : String × String, pair ∈ (r.specs.values.filterMap (·.environment)).filterMap
      (fun name => (process.find? name).map fun value => (name, value)) ↔
        r.Asks pair.1 ∧ process.find? pair.1 = some pair.2 := by
    rintro ⟨name, value⟩
    unfold Asks
    simp only [List.mem_filterMap, Option.map_eq_some_iff, Prod.mk.injEq]
    constructor
    · rintro ⟨_, hasked, _, hvalue, rfl, rfl⟩
      exact ⟨hasked, hvalue⟩
    · rintro ⟨hasked, hvalue⟩
      exact ⟨name, hasked, value, hvalue, rfl, rfl⟩
  -- flags may share a variable: equal names come with equal values
  have hshared := Table.find?_ofList_of_agree (k := name) (v := value) fun pair hpair other hother
      (hname : pair.1 = other.1) => by
    have hvalue := ((hmem pair).mp hpair).2
    rw [hname, ((hmem other).mp hother).2] at hvalue
    exact Prod.ext hname (Option.some.inj hvalue).symm
  exact hshared.trans (hmem (name, value))

theorem agrees_withSnapshot (r : FlagResolver) (process : Table String String) :
    Agrees (r.withSnapshot process) (r.withEnvironment process) where
  specs := rfl
  properties := rfl
  asked name hasked := Option.ext fun value => by
    rw [find?_withSnapshot]
    exact and_iff_right hasked

/-- A resolver with a snapshot resolves like one with the whole environment, and so does the
resolver that a command makes for a project. -/
theorem snapshot_suffices (r : FlagResolver) (process : Table String String) :
    (∀ name value, (r.withSnapshot process).environment.find? name = some value ↔
      r.Asks name ∧ process.find? name = some value) ∧
    ResolvesLike (r.withSnapshot process) (r.withEnvironment process) ∧
    ∀ (s : Settings) (p : Project), ResolvesLike (s.resolver process p)
      ((p.resolver.setArguments s.properties).withEnvironment process) :=
  ⟨fun _ _ => find?_withSnapshot r process, (agrees_withSnapshot r process).resolvesLike,
    fun _ _ => (agrees_withSnapshot _ process).resolvesLike⟩

/-- A flag that is declared again without its variable does not ask for it any more. -/
example : (((empty.declare (.named "fast" [] (some "FAST") false)).declare
    (.named "fast" [] none false)).withSnapshot (.ofList [("FAST", "yes")])).environment = ∅ := by
  decide

end ModularBuild.FlagResolver
