import ModularBuild.Proofs.Coverage.Merging
import ModularBuild.Proofs.Coverage.Reordering

/-! # Failing aggregations

All inputs are looked at before any class is. So the first input that has data and lacks classes
decides, and a collision is only met where no input lacks any. Inputs without data pass whatever
they declare, and take part in collisions only. -/

namespace ModularBuild.Aggregation

open FileTree ClassTree ClassSet

variable {t : FileTree} {g : Aggregation} {found : List ClassArtifact} {c : ModuleCoverage}
  {e : BuildError}

/-- Data that can be used was declared under the name of the input. -/
def HasData (t : FileTree) (g : Aggregation) (c : ModuleCoverage) : Prop :=
  ∃ d ∈ g.inputs, d.module = c.module ∧ ∃ path, d.executionData = some path ∧ isData t path = true

/-- An input with data that has no classes, or not all that it declares. -/
def LacksClasses (t : FileTree) (g : Aggregation) (c : ModuleCoverage) : Prop :=
  HasData t g c ∧ ((∀ dir ∈ c.classDirs, t.isDirectory dir = false) ∨
    ∃ dir ∈ c.classDirs, t.isDirectory dir = false)

/-- The declared class trees that are there. -/
def existingTrees (t : FileTree) (g : Aggregation) : List ClassTree :=
  g.inputs.flatMap fun c => (c.classDirs.filter t.isDirectory).map fun dir => ⟨c.module, dir⟩

/-- How aggregation comes to fail, where these are the classes of the existing trees. -/
inductive Fails (t : FileTree) (g : Aggregation) (found : List ClassArtifact) : BuildError → Prop
  | noClasses {before after : List ModuleCoverage} {c : ModuleCoverage}
      (hinputs : g.inputs = before ++ c :: after) (hbefore : ∀ d ∈ before, ¬ LacksClasses t g d)
      (hdata : HasData t g c) (hnone : ∀ dir ∈ c.classDirs, t.isDirectory dir = false) :
      Fails t g found (.missingClassArtifacts c.module)
  | missingTree {before after : List ModuleCoverage} {c : ModuleCoverage}
      {front back : List Path} {dir : Path}
      (hinputs : g.inputs = before ++ c :: after) (hbefore : ∀ d ∈ before, ¬ LacksClasses t g d)
      (hdata : HasData t g c) (hsome : ∃ d ∈ c.classDirs, t.isDirectory d = true)
      (hdirs : c.classDirs = front ++ dir :: back) (hfront : ∀ d ∈ front, t.isDirectory d = true)
      (hmissing : t.isDirectory dir = false) :
      Fails t g found (.missingClassTree c.module dir)
  | collision {identity : String} (hinputs : ∀ c ∈ g.inputs, ¬ LacksClasses t g c)
      (hidentity : Bytes.Least (Clashes g.exclusions found) identity) :
      Fails t g found (.mergeCollision identity ((group found identity).map (·.module)))

/-! ## The checks -/

theorem hasClasses_iff : hasClasses t c = true ↔ ∃ dir ∈ c.classDirs, t.isDirectory dir = true :=
  List.any_eq_true

theorem hasClasses_eq_false_iff :
    hasClasses t c = false ↔ ∀ dir ∈ c.classDirs, t.isDirectory dir = false := by
  rw [hasClasses, List.any_eq_false]
  simp only [Bool.not_eq_true]

theorem checkClasses_passes_iff :
    checkClasses t (g.dataset.files t) c = .ok () ↔ ¬ LacksClasses t g c := by
  rw [checkClasses_eq_ok_iff, hasData_iff, LacksClasses, not_and_or, ← imp_iff_not_or]
  refine imp_congr_right fun _ => ?_
  rw [← hasClasses_eq_false_iff, not_or, Bool.not_eq_false]
  simp

theorem existingTrees_eq (t : FileTree) (g : Aggregation) :
    existingTrees t g = (Gathering.ofInputs t g.inputs).trees := by
  unfold existingTrees Gathering.ofInputs
  induction g.inputs with
  | nil => rfl
  | cons c rest ih =>
    rw [List.flatMap_cons, ih, List.filter_cons]
    split
    · rfl
    · next hnone =>
      have hdirs : c.classDirs.filter t.isDirectory = [] := by
        rw [List.filter_eq_nil_iff]
        simpa [hasClasses] using hnone
      rw [hdirs]
      rfl

/-! ## The two stages -/

/-- A failure comes from the checks, or from the merge once all of them have passed. -/
theorem aggregate_eq_error_iff (hfound : walkAll t (existingTrees t g) = .ok found) :
    g.aggregate t = .error e ↔
      g.inputs.forM (checkClasses t (g.dataset.files t)) = .error e ∨
      (∀ c ∈ g.inputs, ¬ LacksClasses t g c) ∧
        ofFound (existingTrees t g) g.exclusions found = .error e := by
  rw [aggregate, Outcome.bind_eq_error_iff, gather_eq_error_iff, ← merge_eq_ofFound hfound]
  simp only [← checkClasses_passes_iff]
  refine or_congr_right ⟨?_, ?_⟩
  · rintro ⟨s, hs, h⟩
    obtain ⟨hchecks, rfl⟩ := gather_eq_ok_iff.mp hs
    rw [← existingTrees_eq] at h
    refine ⟨hchecks, (Outcome.bind_eq_error_iff.mp h).resolve_right ?_⟩
    rintro ⟨_, _, h⟩
    cases h
  · rintro ⟨hchecks, h⟩
    refine ⟨_, gather_eq_ok_iff.mpr ⟨hchecks, rfl⟩, Outcome.bind_eq_error_iff.mpr (.inl ?_)⟩
    rwa [← existingTrees_eq]

theorem exists_aggregate_iff (hfound : walkAll t (existingTrees t g) = .ok found) :
    (∃ r, g.aggregate t = .ok r) ↔ (∀ c ∈ g.inputs, ¬ LacksClasses t g c) ∧
      ∀ identity, ¬ Clashes g.exclusions found identity := by
  rw [← exists_ofFound_iff (existingTrees t g), ← merge_eq_ofFound hfound, existingTrees_eq]
  simp only [aggregate_eq_ok_iff, checkClasses_passes_iff]
  constructor
  · rintro ⟨_, classes, hchecks, hmerge, -⟩
    exact ⟨hchecks, classes, hmerge⟩
  · rintro ⟨hchecks, classes, hmerge⟩
    exact ⟨_, classes, hchecks, hmerge, rfl⟩

/-! ## Inputs without data -/

/-- Only the inputs that have data. -/
def withData (t : FileTree) (g : Aggregation) : Aggregation :=
  { g with inputs := g.inputs.filter (hasData (g.dataset.files t)) }

/-- No data is lost with the inputs that have none. -/
theorem files_withData (t : FileTree) (g : Aggregation) :
    (g.withData t).dataset.files t = g.dataset.files t := by
  have hkeeps : ∀ c ∈ g.inputs, ∀ path, c.executionData = some path → isData t path = true →
      hasData (g.dataset.files t) c = true := fun c hc path hpath husable =>
    hasData_iff.mpr ⟨c, hc, rfl, path, hpath, husable⟩
  unfold withData
  generalize hasData (g.dataset.files t) = p at hkeeps
  unfold dataset Dataset.files Dataset.usable
  rw [List.filterMap_filter, List.filter_filterMap, List.filter_filterMap]
  refine List.filterMap_congr fun c hc => ?_
  split
  · rfl
  · next hnone =>
    cases hpath : c.executionData with
    | none => rfl
    | some path =>
      have hunusable : ExecutionData.isUsable t.isFile ⟨c.module, path⟩ = false :=
        Bool.not_eq_true _ ▸ fun husable => hnone (hkeeps c hc path hpath husable)
      simp [Option.filter, hunusable]

theorem existingTrees_withData (t : FileTree) (g : Aggregation) :
    existingTrees t (g.withData t) ⊆ existingTrees t g := by
  intro tree htree
  obtain ⟨c, hc, hdir⟩ := List.mem_flatMap.mp htree
  exact List.mem_flatMap.mpr ⟨c, (List.mem_filter.mp hc).1, hdir⟩

theorem aggregate_eq_error_iff_of_not_collision
    (hreadable : ∀ tree ∈ existingTrees t g, Readable t tree) (h : e.isCollision = false) :
    g.aggregate t = .error e ↔
      g.inputs.forM (checkClasses t (g.dataset.files t)) = .error e := by
  obtain ⟨found, hfound⟩ := exists_walkAll hreadable
  rw [aggregate_eq_error_iff hfound]
  refine or_iff_left fun ⟨_, hmerge⟩ => ?_
  obtain ⟨identity, -, rfl⟩ := clash_of_ofFound hmerge
  cases h

theorem aggregate_withData (hreadable : ∀ tree ∈ existingTrees t g, Readable t tree)
    (h : e.isCollision = false) :
    g.aggregate t = .error e ↔ (g.withData t).aggregate t = .error e := by
  have hreadable' : ∀ tree ∈ existingTrees t (g.withData t), Readable t tree :=
    fun tree htree => hreadable tree (existingTrees_withData t g htree)
  rw [aggregate_eq_error_iff_of_not_collision hreadable h,
    aggregate_eq_error_iff_of_not_collision hreadable' h, files_withData, withData,
    Outcome.forM_filter]
  intro c _ hnone
  exact checkClasses_eq_ok_iff.mpr fun hdata => absurd hdata (by rw [hnone]; decide)

/-! ## Aggregations -/

theorem checks_eq_error_iff : g.inputs.forM (checkClasses t (g.dataset.files t)) = .error e ↔
    ∃ before c after, g.inputs = before ++ c :: after ∧ (∀ d ∈ before, ¬ LacksClasses t g d) ∧
      HasData t g c ∧ ((∀ dir ∈ c.classDirs, t.isDirectory dir = false) ∧
          e = .missingClassArtifacts c.module ∨
        (∃ d ∈ c.classDirs, t.isDirectory d = true) ∧ ∃ front dir back,
          c.classDirs = front ++ dir :: back ∧ (∀ d ∈ front, t.isDirectory d = true) ∧
          t.isDirectory dir = false ∧ e = .missingClassTree c.module dir) := by
  simp only [Outcome.forM_eq_error_iff, checkClasses_passes_iff, checkClasses_eq_error_iff,
    hasData_iff, hasClasses_iff, hasClasses_eq_false_iff, HasData]

/-- Where the existing trees can be read, aggregation fails as described, with one error, and
otherwise there is a request. -/
theorem aggregate_fails_iff (hnamed : t.WellNamed) (g : Aggregation)
    (hreadable : ∀ tree ∈ existingTrees t g, Readable t tree) :
    ∃ found, (∀ other, Found t (existingTrees t g) other ↔ other = found) ∧
      (∀ e, g.aggregate t = .error e ↔ Fails t g found e) ∧
      ((∃ r, g.aggregate t = .ok r) ↔ (∀ c ∈ g.inputs, ¬ LacksClasses t g c) ∧
        ∀ identity, ¬ Clashes g.exclusions found identity) ∧
      ∀ e, e.isCollision = false →
        (g.aggregate t = .error e ↔ (g.withData t).aggregate t = .error e) := by
  obtain ⟨found, hfound⟩ := exists_walkAll hreadable
  refine ⟨found, fun other => ?_, fun e => ?_, exists_aggregate_iff hfound,
    fun e => aggregate_withData hreadable⟩
  · rw [← walkAll_eq_ok_iff hnamed hreadable, hfound, Except.ok.injEq, eq_comm]
  · rw [aggregate_eq_error_iff hfound, checks_eq_error_iff, ofFound_eq_error_iff]
    constructor
    · rintro (⟨before, c, after, hinputs, hbefore, hdata, h⟩ | ⟨hinputs, identity, hleast, rfl⟩)
      · rcases h with ⟨hnone, rfl⟩ | ⟨hsome, front, dir, back, hdirs, hfront, hmissing, rfl⟩
        · exact .noClasses hinputs hbefore hdata hnone
        · exact .missingTree hinputs hbefore hdata hsome hdirs hfront hmissing
      · exact .collision hinputs hleast
    · intro h
      cases h with
      | noClasses hinputs hbefore hdata hnone =>
        exact .inl ⟨_, _, _, hinputs, hbefore, hdata, .inl ⟨hnone, rfl⟩⟩
      | missingTree hinputs hbefore hdata hsome hdirs hfront hmissing =>
        exact .inl ⟨_, _, _, hinputs, hbefore, hdata,
          .inr ⟨hsome, _, _, _, hdirs, hfront, hmissing, rfl⟩⟩
      | collision hinputs hleast => exact .inr ⟨hinputs, _, hleast, rfl⟩

/-- Of two modules that share a class, one has data and lacks a class tree. -/
def interrupted : Aggregation where
  inputs := [⟨"docs", none, [⟨"docs"⟩], []⟩, ⟨"core", none, [⟨"core"⟩, ⟨"kotlin"⟩], []⟩,
    ⟨"http", some ⟨"http.exec"⟩, [⟨"http"⟩, ⟨"kotlin"⟩], []⟩]
  exclusions := .standard
  format := .xml
  outputDir := ⟨"report"⟩

def afterRun : FileTree := sharing.put ["http.exec"] (.file [] false)

theorem aggregate_fails_interrupted : ∃ found,
    Found afterRun (existingTrees afterRun interrupted) found ∧
    Fails afterRun interrupted found (.missingClassTree "http" ⟨"kotlin"⟩) ∧
    interrupted.aggregate afterRun = .error (.missingClassTree "http" ⟨"kotlin"⟩) ∧
    (interrupted.withData afterRun).aggregate afterRun =
      .error (.missingClassTree "http" ⟨"kotlin"⟩) := by
  have hnamed : afterRun.WellNamed := by decide +kernel
  have hreadable : ∀ tree ∈ existingTrees afterRun interrupted, Readable afterRun tree :=
    readable_of_walks (by decide +kernel)
  have hfails : interrupted.aggregate afterRun = .error (.missingClassTree "http" ⟨"kotlin"⟩) :=
    Outcome.failure?_eq_some_iff.mp (by decide +kernel)
  obtain ⟨found, hfound, hfail, -, hdata⟩ := aggregate_fails_iff hnamed interrupted hreadable
  exact ⟨found, (hfound found).mpr rfl, (hfail _).mp hfails, hfails, (hdata _ rfl).mp hfails⟩

end ModularBuild.Aggregation
