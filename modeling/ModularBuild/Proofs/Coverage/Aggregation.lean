import ModularBuild.Coverage.Aggregation
import ModularBuild.Proofs.Outcome

/-! # What aggregation puts into a request

The loop over the inputs succeeds exactly if every input passes its check, and then its four
lists are read off the inputs one by one. The step adds to each list what one input gives; the
run follows by induction on the inputs, from whatever has been gathered before. Data is tied
to inputs by the name of a module, so the check of one input speaks for all of its name. -/

namespace ModularBuild.Aggregation

/-- Whether a class directory of the input is there. -/
def hasClasses (t : FileTree) (c : ModuleCoverage) : Bool := c.classDirs.any t.isDirectory

theorem isEmpty_existingClassDirs (t : FileTree) (c : ModuleCoverage) :
    (existingClassDirs t c).isEmpty = !hasClasses t c := by
  rw [Bool.eq_iff_iff, existingClassDirs, hasClasses, List.isEmpty_iff]
  simp [List.filter_eq_nil_iff]

theorem isSkipped_eq (t : FileTree) (c : ModuleCoverage) : isSkipped t c = !hasClasses t c :=
  isEmpty_existingClassDirs t c

/-- An input with data needs classes, and all that it declares. -/
theorem checkClasses_eq_ok_iff {t : FileTree} {present : List ExecutionData}
    {c : ModuleCoverage} : checkClasses t present c = .ok () ↔
      (hasData present c = true →
        hasClasses t c = true ∧ ∀ dir ∈ c.classDirs, t.isDirectory dir = true) := by
  rw [checkClasses, isEmpty_existingClassDirs]
  cases hd : hasData present c with
  | false => simp
  | true =>
    cases hc : hasClasses t c with
    | false => simp
    | true =>
      cases hf : c.classDirs.find? fun dir => !t.isDirectory dir with
      | none => simpa using hf
      | some dir =>
        have hm := List.mem_of_find?_eq_some hf
        have hn : t.isDirectory dir = false := by simpa using List.find?_some hf
        constructor
        · intro h; cases h
        · intro h
          have := (h rfl).2 dir hm
          rw [hn] at this
          cases this

/-- The first class directory of the input that is not there. -/
theorem find?_missing_eq_some_iff {t : FileTree} {c : ModuleCoverage} {dir : Path} :
    (c.classDirs.find? fun dir => !t.isDirectory dir) = some dir ↔
      ∃ front back, c.classDirs = front ++ dir :: back ∧
        (∀ d ∈ front, t.isDirectory d = true) ∧ t.isDirectory dir = false := by
  rw [List.find?_eq_some_iff_append]
  constructor
  · rintro ⟨hdir, front, back, hsplit, hfront⟩
    exact ⟨front, back, hsplit, by simpa using hfront, by simpa using hdir⟩
  · rintro ⟨front, back, hsplit, hfront, hdir⟩
    exact ⟨by simpa using hdir, front, back, hsplit, by simpa using hfront⟩

theorem checkClasses_eq_error_iff {t : FileTree} {present : List ExecutionData}
    {c : ModuleCoverage} {e : BuildError} : checkClasses t present c = .error e ↔
      hasData present c = true ∧
        ((hasClasses t c = false ∧ e = .missingClassArtifacts c.module) ∨
        (hasClasses t c = true ∧ ∃ front dir back, c.classDirs = front ++ dir :: back ∧
          (∀ d ∈ front, t.isDirectory d = true) ∧ t.isDirectory dir = false ∧
          e = .missingClassTree c.module dir)) := by
  have hmissing : (∃ front dir back, c.classDirs = front ++ dir :: back ∧
      (∀ d ∈ front, t.isDirectory d = true) ∧ t.isDirectory dir = false ∧
      e = .missingClassTree c.module dir) ↔
      ∃ dir, (c.classDirs.find? fun dir => !t.isDirectory dir) = some dir ∧
        e = .missingClassTree c.module dir := by
    simp only [find?_missing_eq_some_iff]
    constructor
    · rintro ⟨front, dir, back, hsplit, hfront, hdir, he⟩
      exact ⟨dir, ⟨front, back, hsplit, hfront, hdir⟩, he⟩
    · rintro ⟨dir, ⟨front, back, hsplit, hfront, hdir⟩, he⟩
      exact ⟨front, dir, back, hsplit, hfront, hdir, he⟩
  rw [hmissing, checkClasses, isEmpty_existingClassDirs]
  cases hasData present c with
  | false => simp
  | true =>
    cases hasClasses t c with
    | false => simp [@eq_comm _ e]
    | true =>
      cases c.classDirs.find? fun dir => !t.isDirectory dir with
      | none => simp
      | some dir => simp [@eq_comm _ e]

/-! ## The loop -/

namespace Gathering

def append (a b : Gathering) : Gathering :=
  ⟨a.trees ++ b.trees, a.sourceDirs ++ b.sourceDirs, a.modules ++ b.modules,
    a.skipped ++ b.skipped⟩

/-- What inputs that pass their checks give. -/
def ofInputs (t : FileTree) (inputs : List ModuleCoverage) : Gathering where
  trees := (inputs.filter (hasClasses t)).flatMap (treesOf t)
  sourceDirs := (inputs.filter (hasClasses t)).flatMap fun c => c.sourceDirs.filter t.isDirectory
  modules := (inputs.filter (hasClasses t)).map (·.module)
  skipped := (inputs.filter fun c => !hasClasses t c).map (·.module)

variable {t : FileTree} {present : List ExecutionData} {s s' : Gathering}

theorem ofInputs_append (a b : List ModuleCoverage) :
    ofInputs t (a ++ b) = (ofInputs t a).append (ofInputs t b) := by
  simp only [ofInputs, append, List.filter_append, List.flatMap_append, List.map_append]

theorem isDirectory_of_mem_trees {inputs : List ModuleCoverage} {tree : ClassTree}
    (h : tree ∈ (ofInputs t inputs).trees) : t.isDirectory tree.root = true := by
  obtain ⟨c, -, htree⟩ := List.mem_flatMap.mp h
  obtain ⟨dir, hdir, rfl⟩ := List.mem_map.mp htree
  exact (List.mem_filter.mp hdir).2

theorem append_assoc (a b c : Gathering) : (a.append b).append c = a.append (b.append c) := by
  simp only [append, List.append_assoc]

theorem append_ofInputs_nil (s : Gathering) : s.append (ofInputs t []) = s := by
  simp [append, ofInputs]

theorem visit_of_check {c : ModuleCoverage} (h : checkClasses t present c = .ok ()) :
    s.visit t present c = .ok (s.append (ofInputs t [c])) := by
  rw [visit, h, isSkipped_eq]
  cases hc : hasClasses t c <;> simp [append, ofInputs, hc]

theorem visit_eq_ok_iff {c : ModuleCoverage} : s.visit t present c = .ok s' ↔
    checkClasses t present c = .ok () ∧ s' = s.append (ofInputs t [c]) := by
  cases hcheck : checkClasses t present c with
  | error e =>
    rw [visit, hcheck]
    constructor
    · intro h; cases h
    · rintro ⟨h, -⟩; cases h
  | ok _ =>
    rw [visit_of_check hcheck]
    constructor
    · intro h; exact ⟨rfl, (Except.ok.inj h).symm⟩
    · rintro ⟨-, rfl⟩; rfl

theorem foldlM_visit_eq_ok_iff {inputs : List ModuleCoverage} :
    inputs.foldlM (visit t present) s = .ok s' ↔
      (∀ c ∈ inputs, checkClasses t present c = .ok ()) ∧ s' = s.append (ofInputs t inputs) := by
  induction inputs generalizing s with
  | nil =>
    rw [List.foldlM_nil, append_ofInputs_nil]
    constructor
    · intro h; cases h; exact ⟨by simp, rfl⟩
    · rintro ⟨-, rfl⟩; rfl
  | cons c rest ih =>
    have hsplit : ofInputs t (c :: rest) = (ofInputs t [c]).append (ofInputs t rest) :=
      ofInputs_append [c] rest
    rw [List.foldlM_cons, Outcome.bind_eq_ok_iff, List.forall_mem_cons, hsplit, ← append_assoc]
    constructor
    · rintro ⟨next, hv, h⟩
      obtain ⟨hc, rfl⟩ := visit_eq_ok_iff.mp hv
      obtain ⟨hrest, rfl⟩ := ih.mp h
      exact ⟨⟨hc, hrest⟩, rfl⟩
    · rintro ⟨⟨hc, hrest⟩, rfl⟩
      exact ⟨_, visit_eq_ok_iff.mpr ⟨hc, rfl⟩, ih.mpr ⟨hrest, rfl⟩⟩

end Gathering

theorem gather_eq_ok_iff {t : FileTree} {present : List ExecutionData}
    {inputs : List ModuleCoverage} {s : Gathering} : gather t present inputs = .ok s ↔
      (∀ c ∈ inputs, checkClasses t present c = .ok ()) ∧ s = Gathering.ofInputs t inputs := by
  rw [gather, Gathering.foldlM_visit_eq_ok_iff]
  rfl

/-- The first input that does not pass its check decides. -/
theorem gather_eq_error_iff {t : FileTree} {present : List ExecutionData}
    {inputs : List ModuleCoverage} {e : BuildError} : gather t present inputs = .error e ↔
      inputs.forM (checkClasses t present) = .error e := by
  have hvisit : ∀ s c, Gathering.visit t present s c = .error e ↔
      checkClasses t present c = .error e := by
    intro s c
    cases hcheck : checkClasses t present c with
    | error e' => simp [Gathering.visit, hcheck]
    | ok _ => simp [Gathering.visit_of_check hcheck]
  rw [gather, Outcome.foldlM_eq_error_iff, Outcome.forM_eq_error_iff]
  constructor
  · rintro ⟨before, c, after, s, hinputs, hbefore, hc⟩
    exact ⟨before, c, after, hinputs, (Gathering.foldlM_visit_eq_ok_iff.mp hbefore).1,
      (hvisit s c).mp hc⟩
  · rintro ⟨before, c, after, hinputs, hbefore, hc⟩
    exact ⟨before, c, after, _, hinputs, Gathering.foldlM_visit_eq_ok_iff.mpr ⟨hbefore, rfl⟩,
      (hvisit _ c).mpr hc⟩

/-! ## The request -/

/-- What a request is made of, once the inputs are checked and the classes merged. -/
theorem aggregate_eq_ok_iff {t : FileTree} {g : Aggregation} {r : ReportRequest} :
    g.aggregate t = .ok r ↔ ∃ classes,
      (∀ c ∈ g.inputs, checkClasses t (g.dataset.files t) c = .ok ()) ∧
      ClassSet.merge t (Gathering.ofInputs t g.inputs).trees g.exclusions = .ok classes ∧
      r = {
        executionData := g.dataset.paths t
        classes
        exclusions := g.exclusions
        sourceDirs := (Gathering.ofInputs t g.inputs).sourceDirs
        modules := (Gathering.ofInputs t g.inputs).modules
        skipped := (Gathering.ofInputs t g.inputs).skipped
        format := g.format
        outputDir := g.outputDir } := by
  constructor
  · intro h
    obtain ⟨s, hs, h⟩ := Outcome.bind_eq_ok_iff.mp h
    obtain ⟨classes, hm, h⟩ := Outcome.bind_eq_ok_iff.mp h
    obtain ⟨hchecks, rfl⟩ := gather_eq_ok_iff.mp hs
    exact ⟨classes, hchecks, hm, (Except.ok.inj h).symm⟩
  · rintro ⟨classes, hchecks, hm, rfl⟩
    refine Outcome.bind_eq_ok_iff.mpr ⟨_, gather_eq_ok_iff.mpr ⟨hchecks, rfl⟩, ?_⟩
    exact Outcome.bind_eq_ok_iff.mpr ⟨classes, hm, rfl⟩

theorem trees_of_merge {t : FileTree} {trees : List ClassTree} {rules : ExclusionRules}
    {classes : ClassSet} (h : ClassSet.merge t trees rules = .ok classes) :
    classes.trees = trees := by
  obtain ⟨found, -, hset⟩ := Outcome.bind_eq_ok_iff.mp h
  rw [ClassSet.ofFound] at hset
  split at hset
  · cases hset
  · cases hset; rfl

/-- Whether a declared path leads to execution data. -/
def isData (t : FileTree) (path : Path) : Bool :=
  path.hasExtension executionDataExtension && t.isFile path

theorem dataset_paths (t : FileTree) (g : Aggregation) :
    g.dataset.paths t = (g.inputs.filterMap (·.executionData)).filter (isData t) := by
  rw [Dataset.paths, Dataset.files, Dataset.usable, dataset]
  induction g.inputs with
  | nil => rfl
  | cons c rest ih =>
    cases hd : c.executionData with
    | none => simpa [hd] using ih
    | some path =>
      cases hp : isData t path with
      | false =>
        have hu : ExecutionData.isUsable t.isFile ⟨c.module, path⟩ = false := hp
        simpa [hd, hp, hu] using ih
      | true =>
        have hu : ExecutionData.isUsable t.isFile ⟨c.module, path⟩ = true := hp
        simpa [hd, hp, hu] using ih

/-- An input has data if data was declared under its name, be it by another input. -/
theorem hasData_iff {t : FileTree} {g : Aggregation} {c : ModuleCoverage} :
    hasData (g.dataset.files t) c = true ↔ ∃ d ∈ g.inputs, d.module = c.module ∧
      ∃ path, d.executionData = some path ∧ isData t path = true := by
  rw [hasData, List.any_eq_true]
  constructor
  · rintro ⟨file, hfile, hname⟩
    obtain ⟨hdeclared, husable⟩ := List.mem_filter.mp hfile
    obtain ⟨d, hd, hfile⟩ := List.mem_filterMap.mp hdeclared
    obtain ⟨path, hpath, rfl⟩ := Option.map_eq_some_iff.mp hfile
    exact ⟨d, hd, beq_iff_eq.mp hname, path, hpath, husable⟩
  · rintro ⟨d, hd, hname, path, hpath, husable⟩
    refine ⟨⟨d.module, path⟩, List.mem_filter.mpr ⟨?_, husable⟩, beq_iff_eq.mpr hname⟩
    exact List.mem_filterMap.mpr ⟨d, hd, by rw [hpath]; rfl⟩

/-- A request that leaves nothing out and adds nothing: all data that is there, the inputs with
classes and without, and for data all classes of all inputs under the name of its owner. -/
structure Represents (t : FileTree) (g : Aggregation) (r : ReportRequest) : Prop where
  executionData : r.executionData = (g.inputs.filterMap (·.executionData)).filter (isData t)
  dataset_paths : r.executionData = g.dataset.paths t
  modules : r.modules = (g.inputs.filter (hasClasses t)).map (·.module)
  skipped : r.skipped = (g.inputs.filter fun c => !hasClasses t c).map (·.module)
  owners : ∀ c ∈ g.inputs, ∀ path ∈ r.executionData, c.executionData = some path →
    c.module ∈ r.modules ∧ c.module ∉ r.skipped ∧
      ∀ d ∈ g.inputs, d.module = c.module → ∀ dir ∈ d.classDirs,
        ⟨c.module, dir⟩ ∈ r.classes.trees
  trees : r.classes.trees = (g.inputs.filter (hasClasses t)).flatMap fun c =>
    (c.classDirs.filter t.isDirectory).map fun dir => ⟨c.module, dir⟩
  sourceDirs : r.sourceDirs = (g.inputs.filter (hasClasses t)).flatMap fun c =>
    c.sourceDirs.filter t.isDirectory

theorem represents_of_aggregate {t : FileTree} {g : Aggregation} {r : ReportRequest}
    (h : g.aggregate t = .ok r) : Represents t g r := by
  obtain ⟨s, hs, h⟩ := Outcome.bind_eq_ok_iff.mp h
  obtain ⟨classes, hm, h⟩ := Outcome.bind_eq_ok_iff.mp h
  obtain ⟨hchecks, rfl⟩ := gather_eq_ok_iff.mp hs
  cases h
  refine ⟨dataset_paths t g, rfl, rfl, rfl, ?_, trees_of_merge hm, rfl⟩
  intro c hc path hpath hd
  have hp : isData t path = true := by
    have hpaths : path ∈ g.dataset.paths t := hpath
    rw [dataset_paths] at hpaths
    exact (List.mem_filter.mp hpaths).2
  -- every input of the name has data, so it has passed the check for it
  have hall : ∀ d ∈ g.inputs, d.module = c.module →
      hasClasses t d = true ∧ ∀ dir ∈ d.classDirs, t.isDirectory dir = true :=
    fun d hdm hn => checkClasses_eq_ok_iff.mp (hchecks d hdm)
      (hasData_iff.mpr ⟨c, hc, hn.symm, path, hd, hp⟩)
  refine ⟨?_, ?_, ?_⟩
  · exact List.mem_map_of_mem (List.mem_filter.mpr ⟨hc, (hall c hc rfl).1⟩)
  · intro hskip
    obtain ⟨d, hd', hn⟩ := List.mem_map.mp hskip
    obtain ⟨hdm, hnone⟩ := List.mem_filter.mp hd'
    rw [(hall d hdm hn).1] at hnone
    cases hnone
  · intro d hdm hn dir hdir
    obtain ⟨hclasses, hdirs⟩ := hall d hdm hn
    rw [trees_of_merge hm]
    refine List.mem_flatMap.mpr ⟨d, List.mem_filter.mpr ⟨hdm, hclasses⟩, ?_⟩
    exact List.mem_map.mpr ⟨dir, List.mem_filter.mpr ⟨hdir, hdirs dir hdir⟩, by rw [hn]⟩

/-- A module with data and one without anything. -/
def nightly : Aggregation where
  inputs := [⟨"app", some ⟨"app/run.exec"⟩, [⟨"app/classes"⟩], [⟨"app/source"⟩]⟩,
    ⟨"docs", none, [⟨"docs/classes"⟩], []⟩]
  exclusions := .excludeNothing
  format := .xml
  outputDir := ⟨"report"⟩

def afterTests : FileTree :=
  (((FileTree.empty []).put ["app"] .directory).put ["app", "classes"] .directory).put
    ["app", "run.exec"] (.file [] false)

theorem represents_nightly : ∃ r, nightly.aggregate afterTests = .ok r ∧
    Represents afterTests nightly r ∧ r.executionData = [⟨"app/run.exec"⟩] ∧
    r.modules = ["app"] ∧ r.skipped = ["docs"] := by
  have hok : (nightly.aggregate afterTests).isOk = true := by decide +kernel
  obtain ⟨r, hr⟩ : ∃ r, nightly.aggregate afterTests = .ok r := by
    cases h : nightly.aggregate afterTests with
    | ok r => exact ⟨r, rfl⟩
    | error e => rw [h] at hok; cases hok
  have h := represents_of_aggregate hr
  refine ⟨r, hr, h, ?_, ?_, ?_⟩
  · rw [h.executionData]; decide +kernel
  · rw [h.modules]; decide +kernel
  · rw [h.skipped]; decide +kernel

end ModularBuild.Aggregation
