import ModularBuild.Proofs.Coverage.Aggregation
import ModularBuild.Proofs.Coverage.ClassSet

/-! # Aggregation without an order of the modules

Inputs in another order give the same request in another order. Each stage is shown to be alike
on both orders, and the stages are then put together: whether a module has data depends only
on which data there is, a gathering that succeeds is read off the inputs one by one, and the
merge is compared identity by identity. A collision can only come from the last stage, after
all others have succeeded, so no order of the modules hides one behind another failure. -/

namespace ModularBuild.Aggregation

variable {t : FileTree} {present present' : List ExecutionData}
  {inputs inputs' : List ModuleCoverage}

theorem checkClasses_congr (h : present.Perm present') (c : ModuleCoverage) :
    checkClasses t present c = checkClasses t present' c := by
  rw [checkClasses, checkClasses, hasData, hasData, h.any_eq]

theorem isCollision_of_checkClasses {c : ModuleCoverage} {e : BuildError}
    (h : checkClasses t present c = .error e) : e.isCollision = false := by
  obtain ⟨-, ⟨-, rfl⟩ | ⟨-, _, _, _, -, -, -, rfl⟩⟩ := checkClasses_eq_error_iff.mp h
  · rfl
  · rfl

namespace Gathering

/-- The same lists in another order. -/
structure Reordered (s s' : Gathering) : Prop where
  trees : s.trees.Perm s'.trees
  sourceDirs : s.sourceDirs.Perm s'.sourceDirs
  modules : s.modules.Perm s'.modules
  skipped : s.skipped.Perm s'.skipped

theorem ofInputs_reordered (t : FileTree) (h : inputs.Perm inputs') :
    Reordered (ofInputs t inputs) (ofInputs t inputs') where
  trees := (h.filter _).flatMap_right _
  sourceDirs := (h.filter _).flatMap_right _
  modules := (h.filter _).map _
  skipped := (h.filter _).map _

end Gathering

theorem gather_alike (h : inputs.Perm inputs') (hp : present.Perm present') :
    AlikeUpTo Gathering.Reordered (gather t present inputs) (gather t present' inputs') := by
  have hfailure : ∀ present inputs e, gather t present inputs = .error e →
      e.isCollision = false := by
    intro present inputs e he
    obtain ⟨_, c, _, -, -, hcheck⟩ := Outcome.forM_eq_error_iff.mp (gather_eq_error_iff.mp he)
    exact isCollision_of_checkClasses hcheck
  have hsuccess : ∀ {present present' inputs inputs'}, inputs.Perm inputs' →
      present.Perm present' → ∀ s, gather t present inputs = .ok s →
      gather t present' inputs' = .ok (.ofInputs t inputs') := by
    intro present present' inputs inputs' h hp s hs
    obtain ⟨hchecks, -⟩ := gather_eq_ok_iff.mp hs
    refine gather_eq_ok_iff.mpr ⟨fun c hc => ?_, rfl⟩
    rw [← checkClasses_congr hp]
    exact hchecks c (h.mem_iff.mpr hc)
  refine .of_no_collision (hfailure _ _) (hfailure _ _) (fun s hs => ?_)
    fun s' hs' => ⟨_, hsuccess h.symm hp.symm s' hs'⟩
  obtain ⟨-, rfl⟩ := gather_eq_ok_iff.mp hs
  exact ⟨_, hsuccess h hp _ hs, Gathering.ofInputs_reordered t h⟩

/-- Requests for the same report from modules in another order. -/
structure Reordered (r r' : ReportRequest) : Prop where
  artifacts : r.classes.artifacts = r'.classes.artifacts
  executionData : r.executionData.Perm r'.executionData
  sourceDirs : r.sourceDirs.Perm r'.sourceDirs
  modules : r.modules.Perm r'.modules
  skipped : r.skipped.Perm r'.skipped
  trees : r.classes.trees.Perm r'.classes.trees
  excluded : r.classes.excluded.Perm r'.classes.excluded
  exclusions : r.exclusions = r'.exclusions
  format : r.format = r'.format
  outputDir : r.outputDir = r'.outputDir

theorem files_perm (t : FileTree) {g g' : Aggregation} (h : g.inputs.Perm g'.inputs) :
    (g.dataset.files t).Perm (g'.dataset.files t) := (h.filterMap _).filter _

theorem aggregate_alike (t : FileTree) (rules : ExclusionRules) (format : ReportFormat)
    (outputDir : Path) (h : inputs.Perm inputs') :
    AlikeUpTo Reordered (aggregate t ⟨inputs, rules, format, outputDir⟩)
      (aggregate t ⟨inputs', rules, format, outputDir⟩) := by
  have hp : (dataset ⟨inputs, rules, format, outputDir⟩ |>.files t).Perm
      (dataset ⟨inputs', rules, format, outputDir⟩ |>.files t) := files_perm t h
  refine (gather_alike h hp).bind fun s s' hs => ?_
  refine (ClassSet.merge_alike t rules hs.trees).bind fun classes classes' hc => .ok ?_
  exact ⟨hc.artifacts, hp.map _, hs.sourceDirs, hs.modules, hs.skipped, hc.trees, hc.excluded,
    rfl, rfl, rfl⟩

/-- Two modules compile a class of the same name, and one has no classes. -/
def clashing : List ModuleCoverage :=
  [⟨"app", none, [⟨"app"⟩], []⟩, ⟨"docs", none, [⟨"docs"⟩], []⟩, ⟨"lib", none, [⟨"lib"⟩], []⟩]

def sharedClass : FileTree :=
  ((((FileTree.empty []).put ["app"] .directory).put ["app", "A.class"] (.file [] false)).put
    ["lib"] .directory).put ["lib", "A.class"] (.file [] false)

theorem collision_reversed : clashing.Perm clashing.reverse ∧
    aggregate sharedClass ⟨clashing, .excludeNothing, .xml, ⟨"report"⟩⟩ =
      .error (.mergeCollision "A.class" ["app", "lib"]) ∧
    ∃ modules, ["app", "lib"].Perm modules ∧
      aggregate sharedClass ⟨clashing.reverse, .excludeNothing, .xml, ⟨"report"⟩⟩ =
        .error (.mergeCollision "A.class" modules) := by
  have hfirst : aggregate sharedClass ⟨clashing, .excludeNothing, .xml, ⟨"report"⟩⟩ =
      .error (.mergeCollision "A.class" ["app", "lib"]) :=
    Outcome.failure?_eq_some_iff.mp (by decide +kernel)
  have hp : clashing.Perm clashing.reverse := (List.reverse_perm clashing).symm
  have h := aggregate_alike sharedClass .excludeNothing .xml ⟨"report"⟩ hp
  rw [hfirst] at h
  refine ⟨hp, hfirst, ?_⟩
  cases h' : aggregate sharedClass ⟨clashing.reverse, .excludeNothing, .xml, ⟨"report"⟩⟩ with
  | ok r => rw [h'] at h; cases h
  | error e =>
    rw [h'] at h
    cases h with
    | collision hmodules => exact ⟨_, hmodules, rfl⟩
    | failure hfirst _ => cases hfirst

end ModularBuild.Aggregation
