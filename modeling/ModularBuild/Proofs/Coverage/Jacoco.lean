import ModularBuild.Coverage.Jacoco
import ModularBuild.Proofs.Coverage.Aggregation
import ModularBuild.Proofs.FileTree.Growth

/-! # What a report leaves alone

A report clears the directory of staged classes, copies the classes into it and runs a program that
writes the report. Nothing relates these places to the inputs, so an input below the staging
directory is lost. Whatever the report's writes do not reach is kept, whether the report comes
about or not. -/

namespace ModularBuild

open FileTree

/-! ## Staging -/

namespace ClassSet

variable {t now : FileTree} {written : Location → Bool} {dir : Path}

/-- Whether a class is copied to the location. -/
def copiesTo (s : ClassSet) (dir : Path) (t : FileTree) (loc : Location) : Bool :=
  s.artifacts.values.any fun a => t.goal? (dir.join ⟨a.identity⟩) == some loc

theorem grown_copyClass {a : ClassArtifact} (h : Grown written t now)
    (hw : ∀ loc, t.goal? (dir.join ⟨a.identity⟩) = some loc → written loc = true) :
    Grown written t ((copyClass dir a).runOn now).2 := by
  have hcopy : ∀ t', Grown written t t' →
      Grown written t ((Disk.change (·.copyFile a.path (dir.join ⟨a.identity⟩))).runOn t').2 := by
    intro t' ht'
    rw [Disk.runOn_change]
    split
    case h_1 t'' hcopied =>
      exact ht'.trans (grown_of_copyFile hcopied fun loc hloc => hw loc (ht'.goal? hloc))
    case h_2 => exact ht'
  unfold copyClass
  dsimp only
  split
  · exact Disk.keeps_bind (h.trans (grown_makeDirectories _ now)) fun _ t' ht' => hcopy t' ht'
  · exact Disk.keeps_bind (d := pure ()) h fun _ t' ht' => hcopy t' ht'

theorem grown_copyClasses {artifacts : List ClassArtifact} (h : Grown written t now)
    (hw : ∀ a ∈ artifacts, ∀ loc, t.goal? (dir.join ⟨a.identity⟩) = some loc →
      written loc = true) : Grown written t (copyClasses dir artifacts now).tree := by
  induction artifacts generalizing now with
  | nil => exact h
  | cons a rest ih =>
    have hfirst := grown_copyClass h (hw a List.mem_cons_self)
    unfold copyClasses
    dsimp only
    split
    · next hrun => rw [hrun] at hfirst; exact hfirst
    · next hrun =>
      rw [hrun] at hfirst
      exact ih hfirst fun a ha => hw a (List.mem_cons_of_mem _ ha)

theorem grown_stage {s : ClassSet} (hw : ∀ loc, s.copiesTo dir t loc = true → written loc = true) :
    Grown written t (s.stage dir t).tree := by
  unfold stage
  split
  · next hrun => exact grown_of_makeDirectories hrun
  · next hrun =>
    refine grown_copyClasses (grown_of_makeDirectories hrun) fun a ha loc hloc => hw loc ?_
    exact List.any_eq_true.mpr ⟨a, ha, beq_iff_eq.mpr hloc⟩

end ClassSet

/-! ## Reports -/

/-- Of what there is, the program changes only what is at the path or below it. -/
def Launcher.WritesOnly (launch : Launcher) (program : Path) (args : List String) (p : Path) :
    Prop :=
  ∀ t run, launch program args t = .ok run →
    Kept (fun loc => (t.goal? p).any (·.isPrefixOf loc)) t run.tree

namespace Jacoco

variable {j : Jacoco} {launch : Launcher} {r : ReportRequest} {t now : FileTree}

/-- The place of the directory that an earlier run has staged into. -/
def stale? (r : ReportRequest) (t : FileTree) : Option Location :=
  if t.pathExists (stagingDir r) then
    (t.resolve false (stagingDir r)).toOption.map Spot.location
  else none

/-- Whether a report changes what is at a location: a stale class goes, a class is copied to it,
or the report is put there. A report that cannot clear the stale classes changes nothing. -/
def touches (r : ReportRequest) (t : FileTree) (loc : Location) : Bool :=
  (clearStaging r t).toOption.any fun now =>
    (stale? r t).any (·.isPrefixOf loc) || r.classes.copiesTo (stagingDir r) now loc ||
      (now.goal? (reportLocation r)).any (·.isPrefixOf loc)

theorem touches_eq (hclear : clearStaging r t = .ok now) (loc : Location) : touches r t loc =
    ((stale? r t).any (·.isPrefixOf loc) || r.classes.copiesTo (stagingDir r) now loc ||
      (now.goal? (reportLocation r)).any (·.isPrefixOf loc)) := by
  rw [touches, hclear]
  rfl

theorem clearStaging_cases (hclear : clearStaging r t = .ok now) :
    (stale? r t = none ∧ now = t) ∨ ∃ root, stale? r t = some root ∧ now = t.dropAt root := by
  unfold clearStaging at hclear
  split at hclear
  · next hexists =>
    obtain ⟨root, e, hroot, rfl⟩ := removeDirectory_eq_dropAt hclear
    exact .inr ⟨root, by rw [stale?, if_pos hexists, hroot]; rfl, rfl⟩
  · next hmissing =>
    cases hclear
    exact .inl ⟨if_neg hmissing, rfl⟩

theorem kept_clearStaging (hclear : clearStaging r t = .ok now) :
    Kept (fun loc => (stale? r t).any (·.isPrefixOf loc)) t now := by
  obtain ⟨-, rfl⟩ | ⟨root, hroot, rfl⟩ := clearStaging_cases hclear
  · exact .refl _ _
  · rw [hroot]
    exact kept_dropAt root t

theorem kept_runReport (h : launch.WritesOnly j.java (j.arguments r) (reportLocation r)) :
    Kept (fun loc => (t.goal? (reportLocation r)).any (·.isPrefixOf loc)) t
      (j.runReport launch r t).2 := by
  unfold runReport
  split
  · exact .refl _ t
  · next run hrun => split <;> exact h t run hrun

/-- A report keeps all that it does not touch, whatever its result. -/
theorem kept_generate (h : launch.WritesOnly j.java (j.arguments r) (reportLocation r)) :
    Kept (touches r t) t (j.generate launch r t).tree := by
  unfold generate
  split
  · exact .refl _ t
  · next now hclear =>
    have htouches := touches_eq hclear
    have hcleared : Kept (touches r t) t now :=
      (kept_clearStaging hclear).mono fun loc hloc => by simp [htouches, hloc]
    have hstaged : Grown (touches r t) now (r.classes.stage (stagingDir r) now).tree :=
      ClassSet.grown_stage fun loc hloc => by simp [htouches, hloc]
    dsimp only
    split
    · exact hcleared.trans hstaged.kept
    · have hreported : Kept (touches r t) (r.classes.stage (stagingDir r) now).tree
          (j.runReport launch r (r.classes.stage (stagingDir r) now).tree).2 :=
        (kept_runReport h).mono fun loc hloc => by
          obtain ⟨goal, hgoal, hbelow⟩ := (Option.any_eq_true _ _).mp hloc
          simp [htouches, hstaged.goal? hgoal, hbelow]
      exact (hcleared.trans hstaged.kept).trans hreported

/-! ## The inputs of a report -/

theorem executionData_readable {g : Aggregation} (hr : g.aggregate t = .ok r) {p : Path}
    (hp : p ∈ r.executionData) : ∃ bytes, t.readBytes p = .ok bytes := by
  obtain ⟨classes, -, -, rfl⟩ := Aggregation.aggregate_eq_ok_iff.mp hr
  rw [Aggregation.dataset_paths] at hp
  exact readBytes_of_isFile (Bool.and_eq_true_iff.mp (List.mem_filter.mp hp).2).2

theorem sourceDirs_found {g : Aggregation} (hr : g.aggregate t = .ok r) {dir : Path}
    (hdir : dir ∈ r.sourceDirs) : ∃ root, t.stat dir = .ok (root, .directory) := by
  obtain ⟨classes, -, -, rfl⟩ := Aggregation.aggregate_eq_ok_iff.mp hr
  obtain ⟨c, -, hc⟩ := List.mem_flatMap.mp hdir
  exact stat_of_isDirectory (List.mem_filter.mp hc).2

/-- The inputs of a report that it does not reach survive it, whatever its result: the classes, the
execution data, and the files below the source directories. -/
theorem generate_keeps_inputs {g : Aggregation} (hr : g.aggregate t = .ok r)
    (h : launch.WritesOnly j.java (j.arguments r) (reportLocation r)) :
    let after := (j.generate launch r t).tree
    (∀ a ∈ r.classes.artifacts.values, t.avoids (touches r t) a.path = true →
      ∀ bytes, t.readBytes a.path = .ok bytes → after.readBytes a.path = .ok bytes) ∧
    (∀ p ∈ r.executionData, t.avoids (touches r t) p = true →
      ∃ bytes, t.readBytes p = .ok bytes ∧ after.readBytes p = .ok bytes) ∧
    ∀ dir ∈ r.sourceDirs, ∃ root, t.stat dir = .ok (root, .directory) ∧
      (t.avoids (touches r t) dir = true → after.stat dir = .ok (root, .directory)) ∧
      ∀ loc bytes executable, root <+: loc → t.entry? loc = some (.file bytes executable) →
        touches r t loc = false → after.entry? loc = some (.file bytes executable) := by
  intro after
  have hkept : Kept (touches r t) t after := kept_generate h
  refine ⟨fun a _ hclear bytes hbytes => hkept.readBytes hbytes hclear, fun p hp hclear => ?_,
    fun dir hdir => ?_⟩
  · obtain ⟨bytes, hbytes⟩ := executionData_readable hr hp
    exact ⟨bytes, hbytes, hkept.readBytes hbytes hclear⟩
  · obtain ⟨root, hroot⟩ := sourceDirs_found hr hdir
    exact ⟨root, hroot, hkept.stat hroot, fun loc bytes executable _ he hloc =>
      hkept.entry loc _ he hloc⟩

/-- A class, execution data and a source of one module, and a class that an earlier report has
staged. The data and the source are kept in a place that a report may be put into. -/
def afterTests : FileTree :=
  ["core/classes/org/core/A.class", "out/classes/core.exec", "out/classes/src/A.java",
    "report/classes/Old.class"].foldl (fun t p => t.place ⟨p⟩ (.file [65] false)) (.empty ["w"])

def nightly (output : Path) : Aggregation where
  inputs := [⟨"core", some ⟨"out/classes/core.exec"⟩, [⟨"core/classes"⟩], [⟨"out/classes/src"⟩]⟩]
  exclusions := .excludeNothing
  format := .xml
  outputDir := output

/-- Writes an empty report. -/
def reporter (p : Path) : Launcher := fun _ _ t =>
  .ok ⟨.code 0, [], (t.writeFile p []).toOption.getD t⟩

theorem reporter_writesOnly (p program : Path) (args : List String) :
    (reporter p).WritesOnly program args p := by
  intro t run hrun
  cases hrun
  cases hwrite : t.writeFile p [] with
  | error fault => exact .refl _ t
  | ok t' =>
    refine (grown_of_writeFile hwrite fun loc hloc => ?_).kept
    rw [hloc]
    exact List.isPrefixOf_iff_prefix.mpr (List.prefix_refl loc)

def runner : Jacoco := ⟨standardJava, ⟨"jacococli.jar"⟩⟩

theorem generate_keeps_nightly : ∃ r, (nightly ⟨"report"⟩).aggregate afterTests = .ok r ∧
    let after := (runner.generate (reporter (reportLocation r)) r afterTests).tree
    (∀ a ∈ r.classes.artifacts.values, after.readBytes a.path = .ok [65]) ∧
    (∃ bytes, after.readBytes ⟨"out/classes/core.exec"⟩ = .ok bytes) ∧
    after.entry? ["w", "out", "classes", "src", "A.java"] = some (.file [65] false) := by
  have hfacts : (((nightly ⟨"report"⟩).aggregate afterTests).toOption.any fun r =>
      let clear (p : Path) := afterTests.avoids (touches r afterTests) p
      r.classes.artifacts.values.all (fun a => clear a.path &&
        (afterTests.readBytes a.path).toOption == some [65]) &&
      (r.executionData == [⟨"out/classes/core.exec"⟩] && clear ⟨"out/classes/core.exec"⟩) &&
      (r.sourceDirs == [⟨"out/classes/src"⟩] &&
        !touches r afterTests ["w", "out", "classes", "src", "A.java"])) = true := by
    decide +kernel
  obtain ⟨r, hr, hfacts⟩ := (Option.any_eq_true _ _).mp hfacts
  simp only [Bool.and_eq_true, List.all_eq_true, beq_iff_eq, Bool.not_eq_true'] at hfacts
  obtain ⟨⟨hclasses, hdata, hexec⟩, hsources, hsource⟩ := hfacts
  obtain ⟨hkeepsClasses, hkeepsData, hkeepsSources⟩ := generate_keeps_inputs (j := runner)
    (Outcome.toOption_eq_some_iff.mp hr) (reporter_writesOnly (reportLocation r) _ _)
  refine ⟨r, Outcome.toOption_eq_some_iff.mp hr, fun a ha => ?_, ?_, ?_⟩
  · obtain ⟨hclear, hbytes⟩ := hclasses a ha
    exact hkeepsClasses a ha hclear _ (Outcome.toOption_eq_some_iff.mp hbytes)
  · obtain ⟨bytes, -, hafter⟩ := hkeepsData ⟨"out/classes/core.exec"⟩ (by simp [hdata]) hexec
    exact ⟨bytes, hafter⟩
  · obtain ⟨root, hroot, -, hfiles⟩ := hkeepsSources ⟨"out/classes/src"⟩ (by simp [hsources])
    have hdir : (afterTests.stat ⟨"out/classes/src"⟩).toOption =
        some (["w", "out", "classes", "src"], .directory) := by decide +kernel
    rw [hroot] at hdir
    cases hdir
    exact hfiles _ _ _ ⟨["A.java"], rfl⟩ (by decide +kernel) hsource

/-- The directory that classes are staged into is cleared although the execution data and the
sources of the request are there. -/
theorem generate_loses_inputs : ∃ r, (nightly ⟨"out"⟩).aggregate afterTests = .ok r ∧
    (reporter (reportLocation r)).WritesOnly runner.java (runner.arguments r) (reportLocation r) ∧
    let after := (runner.generate (reporter (reportLocation r)) r afterTests).tree
    (⟨"out/classes/core.exec"⟩ ∈ r.executionData ∧
      afterTests.isFile ⟨"out/classes/core.exec"⟩ = true ∧
      after.pathExists ⟨"out/classes/core.exec"⟩ = false) ∧
    (⟨"out/classes/src"⟩ ∈ r.sourceDirs ∧
      afterTests.isFile ⟨"out/classes/src/A.java"⟩ = true ∧
      after.pathExists ⟨"out/classes/src/A.java"⟩ = false) := by
  have hfacts : (((nightly ⟨"out"⟩).aggregate afterTests).toOption.any fun r =>
      let after := (runner.generate (reporter (reportLocation r)) r afterTests).tree
      (r.executionData.contains ⟨"out/classes/core.exec"⟩ &&
        (afterTests.isFile ⟨"out/classes/core.exec"⟩ &&
          !after.pathExists ⟨"out/classes/core.exec"⟩)) &&
      (r.sourceDirs.contains ⟨"out/classes/src"⟩ &&
        (afterTests.isFile ⟨"out/classes/src/A.java"⟩ &&
          !after.pathExists ⟨"out/classes/src/A.java"⟩))) = true := by decide +kernel
  obtain ⟨r, hr, hfacts⟩ := (Option.any_eq_true _ _).mp hfacts
  simp only [Bool.and_eq_true, List.contains_iff_mem, Bool.not_eq_true'] at hfacts
  exact ⟨r, Outcome.toOption_eq_some_iff.mp hr, reporter_writesOnly _ _ _, hfacts⟩

end Jacoco
end ModularBuild
