import ModularBuild.Proofs.Coverage.Jacoco
import ModularBuild.Proofs.Coverage.Staging
import ModularBuild.Proofs.FileTree.Places
import ModularBuild.Proofs.Text.Utf8

/-! # What the program of a report is given

Before the program of a report is started, the merged classes are staged. Each copy sets the
file at the place of its class and no other, so below the directory there are in the end the
merged classes and what was there before the first copy. The classes of an earlier run are cleared
away first, if the path to them can be walked: a path through a directory that is missing is only
made to lead somewhere by the staging itself, and then stale classes stay beside the merged
ones. -/

namespace ModularBuild

open FileTree

theorem ClassArtifact.destination_target {a : ClassArtifact} (h : ∀ name ∈ a.names, IsName name)
    (t : FileTree) (dir : Path) :
    t.destination (a.target dir) = t.destination dir ++ a.names := by
  rw [destination, destination, moves_target h, locate_append, locate_down, start, start,
    isAbsolute_target h]

/-! ## Copies -/

namespace ClassSet

variable {a : ClassArtifact} {artifacts staged : List ClassArtifact} {dir : Path}
  {now now' : FileTree}

/-- The class is copied to its place, and no other file changes. -/
structure Copied (dir : Path) (a : ClassArtifact) (now now' : FileTree) : Prop where
  unlinked : now'.Unlinked
  current : now'.current = now.current
  files : ∃ bytes, now.fileAt? (now.destination a.path) = some bytes ∧
    ∀ loc, now'.fileAt? loc =
      if loc = now.destination dir ++ a.names then some bytes else now.fileAt? loc

theorem copied_of_copyClass (hlinks : now.Unlinked) (hnamed : ∀ name ∈ a.names, IsName name)
    (houtside : ¬ now.destination dir <+: now.destination a.path)
    (h : (copyClass dir a).runOn now = (.ok (), now')) : Copied dir a now now' := by
  obtain ⟨above, mid, hmake, hcopy⟩ := exists_of_copyClass hnamed h
  have hgrown : Grown (fun _ => false) now mid := grown_of_makeDirectories hmake
  have hafter : Grown (fun _ => true) mid now' := grown_of_copyFile hcopy fun _ _ => rfl
  have hmid : mid.Unlinked := hlinks.grown hgrown
  have hfiles := fileAt?_of_makeDirectories hmake
  have hplace := destination_congr hgrown.current
  have htarget : mid.destination (a.target dir) = now.destination dir ++ a.names := by
    rw [hplace, a.destination_target hnamed]
  have hne : mid.destination a.path ≠ mid.destination (a.target dir) := by
    rw [htarget, hplace]
    intro hsame
    exact houtside (hsame ▸ List.prefix_append _ _)
  obtain ⟨hroot, bytes, executable, hsource, hput⟩ := hmid.put_of_copyFile hne hcopy
  rw [htarget] at hroot hput
  rw [hfiles, hplace] at hsource
  refine ⟨hmid.grown hafter, hafter.current.trans hgrown.current, bytes, hsource, fun loc => ?_⟩
  rw [hput, fileAt?_put_file hroot, hfiles]

/-- The classes are at their places, and nothing else has changed. -/
def CopiedAll (dir : Path) (artifacts : List ClassArtifact) (now now' : FileTree) : Prop :=
  ∀ loc bytes, now'.fileAt? loc = some bytes ↔
    (∃ a ∈ artifacts, loc = now.destination dir ++ a.names ∧
      now.fileAt? (now.destination a.path) = some bytes) ∨
    ((∀ a ∈ artifacts, loc ≠ now.destination dir ++ a.names) ∧ now.fileAt? loc = some bytes)

theorem CopiedAll.cons {mid : FileTree} (hfirst : Copied dir a now mid)
    (hrest : CopiedAll dir artifacts mid now') (hnew : ∀ b ∈ artifacts, a.names ≠ b.names)
    (houtside : ∀ b ∈ artifacts, ¬ now.destination dir <+: now.destination b.path) :
    CopiedAll dir (a :: artifacts) now now' := by
  have hplace := destination_congr hfirst.current
  obtain ⟨contents, hcontents, hmid⟩ := hfirst.files
  have hsource : ∀ b ∈ artifacts,
      mid.fileAt? (now.destination b.path) = now.fileAt? (now.destination b.path) := by
    intro b hb
    rw [hmid, if_neg]
    intro hsame
    exact houtside b hb (hsame ▸ List.prefix_append _ _)
  intro loc bytes
  have hother : loc = now.destination dir ++ a.names →
      ∀ b ∈ artifacts, loc ≠ now.destination dir ++ b.names := fun hloc b hb hsame =>
    hnew b hb (List.append_cancel_left (hloc.symm.trans hsame))
  rw [hrest loc bytes]
  simp only [hplace]
  constructor
  · rintro (⟨b, hb, hloc, hread⟩ | ⟨hnone, hread⟩)
    · exact .inl ⟨b, List.mem_cons_of_mem _ hb, hloc, (hsource b hb).symm.trans hread⟩
    · rw [hmid] at hread
      split at hread
      · next hloc => exact .inl ⟨a, List.mem_cons_self, hloc, hcontents.trans hread⟩
      · next hloc => exact .inr ⟨List.forall_mem_cons.mpr ⟨hloc, hnone⟩, hread⟩
  · rintro (⟨b, hb, hloc, hread⟩ | ⟨hnone, hread⟩)
    · rcases List.mem_cons.mp hb with rfl | hb
      · exact .inr ⟨hother hloc, by rw [hmid, if_pos hloc, ← hcontents, hread]⟩
      · exact .inl ⟨b, hb, hloc, (hsource b hb).trans hread⟩
    · obtain ⟨hloc, hnone⟩ := List.forall_mem_cons.mp hnone
      exact .inr ⟨hnone, by rw [hmid, if_neg hloc, hread]⟩

theorem copiedAll_of_copyClasses (hlinks : now.Unlinked)
    (hnamed : ∀ a ∈ artifacts, ∀ name ∈ a.names, IsName name)
    (houtside : ∀ a ∈ artifacts, ¬ now.destination dir <+: now.destination a.path)
    (hdistinct : artifacts.Pairwise fun a b => a.names ≠ b.names)
    (h : copyClasses dir artifacts now = ⟨staged, none, now'⟩) :
    staged = artifacts ∧ CopiedAll dir artifacts now now' := by
  induction artifacts generalizing now staged with
  | nil =>
    cases h
    exact ⟨rfl, fun loc bytes => by simp⟩
  | cons a rest ih =>
    rw [List.forall_mem_cons] at hnamed houtside
    rw [List.pairwise_cons] at hdistinct
    unfold copyClasses at h
    rcases hcopy : (copyClass dir a).runOn now with ⟨_ | _, mid⟩
    · rw [hcopy] at h
      cases h
    · rw [hcopy] at h
      obtain ⟨hstaged, hfault, htree⟩ := Staging.mk.inj h
      have hfirst := copied_of_copyClass hlinks hnamed.1 houtside.1 hcopy
      have houtside' : ∀ b ∈ rest, ¬ mid.destination dir <+: mid.destination b.path := by
        simpa only [destination_congr hfirst.current] using houtside.2
      have hrun : copyClasses dir rest mid = ⟨(copyClasses dir rest mid).staged, none, now'⟩ := by
        rw [← hfault, ← htree]
      obtain ⟨hall, hrest⟩ := ih hfirst.unlinked hnamed.2 houtside' hdistinct.2 hrun
      exact ⟨hstaged ▸ congrArg (a :: ·) hall, .cons hfirst hrest hdistinct.1 houtside.2⟩

/-- Staging comes through by copying all classes into a directory. -/
theorem copiedAll_of_stage {s : ClassSet} {t : FileTree} (hlinks : t.Unlinked)
    (hmoves : dir.moves ≠ [])
    (hnamed : ∀ a ∈ s.artifacts.values, ∀ name ∈ a.names, IsName name)
    (houtside : ∀ a ∈ s.artifacts.values, ¬ t.destination dir <+: t.destination a.path)
    (hdistinct : s.artifacts.values.Pairwise fun a b => a.names ≠ b.names)
    (h : s.stage dir t = ⟨staged, none, now⟩) :
    staged = s.artifacts.values ∧ CopiedAll dir s.artifacts.values t now ∧
      now.stat dir = .ok (t.destination dir, .directory) := by
  unfold stage at h
  rcases hmake : (makeDirectories dir).runOn t with ⟨_ | _, made⟩
  · rw [hmake] at h
    cases h
  · rw [hmake] at h
    dsimp only at h
    have hgrown : Grown (fun _ => false) t made := grown_of_makeDirectories hmake
    have hmade : made.Unlinked := hlinks.grown hgrown
    have hfiles := fileAt?_of_makeDirectories hmake
    have hplace := destination_congr hgrown.current
    obtain ⟨rfl, hcopied⟩ := copiedAll_of_copyClasses hmade hnamed
      (by simpa only [hplace] using houtside) hdistinct h
    refine ⟨rfl, fun loc bytes => ?_, ?_⟩
    · rw [hcopied loc bytes]
      simp only [hplace, hfiles]
    · obtain ⟨loc, hdirectory⟩ := stat_of_makeDirectoriesWithin hmoves hmake
      have hcopies : Grown (fun _ => true) made (copyClasses dir s.artifacts.values made).tree :=
        grown_copyClasses (.refl _ made) fun _ _ _ _ => rfl
      rw [h] at hcopies
      obtain ⟨hspelling, hleads⟩ := stat_directory_iff.mp hdirectory
      rw [← hplace, ← hmade.location_of_stat hdirectory]
      exact stat_directory_iff.mpr ⟨hspelling, hleads.grown hcopies⟩

end ClassSet

/-! ## Reports -/

namespace Jacoco

variable {j : Jacoco} {r : ReportRequest} {before t cleared now : FileTree}
  {staged : List ClassArtifact}

/-- The report gets as far as its program. This finds the tree that the classes were staged
into, and whatever it does, it does from there. -/
def Starts (j : Jacoco) (r : ReportRequest) (t : FileTree) (staged : List ClassArtifact)
    (now : FileTree) : Prop :=
  ∀ launch : Launcher, j.generate launch r t =
    ⟨staged, (j.runReport launch r now).1, (j.runReport launch r now).2⟩

theorem starts_iff : j.Starts r t staged now ↔ ∃ cleared, clearStaging r t = .ok cleared ∧
    r.classes.stage (stagingDir r) cleared = ⟨staged, none, now⟩ := by
  constructor
  · intro h
    -- a program that does nothing leaves the tree that it has found
    have hseen := h fun _ _ t => .ok ⟨.code 0, [], t⟩
    unfold generate at hseen
    cases hclear : clearStaging r t with
    | error fault =>
      rw [hclear] at hseen
      cases (JacocoRun.mk.inj hseen).2.1
    | ok cleared =>
      rw [hclear] at hseen
      dsimp only at hseen
      refine ⟨cleared, rfl, ?_⟩
      rcases hstage : r.classes.stage (stagingDir r) cleared with ⟨staged', fault, now'⟩
      rw [hstage] at hseen
      cases fault with
      | some fault => cases (JacocoRun.mk.inj hseen).2.1
      | none =>
        obtain ⟨rfl, -, rfl⟩ := JacocoRun.mk.inj hseen
        rfl
  · rintro ⟨cleared, hclear, hstage⟩ launch
    unfold generate
    rw [hclear]
    dsimp only
    rw [hstage]

theorem moves_stagingDir_ne_nil (r : ReportRequest) : (stagingDir r).moves ≠ [] := by
  have hname : IsName "classes" := by decide
  rw [stagingDir, hname.isPart.moves_join]
  exact List.append_ne_nil_of_right_ne_nil _ (List.cons_ne_nil _ _)

/-- What an earlier run has staged goes if the path to it leads there. -/
structure Cleared (r : ReportRequest) (t cleared : FileTree) : Prop where
  unlinked : cleared.Unlinked
  current : cleared.current = t.current
  files : ∀ loc, cleared.fileAt? loc =
    if t.pathExists (stagingDir r) = true ∧ t.destination (stagingDir r) <+: loc then none
    else t.fileAt? loc

theorem cleared_of_clearStaging (hlinks : t.Unlinked) (h : clearStaging r t = .ok cleared) :
    Cleared r t cleared := by
  unfold clearStaging at h
  split at h
  · next hexists =>
    rw [hlinks.removeDirectory_eq h]
    refine ⟨hlinks.dropAt _, rfl, fun loc => ?_⟩
    simp only [fileAt?_dropAt, hexists, List.isPrefixOf_iff_prefix, true_and]
  · next hmissing =>
    cases h
    exact ⟨hlinks, rfl, fun loc => by rw [if_neg fun hseen => hmissing hseen.1]⟩

/-- A file of an earlier run that stands where the classes are staged to, although the path does
not lead there before they are. -/
def Overlooked (r : ReportRequest) (t : FileTree) (names : List String) (bytes : Bytes) : Prop :=
  t.pathExists (stagingDir r) = false ∧
    t.fileAt? (t.destination (stagingDir r) ++ names) = some bytes

/-- All merged classes have been staged, each once, and below the directory there are their files
and the ones that were overlooked. -/
structure Restaged (r : ReportRequest) (t : FileTree) (staged : List ClassArtifact)
    (now : FileTree) : Prop where
  classes : staged = r.classes.artifacts.values
  identities : staged.map (·.identity) = r.classes.identities
  ascending : r.classes.identities.Pairwise fun a b => Bytes.ofText a < Bytes.ofText b
  count : ∃ cleared, clearStaging r t = .ok cleared ∧
    r.classes.stagedCount (r.classes.stage (stagingDir r) cleared) = .ok staged.length
  directory : now.stat (stagingDir r) = .ok (t.destination (stagingDir r), .directory)
  names : ∀ a ∈ staged, ClassTree.joinNames a.names = a.identity
  files : ∀ names bytes, now.fileAt? (t.destination (stagingDir r) ++ names) = some bytes ↔
    (∃ a ∈ staged, a.names = names ∧ t.readBytes a.path = .ok bytes) ∨
      (∀ a ∈ staged, a.names ≠ names) ∧ Overlooked r t names bytes

theorem restaged_of_starts {g : Aggregation} (hnamed : before.WellNamed)
    (hrequest : g.aggregate before = .ok r) (hlinks : t.Unlinked)
    (hreadable : ∀ a ∈ r.classes.artifacts.values, ∃ bytes, t.readBytes a.path = .ok bytes)
    (houtside : ∀ a ∈ r.classes.artifacts.values,
      ¬ t.destination (stagingDir r) <+: t.destination a.path)
    (hstarts : j.Starts r t staged now) : Restaged r t staged now := by
  obtain ⟨cleared, hclear, hstage⟩ := starts_iff.mp hstarts
  have hcleared := cleared_of_clearStaging hlinks hclear
  have hplace := destination_congr hcleared.current
  obtain ⟨trees, hroots, hmerge⟩ : ∃ trees, (∀ tree ∈ trees, before.isDirectory tree.root = true) ∧
      ClassSet.merge before trees g.exclusions = .ok r.classes := by
    obtain ⟨classes, -, hmerge, rfl⟩ := Aggregation.aggregate_eq_ok_iff.mp hrequest
    exact ⟨_, fun _ => Aggregation.Gathering.isDirectory_of_mem_trees, hmerge⟩
  obtain ⟨rfl, hcopied, hdirectory⟩ := ClassSet.copiedAll_of_stage hcleared.unlinked
    (moves_stagingDir_ne_nil r) (fun a => ClassSet.named_of_merge hnamed hroots hmerge)
    (by simpa only [hplace] using houtside) (ClassSet.pairwise_names_ne hmerge) hstage
  refine ⟨rfl, ClassSet.map_identity_values hmerge, ?_, ⟨cleared, hclear, ?_⟩,
    hplace _ ▸ hdirectory, fun a _ => a.joinNames_names, fun names bytes => ?_⟩
  · exact (Table.ascending _).imp Bytes.ofText_lt
  · rw [hstage, ClassSet.stagedCount, ClassSet.size, Table.size, Table.values, List.length_map]
  · -- outside the directory nothing has gone, so the classes are copied as they were
    have hread : ∀ a ∈ r.classes.artifacts.values,
        (cleared.fileAt? (t.destination a.path) = some bytes ↔ t.readBytes a.path = .ok bytes) := by
      intro a ha
      obtain ⟨contents, hcontents⟩ := hreadable a ha
      rw [hcleared.files, if_neg fun hgone => houtside a ha hgone.2,
        hlinks.fileAt?_of_readBytes hcontents, hcontents, Option.some.injEq, Except.ok.injEq]
    have hleft : cleared.fileAt? (t.destination (stagingDir r) ++ names) = some bytes ↔
        Overlooked r t names bytes := by
      rw [hcleared.files, Overlooked]
      cases t.pathExists (stagingDir r) <;> simp
    rw [← hplace, hcopied _ bytes]
    simp only [hplace, ne_eq, List.append_right_inj, hleft]
    refine or_congr (exists_congr fun a => and_congr_right fun ha => ?_)
      (and_congr_left fun _ => forall₂_congr fun _ _ => ne_comm)
    exact and_congr eq_comm (hread a ha)

/-- A class of one module, and one that an earlier run has staged. -/
def restarted : FileTree :=
  ["core/classes/org/core/A.class", "out/classes/org/core/Old.class"].foldl
    (fun t p => t.place ⟨p⟩ (.file [65] false)) (.empty ["w"])

def coreInto (output : Path) : Aggregation :=
  ⟨[⟨"core", none, [⟨"core/classes"⟩], []⟩], .standard, .html, output⟩

def coreRunner : Jacoco := ⟨standardJava, ⟨"jacococli.jar"⟩⟩

theorem starts_of_fault {now : FileTree} (hclear : clearStaging r t = .ok now)
    (hfault : (r.classes.stage (stagingDir r) now).fault = none) :
    j.Starts r t (r.classes.stage (stagingDir r) now).staged
      (r.classes.stage (stagingDir r) now).tree := by
  refine starts_iff.mpr ⟨now, hclear, ?_⟩
  rw [← hfault]

theorem restaged_over_stale : ∃ r staged now, (coreInto ⟨"out"⟩).aggregate restarted = .ok r ∧
    coreRunner.Starts r restarted staged now ∧ Restaged r restarted staged now ∧
    staged.map (·.identity) = ["org/core/A.class"] ∧
    now.fileAt? ["w", "out", "classes", "org", "core", "Old.class"] = none := by
  have hnamed : restarted.WellNamed := by decide +kernel
  have hlinks : restarted.Unlinked := unlinked_of_rows (by decide +kernel)
  have hfacts : ((coreInto ⟨"out"⟩).aggregate restarted).toOption.any (fun r =>
      decide (r.outputDir = ⟨"out"⟩ ∧ r.classes.identities = ["org/core/A.class"] ∧
        ∀ a ∈ r.classes.artifacts.values, restarted.isFile a.path = true ∧
          ¬ restarted.destination (stagingDir r) <+: restarted.destination a.path) &&
      (clearStaging r restarted).toOption.any fun cleared =>
        decide ((r.classes.stage (stagingDir r) cleared).fault = none)) = true := by
    decide +kernel
  obtain ⟨r, hr, hfacts⟩ := (Option.any_eq_true _ _).mp hfacts
  obtain ⟨hfacts, hstage⟩ := Bool.and_eq_true_iff.mp hfacts
  obtain ⟨houtput, hidentities, hclasses⟩ := of_decide_eq_true hfacts
  obtain ⟨cleared, hclear, hfault⟩ := (Option.any_eq_true _ _).mp hstage
  have hrequest := Outcome.toOption_eq_some_iff.mp hr
  have hstarts : coreRunner.Starts r restarted _ _ :=
    starts_of_fault (Outcome.toOption_eq_some_iff.mp hclear) (of_decide_eq_true hfault)
  have hrestaged := restaged_of_starts hnamed hrequest hlinks
    (fun a ha => readBytes_of_isFile (hclasses a ha).1) (fun a ha => (hclasses a ha).2) hstarts
  have hseen : restarted.pathExists (stagingDir r) = true := by
    rw [stagingDir, houtput]
    decide +kernel
  have hplace : restarted.destination (stagingDir r) = ["w", "out", "classes"] := by
    rw [stagingDir, houtput]
    decide +kernel
  refine ⟨r, _, _, hrequest, hstarts, hrestaged, hrestaged.identities.trans hidentities, ?_⟩
  refine Option.eq_none_iff_forall_ne_some.mpr fun bytes hold => ?_
  rw [show ["w", "out", "classes", "org", "core", "Old.class"] =
    restarted.destination (stagingDir r) ++ ["org", "core", "Old.class"] by rw [hplace]; rfl,
    hrestaged.files] at hold
  rcases hold with ⟨a, ha, hnames, -⟩ | ⟨-, hmissing, -⟩
  · have hidentity := List.mem_map_of_mem (f := fun a : ClassArtifact => a.identity) ha
    rw [hrestaged.identities, hidentities, ← hrestaged.names a ha, hnames] at hidentity
    exact absurd hidentity (by decide)
  · rw [hseen] at hmissing
    cases hmissing

/-- The path of the output goes through a directory that is not there yet. So nothing is seen
where the classes are staged to, and a class of an earlier run stays beside the merged one. -/
theorem stale_class_overlooked : ∃ r staged now,
    (coreInto ⟨"x/../out"⟩).aggregate restarted = .ok r ∧ restarted.Unlinked ∧
    (∀ a ∈ r.classes.artifacts.values, restarted.isFile a.path = true ∧
      ¬ restarted.destination (stagingDir r) <+: restarted.destination a.path) ∧
    coreRunner.Starts r restarted staged now ∧
    staged.map (·.identity) = ["org/core/A.class"] ∧
    now.stat (stagingDir r) = .ok (["w", "out", "classes"], .directory) ∧
    now.fileAt? ["w", "out", "classes", "org", "core", "Old.class"] = some [65] := by
  have hfacts : ((coreInto ⟨"x/../out"⟩).aggregate restarted).toOption.any (fun r =>
      decide (∀ a ∈ r.classes.artifacts.values, restarted.isFile a.path = true ∧
        ¬ restarted.destination (stagingDir r) <+: restarted.destination a.path) &&
      (clearStaging r restarted).toOption.any fun cleared =>
        let s := r.classes.stage (stagingDir r) cleared
        decide (s.fault = none ∧ s.staged.map (·.identity) = ["org/core/A.class"] ∧
          (s.tree.stat (stagingDir r)).toOption = some (["w", "out", "classes"], .directory) ∧
          s.tree.fileAt? ["w", "out", "classes", "org", "core", "Old.class"] = some [65])) =
      true := by
    decide +kernel
  obtain ⟨r, hr, hfacts⟩ := (Option.any_eq_true _ _).mp hfacts
  obtain ⟨hclasses, hstage⟩ := Bool.and_eq_true_iff.mp hfacts
  obtain ⟨cleared, hclear, hfacts⟩ := (Option.any_eq_true _ _).mp hstage
  obtain ⟨hfault, hidentities, hdirectory, hold⟩ := of_decide_eq_true hfacts
  exact ⟨r, _, _, Outcome.toOption_eq_some_iff.mp hr, unlinked_of_rows (by decide +kernel),
    of_decide_eq_true hclasses, starts_of_fault (Outcome.toOption_eq_some_iff.mp hclear) hfault,
    hidentities, Outcome.toOption_eq_some_iff.mp hdirectory, hold⟩

end Jacoco
end ModularBuild
