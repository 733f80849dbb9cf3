import ModularBuild.Proofs.Archive.Encoding
import ModularBuild.Proofs.Archive.Failure

/-! # Archives rebuilt from their own paths

A normalized path is canonical, and to normalize it again changes nothing. But it may be refused:
a drive is looked for before the `.` segments go, and so `./C:/x` becomes a path that names a drive.
Unless one of its files got its path in this way, an archive can be rebuilt from the paths of its
files, and has the same entries again: conflicts, directories and names depend on the paths of the
files alone. -/

namespace ModularBuild

open EntryPath (Canonical isDriveQualified normalize unify)

namespace ArchivePlan

variable {t t' : FileTree} {spec spec' : ArchiveSpec} {entries : List PlannedEntry}

theorem exists_admits_of_plan (h : plan t spec = .ok entries) :
    ∃ rows, Admits spec.entries rows := by
  obtain ⟨files, hfiles, -⟩ := Outcome.bind_eq_ok_iff.mp h
  obtain ⟨rows, hrows, -⟩ := collect_eq_ok_iff.mp hfiles
  exact ⟨rows, hrows⟩

/-- Entries under canonical paths without drives keep these. -/
theorem admits_of_canonical {described : List ArchiveEntry}
    (hcanonical : ∀ e ∈ described, Canonical e.path.toList)
    (hplain : ∀ e ∈ described, isDriveQualified e.path.toList = false)
    (hdistinct : (described.map (·.path)).Nodup) :
    Admits described (described.map fun e => (e.path, e.source)) where
  named := by
    refine List.forall₂_map_right_iff.mpr (List.forall₂_same.mpr fun e he => ⟨?_, rfl⟩)
    rw [EntryPath.normalize_of_canonical (hcanonical e he), hplain e he]
    rfl
  distinct := by rwa [List.map_map]

theorem not_unreadable {described : List ArchiveEntry}
    (h : ∀ e ∈ described, ∃ b, readSource t e.source = .ok b) (path : String) :
    ¬ Unreadable t (described.map fun e => (e.path, e.source)) path := by
  rintro ⟨source, fault, hrow, hfault⟩
  obtain ⟨e, he, heq⟩ := List.mem_map.mp hrow
  obtain ⟨b, hb⟩ := h e he
  have herror := readSource_eq_error_iff.mpr ⟨source, fault, (Prod.mk.inj heq).2, hfault, rfl⟩
  rw [hb] at herror
  cases herror

end ArchivePlan

namespace Archive

variable {deflate deflate' : Bytes → Bytes} {compression compression' : Compression}
  {t t' : FileTree} {spec spec' : ArchiveSpec} {archive : Archive} {path : String}

/-- The paths of the files; a directory's path has a slash at its end. -/
def filePaths (archive : Archive) : List String :=
  archive.entries.filter fun path => path.toList.getLast? != some '/'

theorem buildWith_eq_ok_iff : buildWith deflate t compression spec = .ok archive ↔
    ∃ entries b, ArchivePlan.plan t spec = .ok entries ∧
      compression.encodeWith deflate entries = .ok b ∧
      archive = ⟨b, Digest.sha256Hex b, entries.map (·.path), compression⟩ := by
  constructor
  · intro h
    obtain ⟨entries, hentries, h⟩ := Outcome.bind_eq_ok_iff.mp h
    obtain ⟨b, hb, h⟩ := Outcome.bind_eq_ok_iff.mp h
    cases h
    exact ⟨entries, b, hentries, hb, rfl⟩
  · rintro ⟨entries, b, hentries, hb, rfl⟩
    exact Outcome.bind_eq_ok_iff.mpr ⟨entries, hentries, Outcome.bind_eq_ok_iff.mpr ⟨b, hb, rfl⟩⟩

section
variable (h : buildWith deflate t compression spec = .ok archive)
include h

theorem mem_entries_iff : path ∈ archive.entries ↔
    ∃ file, (∃ described ∈ spec.entries, normalize described.path = .ok file) ∧
      (ArchivePlan.Above path file ∨ file = path) := by
  obtain ⟨entries, b, hentries, -, rfl⟩ := buildWith_eq_ok_iff.mp h
  exact ArchivePlan.mem_paths_iff hentries

theorem ascending_entries : archive.entries.Pairwise (· < ·) := by
  obtain ⟨entries, b, hentries, -, rfl⟩ := buildWith_eq_ok_iff.mp h
  exact ArchivePlan.ascending_paths hentries

theorem nodup_filePaths : archive.filePaths.Nodup :=
  (Table.nodup_of_ascending (ascending_entries h)).filter _

theorem mem_filePaths_iff : path ∈ archive.filePaths ↔
    ∃ described ∈ spec.entries, normalize described.path = .ok path := by
  rw [filePaths, List.mem_filter, mem_entries_iff h, bne_iff_ne]
  constructor
  · rintro ⟨⟨file, hfile, ⟨front, -, -, hdir, -⟩ | rfl⟩, hslash⟩
    · rw [hdir, List.getLast?_concat] at hslash
      exact absurd rfl hslash
    · exact hfile
  · intro hfile
    refine ⟨⟨path, hfile, .inr rfl⟩, fun hslash => ?_⟩
    obtain ⟨described, -, hpath⟩ := hfile
    obtain ⟨front, hfront⟩ := List.getLast?_eq_some_iff.mp hslash
    exact (EntryPath.canonical_of_normalize hpath).ne_concat_slash front hfront

theorem canonical_of_mem_filePaths (hpath : path ∈ archive.filePaths) : Canonical path.toList := by
  obtain ⟨described, -, hpath⟩ := (mem_filePaths_iff h).mp hpath
  exact EntryPath.canonical_of_normalize hpath

end

section
variable (h : buildWith deflate t compression spec = .ok archive)
  (hpaths : (spec'.entries.map (·.path)).Perm archive.filePaths)
include h hpaths

theorem canonical_of_described {e : ArchiveEntry} (he : e ∈ spec'.entries) :
    Canonical e.path.toList :=
  canonical_of_mem_filePaths h (hpaths.subset (List.mem_map_of_mem he))

/-- The first path with a drive is refused. -/
theorem buildWith_of_drive {before after : List ArchiveEntry} {e : ArchiveEntry}
    (hspec : spec'.entries = before ++ e :: after)
    (hbefore : ∀ x ∈ before, isDriveQualified x.path.toList = false)
    (hdrive : isDriveQualified e.path.toList = true) :
    buildWith deflate' t' compression' spec' =
      .error (.invalidArchivePath e.path .driveQualified) := by
  have hcanonical : ∀ x ∈ spec'.entries, Canonical x.path.toList := fun x hx =>
    canonical_of_described h hpaths hx
  have hdistinct := hpaths.nodup_iff.mpr (nodup_filePaths h)
  rw [hspec] at hcanonical hdistinct
  rw [List.map_append] at hdistinct
  have hadmits := ArchivePlan.admits_of_canonical
    (fun x hx => hcanonical x (List.mem_append_left _ hx)) hbefore hdistinct.of_append_left
  have hrefused : normalize e.path = .error (.invalidArchivePath e.path .driveQualified) := by
    rw [EntryPath.normalize_of_canonical (hcanonical e (by simp)), hdrive]
    rfl
  have hcollect := ArchivePlan.collect_eq_error_iff.mpr
    ⟨before, e, after, _, hspec, hadmits, ArchivePlan.enter_eq_error_iff.mpr (.inl hrefused)⟩
  rw [buildWith, ArchivePlan.plan, hcollect]
  rfl

section
variable (hplain : ∀ e ∈ spec'.entries, isDriveQualified e.path.toList = false)
include hplain

/-- Without drives, the description has the same files as the one the archive was built from. -/
theorem exists_normalize_iff :
    (∃ e ∈ spec'.entries, normalize e.path = .ok path) ↔
      ∃ described ∈ spec.entries, normalize described.path = .ok path := by
  rw [← mem_filePaths_iff h, ← hpaths.mem_iff, List.mem_map]
  refine exists_congr fun e => and_congr_right fun he => ?_
  rw [EntryPath.normalize_of_canonical (canonical_of_described h hpaths he), hplain e he]
  exact ⟨Except.ok.inj, congrArg Except.ok⟩

theorem exists_plan_of_plain
    (hreads : ∀ e ∈ spec'.entries, ∃ b, ArchivePlan.readSource t' e.source = .ok b) :
    ∃ entries, ArchivePlan.plan t' spec' = .ok entries := by
  have hadmits' := ArchivePlan.admits_of_canonical
    (fun e he => canonical_of_described h hpaths he) hplain
    (hpaths.nodup_iff.mpr (nodup_filePaths h))
  obtain ⟨entries, b, hentries, -, rfl⟩ := buildWith_eq_ok_iff.mp h
  obtain ⟨rows, hadmits⟩ := ArchivePlan.exists_admits_of_plan hentries
  have hfree := ((ArchivePlan.exists_plan_iff_of_admits hadmits).mp ⟨entries, hentries⟩).1
  -- a conflict between these paths would have been one before
  have hsame : ∀ p, p ∈ (spec'.entries.map fun e => (e.path, e.source)).map Prod.fst ↔
      p ∈ rows.map Prod.fst := fun p => by
    rw [ArchivePlan.mem_names_iff hadmits'.named, ArchivePlan.mem_names_iff hadmits.named]
    exact exists_normalize_iff h hpaths hplain
  refine (ArchivePlan.exists_plan_iff_of_admits hadmits').mpr
    ⟨fun p hp => hfree p ?_, ArchivePlan.not_unreadable hreads⟩
  obtain ⟨hmem, other, hother, hthrough⟩ := hp
  exact ⟨(hsame p).mp hmem, other, (hsame other).mp hother, hthrough⟩

/-- Plans for the same files have the same paths. -/
theorem paths_of_plan {entries : List PlannedEntry}
    (hentries : ArchivePlan.plan t' spec' = .ok entries) :
    entries.map (·.path) = archive.entries := by
  refine Table.ascending_ext (ArchivePlan.ascending_paths hentries) (ascending_entries h)
    fun path => ?_
  rw [ArchivePlan.mem_paths_iff hentries, mem_entries_iff h]
  simp only [exists_normalize_iff h hpaths hplain]

theorem exists_buildWith_of_plain
    (hreads : ∀ e ∈ spec'.entries, ∃ b, ArchivePlan.readSource t' e.source = .ok b) :
    ∃ archive', buildWith deflate' t' compression' spec' = .ok archive' ∧
      archive'.entries = archive.entries := by
  obtain ⟨entries', hentries'⟩ := exists_plan_of_plain h hpaths hplain hreads
  have hsame := paths_of_plan h hpaths hplain hentries'
  obtain ⟨entries, b, hentries, hb, rfl⟩ := buildWith_eq_ok_iff.mp h
  -- the same paths have been given names before
  have hnamed := Compression.encodeWith_of_nameAll.mp ⟨b, hb⟩
  obtain ⟨b', hb'⟩ : ∃ b', compression'.encodeWith deflate' entries' = .ok b' :=
    Compression.encodeWith_of_nameAll.mpr (hsame ▸ hnamed)
  exact ⟨_, buildWith_eq_ok_iff.mpr ⟨entries', b', hentries', hb', rfl⟩, hsame⟩

end
end

/-- A normalized path is canonical and stays what it is, and an archive can be rebuilt from the
paths of its files, but for paths that got their drive from dropping a `.` in front of it: the
first of these is refused. -/
theorem normalized_kept_or_drive (raw path : String) (deflate deflate' : Bytes → Bytes)
    (t t' : FileTree) (compression compression' : Compression) (spec spec' : ArchiveSpec)
    (archive : Archive) :
    (normalize raw = .ok path → Canonical path.toList ∧
      (normalize path = if isDriveQualified path.toList then
        .error (.invalidArchivePath path .driveQualified) else .ok path) ∧
      (isDriveQualified path.toList = true → ['.', '/'] <+: unify raw.toList)) ∧
    (buildWith deflate t compression spec = .ok archive →
      (spec'.entries.map (·.path)).Perm archive.filePaths →
      ((∀ e ∈ spec'.entries, ∃ b, ArchivePlan.readSource t' e.source = .ok b) →
        (∀ e ∈ spec'.entries, isDriveQualified e.path.toList = false) →
        ∃ archive', buildWith deflate' t' compression' spec' = .ok archive' ∧
          archive'.entries = archive.entries) ∧
      ∀ before e after, spec'.entries = before ++ e :: after →
        (∀ x ∈ before, isDriveQualified x.path.toList = false) →
        isDriveQualified e.path.toList = true →
        buildWith deflate' t' compression' spec' =
          .error (.invalidArchivePath e.path .driveQualified)) := by
  constructor
  · intro h
    exact ⟨EntryPath.canonical_of_normalize h,
      EntryPath.normalize_of_canonical (EntryPath.canonical_of_normalize h),
      EntryPath.hidden_of_isDriveQualified (EntryPath.normalize_eq_ok_iff.mp h)⟩
  · intro h hpaths
    exact ⟨fun hreads hplain => exists_buildWith_of_plain h hpaths hplain hreads,
      fun before e after => buildWith_of_drive h hpaths⟩

def spelledOut : ArchiveSpec :=
  ⟨[⟨".//a\\.\\b", .text "one"⟩, ⟨"./cd:/e", .text "two"⟩], .strip, .standard⟩

/-- The files that an archive of `spelledOut` has, with other contents. -/
def fromFilePaths : ArchiveSpec :=
  ⟨[⟨"cd:/e", .bytes []⟩, ⟨"a/b", .bytes [1]⟩], .preserve, ⟨0, 0⟩⟩

theorem rebuilt_fromFilePaths :
    normalize ".//a\\.\\b" = .ok "a/b" ∧ normalize "a/b" = .ok "a/b" ∧
    ∃ archive, buildWith Gzip.stored (.empty []) .none spelledOut = .ok archive ∧
      (fromFilePaths.entries.map (·.path)).Perm archive.filePaths ∧
      ∃ archive', buildWith Gzip.stored (.empty []) .gzip fromFilePaths = .ok archive' ∧
        archive'.entries = archive.entries := by
  have hraw : normalize ".//a\\.\\b" = .ok "a/b" := by decide +kernel
  have hfiles : (buildWith Gzip.stored (.empty []) .none spelledOut).toOption.map filePaths =
      some ["a/b", "cd:/e"] := by decide +kernel
  obtain ⟨archive, harchive, hfiles⟩ := Option.map_eq_some_iff.mp hfiles
  have h := Outcome.toOption_eq_some_iff.mp harchive
  have hpaths : (fromFilePaths.entries.map (·.path)).Perm archive.filePaths :=
    hfiles ▸ .swap _ _ _
  have hreads : ∀ e ∈ fromFilePaths.entries,
      ∃ b, ArchivePlan.readSource (.empty []) e.source = .ok b := by
    intro e he
    rcases List.mem_pair.mp he with rfl | rfl
    · exact ⟨_, rfl⟩
    · exact ⟨_, rfl⟩
  have hplain : ∀ e ∈ fromFilePaths.entries, isDriveQualified e.path.toList = false := by decide
  obtain ⟨hnormal, hrebuilt⟩ := normalized_kept_or_drive ".//a\\.\\b" "a/b" Gzip.stored Gzip.stored
    (.empty []) (.empty []) .none .gzip spelledOut fromFilePaths archive
  exact ⟨hraw, (hnormal hraw).2.1, archive, h, hpaths, (hrebuilt h hpaths).1 hreads hplain⟩

/-- A `.` in front hides a drive. The path that it leaves is not accepted, and the archive with this
path cannot be rebuilt. -/
theorem hidden_drive :
    normalize "./C:/x" = .ok "C:/x" ∧
    normalize "C:/x" = .error (.invalidArchivePath "C:/x" .driveQualified) ∧
    (buildWith Gzip.stored (.empty []) .none
      ⟨[⟨"./C:/x", .text ""⟩], .strip, .standard⟩).toOption.map filePaths = some ["C:/x"] ∧
    buildWith Gzip.stored (.empty []) .none ⟨[⟨"C:/x", .text ""⟩], .strip, .standard⟩ =
      .error (.invalidArchivePath "C:/x" .driveQualified) := by
  decide +kernel

end Archive
end ModularBuild
