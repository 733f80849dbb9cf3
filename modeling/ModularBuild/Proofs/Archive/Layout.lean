import ModularBuild.Proofs.Archive.Plan
import ModularBuild.Proofs.Text.Utf8

/-! # The layout of a plan

A plan has one file for each entry of the description and the directories above these files, and
it has them in the order of their paths. A directory's path is the beginning of all paths below
it, so this order alone puts every directory before what it holds. -/

namespace ModularBuild

def PlannedEntry.isFile (e : PlannedEntry) : Bool :=
  match e.kind with
  | .file _ => true
  | .directory => false

namespace ArchivePlan

variable {t : FileTree} {spec : ArchiveSpec} {entries : List PlannedEntry}
  {held : List (String × Bytes)} {e : PlannedEntry} {dir path other : String}

/-! ## What is above a path -/

/-- The directory, with the slash at its end, is on the way to the path. -/
def Above (dir path : String) : Prop :=
  ∃ front rest : List Char, rest ≠ [] ∧ dir.toList = front ++ ['/'] ∧
    path.toList = dir.toList ++ rest

theorem Above.trans (h : Above dir path) (h' : Above path other) : Above dir other := by
  obtain ⟨front, rest, hne, hdir, hpath⟩ := h
  obtain ⟨-, rest', -, -, hother⟩ := h'
  refine ⟨front, rest ++ rest', List.append_ne_nil_of_left_ne_nil hne _, hdir, ?_⟩
  rw [hother, hpath, List.append_assoc]

theorem Above.lt (h : Above dir path) : dir < path := by
  obtain ⟨-, rest, hne, -, hpath⟩ := h
  obtain ⟨c, rest, rfl⟩ := List.exists_cons_of_ne_nil hne
  have hlt : dir.toList ++ [] < dir.toList ++ c :: rest :=
    List.append_left_lt (List.nil_lt_cons c rest)
  rw [List.append_nil] at hlt
  rwa [String.lt_iff_toList_lt, hpath]

/-- A canonical path ends in a name, so all directories on the way to it are above it. -/
theorem mem_ancestors_iff (h : EntryPath.Canonical path.toList) :
    dir ∈ EntryPath.ancestors path ↔ Above dir path := by
  rw [EntryPath.mem_ancestors_iff]
  constructor
  · rintro ⟨front, hdir, rest, hpath⟩
    refine ⟨front, rest, ?_, hdir, hpath.symm⟩
    rintro rfl
    rw [List.append_nil, hdir] at hpath
    exact h.ne_concat_slash front hpath.symm
  · rintro ⟨front, rest, -, hdir, hpath⟩
    exact ⟨front, hdir, rest, hpath.symm⟩

/-! ## Entries in their order -/

theorem ascending_arrange (entries : List PlannedEntry) :
    (arrange entries).Pairwise fun a b => a.path < b.path := by
  rw [arrange, Table.values, List.pairwise_map]
  refine (List.pairwise_map.mp (Table.ascending _)).imp_of_mem fun ha hb hlt => ?_
  rw [(path_of_row ha).1, (path_of_row hb).1]
  exact hlt

/-- Nothing is lost if entries of one path are the same. -/
theorem mem_arrange_iff
    (h : ∀ a ∈ entries, ∀ b ∈ entries, a.path = b.path → a = b) :
    e ∈ arrange entries ↔ e ∈ entries := by
  refine ⟨mem_of_mem_arrange, fun he => Table.mem_values_iff.mpr ⟨e.path, ?_⟩⟩
  refine (Table.find?_ofList_of_agree fun pair hpair other hother hkey => ?_).mpr
    (List.mem_map_of_mem he)
  obtain ⟨a, ha, rfl⟩ := List.mem_map.mp hpair
  obtain ⟨b, hb, rfl⟩ := List.mem_map.mp hother
  rw [h a ha b hb hkey]

theorem mem_directories_iff (hcanonical : ∀ row ∈ held, EntryPath.Canonical row.1.toList) :
    dir ∈ directories (held.map Prod.fst) ↔ ∃ row ∈ held, Above dir row.1 := by
  rw [directories, List.flatMap_map, List.mem_flatMap]
  exact exists_congr fun row => and_congr_right fun hrow => mem_ancestors_iff (hcanonical row hrow)

/-- The files with these contents, and all directories above them. -/
theorem mem_layOut_iff (hcanonical : ∀ row ∈ held, EntryPath.Canonical row.1.toList)
    (hdistinct : (held.map Prod.fst).Nodup) : e ∈ layOut held ↔
      (∃ dir, (∃ row ∈ held, Above dir row.1) ∧ directoryEntry dir = e) ∨
        ∃ row ∈ held, fileEntry row = e := by
  have hslash : ∀ row ∈ held, ∀ dir path, Above dir path → dir ≠ row.1 := by
    rintro row hrow dir path ⟨front, -, -, hdir, -⟩ rfl
    exact (hcanonical row hrow).ne_concat_slash front hdir
  rw [layOut, mem_arrange_iff, List.mem_append, List.mem_map, List.mem_map]
  · simp only [mem_directories_iff hcanonical]
  · -- the slash at its end tells a directory from a file
    simp only [List.mem_append, List.mem_map, mem_directories_iff hcanonical]
    rintro a (⟨dir, ⟨row, hrow, habove⟩, rfl⟩ | ⟨row, hrow, rfl⟩) b
      (⟨dir', ⟨row', hrow', habove'⟩, rfl⟩ | ⟨row', hrow', rfl⟩) hpath
    · exact congrArg directoryEntry hpath
    · exact absurd hpath (hslash row' hrow' dir row.1 habove)
    · exact absurd hpath.symm (hslash row hrow dir' row'.1 habove')
    · exact congrArg fileEntry (List.inj_on_of_nodup_map hdistinct hrow hrow' hpath)

section
variable (hcanonical : ∀ row ∈ held, EntryPath.Canonical row.1.toList)
  (hdistinct : (held.map Prod.fst).Nodup)
include hcanonical hdistinct

/-- Of the contents, only the paths have a part in the paths of the entries. -/
theorem mem_paths_layOut_iff : path ∈ (layOut held).map (·.path) ↔
    ∃ file ∈ held.map Prod.fst, Above path file ∨ file = path := by
  simp only [List.mem_map, mem_layOut_iff hcanonical hdistinct]
  constructor
  · rintro ⟨e, ⟨dir, ⟨row, hrow, habove⟩, rfl⟩ | ⟨row, hrow, rfl⟩, rfl⟩
    · exact ⟨row.1, ⟨row, hrow, rfl⟩, .inl habove⟩
    · exact ⟨row.1, ⟨row, hrow, rfl⟩, .inr rfl⟩
  · rintro ⟨_, ⟨row, hrow, rfl⟩, habove | rfl⟩
    · exact ⟨directoryEntry path, .inl ⟨path, ⟨row, hrow, habove⟩, rfl⟩, rfl⟩
    · exact ⟨fileEntry row, .inr ⟨row, hrow, rfl⟩, rfl⟩

theorem isFile_iff (he : e ∈ layOut held) : e.isFile = true ↔ ∃ row ∈ held, fileEntry row = e := by
  rcases (mem_layOut_iff hcanonical hdistinct).mp he with ⟨dir, -, rfl⟩ | hfile
  · constructor
    · intro h; cases h
    · rintro ⟨row, -, hrow⟩
      cases congrArg PlannedEntry.kind hrow
  · obtain ⟨row, hrow, rfl⟩ := hfile
    exact ⟨fun _ => ⟨row, hrow, rfl⟩, fun _ => rfl⟩

theorem filter_isFile_perm : ((layOut held).filter (·.isFile)).Perm (held.map fileEntry) := by
  have hentries : (layOut held).Nodup := by
    refine List.Nodup.of_map PlannedEntry.path (Table.nodup_of_ascending ?_)
    exact List.pairwise_map.mpr (ascending_arrange _)
  have hheld : (held.map fileEntry).Nodup := by
    refine List.Nodup.of_map PlannedEntry.path ?_
    rwa [List.map_map]
  refine (List.perm_ext_iff_of_nodup (hentries.filter _) hheld).mpr fun e => ?_
  rw [List.mem_filter, List.mem_map]
  constructor
  · intro ⟨he, hfile⟩
    exact (isFile_iff hcanonical hdistinct he).mp hfile
  · intro hfile
    have he := (mem_layOut_iff hcanonical hdistinct).mpr (.inr hfile)
    exact ⟨he, (isFile_iff hcanonical hdistinct he).mpr hfile⟩

/-- What is above an entry is above a file, and so it is a directory of the plan. -/
theorem directoryEntry_mem_iff :
    directoryEntry dir ∈ layOut held ↔ ∃ row ∈ held, Above dir row.1 := by
  rw [mem_layOut_iff hcanonical hdistinct]
  constructor
  · rintro (⟨dir', habove, hdir⟩ | ⟨row, -, hfile⟩)
    · rwa [show dir' = dir from congrArg PlannedEntry.path hdir] at habove
    · cases congrArg PlannedEntry.kind hfile
  · intro habove
    exact .inl ⟨dir, habove, rfl⟩

theorem above_file_of_above (he : e ∈ layOut held) (h : Above dir e.path) :
    ∃ row ∈ held, Above dir row.1 := by
  rcases (mem_layOut_iff hcanonical hdistinct).mp he with
    ⟨other, ⟨row, hrow, habove⟩, rfl⟩ | ⟨row, hrow, rfl⟩
  · exact ⟨row, hrow, h.trans habove⟩
  · exact ⟨row, hrow, h⟩

/-- The directories are those above the files, in the mode of directories. -/
theorem directory_mem_iff : e ∈ layOut held ∧ e.kind = .directory ↔
    e.mode = dirMode ∧ e.kind = .directory ∧
      ∃ file ∈ layOut held, file.isFile = true ∧ Above e.path file.path := by
  have hfile : ∀ row ∈ held, fileEntry row ∈ layOut held := fun row hrow =>
    (mem_layOut_iff hcanonical hdistinct).mpr (.inr ⟨row, hrow, rfl⟩)
  constructor
  · rintro ⟨he, hkind⟩
    rcases (mem_layOut_iff hcanonical hdistinct).mp he with
      ⟨dir, ⟨row, hrow, habove⟩, rfl⟩ | ⟨row, -, rfl⟩
    · exact ⟨rfl, rfl, fileEntry row, hfile row hrow, rfl, habove⟩
    · cases hkind
  · rintro ⟨hmode, hkind, file, hmem, hisFile, habove⟩
    obtain ⟨row, hrow, rfl⟩ := (isFile_iff hcanonical hdistinct hmem).mp hisFile
    obtain ⟨path, kind, mode⟩ := e
    cases hmode
    cases hkind
    exact ⟨(directoryEntry_mem_iff hcanonical hdistinct).mpr ⟨row, hrow, habove⟩, rfl⟩

/-- A directory above an entry is in the plan, and has a smaller path. -/
theorem directoryEntry_mem_before {before after : List PlannedEntry}
    (hsplit : layOut held = before ++ e :: after) (h : Above dir e.path) :
    directoryEntry dir ∈ before := by
  have hascending : (layOut held).Pairwise fun a b => a.path < b.path := ascending_arrange _
  have hmem : directoryEntry dir ∈ layOut held :=
    (directoryEntry_mem_iff hcanonical hdistinct).mpr (above_file_of_above hcanonical hdistinct
      (hsplit ▸ List.mem_append_right _ List.mem_cons_self) h)
  rw [hsplit, List.pairwise_append, List.pairwise_cons] at hascending
  rw [hsplit, List.mem_append, List.mem_cons] at hmem
  rcases hmem with hbefore | hself | hafter
  · exact hbefore
  · exact absurd h.lt (hself ▸ Std.Irrefl.irrefl dir)
  · exact absurd (Trans.trans h.lt (hascending.2.1.1 _ hafter)) (Std.Irrefl.irrefl dir)

/-- Where no path is a file and a directory, no entry is below a file. -/
theorem not_above_of_isFile (hfree : conflict? (held.map Prod.fst) = none) {file : PlannedEntry}
    (hfile : file ∈ layOut held) (hisFile : file.isFile = true) (he : e ∈ layOut held) :
    ¬ Above (file.path ++ "/") e.path := by
  intro habove
  obtain ⟨row, hrow, rfl⟩ := (isFile_iff hcanonical hdistinct hfile).mp hisFile
  have hconflict := List.find?_eq_none.mp hfree row.1 (List.mem_map_of_mem hrow)
  rw [List.contains_iff_mem, mem_directories_iff hcanonical] at hconflict
  exact hconflict (above_file_of_above hcanonical hdistinct he habove)

end

/-! ## Plans -/

/-- The paths of a plan are those of the described entries and of the directories above them. -/
theorem mem_paths_iff (h : plan t spec = .ok entries) : path ∈ entries.map (·.path) ↔
    ∃ file, (∃ described ∈ spec.entries, EntryPath.normalize described.path = .ok file) ∧
      (Above path file ∨ file = path) := by
  obtain ⟨rows, hrows⟩ := contents_of_plan h
  obtain ⟨held, hperm, hascending, -, rfl⟩ := (plan_eq_ok_iff hrows).mp h
  have hcanonical : ∀ row ∈ held, EntryPath.Canonical row.1.toList := fun row hrow =>
    canonical_of_contents hrows (hperm.subset hrow)
  obtain ⟨named, hnamed, hloads⟩ := contents_eq_ok_iff.mp hrows
  have hnames : ∀ file, file ∈ held.map Prod.fst ↔
      ∃ described ∈ spec.entries, EntryPath.normalize described.path = .ok file := fun file => by
    rw [(hperm.map Prod.fst).mem_iff, keys_of_loads hloads, mem_names_iff hnamed]
  simp only [mem_paths_layOut_iff hcanonical (Table.nodup_of_ascending hascending), hnames]

theorem ascending_paths (h : plan t spec = .ok entries) :
    (entries.map (·.path)).Pairwise (· < ·) := by
  obtain ⟨rows, hrows⟩ := contents_of_plan h
  obtain ⟨held, -, -, -, rfl⟩ := (plan_eq_ok_iff hrows).mp h
  exact List.pairwise_map.mpr (ascending_arrange _)

/-- The entry of the plan is a file under the canonical path of the described entry, and has the
bytes that its source holds. -/
def Carries (t : FileTree) (described : ArchiveEntry) (e : PlannedEntry) : Prop :=
  EntryPath.normalize described.path = .ok e.path ∧
    ∃ bytes, readSource t described.source = .ok bytes ∧ e.kind = .file bytes ∧ e.mode = 0o664

/-- The files are the contents in another order, and these belong to the described entries. -/
theorem carries_of_perm {rows : List (String × Bytes)} {files : List PlannedEntry}
    (hrows : contents t spec = .ok rows) (h : files.Perm (rows.map fileEntry)) :
    ∃ order : List ArchiveEntry, order.Perm spec.entries ∧
      List.Forall₂ (Carries t) order files := by
  have hcarries : List.Forall₂ (Carries t) spec.entries (rows.map fileEntry) := by
    refine List.forall₂_map_right_iff.mpr ((Outcome.mapM_eq_ok_iff.mp hrows).imp ?_)
    intro described row hrow
    obtain ⟨hpath, hbytes⟩ := resolve_eq_ok_iff.mp hrow
    exact ⟨hpath, row.2, hbytes, rfl, rfl⟩
  have hcomp : Relation.Comp List.Perm (List.Forall₂ (Carries t)) spec.entries files := by
    rw [← List.forall₂_comp_perm_eq_perm_comp_forall₂]
    exact ⟨_, hcarries, h.symm⟩
  obtain ⟨order, horder, hforall⟩ := hcomp
  exact ⟨order, horder.symm, hforall⟩

theorem Spelled.head?_ne_slash (h : Spelled e) : e.path.toList.head? ≠ some '/' := by
  obtain ⟨cs, hcs, hpath⟩ := h
  have hhead := hcs.head?_ne_slash
  rw [hpath]
  split
  · rwa [List.head?_append_of_ne_nil _ hcs.ne_nil]
  · exact hhead

/-- What the entries of a plan are, and in which order they come. -/
structure LaidOut (t : FileTree) (spec : ArchiveSpec) (entries : List PlannedEntry) : Prop where
  ascending : entries.Pairwise fun a b => Bytes.ofText a.path < Bytes.ofText b.path
  files : ∃ order : List ArchiveEntry, order.Perm spec.entries ∧
    List.Forall₂ (Carries t) order (entries.filter (·.isFile))
  directories : ∀ e, e ∈ entries ∧ e.kind = .directory ↔ e.mode = 0o775 ∧ e.kind = .directory ∧
    ∃ file ∈ entries, file.isFile = true ∧ Above e.path file.path
  preceded : ∀ before e after, entries = before ++ e :: after → ∀ dir, Above dir e.path →
    ∃ d ∈ before, d.path = dir ∧ d.kind = .directory
  unmixed : ∀ file ∈ entries, file.isFile = true → ∀ e ∈ entries, ¬ Above (file.path ++ "/") e.path
  relative : ∀ e ∈ entries, e.path.toList.head? ≠ some '/'
  spelled : ∀ e ∈ entries, Spelled e

theorem laidOut_of_plan (h : plan t spec = .ok entries) : LaidOut t spec entries := by
  have hspelled : ∀ e ∈ entries, Spelled e := fun e => spelled_of_plan h
  obtain ⟨rows, hrows⟩ := contents_of_plan h
  obtain ⟨held, hperm, hascending, hfree, rfl⟩ := (plan_eq_ok_iff hrows).mp h
  have hcanonical : ∀ row ∈ held, EntryPath.Canonical row.1.toList := fun row hrow =>
    canonical_of_contents hrows (hperm.subset hrow)
  have hdistinct : (held.map Prod.fst).Nodup := Table.nodup_of_ascending hascending
  have hfiles := (filter_isFile_perm hcanonical hdistinct).trans (hperm.map fileEntry)
  exact {
    ascending := (ascending_arrange _).imp Bytes.ofText_lt
    files := carries_of_perm hrows hfiles
    directories := fun e => directory_mem_iff hcanonical hdistinct
    preceded := fun before e after hsplit dir habove =>
      ⟨_, directoryEntry_mem_before hcanonical hdistinct hsplit habove, rfl, rfl⟩
    unmixed := fun file hfile hisFile e he =>
      not_above_of_isFile hcanonical hdistinct hfree hfile hisFile he
    relative := fun e he => (hspelled e he).head?_ne_slash
    spelled := hspelled }

/-- Three files that are neither in the order nor in the spelling of a plan. -/
def unordered : ArchiveSpec where
  entries := [⟨"b/c/d", .text "deep"⟩, ⟨".\\b//a", .bytes [1]⟩, ⟨"b-c", .text ""⟩]
  timestamps := .preserve
  permissions := ⟨0, 0⟩

theorem laidOut_unordered : ∃ entries, plan (.empty []) unordered = .ok entries ∧
    LaidOut (.empty []) unordered entries ∧
    entries.map (·.path) = ["b-c", "b/", "b/a", "b/c/", "b/c/d"] := by
  have hpaths : (plan (.empty []) unordered).toOption.map (·.map (·.path)) =
      some ["b-c", "b/", "b/a", "b/c/", "b/c/d"] := by decide +kernel
  obtain ⟨entries, hentries, hpaths⟩ := Option.map_eq_some_iff.mp hpaths
  have h := Outcome.toOption_eq_some_iff.mp hentries
  exact ⟨entries, h, laidOut_of_plan h, hpaths⟩

end ArchivePlan
end ModularBuild
