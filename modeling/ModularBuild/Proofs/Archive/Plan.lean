import Mathlib.Data.List.Perm.Basic
import ModularBuild.Archive.Plan
import ModularBuild.Proofs.Archive.EntryPath
import ModularBuild.Proofs.Outcome
import ModularBuild.Proofs.Table

/-! # Plans without an order

A plan is described here without an order of the entries: there is one exactly if all
contents can be read under canonical paths that are distinct, and none of these is also a
directory. It is laid out from the contents in the order of the paths, and so all paths in it
are canonical, those of directories with a slash behind them. -/

namespace ModularBuild.ArchivePlan

/-- The canonical path of an entry, and the bytes that its source holds. -/
def resolve (t : FileTree) (e : ArchiveEntry) : Except BuildError (String × Bytes) := do
  let path ← EntryPath.normalize e.path
  let contents ← readSource t e.source
  return (path, contents)

/-- What a description puts into an archive, in the description's own order. -/
def contents (t : FileTree) (spec : ArchiveSpec) : Except BuildError (List (String × Bytes)) :=
  spec.entries.mapM (resolve t)

theorem resolve_eq_ok_iff {t : FileTree} {e : ArchiveEntry} {row : String × Bytes} :
    resolve t e = .ok row ↔
      EntryPath.normalize e.path = .ok row.1 ∧ readSource t e.source = .ok row.2 := by
  constructor
  · intro h
    obtain ⟨path, hp, h⟩ := Outcome.bind_eq_ok_iff.mp h
    obtain ⟨b, hb, h⟩ := Outcome.bind_eq_ok_iff.mp h
    cases h
    exact ⟨hp, hb⟩
  · rintro ⟨hp, hb⟩
    exact Outcome.bind_eq_ok_iff.mpr ⟨_, hp, Outcome.bind_eq_ok_iff.mpr ⟨_, hb, rfl⟩⟩

/-! ## Collecting and reading -/

/-- One step of collecting. -/
def enter (files : Table String ContentSource) (e : ArchiveEntry) :
    Except BuildError (Table String ContentSource) := do
  let path ← EntryPath.normalize e.path
  if files.contains path then throw (.duplicateArchivePath path)
  else return files.insert path e.source

theorem collect_eq_foldlM (files : Table String ContentSource) (entries : List ArchiveEntry) :
    collect files entries = entries.foldlM enter files := by
  induction entries generalizing files with
  | nil => rfl
  | cons e rest ih =>
    rw [collect, List.foldlM_cons, enter]
    cases EntryPath.normalize e.path with
    | error reason => rfl
    | ok path =>
      cases hknown : files.contains path <;> simp [bind, Except.bind, hknown, pure, Except.pure, ih,
        throw, throwThe, MonadExceptOf.throw]

theorem enter_eq_ok_iff {files out : Table String ContentSource} {e : ArchiveEntry} :
    enter files e = .ok out ↔ ∃ path, EntryPath.normalize e.path = .ok path ∧
      ¬ files.contains path = true ∧ out = files.insert path e.source := by
  refine Outcome.bind_eq_ok_iff.trans (exists_congr fun path => and_congr_right fun _ => ?_)
  cases files.contains path <;> simp [throw, throwThe, MonadExceptOf.throw, pure, Except.pure,
    eq_comm]

theorem enter_eq_error_iff {files : Table String ContentSource} {e : ArchiveEntry}
    {fault : BuildError} : enter files e = .error fault ↔
      EntryPath.normalize e.path = .error fault ∨ ∃ path, EntryPath.normalize e.path = .ok path ∧
        files.contains path = true ∧ fault = .duplicateArchivePath path := by
  refine Outcome.bind_eq_error_iff.trans (or_congr_right
    (exists_congr fun path => and_congr_right fun _ => ?_))
  cases files.contains path <;> simp [throw, throwThe, MonadExceptOf.throw, pure, Except.pure,
    eq_comm]

/-- A source under the canonical path of its entry. -/
def Named (e : ArchiveEntry) (row : String × ContentSource) : Prop :=
  EntryPath.normalize e.path = .ok row.1 ∧ row.2 = e.source

theorem named_unique : Relator.RightUnique Named := by
  intro e row row' h h'
  exact Prod.ext (Except.ok.inj (h.1.symm.trans h'.1)) (h.2.trans h'.2.symm)

theorem mem_names_iff {entries : List ArchiveEntry} {rows : List (String × ContentSource)}
    (h : List.Forall₂ Named entries rows) {path : String} : path ∈ rows.map Prod.fst ↔
      ∃ e ∈ entries, EntryPath.normalize e.path = .ok path := by
  induction h with
  | nil => simp
  | cons hrow _ ih =>
    rw [List.map_cons, List.mem_cons, ih, List.exists_mem_cons_iff, hrow.1, Except.ok.injEq,
      eq_comm]

/-- The entries have canonical paths, no two of them the same, and the rows have their sources
under these. -/
structure Admits (entries : List ArchiveEntry) (rows : List (String × ContentSource)) : Prop where
  named : List.Forall₂ Named entries rows
  distinct : (rows.map Prod.fst).Nodup

theorem foldlM_enter_eq_ok_iff {entries : List ArchiveEntry}
    {files out : Table String ContentSource} : entries.foldlM enter files = .ok out ↔
      ∃ rows, Admits entries rows ∧ (∀ row ∈ rows, ¬ files.contains row.1 = true) ∧
        out = files.insertMany rows := by
  induction entries generalizing files with
  | nil =>
    constructor
    · intro h
      cases h
      exact ⟨[], ⟨.nil, .nil⟩, by simp, rfl⟩
    · rintro ⟨rows, ⟨hnamed, -⟩, -, rfl⟩
      cases hnamed
      rfl
  | cons e rest ih =>
    rw [List.foldlM_cons, Outcome.bind_eq_ok_iff]
    constructor
    · rintro ⟨next, hnext, h⟩
      obtain ⟨path, hpath, hnew, rfl⟩ := enter_eq_ok_iff.mp hnext
      obtain ⟨rows, ⟨hnamed, hdistinct⟩, hapart, rfl⟩ := ih.mp h
      have hother : ∀ row ∈ rows, row.1 ≠ path ∧ ¬ files.contains row.1 = true := fun row hrow =>
        not_or.mp (Table.contains_insert.not.mp (hapart row hrow))
      refine ⟨(path, e.source) :: rows, ⟨.cons ⟨hpath, rfl⟩ hnamed, ?_⟩,
        List.forall_mem_cons.mpr ⟨hnew, fun row hrow => (hother row hrow).2⟩, rfl⟩
      refine List.nodup_cons.mpr ⟨fun hmem => ?_, hdistinct⟩
      obtain ⟨row, hrow, hkey⟩ := List.mem_map.mp hmem
      exact (hother row hrow).1 hkey
    · rintro ⟨rows, ⟨hnamed, hdistinct⟩, hapart, rfl⟩
      cases hnamed with
      | @cons _ row _ rows hrow hnamed =>
        obtain ⟨path, source⟩ := row
        obtain ⟨hpath, rfl⟩ := hrow
        obtain ⟨hnew, hapart⟩ := List.forall_mem_cons.mp hapart
        obtain ⟨hfirst, hdistinct⟩ := List.nodup_cons.mp hdistinct
        refine ⟨_, enter_eq_ok_iff.mpr ⟨path, hpath, hnew, rfl⟩,
          ih.mpr ⟨rows, ⟨hnamed, hdistinct⟩, fun row hrow => ?_, rfl⟩⟩
        refine Table.contains_insert.not.mpr (not_or.mpr ⟨fun hkey => ?_, hapart row hrow⟩)
        exact hfirst (List.mem_map.mpr ⟨row, hrow, hkey⟩)

/-- Collecting comes through if the entries can be told apart, and has their sources then. -/
theorem collect_eq_ok_iff {entries : List ArchiveEntry} {files : Table String ContentSource} :
    collect ∅ entries = .ok files ↔ ∃ rows, Admits entries rows ∧ files = Table.ofList rows := by
  rw [collect_eq_foldlM, foldlM_enter_eq_ok_iff]
  refine exists_congr fun rows => and_congr_right fun _ => and_iff_right ?_
  intro row _ hknown
  cases hknown

/-- A source under a path, and the bytes it holds. -/
def Loads (t : FileTree) (row : String × ContentSource) (held : String × Bytes) : Prop :=
  row.1 = held.1 ∧ readSource t row.2 = .ok held.2

def fileEntry (held : String × Bytes) : PlannedEntry := ⟨held.1, .file held.2, fileMode⟩

theorem keys_of_loads {t : FileTree} {rows : List (String × ContentSource)}
    {held : List (String × Bytes)} (h : List.Forall₂ (Loads t) rows held) :
    held.map Prod.fst = rows.map Prod.fst := by
  induction h with
  | nil => rfl
  | cons hrow _ ih => rw [List.map_cons, List.map_cons, ih, hrow.1]

theorem readFiles_eq_ok_iff {t : FileTree} {rows : List (String × ContentSource)}
    {entries : List PlannedEntry} : readFiles t rows = .ok entries ↔
      ∃ held, List.Forall₂ (Loads t) rows held ∧ entries = held.map fileEntry := by
  induction rows generalizing entries with
  | nil =>
    constructor
    · intro h
      cases h
      exact ⟨[], .nil, rfl⟩
    · rintro ⟨held, hheld, rfl⟩
      cases hheld
      rfl
  | cons row rest ih =>
    rw [readFiles, Outcome.bind_eq_ok_iff]
    constructor
    · rintro ⟨bytes, hbytes, h⟩
      obtain ⟨others, hothers, h⟩ := Outcome.bind_eq_ok_iff.mp h
      obtain ⟨held, hheld, rfl⟩ := ih.mp hothers
      cases h
      exact ⟨(row.1, bytes) :: held, .cons ⟨rfl, hbytes⟩ hheld, rfl⟩
    · rintro ⟨held, hheld, rfl⟩
      cases hheld with
      | @cons _ first _ held hfirst hheld =>
        refine ⟨first.2, hfirst.2, Outcome.bind_eq_ok_iff.mpr ⟨_, ih.mpr ⟨held, hheld, rfl⟩, ?_⟩⟩
        rw [hfirst.1]
        rfl

/-- An entry is resolved in two steps: it gets its name, and then its source is read. -/
theorem forall₂_resolve_iff {t : FileTree} {entries : List ArchiveEntry}
    {held : List (String × Bytes)} :
    List.Forall₂ (fun e row => resolve t e = .ok row) entries held ↔
      ∃ rows, List.Forall₂ Named entries rows ∧ List.Forall₂ (Loads t) rows held := by
  induction entries generalizing held with
  | nil => simp
  | cons e rest ih =>
    constructor
    · intro h
      obtain ⟨row, held, hrow, hrest, rfl⟩ := List.forall₂_cons_left_iff.mp h
      obtain ⟨rows, hnamed, hloads⟩ := ih.mp hrest
      obtain ⟨hpath, hbytes⟩ := resolve_eq_ok_iff.mp hrow
      exact ⟨(row.1, e.source) :: rows, .cons ⟨hpath, rfl⟩ hnamed, .cons ⟨rfl, hbytes⟩ hloads⟩
    · rintro ⟨_, hnamed, hloads⟩
      obtain ⟨row, rows, ⟨hpath, hsource⟩, hrest, rfl⟩ := List.forall₂_cons_left_iff.mp hnamed
      obtain ⟨first, held, ⟨hkey, hbytes⟩, hheld, rfl⟩ := List.forall₂_cons_left_iff.mp hloads
      refine .cons (resolve_eq_ok_iff.mpr ⟨hkey ▸ hpath, hsource ▸ hbytes⟩) ?_
      exact ih.mpr ⟨rows, hrest, hheld⟩

theorem contents_eq_ok_iff {t : FileTree} {spec : ArchiveSpec} {held : List (String × Bytes)} :
    contents t spec = .ok held ↔
      ∃ rows, List.Forall₂ Named spec.entries rows ∧ List.Forall₂ (Loads t) rows held :=
  Outcome.mapM_eq_ok_iff.trans forall₂_resolve_iff

/-! ## Plans without an order -/

/-- The entries of an archive with these contents. -/
def layOut (held : List (String × Bytes)) : List PlannedEntry :=
  arrange ((directories (held.map Prod.fst)).map directoryEntry ++ held.map fileEntry)

/-- The contents decide about the plan, and their order in the description has no part in
it. -/
theorem plan_eq_ok_iff {t : FileTree} {spec : ArchiveSpec} {rows : List (String × Bytes)}
    (h : contents t spec = .ok rows) {entries : List PlannedEntry} :
    plan t spec = .ok entries ↔ ∃ held, held.Perm rows ∧
      (held.map Prod.fst).Pairwise (· < ·) ∧ conflict? (held.map Prod.fst) = none ∧
      entries = layOut held := by
  obtain ⟨named, hnamed, hloads⟩ := contents_eq_ok_iff.mp h
  constructor
  · intro hp
    obtain ⟨files, hc, hp⟩ := Outcome.bind_eq_ok_iff.mp hp
    obtain ⟨_, hadmits, rfl⟩ := collect_eq_ok_iff.mp hc
    obtain rfl := named_unique.forall₂ hadmits.named hnamed
    obtain ⟨held, hl, hperm⟩ :=
      List.perm_comp_forall₂ (Table.rows_ofList_perm hadmits.distinct) hloads
    have hk : held.map Prod.fst = _ := keys_of_loads hl
    refine ⟨held, hperm, hk ▸ Table.ascending _, ?_⟩
    rw [hk]
    split at hp
    · cases hp
    · rename_i hnone
      rw [readFiles_eq_ok_iff.mpr ⟨held, hl, rfl⟩] at hp
      cases hp
      exact ⟨hnone, by rw [layOut, hk]; rfl⟩
  · rintro ⟨held, hperm, hasc, hnone, rfl⟩
    have hd : (named.map Prod.fst).Nodup := by
      rw [← keys_of_loads hloads]
      exact (hperm.map Prod.fst).nodup_iff.mp (Table.nodup_of_ascending hasc)
    obtain ⟨all, hl, hall⟩ := List.perm_comp_forall₂ (Table.rows_ofList_perm hd) hloads
    have hk : all.map Prod.fst = (Table.ofList named).keys := keys_of_loads hl
    have heq : all = held := Table.ascending_eq_of_perm (hk ▸ Table.ascending _) hasc
      (hall.trans hperm.symm)
    subst heq
    refine Outcome.bind_eq_ok_iff.mpr
      ⟨_, collect_eq_ok_iff.mpr ⟨named, ⟨hnamed, hd⟩, rfl⟩, ?_⟩
    rw [← hk, hnone, readFiles_eq_ok_iff.mpr ⟨all, hl, rfl⟩, layOut]
    rfl

theorem plan_congr {t t' : FileTree} {spec spec' : ArchiveSpec}
    {rows rows' : List (String × Bytes)} (h : contents t spec = .ok rows)
    (h' : contents t' spec' = .ok rows') (hp : rows.Perm rows') (entries : List PlannedEntry) :
    plan t spec = .ok entries ↔ plan t' spec' = .ok entries := by
  rw [plan_eq_ok_iff h, plan_eq_ok_iff h']
  constructor
  · rintro ⟨held, hh, hrest⟩; exact ⟨held, hh.trans hp, hrest⟩
  · rintro ⟨held, hh, hrest⟩; exact ⟨held, hh.trans hp.symm, hrest⟩

/-- Where there is a plan, all contents have been read. -/
theorem contents_of_plan {t : FileTree} {spec : ArchiveSpec} {entries : List PlannedEntry}
    (h : plan t spec = .ok entries) : ∃ rows, contents t spec = .ok rows := by
  obtain ⟨files, hc, h⟩ := Outcome.bind_eq_ok_iff.mp h
  obtain ⟨named, hadmits, rfl⟩ := collect_eq_ok_iff.mp hc
  split at h
  · cases h
  obtain ⟨read, hread, -⟩ := Outcome.bind_eq_ok_iff.mp h
  obtain ⟨held, hloads, -⟩ := readFiles_eq_ok_iff.mp hread
  obtain ⟨rows, hrows, -⟩ :=
    List.perm_comp_forall₂ (Table.rows_ofList_perm hadmits.distinct).symm hloads
  exact ⟨rows, contents_eq_ok_iff.mpr ⟨named, hadmits.named, hrows⟩⟩

/-! ## Paths of a plan -/

/-- A canonical path, with a slash at its end for a directory. -/
def Spelled (e : PlannedEntry) : Prop :=
  ∃ cs, EntryPath.Canonical cs ∧
    e.path.toList = match e.kind with
      | .directory => cs ++ ['/']
      | .file _ => cs

theorem path_of_row {entries : List PlannedEntry} {row : String × PlannedEntry}
    (h : row ∈ (Table.ofList (entries.map fun e => (e.path, e))).rows) :
    row.2.path = row.1 ∧ row.2 ∈ entries := by
  rcases Table.find?_insertMany (Table.find?_eq_some_iff.mpr h) with hm | hm
  · obtain ⟨e, he, heq⟩ := List.mem_map.mp hm
    rw [← (Prod.mk.inj heq).1, ← (Prod.mk.inj heq).2]
    exact ⟨rfl, he⟩
  · cases hm

theorem mem_of_mem_arrange {entries : List PlannedEntry} {e : PlannedEntry}
    (h : e ∈ arrange entries) : e ∈ entries := by
  obtain ⟨row, hrow, rfl⟩ := List.mem_map.mp h
  exact (path_of_row hrow).2

theorem canonical_of_contents {t : FileTree} {spec : ArchiveSpec} {rows : List (String × Bytes)}
    (h : contents t spec = .ok rows) {row : String × Bytes} (hr : row ∈ rows) :
    EntryPath.Canonical row.1.toList := by
  obtain ⟨e, -, he⟩ := Outcome.exists_of_mem_mapM h hr
  exact EntryPath.canonical_of_normalize (resolve_eq_ok_iff.mp he).1

/-- No plan has a path of any other form. -/
theorem spelled_of_plan {t : FileTree} {spec : ArchiveSpec} {entries : List PlannedEntry}
    (h : plan t spec = .ok entries) {e : PlannedEntry} (he : e ∈ entries) : Spelled e := by
  obtain ⟨rows, hr⟩ := contents_of_plan h
  obtain ⟨held, hperm, -, -, rfl⟩ := (plan_eq_ok_iff hr).mp h
  have hcanonical : ∀ row ∈ held, EntryPath.Canonical row.1.toList := fun row hm =>
    canonical_of_contents hr (hperm.subset hm)
  rcases List.mem_append.mp (mem_of_mem_arrange he) with hd | hf
  · obtain ⟨path, hp, rfl⟩ := List.mem_map.mp hd
    obtain ⟨file, hfile, ha⟩ := List.mem_flatMap.mp hp
    obtain ⟨row, hrow, rfl⟩ := List.mem_map.mp hfile
    obtain ⟨a, hmem, rfl⟩ := List.mem_map.mp ha
    obtain ⟨front, rfl, hfront⟩ := EntryPath.mem_ancestorChars_iff.mp hmem
    exact ⟨front, (hcanonical row hrow).of_front hfront, String.toList_ofList⟩
  · obtain ⟨row, hrow, rfl⟩ := List.mem_map.mp hf
    exact ⟨_, hcanonical row hrow, rfl⟩

end ModularBuild.ArchivePlan
