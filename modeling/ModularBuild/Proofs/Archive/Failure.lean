import ModularBuild.Proofs.Archive.Plan
import ModularBuild.Proofs.Text.Utf8

/-! # Failing plans

Planning can fail at three points. The entries get their names in the order of the description,
and the first one that cannot be named, or has the name of an earlier one, decides. The names are
then compared, and the sources are read, in the order of the bytes of the names, and so the
smallest name decides there. The order of the description has no part in this: a conflict or a
source that cannot be read is found wherever its entry stands. -/

namespace ModularBuild.ArchivePlan

variable {t : FileTree} {spec : ArchiveSpec} {rows : List (String × ContentSource)}
  {path : String} {fault : BuildError}

/-- A path that some other path goes through. -/
def Conflicts (rows : List (String × ContentSource)) (path : String) : Prop :=
  path ∈ rows.map Prod.fst ∧ ∃ other ∈ rows.map Prod.fst, (path ++ "/").toList <+: other.toList

def Unreadable (t : FileTree) (rows : List (String × ContentSource)) (path : String) : Prop :=
  ∃ source fault, (path, .file source) ∈ rows ∧ t.readBytes source = .error fault

/-- How planning comes to fail. -/
inductive Fails (t : FileTree) (spec : ArchiveSpec) : BuildError → Prop
  | rejected {before after : List ArchiveEntry} {e : ArchiveEntry}
      {rows : List (String × ContentSource)} {reason : PathRejection}
      (hspec : spec.entries = before ++ e :: after) (hbefore : Admits before rows)
      (hreason : EntryPath.normalizeChars e.path.toList = .error reason) :
      Fails t spec (.invalidArchivePath e.path reason)
  | duplicate {before after : List ArchiveEntry} {e : ArchiveEntry}
      {rows : List (String × ContentSource)} {path : String}
      (hspec : spec.entries = before ++ e :: after) (hbefore : Admits before rows)
      (hpath : EntryPath.normalize e.path = .ok path) (hearlier : path ∈ rows.map Prod.fst) :
      Fails t spec (.duplicateArchivePath path)
  | conflict {rows : List (String × ContentSource)} {path : String}
      (hrows : Admits spec.entries rows) (hpath : Bytes.Least (Conflicts rows) path) :
      Fails t spec (.archivePathConflict path)
  | unreadable {rows : List (String × ContentSource)} {path : String} {source : Path}
      {fault : FileFault} (hrows : Admits spec.entries rows) (hfree : ∀ p, ¬ Conflicts rows p)
      (hpath : Bytes.Least (Unreadable t rows) path) (hsource : (path, .file source) ∈ rows)
      (hfault : t.readBytes source = .error fault) : Fails t spec (.archiveSource source fault)

/-! ## Names -/

theorem normalize_eq_error_iff {raw : String} : EntryPath.normalize raw = .error fault ↔
    ∃ reason, EntryPath.normalizeChars raw.toList = .error reason ∧
      fault = .invalidArchivePath raw reason := by
  rw [EntryPath.normalize]
  cases EntryPath.normalizeChars raw.toList <;> simp [eq_comm]

theorem contains_ofList : (Table.ofList rows).contains path = true ↔ path ∈ rows.map Prod.fst :=
  Table.contains_insertMany.trans (or_iff_left (by intro h; cases h))

/-- The first entry that cannot be entered decides. -/
theorem collect_eq_error_iff {entries : List ArchiveEntry} : collect ∅ entries = .error fault ↔
    ∃ before e after rows, entries = before ++ e :: after ∧ Admits before rows ∧
      enter (Table.ofList rows) e = .error fault := by
  rw [collect_eq_foldlM, Outcome.foldlM_eq_error_iff]
  constructor
  · rintro ⟨before, e, after, files, rfl, hbefore, he⟩
    rw [← collect_eq_foldlM, collect_eq_ok_iff] at hbefore
    obtain ⟨rows, hrows, rfl⟩ := hbefore
    exact ⟨before, e, after, rows, rfl, hrows, he⟩
  · rintro ⟨before, e, after, rows, rfl, hrows, he⟩
    refine ⟨before, e, after, _, rfl, ?_, he⟩
    rw [← collect_eq_foldlM, collect_eq_ok_iff]
    exact ⟨rows, hrows, rfl⟩

/-! ## Conflicts -/

section
variable (hdistinct : (rows.map Prod.fst).Nodup)
include hdistinct

theorem mem_keys_iff : path ∈ (Table.ofList rows).keys ↔ path ∈ rows.map Prod.fst :=
  ((Table.rows_ofList_perm hdistinct).map Prod.fst).mem_iff

theorem conflicts_iff : Conflicts rows path ↔ path ∈ (Table.ofList rows).keys ∧
    (directories (Table.ofList rows).keys).contains (path ++ "/") = true := by
  simp only [Conflicts, List.contains_iff_mem, directories, List.mem_flatMap,
    EntryPath.mem_ancestors_iff, mem_keys_iff hdistinct]
  refine and_congr_right fun _ => exists_congr fun other => and_congr_right fun _ => ?_
  constructor
  · intro h
    exact ⟨path.toList, by simp, h⟩
  · intro h
    obtain ⟨_, _, hpath⟩ := h
    exact hpath

theorem conflict?_eq_some_iff :
    conflict? (Table.ofList rows).keys = some path ↔ Bytes.Least (Conflicts rows) path := by
  have hascending : (Table.ofList rows).keys.Pairwise (· < ·) := Table.ascending _
  rw [conflict?, Table.find?_eq_some_iff_least hascending, ← and_assoc, ← conflicts_iff hdistinct]
  refine and_congr_right fun _ => forall_congr' fun other => ?_
  rw [conflicts_iff hdistinct, and_imp, Bytes.ofText_lt_iff]

theorem conflict?_eq_none_iff :
    conflict? (Table.ofList rows).keys = none ↔ ∀ p, ¬ Conflicts rows p := by
  simp only [conflict?, List.find?_eq_none, conflicts_iff hdistinct, not_and]

end

/-! ## Sources -/

theorem readSource_eq_error_iff {source : ContentSource} : readSource t source = .error fault ↔
    ∃ path reason, source = .file path ∧ t.readBytes path = .error reason ∧
      fault = .archiveSource path reason := by
  cases source with
  | file path =>
    rw [readSource, Outcome.mapError_eq_error_iff]
    simp [eq_comm]
  | text contents => simp [readSource]
  | bytes contents => simp [readSource]

def isUnreadable (t : FileTree) (row : String × ContentSource) : Bool :=
  !(readSource t row.2).isOk

theorem isUnreadable_iff {row : String × ContentSource} :
    isUnreadable t row = true ↔ ∃ e, readSource t row.2 = .error e := by
  rw [isUnreadable]
  cases readSource t row.2 <;> simp [Except.isOk, Except.toBool]

theorem readFiles_eq_error_iff : readFiles t rows = .error fault ↔
    ∃ row, rows.find? (isUnreadable t) = some row ∧ readSource t row.2 = .error fault := by
  induction rows with
  | nil =>
    constructor
    · intro h; cases h
    · rintro ⟨row, hrow, -⟩; cases hrow
  | cons row rest ih =>
    rw [readFiles, List.find?_cons, isUnreadable]
    cases hread : readSource t row.2 with
    | error e => simp [bind, Except.bind, Except.isOk, Except.toBool, hread]
    | ok bytes =>
      refine Iff.trans ?_ ih
      cases readFiles t rest <;> simp [bind, Except.bind, pure, Except.pure]

theorem unreadable_iff : Unreadable t rows path ↔
    ∃ source, (path, source) ∈ rows ∧ isUnreadable t (path, source) = true := by
  simp only [Unreadable, isUnreadable_iff, readSource_eq_error_iff]
  constructor
  · rintro ⟨source, reason, hmem, hread⟩
    exact ⟨.file source, hmem, _, source, reason, rfl, hread, rfl⟩
  · rintro ⟨_, hmem, _, source, reason, rfl, hread, -⟩
    exact ⟨source, reason, hmem, hread⟩

theorem exists_readFiles_iff :
    (∃ entries, readFiles t rows = .ok entries) ↔ ∀ p, ¬ Unreadable t rows p := by
  simp only [Outcome.exists_ok_iff, readFiles_eq_error_iff]
  constructor
  · intro h p hp
    obtain ⟨source, hmem, htest⟩ := unreadable_iff.mp hp
    obtain ⟨row, hrow⟩ := Option.isSome_iff_exists.mp (List.find?_isSome.mpr ⟨_, hmem, htest⟩)
    obtain ⟨e, he⟩ := isUnreadable_iff.mp (List.find?_some hrow)
    exact h ⟨e, row, hrow, he⟩
  · rintro h ⟨e, row, hrow, -⟩
    exact h row.1 (unreadable_iff.mpr
      ⟨row.2, List.mem_of_find?_eq_some hrow, List.find?_some hrow⟩)

theorem unreadable_perm {rows' : List (String × ContentSource)} (h : rows.Perm rows') :
    Unreadable t rows path ↔ Unreadable t rows' path := by
  simp only [Unreadable, h.mem_iff]

theorem readFiles_ofList_eq_error_iff (hdistinct : (rows.map Prod.fst).Nodup) :
    readFiles t (Table.ofList rows).rows = .error fault ↔
      ∃ path source reason, Bytes.Least (Unreadable t rows) path ∧ (path, .file source) ∈ rows ∧
        t.readBytes source = .error reason ∧ fault = .archiveSource source reason := by
  have hmem : ∀ row, row ∈ (Table.ofList rows).rows ↔ row ∈ rows := fun row =>
    (Table.rows_ofList_perm hdistinct).mem_iff
  rw [readFiles_eq_error_iff]
  constructor
  · rintro ⟨⟨path, source⟩, hfind, hread⟩
    obtain ⟨hrow, htest, hleast⟩ := Table.find?_rows_eq_some_iff.mp hfind
    rw [hmem] at hrow
    obtain ⟨file, reason, rfl, hreason, rfl⟩ := readSource_eq_error_iff.mp hread
    refine ⟨path, file, reason, ⟨⟨file, reason, hrow, hreason⟩, fun other hother => ?_⟩, hrow,
      hreason, rfl⟩
    obtain ⟨source, hother, htest⟩ := unreadable_iff.mp hother
    refine (hleast (other, source) ((hmem _).mpr hother) htest).imp (congrArg Prod.fst) ?_
    exact Bytes.ofText_lt_iff.mpr
  · rintro ⟨path, source, reason, ⟨-, hleast⟩, hrow, hreason, rfl⟩
    have hread := readSource_eq_error_iff.mpr ⟨source, reason, rfl, hreason, rfl⟩
    refine ⟨(path, .file source), Table.find?_rows_eq_some_iff.mpr ⟨(hmem _).mpr hrow,
      isUnreadable_iff.mpr ⟨_, hread⟩, fun other hother htest => ?_⟩, hread⟩
    rw [hmem] at hother
    refine (hleast other.1 (unreadable_iff.mpr ⟨other.2, hother, htest⟩)).imp ?_
      Bytes.ofText_lt_iff.mp
    exact List.inj_on_of_nodup_map hdistinct hother hrow

/-! ## Plans -/

/-- Where the entries have their names, conflicts and then the sources decide. -/
theorem plan_of_admits (h : Admits spec.entries rows) :
    plan t spec = match conflict? (Table.ofList rows).keys with
      | some path => .error (.archivePathConflict path)
      | none => (readFiles t (Table.ofList rows).rows).map fun contents =>
          arrange ((directories (Table.ofList rows).keys).map directoryEntry ++ contents) := by
  rw [plan, collect_eq_ok_iff.mpr ⟨rows, h, rfl⟩]
  rfl

theorem plan_eq_error_iff_of_admits (h : Admits spec.entries rows) :
    plan t spec = .error fault ↔
      (∃ path, Bytes.Least (Conflicts rows) path ∧ fault = .archivePathConflict path) ∨
      ((∀ p, ¬ Conflicts rows p) ∧ ∃ path source reason, Bytes.Least (Unreadable t rows) path ∧
        (path, .file source) ∈ rows ∧ t.readBytes source = .error reason ∧
        fault = .archiveSource source reason) := by
  rw [plan_of_admits h, ← conflict?_eq_none_iff h.distinct,
    ← readFiles_ofList_eq_error_iff h.distinct]
  simp only [← conflict?_eq_some_iff h.distinct]
  cases conflict? (Table.ofList rows).keys with
  | some path => simp [eq_comm]
  | none => cases readFiles t (Table.ofList rows).rows <;> simp [Except.map]

theorem exists_plan_iff_of_admits (h : Admits spec.entries rows) :
    (∃ entries, plan t spec = .ok entries) ↔
      (∀ p, ¬ Conflicts rows p) ∧ ∀ p, ¬ Unreadable t rows p := by
  have hsources : (∃ contents, readFiles t (Table.ofList rows).rows = .ok contents) ↔
      ∀ p, ¬ Unreadable t rows p := by
    rw [exists_readFiles_iff]
    simp only [unreadable_perm (Table.rows_ofList_perm h.distinct)]
  rw [plan_of_admits h, ← conflict?_eq_none_iff h.distinct, ← hsources]
  cases conflict? (Table.ofList rows).keys with
  | some path => simp
  | none => cases readFiles t (Table.ofList rows).rows <;> simp [Except.map]

/-- Planning fails as described, with one error, and otherwise there is a plan. -/
theorem plan_fails_iff (t : FileTree) (spec : ArchiveSpec) :
    (∀ fault, plan t spec = .error fault ↔ Fails t spec fault) ∧
      ((∃ entries, plan t spec = .ok entries) ↔ ∃ rows, Admits spec.entries rows ∧
        (∀ path, ¬ Conflicts rows path) ∧ ∀ path, ¬ Unreadable t rows path) := by
  refine ⟨fun fault => ⟨fun h => ?_, ?_⟩, ?_⟩
  · rcases Outcome.bind_eq_error_iff.mp h with hcollect | ⟨files, hfiles, -⟩
    · obtain ⟨before, e, after, rows, hspec, hbefore, he⟩ := collect_eq_error_iff.mp hcollect
      rcases enter_eq_error_iff.mp he with hpath | ⟨path, hpath, hknown, rfl⟩
      · obtain ⟨reason, hreason, rfl⟩ := normalize_eq_error_iff.mp hpath
        exact .rejected hspec hbefore hreason
      · exact .duplicate hspec hbefore hpath (contains_ofList.mp hknown)
    · obtain ⟨rows, hrows, -⟩ := collect_eq_ok_iff.mp hfiles
      rcases (plan_eq_error_iff_of_admits hrows).mp h with
        ⟨path, hpath, rfl⟩ | ⟨hfree, path, source, reason, hpath, hsource, hreason, rfl⟩
      · exact .conflict hrows hpath
      · exact .unreadable hrows hfree hpath hsource hreason
  · rintro (⟨hspec, hbefore, hreason⟩ | ⟨hspec, hbefore, hpath, hearlier⟩ | ⟨hrows, hpath⟩ |
      ⟨hrows, hfree, hpath, hsource, hreason⟩)
    · have hnormal := normalize_eq_error_iff.mpr ⟨_, hreason, rfl⟩
      have hcollect := collect_eq_error_iff.mpr
        ⟨_, _, _, _, hspec, hbefore, enter_eq_error_iff.mpr (.inl hnormal)⟩
      exact Outcome.bind_eq_error_iff.mpr (.inl hcollect)
    · have hcollect := collect_eq_error_iff.mpr ⟨_, _, _, _, hspec, hbefore,
        enter_eq_error_iff.mpr (.inr ⟨_, hpath, contains_ofList.mpr hearlier, rfl⟩)⟩
      exact Outcome.bind_eq_error_iff.mpr (.inl hcollect)
    · exact (plan_eq_error_iff_of_admits hrows).mpr (.inl ⟨_, hpath, rfl⟩)
    · exact (plan_eq_error_iff_of_admits hrows).mpr
        (.inr ⟨hfree, _, _, _, hpath, hsource, hreason, rfl⟩)
  · constructor
    · rintro ⟨entries, h⟩
      obtain ⟨files, hfiles, -⟩ := Outcome.bind_eq_ok_iff.mp h
      obtain ⟨rows, hrows, -⟩ := collect_eq_ok_iff.mp hfiles
      exact ⟨rows, hrows, (exists_plan_iff_of_admits hrows).mp ⟨entries, h⟩⟩
    · rintro ⟨rows, hrows, hfree⟩
      exact (exists_plan_iff_of_admits hrows).mpr hfree

/-- Names that sort between the two do not hide a conflict. -/
example : plan (.empty []) ⟨[⟨"a/b", .text ""⟩, ⟨"a.c", .text ""⟩, ⟨"a-b", .text ""⟩,
    ⟨"./a", .text ""⟩], .strip, .standard⟩ = .error (.archivePathConflict "a") := by
  decide +kernel

end ModularBuild.ArchivePlan
