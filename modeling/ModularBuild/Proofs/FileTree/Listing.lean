import ModularBuild.Proofs.FileTree.Growth
import ModularBuild.Proofs.Path

/-! # What stands below a directory

The listing below a directory has what stands there, under the names that are left of its
location and in their order. On a disk every one of these names can be an entry of a directory. -/

namespace ModularBuild.FileTree

variable {t : FileTree} {loc : Location} {names : List String} {e : FileEntry}

/-- A row is listed under what is left of its location. -/
theorem below_row_iff {row listed : Location × FileEntry} :
    (if loc.isPrefixOf row.1 && loc != row.1 then some (row.1.drop loc.length, row.2) else none) =
      some listed ↔ listed.1 ≠ [] ∧ row = (loc ++ listed.1, listed.2) := by
  constructor
  · intro h
    split at h
    · next hbelow =>
      rw [Bool.and_eq_true, List.isPrefixOf_iff_prefix, bne_iff_ne] at hbelow
      obtain ⟨⟨rest, hrest⟩, hne⟩ := hbelow
      cases h
      simp only [← hrest, List.drop_left]
      refine ⟨?_, Prod.ext hrest.symm rfl⟩
      rintro rfl
      exact hne (hrest ▸ (List.append_nil loc).symm)
    · cases h
  · intro ⟨hne, hrow⟩
    simp [hrow, hne]

/-- What stands strictly below a directory is listed there. -/
theorem mem_below_iff : (names, e) ∈ t.below loc ↔
    names ≠ [] ∧ t.entry? (loc ++ names) = some e := by
  have hentry : names ≠ [] → (t.entry? (loc ++ names) = some e ↔
      (loc ++ names, e) ∈ t.rows.rows) := by
    intro hne
    rw [entry?_below_root (List.append_ne_nil_of_right_ne_nil _ hne), Table.find?_eq_some_iff]
  unfold below
  simp only [List.mem_filterMap, below_row_iff]
  constructor
  · intro h
    obtain ⟨row, hrow, hne, rfl⟩ := h
    exact ⟨hne, (hentry hne).mpr hrow⟩
  · intro h
    exact ⟨_, (hentry h.1).mp h.2, h.1, rfl⟩

/-- The listing is in the order of the names. -/
theorem ascending_below (t : FileTree) (loc : Location) :
    ((t.below loc).map Prod.fst).Pairwise (· < ·) := by
  have hcancel : ∀ (loc : Location) {names names' : List String},
      loc ++ names < loc ++ names' → names < names' := by
    intro loc names names' h
    induction loc with
    | nil => exact h
    | cons name loc ih =>
      rcases List.cons_lt_cons_iff.mp h with hlt | ⟨-, hrest⟩
      · exact absurd hlt (Std.Irrefl.irrefl name)
      · exact ih hrest
  unfold below
  rw [List.pairwise_map, List.pairwise_filterMap]
  refine (List.pairwise_map.mp t.rows.ascending).imp ?_
  intro row row' hlt listed hlisted listed' hlisted'
  obtain ⟨-, rfl⟩ := below_row_iff.mp hlisted
  obtain ⟨-, rfl⟩ := below_row_iff.mp hlisted'
  exact hcancel loc hlt

theorem below_eq_nil_iff : t.below loc = [] ↔
    ∀ names : List String, names ≠ [] → t.entry? (loc ++ names) = none := by
  rw [List.eq_nil_iff_forall_not_mem]
  constructor
  · intro h names hne
    exact Option.eq_none_iff_forall_ne_some.mpr fun e he => h _ (mem_below_iff.mpr ⟨hne, he⟩)
  · intro h row hrow
    obtain ⟨hne, he⟩ := mem_below_iff.mp hrow
    rw [h _ hne] at he
    cases he

/-! ## Names -/

/-- What an entry of a directory can be called. -/
def IsName (name : String) : Prop :=
  name ∉ ["", ".", ".."] ∧ '/' ∉ name.toList ∧ '\x00' ∉ name.toList ∧
    name.utf8ByteSize ≤ maxNameBytes

instance : DecidablePred IsName := fun _ => inferInstanceAs (Decidable (_ ∧ _ ∧ _ ∧ _))

def WellNamed (t : FileTree) : Prop := ∀ row ∈ t.rows.rows, ∀ name ∈ row.1, IsName name

instance (t : FileTree) : Decidable t.WellNamed :=
  inferInstanceAs (Decidable (∀ row ∈ t.rows.rows, ∀ name ∈ row.1, IsName name))

theorem IsName.isPart {name : String} (h : IsName name) : Path.IsPart name := by
  have hne : ∀ other ∈ ["", ".", ".."], name.toList ≠ other.toList := fun other hother he =>
    h.1 (String.toList_inj.mp he ▸ hother)
  refine ⟨h.2.1, ?_, hne ".." (by decide)⟩
  exact Path.idle_eq_false_iff.mpr ⟨hne "" (by decide), hne "." (by decide)⟩

theorem IsName.idle_eq_false {piece : List Char} (h : IsName (.ofList piece)) :
    Path.idle piece = false := by simpa using h.isPart.leads

theorem IsName.ofPiece_eq {piece : List Char} (h : IsName (.ofList piece)) :
    Path.Step.ofPiece piece = .down (.ofList piece) := by simpa using h.isPart.ofPiece_eq

theorem WellNamed.isName (h : t.WellNamed) (he : t.entry? (loc ++ names) = some e) :
    ∀ name ∈ names, IsName name := by
  intro name hname
  have hmem : name ∈ loc ++ names := List.mem_append_right _ hname
  rw [entry?_below_root (List.ne_nil_of_mem hmem), Table.find?_eq_some_iff] at he
  exact h _ he name hmem

end ModularBuild.FileTree
