/-! Finite tables whose rows are kept in strictly ascending key order. The order is
part of the type, so two tables with the same look-ups are the same table
however they were built. -/

namespace ModularBuild

/-- A finite map as an association list with strictly ascending keys. -/
structure Table (κ ν : Type) [LT κ] where
  rows : List (κ × ν)
  ascending : (rows.map Prod.fst).Pairwise (· < ·)

namespace Table

variable {κ ν : Type} [LT κ]

instance [DecidableEq κ] [DecidableEq ν] : DecidableEq (Table κ ν) := fun a b =>
  match a, b with
  | ⟨ra, _⟩, ⟨rb, _⟩ => if h : ra = rb then isTrue (by subst h; rfl) else isFalse (by simp [h])

def empty : Table κ ν := ⟨[], .nil⟩

instance : EmptyCollection (Table κ ν) := ⟨empty⟩
instance : Inhabited (Table κ ν) := ⟨empty⟩

variable [DecidableLT κ]

/-- Puts the value under the key, in place of an earlier one. -/
def insertRow (k : κ) (v : ν) : List (κ × ν) → List (κ × ν)
  | [] => [(k, v)]
  | row :: rest =>
    if k < row.1 then (k, v) :: row :: rest
    else if row.1 < k then row :: insertRow k v rest
    else (k, v) :: rest

def lookupRow (k : κ) : List (κ × ν) → Option ν
  | [] => none
  | row :: rest =>
    if k < row.1 then none
    else if row.1 < k then lookupRow k rest
    else some row.2

theorem mem_keys_insertRow {k x : κ} {v : ν} {rows : List (κ × ν)}
    (h : x ∈ (insertRow k v rows).map Prod.fst) : x = k ∨ x ∈ rows.map Prod.fst := by
  induction rows with
  | nil => simpa [insertRow] using h
  | cons row rest ih =>
    simp only [insertRow] at h
    split at h
    · simpa using h
    · split at h
      · simp only [List.map_cons, List.mem_cons] at h ⊢
        rcases h with h | h
        · exact .inr (.inl h)
        · rcases ih h with h | h
          · exact .inl h
          · exact .inr (.inr h)
      · simp only [List.map_cons, List.mem_cons] at h ⊢
        rcases h with h | h
        · exact .inl h
        · exact .inr (.inr h)

variable [LE κ] [Std.IsLinearOrder κ] [Std.LawfulOrderLT κ]

theorem ascending_insertRow {k : κ} {v : ν} {rows : List (κ × ν)}
    (h : (rows.map Prod.fst).Pairwise (· < ·)) :
    ((insertRow k v rows).map Prod.fst).Pairwise (· < ·) := by
  induction rows with
  | nil => simp [insertRow]
  | cons row rest ih =>
    rw [List.map_cons, List.pairwise_cons] at h
    simp only [insertRow]
    split
    · rename_i hk
      rw [List.map_cons, List.pairwise_cons]
      refine ⟨fun x hx => ?_, by rw [List.map_cons, List.pairwise_cons]; exact h⟩
      rw [List.map_cons, List.mem_cons] at hx
      rcases hx with hx | hx
      · exact hx ▸ hk
      · exact Trans.trans hk (h.1 x hx)
    · split
      · rename_i _ hk
        rw [List.map_cons, List.pairwise_cons]
        refine ⟨fun x hx => ?_, ih h.2⟩
        rcases mem_keys_insertRow hx with hx | hx
        · exact hx ▸ hk
        · exact h.1 x hx
      · rename_i h1 h2
        have heq : k = row.1 := Std.Trichotomous.trichotomous (r := (· < ·)) k row.1 h1 h2
        rw [List.map_cons, List.pairwise_cons]
        exact ⟨fun x hx => heq ▸ h.1 x hx, h.2⟩

def insert (t : Table κ ν) (k : κ) (v : ν) : Table κ ν :=
  ⟨insertRow k v t.rows, ascending_insertRow t.ascending⟩

def find? (t : Table κ ν) (k : κ) : Option ν := lookupRow k t.rows

def contains (t : Table κ ν) (k : κ) : Bool := (t.find? k).isSome

def keys (t : Table κ ν) : List κ := t.rows.map Prod.fst

def values (t : Table κ ν) : List ν := t.rows.map Prod.snd

def size (t : Table κ ν) : Nat := t.rows.length

def isEmpty (t : Table κ ν) : Bool := t.rows.isEmpty

/-- Inserts the pairs one after the other, so the last value under a key stays. -/
def insertMany (t : Table κ ν) (pairs : List (κ × ν)) : Table κ ν :=
  pairs.foldl (fun acc p => acc.insert p.1 p.2) t

def ofList (pairs : List (κ × ν)) : Table κ ν := (empty : Table κ ν).insertMany pairs

/-- Keeps the rows that pass the test. -/
def filter (t : Table κ ν) (p : κ → ν → Bool) : Table κ ν :=
  ⟨t.rows.filter fun row => p row.1 row.2,
    List.Pairwise.sublist (List.Sublist.map _ List.filter_sublist) t.ascending⟩

/-! ## One look-up law per operation -/

theorem lookupRow_insertRow (k x : κ) (v : ν) (rows : List (κ × ν)) :
    lookupRow x (insertRow k v rows) =
      if x < k then lookupRow x rows else if k < x then lookupRow x rows else some v := by
  have irrefl (a : κ) : ¬ a < a := Std.Irrefl.irrefl a
  induction rows with
  | nil => simp only [insertRow, lookupRow]
  | cons row rest ih =>
    simp only [insertRow]
    split
    · rename_i hk
      simp only [lookupRow]
      by_cases h1 : x < k
      · have : x < row.1 := Trans.trans h1 hk
        simp [h1, this]
      · simp [h1]
    · rename_i hk
      split
      · rename_i hr
        simp only [lookupRow, ih]
        by_cases h1 : x < row.1
        · have : x < k := Trans.trans h1 hr
          simp [h1, this]
        · by_cases h2 : row.1 < x
          · simp [h1, h2]
          · have heq : x = row.1 := Std.Trichotomous.trichotomous (r := (· < ·)) x row.1 h1 h2
            simp [heq, irrefl, hr]
      · rename_i hr
        have heq : k = row.1 := Std.Trichotomous.trichotomous (r := (· < ·)) k row.1 hk hr
        subst heq
        simp only [lookupRow]
        by_cases h1 : x < row.1
        · simp [h1]
        · by_cases h2 : row.1 < x <;> simp [h1, h2]

omit [LE κ] [Std.IsLinearOrder κ] [Std.LawfulOrderLT κ] in
@[simp] theorem find?_empty (k : κ) : (empty : Table κ ν).find? k = none := rfl

theorem find?_insert [DecidableEq κ] (t : Table κ ν) (k x : κ) (v : ν) :
    (t.insert k v).find? x = if x = k then some v else t.find? x := by
  have irrefl (a : κ) : ¬ a < a := Std.Irrefl.irrefl a
  simp only [find?, insert, lookupRow_insertRow]
  by_cases h : x = k
  · subst h; simp [irrefl]
  · by_cases h1 : x < k
    · simp [h, h1]
    · have h2 : k < x := by
        refine Decidable.byContradiction fun h2 => h ?_
        exact Std.Trichotomous.trichotomous (r := (· < ·)) x k h1 h2
      simp [h, h1, h2]

end Table
end ModularBuild
