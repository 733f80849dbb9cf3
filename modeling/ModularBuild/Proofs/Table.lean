import Mathlib.Data.List.Forall2
import Mathlib.Data.List.Induction
import Mathlib.Data.List.Nodup
import ModularBuild.Table

/-! Tables by their rows and by their look-ups. Ascending keys make both views agree: a row
is in a table exactly when it is looked up, equal look-ups make equal tables, and rows that
come in another order are the same rows. Look-ups that correspond make rows that correspond. -/

namespace ModularBuild.Table

variable {κ ν : Type} [LT κ]

/-- Ascending rows are determined by their contents. -/
theorem ascending_eq_of_perm [LE κ] [Std.IsLinearOrder κ] [Std.LawfulOrderLT κ]
    {a b : List (κ × ν)} (ha : (a.map Prod.fst).Pairwise (· < ·))
    (hb : (b.map Prod.fst).Pairwise (· < ·)) (h : a.Perm b) : a = b := by
  refine h.eq_of_pairwise (fun x y _ _ hxy hyx => ?_) (List.pairwise_map.mp ha)
    (List.pairwise_map.mp hb)
  exact absurd (Trans.trans hxy hyx) (Std.Irrefl.irrefl x.1)

theorem nodup_of_ascending [LE κ] [Std.LawfulOrderLT κ] {keys : List κ}
    (h : keys.Pairwise (· < ·)) : keys.Nodup := by
  refine h.imp fun {a b} hab => ?_
  intro he
  exact Std.Irrefl.irrefl b (he ▸ hab)

theorem nodup_keys [LE κ] [Std.LawfulOrderLT κ] (t : Table κ ν) : t.keys.Nodup :=
  nodup_of_ascending t.ascending

/-- Ascending keys are determined by which keys they are. -/
theorem ascending_ext [LE κ] [Std.IsLinearOrder κ] [Std.LawfulOrderLT κ] {a b : List κ}
    (ha : a.Pairwise (· < ·)) (hb : b.Pairwise (· < ·)) (h : ∀ k, k ∈ a ↔ k ∈ b) : a = b := by
  have hp := (List.perm_ext_iff_of_nodup (nodup_of_ascending ha) (nodup_of_ascending hb)).mpr h
  refine hp.eq_of_pairwise (fun x y _ _ hxy hyx => ?_) ha hb
  exact absurd (Trans.trans hxy hyx) (Std.Irrefl.irrefl x)

theorem nodup_rows [LE κ] [Std.LawfulOrderLT κ] (t : Table κ ν) : t.rows.Nodup :=
  (List.pairwise_map.mp t.nodup_keys).imp fun hab he => hab (congrArg Prod.fst he)

section Rows
variable [DecidableLT κ] [LE κ] [Std.IsLinearOrder κ] [Std.LawfulOrderLT κ]

theorem lookupRow_eq_some_iff {k : κ} {v : ν} {rows : List (κ × ν)}
    (h : (rows.map Prod.fst).Pairwise (· < ·)) :
    lookupRow k rows = some v ↔ (k, v) ∈ rows := by
  have irrefl (a : κ) : ¬ a < a := Std.Irrefl.irrefl a
  induction rows with
  | nil => simp [lookupRow]
  | cons row rest ih =>
    obtain ⟨hrow, hrest⟩ := List.pairwise_cons.mp (List.map_cons ▸ h)
    have above : ∀ r ∈ rest, row.1 < r.1 := fun r hr => hrow r.1 (List.mem_map_of_mem hr)
    obtain ⟨k', v'⟩ := row
    simp only [lookupRow, List.mem_cons, Prod.mk.injEq]
    by_cases h1 : k < k'
    · rw [if_pos h1]
      constructor
      · intro hf; cases hf
      · rintro (⟨rfl, -⟩ | hm)
        · exact absurd h1 (irrefl k)
        · exact absurd (Trans.trans h1 (above _ hm)) (irrefl k)
    · rw [if_neg h1]
      by_cases h2 : k' < k
      · rw [if_pos h2]
        refine (ih hrest).trans ?_
        constructor
        · exact .inr
        · rintro (⟨rfl, -⟩ | hm)
          · exact absurd h2 (irrefl k)
          · exact hm
      · have heq : k = k' := Std.Trichotomous.trichotomous (r := (· < ·)) k k' h1 h2
        subst heq
        rw [if_neg h2, Option.some.injEq]
        constructor
        · intro hv; exact .inl ⟨rfl, hv.symm⟩
        · rintro (⟨-, hv⟩ | hm)
          · exact hv.symm
          · exact absurd (above _ hm) (irrefl k)

end Rows

/-! ## Look-ups -/

variable [DecidableLT κ] [LE κ] [Std.IsLinearOrder κ] [Std.LawfulOrderLT κ]

theorem find?_eq_some_iff {t : Table κ ν} {k : κ} {v : ν} :
    t.find? k = some v ↔ (k, v) ∈ t.rows := lookupRow_eq_some_iff t.ascending

theorem mem_keys_iff {t : Table κ ν} {k : κ} : k ∈ t.keys ↔ ∃ v, t.find? k = some v := by
  simp only [keys, List.mem_map, find?_eq_some_iff]
  constructor
  · rintro ⟨row, hm, rfl⟩; exact ⟨row.2, hm⟩
  · rintro ⟨v, hm⟩; exact ⟨(k, v), hm, rfl⟩

/-- Tables with the same look-ups are the same. -/
theorem ext_find? {a b : Table κ ν} (h : ∀ k, a.find? k = b.find? k) : a = b := by
  have hm : ∀ row, row ∈ a.rows ↔ row ∈ b.rows := by
    rintro ⟨k, v⟩
    rw [← find?_eq_some_iff, ← find?_eq_some_iff, h k]
  have hp := (List.perm_ext_iff_of_nodup a.nodup_rows b.nodup_rows).mpr hm
  obtain ⟨ra, ha⟩ := a
  obtain ⟨rb, hb⟩ := b
  cases ascending_eq_of_perm ha hb hp
  rfl

theorem mem_values_iff {t : Table κ ν} {v : ν} : v ∈ t.values ↔ ∃ k, t.find? k = some v := by
  simp only [values, List.mem_map, find?_eq_some_iff]
  constructor
  · rintro ⟨row, hm, rfl⟩; exact ⟨row.1, hm⟩
  · rintro ⟨k, hm⟩; exact ⟨(k, v), hm, rfl⟩

theorem find?_filter_eq_some_iff {t : Table κ ν} {keep : κ → ν → Bool} {k : κ} {v : ν} :
    (t.filter keep).find? k = some v ↔ t.find? k = some v ∧ keep k v = true := by
  rw [find?_eq_some_iff, find?_eq_some_iff]
  exact List.mem_filter

/-- Whatever is looked up has been inserted. -/
theorem find?_insertMany [DecidableEq κ] {t : Table κ ν} {pairs : List (κ × ν)} {k : κ} {v : ν}
    (h : (t.insertMany pairs).find? k = some v) : (k, v) ∈ pairs ∨ t.find? k = some v := by
  induction pairs generalizing t with
  | nil => exact .inr h
  | cons pair pairs ih =>
    rcases ih h with hm | hf
    · exact .inl (List.mem_cons_of_mem _ hm)
    · rw [find?_insert] at hf
      split at hf
      · rename_i hk
        rw [hk, ← Option.some.inj hf]
        exact .inl List.mem_cons_self
      · exact .inr hf

theorem contains_insert [DecidableEq κ] {t : Table κ ν} {k x : κ} {v : ν} :
    (t.insert k v).contains x = true ↔ x = k ∨ t.contains x = true := by
  rw [contains, contains, find?_insert]
  split <;> simp [*]

theorem contains_insertMany [DecidableEq κ] {t : Table κ ν} {pairs : List (κ × ν)} {k : κ} :
    (t.insertMany pairs).contains k = true ↔ k ∈ pairs.map Prod.fst ∨ t.contains k = true := by
  induction pairs generalizing t with
  | nil => simp [insertMany]
  | cons pair pairs ih =>
    rw [show t.insertMany (pair :: pairs) = (t.insert pair.1 pair.2).insertMany pairs from rfl, ih,
      contains_insert, List.map_cons, List.mem_cons]
    exact ⟨fun h => h.elim (.inl ∘ .inr) (Or.imp_left .inl), fun h => h.elim
      (Or.elim · (.inr ∘ .inl) .inl) (.inr ∘ .inr)⟩

theorem ofList_append (pairs more : List (κ × ν)) :
    ofList (pairs ++ more) = (ofList pairs).insertMany more := List.foldl_append

theorem ofList_concat (pairs : List (κ × ν)) (pair : κ × ν) :
    ofList (pairs ++ [pair]) = (ofList pairs).insert pair.1 pair.2 := ofList_append pairs [pair]

theorem find?_ofList [DecidableEq κ] (pairs : List (κ × ν)) (k : κ) :
    (ofList pairs).find? k = ((pairs.filter fun pair => pair.1 = k).getLast?).map (·.2) := by
  induction pairs using List.reverseRecOn with
  | nil => rfl
  | append_singleton pairs pair ih =>
    rw [ofList_concat, find?_insert, ih, List.filter_append]
    by_cases hk : k = pair.1
    · simp [hk]
    · simp [hk, Ne.symm hk]

/-- The last of the pairs under the key has the value. -/
def Latest (pairs : List (κ × ν)) (k : κ) (v : ν) : Prop :=
  ∃ before after, pairs = before ++ (k, v) :: after ∧ ∀ pair ∈ after, pair.1 ≠ k

omit [LT κ] [DecidableLT κ] [LE κ] [Std.IsLinearOrder κ] [Std.LawfulOrderLT κ] in
theorem latest_concat {pairs : List (κ × ν)} {pair : κ × ν} {k : κ} {v : ν} :
    Latest (pairs ++ [pair]) k v ↔
      (k = pair.1 ∧ v = pair.2) ∨ (k ≠ pair.1 ∧ Latest pairs k v) := by
  constructor
  · intro ⟨before, after, h, hafter⟩
    rcases List.eq_nil_or_concat after with rfl | ⟨init, last, rfl⟩
    · obtain ⟨-, hlast⟩ := List.append_inj' h rfl
      obtain rfl := List.head_eq_of_cons_eq hlast
      exact .inl ⟨rfl, rfl⟩
    · rw [List.concat_eq_append] at h hafter
      rw [← List.cons_append, ← List.append_assoc] at h
      obtain ⟨rfl, hlast⟩ := List.append_inj' h rfl
      obtain rfl := List.head_eq_of_cons_eq hlast
      rw [List.forall_mem_append] at hafter
      exact .inr ⟨(hafter.2 pair List.mem_cons_self).symm, before, init, rfl, hafter.1⟩
  · intro h
    rcases h with ⟨rfl, rfl⟩ | ⟨hk, before, after, rfl, hafter⟩
    · exact ⟨pairs, [], rfl, by simp⟩
    · refine ⟨before, after ++ [pair], by simp, ?_⟩
      rw [List.forall_mem_append]
      exact ⟨hafter, by simpa using Ne.symm hk⟩

/-- What is found in a table of pairs is the latest value under the key. -/
theorem find?_ofList_iff_latest [DecidableEq κ] {pairs : List (κ × ν)} {k : κ} {v : ν} :
    (ofList pairs).find? k = some v ↔ Latest pairs k v := by
  induction pairs using List.reverseRecOn with
  | nil =>
    constructor
    · intro h; cases h
    · intro ⟨before, after, h, _⟩; cases before <;> cases h
  | append_singleton pairs pair ih =>
    rw [latest_concat, ← ih, ofList_concat, find?_insert]
    by_cases hk : k = pair.1
    · simp [hk, eq_comm]
    · simp [hk]

omit [LT κ] [DecidableLT κ] [LE κ] [Std.IsLinearOrder κ] [Std.LawfulOrderLT κ] in
/-- Later pairs under the key come before the earlier ones. -/
theorem latest_append {pairs more : List (κ × ν)} {k : κ} {v : ν} :
    Latest (pairs ++ more) k v ↔
      Latest more k v ∨ ((∀ pair ∈ more, pair.1 ≠ k) ∧ Latest pairs k v) := by
  induction more using List.reverseRecOn with
  | nil =>
    have hnone : ¬ Latest ([] : List (κ × ν)) k v := by
      intro ⟨before, after, h, _⟩
      cases before <;> cases h
    simp [hnone]
  | append_singleton more pair ih =>
    rw [← List.append_assoc, latest_concat, latest_concat, ih, List.forall_mem_append]
    by_cases hk : k = pair.1
    · simp [hk]
    · simp [hk, Ne.symm hk]

/-- Pairs under other keys do not matter. -/
theorem latest_without [DecidableEq κ] {front more back : List (κ × ν)} {k : κ} {v : ν}
    (h : ∀ pair ∈ more, pair.1 ≠ k) :
    Latest (front ++ (more ++ back)) k v ↔ Latest (front ++ back) k v := by
  have hmore : more.filter (fun pair => pair.1 = k) = [] :=
    List.filter_eq_nil_iff.mpr fun pair hpair => by simpa using h pair hpair
  rw [← find?_ofList_iff_latest, ← find?_ofList_iff_latest, find?_ofList, find?_ofList,
    List.filter_append, List.filter_append, hmore, List.nil_append, ← List.filter_append]

/-- Rows that differ differ in their keys, so each of them is found. -/
theorem find?_ofList_of_agree [DecidableEq κ] {pairs : List (κ × ν)} {k : κ} {v : ν}
    (h : ∀ pair ∈ pairs, ∀ other ∈ pairs, pair.1 = other.1 → pair = other) :
    (ofList pairs).find? k = some v ↔ (k, v) ∈ pairs := by
  rw [find?_ofList, Option.map_eq_some_iff]
  constructor
  · rintro ⟨pair, hlast, rfl⟩
    obtain ⟨hm, hk⟩ := List.mem_filter.mp (List.mem_of_getLast? hlast)
    rw [← of_decide_eq_true hk]
    exact hm
  · intro hm
    have hin : (k, v) ∈ pairs.filter fun pair => pair.1 = k := by simp [hm]
    obtain ⟨pair, hlast⟩ := Option.isSome_iff_exists.mp
      (List.getLast?_isSome.mpr (List.ne_nil_of_mem hin))
    obtain ⟨hpair, hk⟩ := List.mem_filter.mp (List.mem_of_getLast? hlast)
    exact ⟨pair, hlast, by rw [h pair hpair _ hm (of_decide_eq_true hk)]⟩

/-- Rows with distinct keys are found as they are. -/
theorem find?_ofList_eq_some_iff [DecidableEq κ] {pairs : List (κ × ν)} {k : κ} {v : ν}
    (h : (pairs.map Prod.fst).Nodup) : (ofList pairs).find? k = some v ↔ (k, v) ∈ pairs :=
  find?_ofList_of_agree fun _ hpair _ hother => List.inj_on_of_nodup_map h hpair hother

theorem ofList_rows [DecidableEq κ] (t : Table κ ν) : ofList t.rows = t :=
  ext_find? fun k => Option.ext fun v => by
    rw [find?_ofList_eq_some_iff t.nodup_keys, find?_eq_some_iff]

omit [DecidableLT κ] in
theorem keys_eq {μ : Type} {a : Table κ ν} {b : Table κ μ} (h : ∀ k, k ∈ a.keys ↔ k ∈ b.keys) :
    a.keys = b.keys := ascending_ext a.ascending b.ascending h

/-- Pairs with distinct keys are the rows of their table, in some order. -/
theorem rows_ofList_perm [DecidableEq κ] {pairs : List (κ × ν)}
    (h : (pairs.map Prod.fst).Nodup) : (ofList pairs).rows.Perm pairs := by
  refine (List.perm_ext_iff_of_nodup (nodup_rows _) h.of_map).mpr fun row => ?_
  rw [← find?_eq_some_iff, find?_ofList_eq_some_iff h]

omit [LT κ] [DecidableLT κ] [LE κ] [Std.IsLinearOrder κ] [Std.LawfulOrderLT κ] in
/-- In a list that is in order, the first element that passes a test is the least that does. -/
theorem find?_eq_some_iff_least {r : κ → κ → Prop} [Std.Asymm r] {l : List κ} (h : l.Pairwise r)
    {test : κ → Bool} {k : κ} : l.find? test = some k ↔
      k ∈ l ∧ test k = true ∧ ∀ other ∈ l, test other = true → other = k ∨ r k other := by
  have hleast : ∀ k, l.find? test = some k →
      ∀ other ∈ l, test other = true → other = k ∨ r k other := by
    intro k hk other hother htest
    obtain ⟨-, before, after, rfl, hbefore⟩ := List.find?_eq_some_iff_append.mp hk
    rcases List.mem_append.mp hother with hother | hother
    · have hfails := hbefore other hother
      rw [htest] at hfails
      cases hfails
    · rcases List.mem_cons.mp hother with rfl | hother
      · exact .inl rfl
      · exact .inr ((List.pairwise_cons.mp (List.pairwise_append.mp h).2.1).1 other hother)
  constructor
  · intro hk
    exact ⟨List.mem_of_find?_eq_some hk, List.find?_some hk, hleast k hk⟩
  · intro ⟨hmem, htest, hk⟩
    obtain ⟨first, hfirst⟩ := Option.isSome_iff_exists.mp
      (List.find?_isSome.mpr ⟨k, hmem, htest⟩)
    rw [hfirst]
    rcases hk first (List.mem_of_find?_eq_some hfirst) (List.find?_some hfirst) with rfl | hlt
    · rfl
    · rcases hleast first hfirst k hmem htest with rfl | hgt
      · rfl
      · exact absurd hgt (Std.Asymm.asymm _ _ hlt)

omit [DecidableLT κ] [Std.IsLinearOrder κ] in
/-- Of the rows that pass a test, the first one has the smallest key. -/
theorem find?_rows_eq_some_iff {t : Table κ ν} {test : κ × ν → Bool} {row : κ × ν} :
    t.rows.find? test = some row ↔ row ∈ t.rows ∧ test row = true ∧
      ∀ other ∈ t.rows, test other = true → other = row ∨ row.1 < other.1 := by
  have : Std.Asymm fun a b : κ × ν => a.1 < b.1 := ⟨fun a b => Std.Asymm.asymm a.1 b.1⟩
  exact find?_eq_some_iff_least (List.pairwise_map.mp t.ascending)

/-- Tables whose look-ups correspond have rows that correspond one by one. -/
theorem forall₂_rows {μ : Type} {R : ν → μ → Prop} {a : Table κ ν} {b : Table κ μ}
    (h : ∀ k, Option.Rel R (a.find? k) (b.find? k)) :
    List.Forall₂ (fun x y => x.1 = y.1 ∧ R x.2 y.2) a.rows b.rows := by
  have hkeys : a.keys = b.keys := keys_eq fun k => by
    rw [mem_keys_iff, mem_keys_iff]
    generalize a.find? k = x, b.find? k = y, h k = hrel
    cases hrel <;> simp
  have hfirst : List.Forall₂ (fun x y => x.1 = y.1) a.rows b.rows := by
    rw [← List.forall₂_map_left_iff (R := fun k (y : κ × μ) => k = y.1),
      ← List.forall₂_map_right_iff (R := fun k (k' : κ) => k = k')]
    exact List.forall₂_eq_eq_eq ▸ hkeys
  rw [List.forall₂_iff_zip] at hfirst ⊢
  refine ⟨hfirst.1, fun {x y} hxy => ?_⟩
  obtain ⟨hx, hy⟩ := List.of_mem_zip hxy
  have hk : x.1 = y.1 := hfirst.2 hxy
  have hrel := h x.1
  rw [find?_eq_some_iff.mpr hx, hk, find?_eq_some_iff.mpr hy] at hrel
  cases hrel with
  | some hr => exact ⟨hk, hr⟩

end ModularBuild.Table
