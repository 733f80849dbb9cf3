import ModularBuild.Text.Lines

/-! Pieces between separators: what cutting makes of joined pieces, of a text that ends in a
separator and of the beginning of a text. -/

namespace ModularBuild.Text

theorem joinWith_cons (sep : List Char) (piece : List Char) (pieces : List (List Char)) :
    joinWith sep (piece :: pieces) = piece ++ pieces.flatMap (sep ++ ·) := by
  induction pieces generalizing piece with
  | nil => simp [joinWith]
  | cons p rest ih =>
    rw [joinWith, ih p, List.flatMap_cons, List.append_assoc, List.append_assoc]
    simp

/-- A separator behind each piece is one behind the joined pieces. -/
theorem flatMap_concat (sep : Char) {pieces : List (List Char)} (hne : pieces ≠ []) :
    pieces.flatMap (· ++ [sep]) = joinWith [sep] pieces ++ [sep] := by
  induction pieces with
  | nil => exact absurd rfl hne
  | cons piece rest ih =>
    cases rest with
    | nil => simp [joinWith]
    | cons next rest => simp [joinWith, ih (List.cons_ne_nil next rest)]

theorem joinWith_prefix (sep : List Char) {front pieces : List (List Char)} (h : front <+: pieces) :
    joinWith sep front <+: joinWith sep pieces := by
  obtain ⟨rest, rfl⟩ := h
  cases front with
  | nil => exact List.nil_prefix
  | cons piece front =>
    rw [List.cons_append, joinWith_cons, joinWith_cons, List.flatMap_append, ← List.append_assoc]
    exact List.prefix_append _ _

theorem joinWith_append (sep : Char) {front rest : List (List Char)} (hfront : front ≠ [])
    (hrest : rest ≠ []) :
    joinWith [sep] (front ++ rest) = joinWith [sep] front ++ sep :: joinWith [sep] rest := by
  obtain ⟨piece, front, rfl⟩ := List.exists_cons_of_ne_nil hfront
  obtain ⟨next, rest, rfl⟩ := List.exists_cons_of_ne_nil hrest
  rw [List.cons_append, joinWith_cons, joinWith_cons, joinWith_cons, List.flatMap_append,
    List.flatMap_cons]
  simp

theorem splitOn_cons_sep (sep : Char) (cs : List Char) :
    splitOn sep (sep :: cs) = [] :: splitOn sep cs := by simp [splitOn]

theorem splitOn_cons_of_ne {sep c : Char} (hc : c ≠ sep) {cs piece : List Char}
    {pieces : List (List Char)} (h : splitOn sep cs = piece :: pieces) :
    splitOn sep (c :: cs) = (c :: piece) :: pieces := by
  rw [splitOn, if_neg hc, h]

theorem splitOn_of_not_mem {sep : Char} {cs : List Char} (h : sep ∉ cs) :
    splitOn sep cs = [cs] := by
  induction cs with
  | nil => rfl
  | cons c rest ih =>
    rw [List.mem_cons, not_or] at h
    exact splitOn_cons_of_ne (Ne.symm h.1) (ih h.2)

theorem splitOn_append_of_not_mem {sep : Char} {front cs piece : List Char}
    {pieces : List (List Char)} (h : sep ∉ front) (hs : splitOn sep cs = piece :: pieces) :
    splitOn sep (front ++ cs) = (front ++ piece) :: pieces := by
  induction front with
  | nil => exact hs
  | cons c front ih =>
    rw [List.mem_cons, not_or] at h
    exact splitOn_cons_of_ne (Ne.symm h.1) (ih h.2)

/-- What stands on both sides of a separator is cut by itself. -/
theorem splitOn_append (sep : Char) (cs ds : List Char) :
    splitOn sep (cs ++ sep :: ds) = splitOn sep cs ++ splitOn sep ds := by
  induction cs with
  | nil => rw [List.nil_append, splitOn_cons_sep, splitOn, List.singleton_append]
  | cons c rest ih =>
    by_cases hc : c = sep
    · subst hc
      rw [List.cons_append, splitOn_cons_sep, splitOn_cons_sep, ih, List.cons_append]
    · obtain ⟨piece, pieces, hs⟩ := List.exists_cons_of_ne_nil (splitOn_ne_nil sep rest)
      rw [hs] at ih
      rw [List.cons_append, splitOn_cons_of_ne hc ih, splitOn_cons_of_ne hc hs]
      rfl

theorem splitOn_append_sep {sep : Char} {piece : List Char} (h : sep ∉ piece) (rest : List Char) :
    splitOn sep (piece ++ sep :: rest) = piece :: splitOn sep rest := by
  rw [splitOn_append, splitOn_of_not_mem h, List.singleton_append]

/-- Cutting undoes joining. -/
theorem splitOn_joinWith {sep : Char} {pieces : List (List Char)} (hne : pieces ≠ [])
    (h : ∀ p ∈ pieces, sep ∉ p) : splitOn sep (joinWith [sep] pieces) = pieces := by
  induction pieces with
  | nil => exact absurd rfl hne
  | cons p rest ih =>
    cases rest with
    | nil => exact splitOn_of_not_mem (h p List.mem_cons_self)
    | cons q rest =>
      have hq := ih (by simp) fun x hx => h x (List.mem_cons_of_mem _ hx)
      rw [joinWith, List.append_assoc, List.singleton_append,
        splitOn_append_sep (h p List.mem_cons_self), hq]
      simp

theorem splitOn_concat_sep (sep : Char) (cs : List Char) :
    splitOn sep (cs ++ [sep]) = splitOn sep cs ++ [[]] := splitOn_append sep cs []

theorem toList_intercalate (sep : Char) (names : List String) :
    ((String.singleton sep).intercalate names).toList =
      joinWith [sep] (names.map String.toList) := by
  rw [String.toList_intercalate, String.toList_singleton]
  induction names with
  | nil => rfl
  | cons name rest ih =>
    cases rest with
    | nil => simp [joinWith]
    | cons next rest =>
      rw [List.map_cons, List.map_cons, List.intercalate_cons_cons, ← List.map_cons, ih, joinWith]
      simp

theorem not_mem_of_mem_splitOn {sep : Char} {cs piece : List Char} (h : piece ∈ splitOn sep cs) :
    sep ∉ piece := by
  induction cs generalizing piece with
  | nil =>
    have : piece = [] := by simpa [splitOn] using h
    simp [this]
  | cons c rest ih =>
    by_cases hc : c = sep
    · subst hc
      rw [splitOn_cons_sep] at h
      rcases List.mem_cons.mp h with rfl | h
      · simp
      · exact ih h
    · obtain ⟨p, pieces, hs⟩ := List.exists_cons_of_ne_nil (splitOn_ne_nil sep rest)
      rw [splitOn_cons_of_ne hc hs] at h
      rcases List.mem_cons.mp h with rfl | h
      · rw [List.mem_cons, not_or]
        exact ⟨Ne.symm hc, ih (hs ▸ List.mem_cons_self)⟩
      · exact ih (hs ▸ List.mem_cons_of_mem _ h)

/-- All pieces, each with a separator in front of it. -/
theorem flatMap_splitOn (sep : Char) (cs : List Char) :
    (splitOn sep cs).flatMap (sep :: ·) = sep :: cs := by
  obtain ⟨piece, pieces, hs⟩ := List.exists_cons_of_ne_nil (splitOn_ne_nil sep cs)
  have hj := joinWith_splitOn sep cs
  rw [hs, joinWith_cons] at hj
  rw [hs, List.flatMap_cons, ← hj]
  rfl

/-- Every character of a text is a separator or in a piece. -/
theorem mem_of_mem_splitOn (sep : Char) {c : Char} {cs : List Char} (hc : c ∈ cs) :
    c = sep ∨ ∃ piece ∈ splitOn sep cs, c ∈ piece := by
  have hflat : c ∈ (splitOn sep cs).flatMap (sep :: ·) := by
    rw [flatMap_splitOn]
    exact List.mem_cons_of_mem _ hc
  obtain ⟨piece, hpiece, hmem⟩ := List.mem_flatMap.mp hflat
  exact (List.mem_cons.mp hmem).imp_right fun hmem => ⟨piece, hpiece, hmem⟩

/-- The pieces of a beginning are pieces of the whole, except for the last one, which may
have been cut short. -/
theorem dropLast_splitOn_beginning {sep : Char} {front cs : List Char} (h : front <+: cs) :
    (splitOn sep front).dropLast <+: splitOn sep cs := by
  induction front generalizing cs with
  | nil => exact List.nil_prefix
  | cons c front ih =>
    cases cs with
    | nil => exact absurd h (by simp)
    | cons d cs =>
      obtain ⟨rfl, hfront⟩ := List.cons_prefix_cons.mp h
      have hi := ih hfront
      by_cases hc : c = sep
      · subst hc
        rw [splitOn_cons_sep, splitOn_cons_sep, List.dropLast_cons_of_ne_nil (splitOn_ne_nil _ _)]
        exact List.cons_prefix_cons.mpr ⟨rfl, hi⟩
      · obtain ⟨p, ps, hp⟩ := List.exists_cons_of_ne_nil (splitOn_ne_nil sep front)
        obtain ⟨q, qs, hq⟩ := List.exists_cons_of_ne_nil (splitOn_ne_nil sep cs)
        rw [splitOn_cons_of_ne hc hp, splitOn_cons_of_ne hc hq]
        rw [hp, hq] at hi
        cases ps with
        | nil => exact List.nil_prefix
        | cons p' ps =>
          rw [List.dropLast_cons_of_ne_nil (by simp)] at hi ⊢
          obtain ⟨rfl, htail⟩ := List.cons_prefix_cons.mp hi
          exact List.cons_prefix_cons.mpr ⟨rfl, htail⟩

end ModularBuild.Text
