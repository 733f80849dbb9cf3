import Mathlib.Data.List.Basic
import Mathlib.Data.List.TakeWhile
import ModularBuild.Proofs.Text.Pieces
import ModularBuild.Text.Blank
import ModularBuild.Text.DecimalDigit

/-! # What is read from short texts

A text without the blanks around it, a number by its digits, a word in a text, and the first line
with a word: each is told apart from the function that finds it, and the function finds it and
nothing else. -/

namespace ModularBuild.Text

/-! ## Blanks -/

/-- The core of a text: only blanks are around it, and it neither begins nor ends with one. -/
structure Trimmed (cs core : List Char) : Prop where
  around : ∃ front back, cs = front ++ core ++ back ∧ (∀ c ∈ front, isBlank c = true) ∧
    ∀ c ∈ back, isBlank c = true
  first : ∀ c ∈ core.head?, isBlank c = false
  last : ∀ c ∈ core.getLast?, isBlank c = false

theorem dropWhile_of_head? {p : Char → Bool} {cs : List Char} (h : ∀ c ∈ cs.head?, p c = false) :
    cs.dropWhile p = cs := by
  cases cs with
  | nil => rfl
  | cons c rest => rw [List.dropWhile_cons, h c rfl]; rfl

theorem trimmed_trimChars (cs : List Char) : Trimmed cs (trimChars cs) where
  around := by
    refine ⟨cs.takeWhile isBlank, ((cs.dropWhile isBlank).reverse.takeWhile isBlank).reverse,
      ?_, fun c hc => List.mem_takeWhile_imp hc,
      fun c hc => List.mem_takeWhile_imp (List.mem_reverse.mp hc)⟩
    rw [trimChars, List.append_assoc, ← List.reverse_append, List.takeWhile_append_dropWhile,
      List.reverse_reverse, List.takeWhile_append_dropWhile]
  first := by
    intro c hc
    -- the core is a beginning of the text from its first character that is not blank
    have hprefix : trimChars cs <+: cs.dropWhile isBlank := by
      have hsuffix := List.dropWhile_suffix isBlank (l := (cs.dropWhile isBlank).reverse)
      simpa [trimChars] using List.reverse_prefix.mpr hsuffix
    obtain ⟨back, hback⟩ := hprefix
    have hhead : (cs.dropWhile isBlank).head? = some c := by
      rw [← hback, List.head?_append, hc]
      rfl
    have hnot := List.head?_dropWhile_not isBlank cs
    rwa [hhead] at hnot
  last := by
    intro c hc
    have hnot := List.head?_dropWhile_not isBlank (cs.dropWhile isBlank).reverse
    rw [trimChars, List.getLast?_reverse] at hc
    rwa [hc] at hnot

/-- There is one core only. -/
theorem trimChars_eq_iff {cs core : List Char} : trimChars cs = core ↔ Trimmed cs core := by
  constructor
  · rintro rfl
    exact trimmed_trimChars cs
  · intro h
    obtain ⟨front, back, rfl, hfront, hback⟩ := h.around
    rw [trimChars, List.append_assoc, List.dropWhile_append_of_pos hfront]
    cases core with
    | nil =>
      have hall : back.dropWhile isBlank = [] := List.dropWhile_eq_nil_iff.mpr hback
      rw [List.nil_append, hall]
      rfl
    | cons c core =>
      have hstart : ((c :: core) ++ back).dropWhile isBlank = (c :: core) ++ back :=
        dropWhile_of_head? h.first
      have hend : (c :: core).reverse.dropWhile isBlank = (c :: core).reverse :=
        dropWhile_of_head? (by rw [List.head?_reverse]; exact h.last)
      rw [hstart, List.reverse_append, List.dropWhile_append_of_pos (by simpa using hback), hend,
        List.reverse_reverse]

theorem trimChars_concat {c : Char} (hc : isBlank c = true) (cs : List Char) :
    trimChars (cs ++ [c]) = trimChars cs := by
  have h := trimmed_trimChars cs
  obtain ⟨front, back, hcs, hfront, hback⟩ := h.around
  refine trimChars_eq_iff.mpr ⟨⟨front, back ++ [c], ?_, hfront, ?_⟩, h.first, h.last⟩
  · rw [← List.append_assoc, ← hcs]
  · exact List.forall_mem_append.mpr ⟨hback, by simpa using hc⟩

/-! ## Numbers -/

/-- Digits of a number in the base, which is ten at most; the first one counts most. -/
structure Numeral (base : Nat) (digits : List Char) (n : Nat) : Prop where
  ne_nil : digits ≠ []
  digit : ∀ c ∈ digits, '0' ≤ c ∧ c.toNat < '0'.toNat + base
  value : Nat.ofDigitChars base digits 0 = n

theorem ofDigits_map (base : Nat) (digits : List Char) :
    ofDigits base (digits.map fun c => c.toNat - 48) = Nat.ofDigitChars base digits 0 := by
  rw [ofDigits, List.foldl_map, Nat.ofDigitChars_eq_foldl]
  simp only [Nat.mul_comm base]
  rfl

/-- A numeral as a test of its characters finds it. -/
theorem numeral_iff {base : Nat} {isDigit : Char → Bool}
    (hdigit : ∀ c, isDigit c = true ↔ '0' ≤ c ∧ c.toNat < '0'.toNat + base) {cs : List Char}
    {n : Nat} : Numeral base cs n ↔
      cs ≠ [] ∧ cs.all isDigit = true ∧ ofDigits base (cs.map fun c => c.toNat - 48) = n := by
  rw [List.all_eq_true, ofDigits_map]
  constructor
  · exact fun h => ⟨h.ne_nil, fun c hc => (hdigit c).mpr (h.digit c hc), h.value⟩
  · rintro ⟨hne, hall, hvalue⟩
    exact ⟨hne, fun c hc => (hdigit c).mp (hall c hc), hvalue⟩

/-! ## Words -/

theorem occursIn_iff {word cs : List Char} : occursIn word cs = true ↔ word <:+: cs := by
  induction cs with
  | nil => rw [occursIn, List.isEmpty_iff, List.infix_nil]
  | cons c rest ih =>
    rw [occursIn, Bool.or_eq_true, ih, List.isPrefixOf_iff_prefix, List.infix_cons_iff]

/-- A word cannot reach into what follows if it does not have the character. -/
theorem infix_concat_iff_of_not_mem {word : List Char} {c : Char} (hc : c ∉ word)
    (hword : word ≠ []) (cs : List Char) : word <:+: cs ++ [c] ↔ word <:+: cs := by
  rw [List.infix_concat_iff, List.suffix_concat_iff]
  constructor
  · rintro ((rfl | ⟨front, rfl, -⟩) | h)
    · exact absurd rfl hword
    · simp at hc
    · exact h
  · exact .inr

/-! ## Lines -/

theorem dropCarriageReturn_cases (line : List Char) :
    line = dropCarriageReturn line ∨ line = dropCarriageReturn line ++ ['\r'] := by
  unfold dropCarriageReturn
  split
  · next h => exact .inr (List.dropLast_append_getLast? _ h).symm
  · exact .inl rfl

/-- The first of the pieces between line feeds in which the word occurs, without one carriage
return at its end. -/
def FirstLineWith (word text line : List Char) : Prop :=
  ∃ earlier piece later, splitOn '\n' text = earlier ++ piece :: later ∧
    (∀ p ∈ earlier, ¬ word <:+: p) ∧ word <:+: piece ∧ line = dropCarriageReturn piece

/-- A text without a line feed is its own first line. -/
theorem FirstLineWith.eq_of_splitOn {word text line : List Char} (h : FirstLineWith word text line)
    (hsplit : splitOn '\n' text = [text]) : line = dropCarriageReturn text := by
  obtain ⟨earlier, piece, later, hpieces, -, -, rfl⟩ := h
  rw [hsplit, List.singleton_eq_append_iff] at hpieces
  rcases hpieces with ⟨rfl, hpiece⟩ | ⟨rfl, hpiece⟩
  · rw [(List.cons.inj hpiece).1]
  · cases hpiece

section
variable {word : List Char} (hword : word ≠ []) (hreturn : '\r' ∉ word)
include hword hreturn

theorem occursIn_dropCarriageReturn (line : List Char) :
    occursIn word (dropCarriageReturn line) = occursIn word line := by
  rw [Bool.eq_iff_iff, occursIn_iff, occursIn_iff]
  rcases dropCarriageReturn_cases line with h | h
  · rw [← h]
  · rw [← infix_concat_iff_of_not_mem hreturn hword, ← h]

/-- The end of the text closes a line as a line feed does, but for a carriage return. -/
theorem find?_closeLines {earlier later : List (List Char)} {piece : List Char}
    (hearlier : ∀ p ∈ earlier, ¬ word <:+: p) (hpiece : word <:+: piece) :
    ∃ found, (closeLines (earlier ++ piece :: later)).find? (occursIn word) = some found ∧
      (found = dropCarriageReturn piece ∨ found = dropCarriageReturn piece ++ ['\r']) := by
  induction earlier with
  | nil =>
    rw [← occursIn_iff] at hpiece
    cases later with
    | nil =>
      have hne : piece.isEmpty = false := by
        cases piece with
        | nil =>
          rw [occursIn, List.isEmpty_iff] at hpiece
          exact absurd hpiece hword
        | cons c rest => rfl
      refine ⟨piece, ?_, dropCarriageReturn_cases piece⟩
      rw [List.nil_append, closeLines, hne]
      exact List.find?_cons_of_pos hpiece
    | cons next later =>
      refine ⟨_, ?_, .inl rfl⟩
      rw [← occursIn_dropCarriageReturn hword hreturn] at hpiece
      exact List.find?_cons_of_pos hpiece
  | cons p earlier ih =>
    obtain ⟨hp, hearlier⟩ := List.forall_mem_cons.mp hearlier
    obtain ⟨found, hfound, hline⟩ := ih hearlier
    rw [← occursIn_iff, ← occursIn_dropCarriageReturn hword hreturn] at hp
    refine ⟨found, ?_, hline⟩
    obtain ⟨next, rest, hrest⟩ := List.exists_cons_of_ne_nil
      (l := earlier ++ piece :: later) (by simp)
    rw [List.cons_append, hrest, closeLines, ← hrest, List.find?_cons_of_neg hp, hfound]
    simp

theorem find?_closeLines_eq_none {pieces : List (List Char)}
    (h : ∀ p ∈ pieces, ¬ word <:+: p) : (closeLines pieces).find? (occursIn word) = none := by
  induction pieces with
  | nil => rfl
  | cons p rest ih =>
    obtain ⟨hp, hrest⟩ := List.forall_mem_cons.mp h
    rw [← occursIn_iff] at hp
    cases rest with
    | nil =>
      rw [closeLines]
      split
      · rfl
      · rw [List.find?_cons_of_neg hp]
        rfl
    | cons next rest =>
      rw [← occursIn_dropCarriageReturn hword hreturn] at hp
      rw [closeLines, List.find?_cons_of_neg hp, ih hrest]
      simp

theorem find?_lineChars_of_firstLineWith {text line : List Char}
    (h : FirstLineWith word text line) :
    ∃ found, (lineChars text).find? (occursIn word) = some found ∧
      (found = line ∨ found = line ++ ['\r']) := by
  obtain ⟨earlier, piece, later, hsplit, hearlier, hpiece, rfl⟩ := h
  rw [lineChars, hsplit]
  exact find?_closeLines hword hreturn hearlier hpiece

end

theorem firstLineWith_or_none (word text : List Char) :
    (∃ line, FirstLineWith word text line) ∨ ∀ p ∈ splitOn '\n' text, ¬ word <:+: p := by
  cases h : (splitOn '\n' text).find? (occursIn word) with
  | none =>
    refine .inr fun p hp => ?_
    rw [← occursIn_iff]
    exact List.find?_eq_none.mp h p hp
  | some piece =>
    obtain ⟨hpiece, earlier, later, hsplit, hearlier⟩ := List.find?_eq_some_iff_append.mp h
    refine .inl ⟨_, earlier, piece, later, hsplit, fun p hp => ?_, occursIn_iff.mp hpiece, rfl⟩
    rw [← occursIn_iff]
    simpa using hearlier p hp

end ModularBuild.Text
