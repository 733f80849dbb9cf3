import ModularBuild.Glob

/-! # Patterns that stand for their own text

An escaped text is read into one token for each of its characters, and each of these tokens takes
one character: the same one, or a letter from A to Z in the other case. So the pattern accepts the
text and whatever differs from it in the case of such letters only. A text without special
characters is its own escape. -/

namespace ModularBuild

/-- No other letters than those from A to Z have a lower case here. -/
theorem sameLetter_iff {a b : Char} : sameLetter a b = true ↔ a.toLower = b.toLower := beq_iff_eq

theorem toList_toLower (s : String) : s.toLower.toList = s.toList.map Char.toLower :=
  String.toList_map

namespace Glob

variable {c d : Char} {cs ds : List Char} {s name : String}

/-- Characters that can mean something else than themselves. -/
def isSpecial (c : Char) : Bool := c = '?' || c = '*' || c = '[' || c = ']'

theorem isSpecial_iff : isSpecial c = true ↔ c = '?' ∨ c = '*' ∨ c = '[' ∨ c = ']' := by
  simp [isSpecial, or_assoc]

/-- No character of the text is special. -/
def Literal (s : String) : Prop := ∀ c ∈ s.toList, c ≠ '?' ∧ c ≠ '*' ∧ c ≠ '[' ∧ c ≠ ']'

instance (s : String) : Decidable (Literal s) :=
  List.decidableBAll (fun c => c ≠ '?' ∧ c ≠ '*' ∧ c ≠ '[' ∧ c ≠ ']') s.toList

def escapeChar (c : Char) : List Char := if isSpecial c then ['[', c, ']'] else [c]

theorem escape_eq (s : String) : escape s = String.ofList (s.toList.flatMap escapeChar) := rfl

theorem escape_of_literal (h : Literal s) : escape s = s := by
  have hself : ∀ c ∈ s.toList, escapeChar c = [c] := by
    intro c hc
    obtain ⟨h₁, h₂, h₃, h₄⟩ := h c hc
    simp [escapeChar, isSpecial, h₁, h₂, h₃, h₄]
  rw [escape_eq, List.flatMap_def, List.map_congr_left hself, ← List.flatMap_def,
    List.flatMap_singleton', String.ofList_toList]

/-! ## Reading -/

/-- The token for a character that is escaped if it is special. -/
def tokenOf (c : Char) : GlobToken := if isSpecial c then .anyOf [.single c] else .char c

/-- One step reads an escaped character, however it is written. A bracket between brackets is their
only member, for the first character never closes them. -/
theorem exists_read_escapeChar (fuel pos : Nat) (before : Option Char) (c : Char) (cs : List Char)
    (tokens : List GlobToken) :
    ∃ pos' before', read (fuel + 1) pos before (escapeChar c ++ cs) tokens =
      read fuel pos' before' cs (tokenOf c :: tokens) := by
  cases h : isSpecial c with
  | true =>
    refine ⟨pos + 3, some ']', ?_⟩
    rcases isSpecial_iff.mp h with rfl | rfl | rfl | rfl <;> rfl
  | false =>
    have hne : ¬ (c = '?' ∨ c = '*' ∨ c = '[' ∨ c = ']') :=
      fun hc => Bool.eq_false_iff.mp h (isSpecial_iff.mpr hc)
    rw [not_or, not_or, not_or] at hne
    refine ⟨pos + 1, some c, ?_⟩
    rw [read.eq_def]
    simp [escapeChar, tokenOf, h, hne]

theorem length_escapeChar_pos (c : Char) : 0 < (escapeChar c).length := by
  unfold escapeChar
  split <;> simp

theorem read_escaped {fuel : Nat} (hfuel : (cs.flatMap escapeChar).length ≤ fuel) (pos : Nat)
    (before : Option Char) (tokens : List GlobToken) :
    read fuel pos before (cs.flatMap escapeChar) tokens =
      .ok (tokens.reverse ++ cs.map tokenOf) := by
  induction cs generalizing fuel pos before tokens with
  | nil => cases fuel <;> simp [read]
  | cons c cs ih =>
    rw [List.flatMap_cons, List.length_append] at hfuel
    have hpos := length_escapeChar_pos c
    obtain ⟨fuel, rfl⟩ := Nat.exists_eq_add_one_of_ne_zero (show fuel ≠ 0 by omega)
    obtain ⟨pos', before', hstep⟩ :=
      exists_read_escapeChar fuel pos before c (cs.flatMap escapeChar) tokens
    rw [List.flatMap_cons, hstep, ih (by omega), List.reverse_cons, List.append_assoc,
      List.map_cons, List.singleton_append]

/-- The pattern for the text and nothing else. -/
def globOf (s : String) : Glob := ⟨escape s, s.toList.map tokenOf⟩

theorem parse_escape (s : String) : parse (escape s) = .ok (globOf s) := by
  have hread : read (escape s).length 0 none (escape s).toList [] =
      .ok (s.toList.map tokenOf) := by
    rw [← String.length_toList, escape_eq, String.toList_ofList]
    exact read_escaped (Nat.le_refl _) 0 none []
  rw [parse, hread]
  rfl

/-! ## Accepting -/

/-- None of the special characters is a slash, so brackets around one keep nothing out. -/
theorem accepts_tokenOf : GlobToken.accepts d (tokenOf c) = true ↔ c.toLower = d.toLower := by
  cases h : isSpecial c with
  | false =>
    simp only [tokenOf, h, Bool.false_eq_true, if_false, GlobToken.accepts, sameLetter_iff]
    exact eq_comm
  | true =>
    have hslash : d = '/' → c.toLower ≠ d.toLower := by
      rintro rfl
      rcases isSpecial_iff.mp h with rfl | rfl | rfl | rfl <;> decide
    simp only [tokenOf, h, if_true, GlobToken.accepts, List.any_cons, List.any_nil, Bool.or_false,
      CharSet.contains, Bool.and_eq_true, bne_iff_ne, sameLetter_iff]
    constructor
    · intro ⟨_, hsame⟩
      exact hsame.symm
    · intro hsame
      exact ⟨fun hd => hslash hd hsame, hsame.symm⟩

theorem run_tokenOf_nil (c : Char) (tokens : List GlobToken) :
    run (tokenOf c :: tokens) [] = .overrun := by
  unfold tokenOf
  split <;> rfl

theorem run_tokenOf_cons (c d : Char) (tokens : List GlobToken) (ds : List Char) :
    run (tokenOf c :: tokens) (d :: ds) =
      if GlobToken.accepts d (tokenOf c) then run tokens ds else .miss := by
  unfold tokenOf
  split <;> rfl

theorem run_map_tokenOf :
    run (cs.map tokenOf) ds = .hit ↔ cs.map Char.toLower = ds.map Char.toLower := by
  induction cs generalizing ds with
  | nil => cases ds <;> simp [run]
  | cons c cs ih =>
    cases ds with
    | nil => simp [run_tokenOf_nil]
    | cons d ds =>
      rw [List.map_cons, run_tokenOf_cons, List.map_cons, List.map_cons, List.cons_eq_cons,
        ← accepts_tokenOf, ← ih]
      split
      · next h => simp [h]
      · next h => simp [h]

theorem accepts_globOf : (globOf s).accepts name = true ↔ s.toLower = name.toLower := by
  rw [accepts, globOf, beq_iff_eq, run_map_tokenOf, ← String.toList_inj, toList_toLower,
    toList_toLower]

end Glob
end ModularBuild
