import ModularBuild.Archive.Spec.Notation
import ModularBuild.Proofs.Text.Reading

/-! # Modes as octal text

A mode is written as octal digits, with one mark of octal notation at most in front of them and
blanks around. The reader takes every such text for what it means. It takes more than these: any
number of marks, and a plus sign behind them. -/

namespace ModularBuild

namespace OctalMode

open Text

variable {cs digits : List Char} {raw : String} {mode : Nat}

/-- The mark of octal notation, any number of times. -/
def marks (n : Nat) : List Char := (List.replicate n ['0', 'o']).flatten

theorem marks_succ (n : Nat) : marks (n + 1) = '0' :: 'o' :: marks n := by
  rw [marks, List.replicate_succ, List.flatten_cons]
  rfl

/-- A text for a mode: at most one mark, and digits. -/
def Documented (raw : String) (mode : Nat) : Prop :=
  ∃ mark digits, Trimmed raw.toList (mark ++ digits) ∧ (mark = [] ∨ mark = ['0', 'o']) ∧
    Numeral 8 digits mode ∧ mode ≤ 0o7777

/-- A text that is taken for a mode: marks, at most one plus sign, and digits. -/
def Tolerated (raw : String) (mode : Nat) : Prop :=
  ∃ n plus digits, Trimmed raw.toList (marks n ++ plus ++ digits) ∧ (plus = [] ∨ plus = ['+']) ∧
    Numeral 8 digits mode ∧ mode ≤ 0o7777

/-! ## Digits, marks and signs -/

theorem exists_marks (cs : List Char) : ∃ n, cs = marks n ++ withoutMarks cs := by
  fun_induction withoutMarks cs with
  | case1 rest ih =>
    obtain ⟨n, hn⟩ := ih
    exact ⟨n + 1, by rw [marks_succ, List.cons_append, List.cons_append, ← hn]⟩
  | case2 cs _ => exact ⟨0, rfl⟩

theorem withoutMarks_marks (n : Nat) (cs : List Char) :
    withoutMarks (marks n ++ cs) = withoutMarks cs := by
  induction n with
  | zero => rfl
  | succ n ih => rw [marks_succ, List.cons_append, List.cons_append, withoutMarks, ih]

theorem exists_plus (cs : List Char) :
    ∃ plus, cs = plus ++ withoutPlus cs ∧ (plus = [] ∨ plus = ['+']) := by
  fun_cases withoutPlus cs with
  | case1 rest => exact ⟨['+'], rfl, .inr rfl⟩
  | case2 cs _ => exact ⟨[], rfl, .inl rfl⟩

theorem withoutMarks_of_numeral {plus : List Char} (hplus : plus = [] ∨ plus = ['+'])
    (h : Numeral 8 digits mode) : withoutMarks (plus ++ digits) = plus ++ digits := by
  rcases hplus with rfl | rfl
  · fun_cases withoutMarks digits with
    | case1 rest => exact absurd (h.digit 'o' (by simp)) (by decide)
    | case2 => rfl
  · rfl

theorem withoutPlus_of_numeral {plus : List Char} (hplus : plus = [] ∨ plus = ['+'])
    (h : Numeral 8 digits mode) : withoutPlus (plus ++ digits) = digits := by
  rcases hplus with rfl | rfl
  · fun_cases withoutPlus digits with
    | case1 rest => exact absurd (h.digit '+' (by simp)) (by decide)
    | case2 => rfl
  · rfl

/-! ## Texts for modes -/

/-- What is left of a text for the digits. -/
def digitsOf (raw : String) : List Char := withoutPlus (withoutMarks (trimChars raw.toList))

theorem isOctalDigit_iff (c : Char) :
    isOctalDigit c = true ↔ '0' ≤ c ∧ c.toNat < '0'.toNat + 8 := by
  rw [isOctalDigit, Bool.and_eq_true, decide_eq_true_eq, decide_eq_true_eq]
  exact and_congr_right fun _ => Nat.lt_succ_iff.symm

theorem parse?_eq_some_iff_numeral :
    parse? raw = some mode ↔ Numeral 8 (digitsOf raw) mode ∧ mode ≤ 0o7777 := by
  rw [parse?, numeral_iff isOctalDigit_iff]
  change (if (digitsOf raw).isEmpty || !(digitsOf raw).all isOctalDigit then none else
    if ofDigits 8 ((digitsOf raw).map fun c => c.toNat - 48) ≤ maxMode then
      some (ofDigits 8 ((digitsOf raw).map fun c => c.toNat - 48)) else none) = some mode ↔ _
  constructor
  · intro h
    split at h
    · cases h
    · next hok =>
      simp only [Bool.or_eq_true, Bool.not_eq_true', not_or, List.isEmpty_iff,
        Bool.not_eq_false] at hok
      obtain ⟨hle, h⟩ := Option.ite_none_right_eq_some.mp h
      cases h
      exact ⟨⟨hok.1, hok.2, rfl⟩, hle⟩
  · rintro ⟨⟨hne, hall, rfl⟩, hle⟩
    rw [List.isEmpty_eq_false_iff.mpr hne, hall]
    exact if_pos hle

theorem parse?_eq_some_iff : parse? raw = some mode ↔ Tolerated raw mode := by
  rw [parse?_eq_some_iff_numeral]
  constructor
  · rintro ⟨h, hle⟩
    obtain ⟨n, hmarks⟩ := exists_marks (trimChars raw.toList)
    obtain ⟨plus, hsign, hplus⟩ := exists_plus (withoutMarks (trimChars raw.toList))
    refine ⟨n, plus, digitsOf raw, ?_, hplus, h, hle⟩
    rw [List.append_assoc, digitsOf, ← hsign, ← hmarks]
    exact trimmed_trimChars _
  · rintro ⟨n, plus, digits, htrim, hplus, h, hle⟩
    have hdigits : digitsOf raw = digits := by
      rw [digitsOf, trimChars_eq_iff.mpr htrim, List.append_assoc, withoutMarks_marks,
        withoutMarks_of_numeral hplus h, withoutPlus_of_numeral hplus h]
    rw [hdigits]
    exact ⟨h, hle⟩

theorem Documented.tolerated (h : Documented raw mode) : Tolerated raw mode := by
  obtain ⟨mark, digits, htrim, rfl | rfl, hdigits, hle⟩ := h
  · exact ⟨0, [], digits, htrim, .inl rfl, hdigits, hle⟩
  · exact ⟨1, [], digits, htrim, .inl rfl, hdigits, hle⟩

/-- Behind the place of the mark stand digits only. -/
theorem Documented.digit_of_mem_drop (h : Documented raw mode) {c : Char}
    (hc : c ∈ (trimChars raw.toList).drop 2) : '0' ≤ c ∧ c.toNat < '0'.toNat + 8 := by
  obtain ⟨mark, digits, htrim, hmark, hdigits, -⟩ := h
  rw [trimChars_eq_iff.mpr htrim] at hc
  refine hdigits.digit c ?_
  rcases hmark with rfl | rfl
  · exact List.mem_of_mem_drop hc
  · exact hc

/-- What is tolerated and not documented has a plus sign or two marks in a row. -/
theorem Tolerated.documented (h : Tolerated raw mode) (hplus : '+' ∉ raw.toList)
    (hmarks : ¬ marks 2 <:+: raw.toList) : Documented raw mode := by
  obtain ⟨n, plus, digits, htrim, hsign, hdigits, hle⟩ := h
  obtain ⟨front, back, hraw, -⟩ := htrim.around
  rcases hsign with rfl | rfl
  · match n with
    | 0 => exact ⟨[], digits, htrim, .inl rfl, hdigits, hle⟩
    | 1 => exact ⟨['0', 'o'], digits, htrim, .inr rfl, hdigits, hle⟩
    | n + 2 =>
      have htwo : marks (n + 2) = marks 2 ++ marks n := rfl
      exact absurd ⟨front, marks n ++ digits ++ back, by rw [hraw, htwo]; simp⟩ hmarks
  · exact absurd (by rw [hraw]; simp) hplus

theorem readMode_scalar (v : Yaml.Value) (mark : Yaml.Mark) (tag : Option String)
    (style : Yaml.Style) (raw : String) (jumps : Nat) :
    (Permissions.readMode { v with node := .scalar mark tag style raw }).run jumps =
      match parse? raw with
      | some mode => .ok (mode, jumps)
      | none => .error (.shape (.notOctal raw) .unknown) := by
  have htext : (Yaml.Value.text { v with node := .scalar mark tag style raw }).run jumps =
      .ok (raw, jumps) := rfl
  have hread : (Permissions.readMode { v with node := .scalar mark tag style raw }).run jumps =
      (match parse? raw with
        | some mode => return mode
        | none => Yaml.Value.fail (.notOctal raw) : Yaml.Decode Nat).run jumps := by
    rw [Permissions.readMode, StateT.run_bind, htext]
    rfl
  rw [hread]
  cases parse? raw <;> rfl

/-- A scalar is read as a mode if its text is tolerated, and refused with its text otherwise. Every
documented text is read for what it means. The others that are read have a plus sign or two marks
in a row. -/
theorem parse?_documented_or_tolerated (raw : String) :
    (∀ (v : Yaml.Value) (mark : Yaml.Mark) (tag : Option String) (style : Yaml.Style)
      (jumps : Nat),
      (Permissions.readMode { v with node := .scalar mark tag style raw }).run jumps =
        match parse? raw with
        | some mode => .ok (mode, jumps)
        | none => .error (.shape (.notOctal raw) .unknown)) ∧
    (∀ mode, parse? raw = some mode ↔ Tolerated raw mode) ∧
    (∀ mode, Documented raw mode → parse? raw = some mode) ∧
    ('+' ∉ raw.toList → ¬ marks 2 <:+: raw.toList →
      ∀ mode, parse? raw = some mode ↔ Documented raw mode) := by
  refine ⟨fun v mark tag style jumps => readMode_scalar v mark tag style raw jumps,
    fun mode => parse?_eq_some_iff, fun mode h => parse?_eq_some_iff.mpr h.tolerated,
    fun hplus hmarks mode => ?_⟩
  rw [parse?_eq_some_iff]
  exact ⟨fun h => h.documented hplus hmarks, fun h => h.tolerated⟩

/-- Marks may be repeated, and a sign may follow them. -/
theorem sign_and_repeated_mark_read :
    (parse? "0o0o664" = some 0o664 ∧ ∀ mode, ¬ Documented "0o0o664" mode) ∧
    parse? "0o+664" = some 0o664 ∧ ∀ mode, ¬ Documented "0o+664" mode := by
  refine ⟨⟨by decide, fun mode h => ?_⟩, by decide, fun mode h => ?_⟩
  · exact absurd (h.digit_of_mem_drop (c := 'o') (by decide)) (by decide)
  · exact absurd (h.digit_of_mem_drop (c := '+') (by decide)) (by decide)

end OctalMode
end ModularBuild
