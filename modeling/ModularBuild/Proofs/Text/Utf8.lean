import Mathlib.Data.String.Basic
import Mathlib.Tactic.SplitIfs
import ModularBuild.Bytes

/-! Texts as UTF-8 bytes, character by character. The bytes of texts come in the order of the
texts. -/

namespace ModularBuild.Bytes

theorem ofText_ofList (cs : List Char) :
    ofText (String.ofList cs) = cs.flatMap String.utf8EncodeChar := by
  rw [ofText, String.toUTF8_eq_toByteArray, String.toByteArray_ofList, List.utf8Encode]
  simp

theorem ofText_append (cs ds : List Char) :
    ofText (String.ofList (cs ++ ds)) = ofText (String.ofList cs) ++ ofText (String.ofList ds) := by
  simp only [ofText_ofList, List.flatMap_append]

theorem text?_ofText (s : String) : text? (ofText s) = some s := by
  have hv : s.toUTF8.IsValidUTF8 := s.isValidUTF8
  rw [text?, ofText, Array.toArray_toList, String.fromUTF8?, dif_pos hv]
  exact congrArg some (String.toByteArray_inj.mp rfl)

theorem length_ofText_cons (c : Char) (cs : List Char) :
    (ofText (String.ofList (c :: cs))).length =
      c.utf8Size + (ofText (String.ofList cs)).length := by
  rw [ofText_ofList, ofText_ofList, List.flatMap_cons, List.length_append,
    String.length_utf8EncodeChar]

theorem ofText_ne_nil {cs : List Char} (h : cs ≠ []) : ofText (String.ofList cs) ≠ [] := by
  obtain ⟨c, rest, rfl⟩ := List.exists_cons_of_ne_nil h
  rw [ofText_ofList, List.flatMap_cons]
  exact List.append_ne_nil_of_left_ne_nil String.utf8EncodeChar_ne_nil _

/-- Dropping characters makes no text longer. -/
theorem length_ofText_le {cs ds : List Char} (h : cs.Sublist ds) :
    (ofText (String.ofList cs)).length ≤ (ofText (String.ofList ds)).length := by
  induction h with
  | slnil => exact Nat.le_refl _
  | cons d _ ih => rw [length_ofText_cons]; omega
  | cons_cons d _ ih => rw [length_ofText_cons, length_ofText_cons]; omega

/-- Only the NUL character has a NUL among its bytes. -/
theorem zero_mem_utf8EncodeChar {c : Char} (h : 0 ∈ String.utf8EncodeChar c) : c = '\x00' := by
  have byte : ∀ n, (0 : UInt8) = UInt8.ofNat n → n % 256 = 0 := fun n hn => by
    simpa using (congrArg UInt8.toNat hn).symm
  have hval : c.val.toNat = 0 := by
    unfold String.utf8EncodeChar at h
    simp only at h
    split at h
    · simp only [List.mem_cons, List.not_mem_nil, or_false] at h
      have := byte _ h
      omega
    · split at h
      · simp only [List.mem_cons, List.not_mem_nil, or_false] at h
        rcases h with h | h <;> have := byte _ h <;> omega
      · split at h
        · simp only [List.mem_cons, List.not_mem_nil, or_false] at h
          rcases h with h | h | h <;> have := byte _ h <;> omega
        · simp only [List.mem_cons, List.not_mem_nil, or_false] at h
          rcases h with h | h | h | h <;> have := byte _ h <;> omega
  exact Char.ext (UInt32.toNat_inj.mp hval)

theorem zero_not_mem_ofText {cs : List Char} (h : '\x00' ∉ cs) :
    0 ∉ ofText (String.ofList cs) := by
  rw [ofText_ofList, List.mem_flatMap]
  rintro ⟨c, hc, hz⟩
  exact h (zero_mem_utf8EncodeChar hz ▸ hc)

/-! ## Order -/

theorem ofNat_lt_ofNat {m n : Nat} (hm : m < 256) (hn : n < 256) :
    UInt8.ofNat m < UInt8.ofNat n ↔ m < n := by
  rw [UInt8.lt_iff_toNat_lt, UInt8.toNat_ofNat_of_lt' hm, UInt8.toNat_ofNat_of_lt' hn]

theorem ofNat_eq_ofNat {m n : Nat} (hm : m < 256) (hn : n < 256) :
    UInt8.ofNat m = UInt8.ofNat n ↔ m = n := by
  rw [← UInt8.toNat_inj, UInt8.toNat_ofNat_of_lt' hm, UInt8.toNat_ofNat_of_lt' hn]

/-- The bytes of different characters decide, whatever comes after them. -/
theorem utf8EncodeChar_lt {c d : Char} (h : c < d) (cs ds : Bytes) :
    String.utf8EncodeChar c ++ cs < String.utf8EncodeChar d ++ ds := by
  have hlt : c.val.toNat < d.val.toNat := UInt32.lt_iff_toNat_lt.mp (Char.lt_def.mp h)
  have hd : d.val.toNat < 1114112 := by
    rcases d.valid with hd | hd <;> omega
  have hdigits : ∀ k, k < 1114112 → k / 64 / 64 = k / 4096 ∧ k / 4096 / 64 = k / 262144 ∧
      k / 262144 % 8 = k / 262144 := fun k hk =>
    ⟨Nat.div_div_eq_div_mul k 64 64, Nat.div_div_eq_div_mul k 4096 64, by omega⟩
  unfold String.utf8EncodeChar
  generalize c.val.toNat = m, d.val.toNat = n at hlt hd ⊢
  have hm := hdigits m (hlt.trans hd)
  have hn := hdigits n hd
  simp only
  -- a longer form starts with a larger byte; of two forms of one length the digits decide
  split_ifs <;>
    simp (disch := omega) only [List.cons_append, List.cons_lt_cons_iff, ofNat_lt_ofNat,
      ofNat_eq_ofNat] <;>
    omega

theorem ofText_lt {s s' : String} (h : s < s') : ofText s < ofText s' := by
  rw [String.lt_iff_toList_lt] at h
  rw [← String.ofList_toList (s := s), ← String.ofList_toList (s := s'), ofText_ofList,
    ofText_ofList]
  generalize s.toList = cs, s'.toList = ds at h
  induction cs generalizing ds with
  | nil =>
    cases ds with
    | nil => exact absurd h (List.not_lt_nil _)
    | cons d ds =>
      obtain ⟨b, bs, hb⟩ := List.exists_cons_of_ne_nil
        (String.utf8EncodeChar_ne_nil (c := d))
      rw [List.flatMap_cons, hb]
      exact List.nil_lt_cons _ _
  | cons c cs ih =>
    cases ds with
    | nil => exact absurd h (List.not_lt_nil _)
    | cons d ds =>
      rw [List.flatMap_cons, List.flatMap_cons]
      rcases List.cons_lt_cons_iff.mp h with hlt | ⟨rfl, hrest⟩
      · exact utf8EncodeChar_lt hlt _ _
      · exact List.append_left_lt (ih _ hrest)

theorem ofText_lt_iff {s s' : String} : ofText s < ofText s' ↔ s < s' := by
  refine ⟨fun h => Decidable.byContradiction fun hnot => ?_, ofText_lt⟩
  by_cases heq : s = s'
  · exact Std.Irrefl.irrefl _ (heq ▸ h)
  · have hgt : s' < s := by
      refine Decidable.byContradiction fun hnot' => heq ?_
      exact Std.Trichotomous.trichotomous (r := (· < ·)) s s' hnot hnot'
    exact Std.Asymm.asymm _ _ h (ofText_lt hgt)

/-- Of the texts with a property, the one that comes first in the order of the bytes. -/
def Least (p : String → Prop) (s : String) : Prop :=
  p s ∧ ∀ other, p other → other = s ∨ ofText s < ofText other

theorem Least.unique {p : String → Prop} {s s' : String} (h : Least p s) (h' : Least p s') :
    s = s' := by
  rcases h.2 s' h'.1 with heq | hlt
  · exact heq.symm
  · exact (h'.2 s h.1).resolve_right (Std.Asymm.asymm _ _ hlt)

end ModularBuild.Bytes
