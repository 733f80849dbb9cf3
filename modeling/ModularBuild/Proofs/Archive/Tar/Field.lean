import Mathlib.Algebra.Group.Nat.Defs
import ModularBuild.Archive.Tar.Reader

/-! # Fields of a tar header

Every field has its width, whatever is written into it, and a number that fits is read back
from the digits it was written with. -/

namespace ModularBuild.Tar

open Reader

/-! ## Digits -/

theorem foldl_digits (base : Nat) (ds : List Nat) (start : Nat) :
    ds.foldl (fun acc d => acc * base + d) start =
      start * base ^ ds.length + Text.ofDigits base ds := by
  induction ds generalizing start with
  | nil => simp [Text.ofDigits]
  | cons d rest ih =>
    rw [Text.ofDigits, List.foldl_cons, List.foldl_cons, ih, ih (0 * base + d), List.length_cons]
    simp only [Nat.zero_mul, Nat.zero_add, Nat.add_mul, Nat.pow_succ, Nat.mul_assoc,
      Nat.mul_comm base, Nat.add_assoc]

theorem ofDigits_cons (base d : Nat) (ds : List Nat) :
    Text.ofDigits base (d :: ds) = d * base ^ ds.length + Text.ofDigits base ds := by
  rw [Text.ofDigits, List.foldl_cons, foldl_digits, Nat.zero_mul, Nat.zero_add]

theorem ofDigits_append_singleton (base d : Nat) (ds : List Nat) :
    Text.ofDigits base (ds ++ [d]) = Text.ofDigits base ds * base + d := by
  rw [Text.ofDigits, List.foldl_append]
  rfl

theorem ofDigits_replicate_zero (base n : Nat) (ds : List Nat) :
    Text.ofDigits base (List.replicate n 0 ++ ds) = Text.ofDigits base ds := by
  induction n with
  | zero => rfl
  | succ n ih => rw [List.replicate_succ, List.cons_append, ofDigits_cons, ih]; omega

theorem toDigits_octal (value : Nat) : ∃ ds : List Nat, ds ≠ [] ∧ (∀ d ∈ ds, d < 8) ∧
    Text.ofDigits 8 ds = value ∧ Nat.toDigits 8 value = ds.map Nat.digitChar := by
  induction value using Nat.strongRecOn with
  | ind value ih =>
    by_cases h : value < 8
    · refine ⟨[value], by simp, by simpa using h, by simp [Text.ofDigits], ?_⟩
      rw [Nat.toDigits_of_lt_base h]
      rfl
    · obtain ⟨ds, -, hlt, hv, hd⟩ := ih (value / 8) (by omega)
      refine ⟨ds ++ [value % 8], by simp, ?_, ?_, ?_⟩
      · intro d hm
        rcases List.mem_append.mp hm with hm | hm
        · exact hlt d hm
        · have : d = value % 8 := by simpa using hm
          omega
      · rw [ofDigits_append_singleton, hv]; omega
      · rw [Nat.toDigits_of_base_le (by decide) (by omega), hd, List.map_append]
        rfl

theorem ofDigits_bigEndian (width value : Nat) :
    Text.ofDigits 256 ((bigEndian width value).map UInt8.toNat) = value % 256 ^ width := by
  induction width with
  | zero => simp [bigEndian, Text.ofDigits, Nat.mod_one]
  | succ width ih =>
    have hc : bigEndian (width + 1) value =
        UInt8.ofNat (value / 256 ^ width) :: bigEndian width value := by
      simp [bigEndian, List.range_succ, Nat.shiftRight_eq_div_pow, Nat.pow_mul]
    have hl : (bigEndian width value).length = width := by simp [bigEndian]
    rw [hc, List.map_cons, ofDigits_cons, ih, List.length_map, hl, Nat.mod_pow_succ,
      UInt8.toNat_ofNat']
    simp only [Nat.reducePow, Nat.mul_comm, Nat.add_comm]

/-! ## Fields by their widths -/

@[simp] theorem length_zeros (n : Nat) : (zeros n).length = n := by simp [zeros]

@[simp] theorem length_paddedField (width : Nat) (b : Bytes) :
    (paddedField width b).length = width := by
  simp only [paddedField, List.length_append, List.length_take, length_zeros]
  omega

theorem length_octalField {width : Nat} (value : Nat) (h : 0 < width) :
    (octalField width value).length = width := by
  simp only [octalField, List.length_append, List.length_replicate, List.length_drop,
    List.length_singleton]
  omega

theorem length_sizeField (size : Nat) : (sizeField size).length = 12 := by
  unfold sizeField
  split
  · exact length_octalField size (by decide)
  · simp [bigEndian]

/-! ## Numbers read back -/

theorem octalField_digits {width value : Nat} (hw : 0 < width - 1) (h : value < 8 ^ (width - 1)) :
    ∃ ds : List Nat, ds ≠ [] ∧ (∀ d ∈ ds, d < 8) ∧ Text.ofDigits 8 ds = value ∧
      octalField width value = ds.map (fun d => UInt8.ofNat (48 + d)) ++ [0] := by
  obtain ⟨ds, hne, hlt, hv, hd⟩ := toDigits_octal value
  have hlen : ds.length ≤ width - 1 := by
    have := (Nat.length_toDigits_le_iff (b := 8) (by decide) hw).mpr h
    rwa [hd, List.length_map] at this
  have hascii : ascii (String.ofList (Nat.toDigits 8 value)) =
      ds.map fun d => UInt8.ofNat (48 + d) := by
    rw [ascii, String.toList_ofList, hd, List.map_map]
    refine List.map_congr_left fun d hm => ?_
    have small : ∀ d < 8, UInt8.ofNat (Nat.digitChar d).toNat = UInt8.ofNat (48 + d) := by decide
    exact small d (hlt d hm)
  refine ⟨List.replicate (width - 1 - ds.length) 0 ++ ds, by simp [hne], ?_, ?_, ?_⟩
  · intro d hm
    rcases List.mem_append.mp hm with hm | hm
    · rw [(List.mem_replicate.mp hm).2]; decide
    · exact hlt d hm
  · rw [ofDigits_replicate_zero, hv]
  · simp only [octalField, hascii, List.length_map, Nat.sub_eq_zero_of_le hlen, List.drop_zero,
      List.map_append, List.map_replicate]
    rfl

theorem number?_digits {ds : List Nat} (hne : ds ≠ []) (hlt : ∀ d ∈ ds, d < 8) :
    number? (ds.map (fun d => UInt8.ofNat (48 + d)) ++ [0]) = some (Text.ofDigits 8 ds) := by
  have octal : ∀ b ∈ ds.map (fun d => UInt8.ofNat (48 + d)), isOctal b = true := by
    intro b hb
    obtain ⟨d, hd, rfl⟩ := List.mem_map.mp hb
    have small : ∀ d < 8, isOctal (UInt8.ofNat (48 + d)) = true := by decide
    exact small d (hlt d hd)
  have back : (ds.map fun d => UInt8.ofNat (48 + d)).map (fun b => b.toNat - 48) = ds := by
    rw [List.map_map]
    refine (List.map_congr_left fun d hm => ?_).trans (List.map_id ds)
    have small : ∀ d < 8, (UInt8.ofNat (48 + d)).toNat - 48 = d := by decide
    exact small d (hlt d hm)
  obtain ⟨d, rest, rfl⟩ := List.exists_cons_of_ne_nil hne
  have hd := hlt d List.mem_cons_self
  have first : ∀ d < 8, UInt8.ofNat (48 + d) ≠ 0x80 ∧ (UInt8.ofNat (48 + d) == 32) = false := by
    decide
  have hdrop : (((d :: rest).map fun d => UInt8.ofNat (48 + d)) ++ [0]).dropWhile (· == 32) =
      ((d :: rest).map fun d => UInt8.ofNat (48 + d)) ++ [0] := by
    rw [List.map_cons, List.cons_append, List.dropWhile_cons, (first d hd).2]
    rfl
  have hoctal : number? (((d :: rest).map fun d => UInt8.ofNat (48 + d)) ++ [0]) =
      octal? (((d :: rest).map fun d => UInt8.ofNat (48 + d)) ++ [0]) := by
    rw [List.map_cons, List.cons_append, number?, if_neg (first d hd).1]
  have htake : [(0 : UInt8)].takeWhile isOctal = [] := by decide
  have hstop : [(0 : UInt8)].dropWhile isOctal = [0] := by decide
  rw [hoctal, octal?]
  simp only [hdrop, List.takeWhile_append_of_pos octal, List.dropWhile_append_of_pos octal, htake,
    hstop, List.append_nil, back]
  rfl

theorem number?_octalField {width value : Nat} (hw : 0 < width - 1)
    (h : value < 8 ^ (width - 1)) : number? (octalField width value) = some value := by
  obtain ⟨ds, hne, hlt, hv, hf⟩ := octalField_digits hw h
  rw [hf, number?_digits hne hlt, hv]

theorem number?_sizeField {size : Nat} (h : size < 2 ^ 64) :
    number? (sizeField size) = some size := by
  unfold sizeField
  split
  · rename_i hs
    exact number?_octalField (by decide) hs
  · have hz : (zeros 3).map UInt8.toNat = List.replicate 3 0 := by decide
    rw [List.cons_append, number?, if_pos rfl, List.map_append, hz, ofDigits_replicate_zero,
      ofDigits_bigEndian, Nat.mod_eq_of_lt (by simpa using h)]

end ModularBuild.Tar
