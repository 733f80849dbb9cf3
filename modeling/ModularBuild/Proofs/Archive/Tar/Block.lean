import ModularBuild.Proofs.Archive.Tar.Field

/-! # Blocks of a tar archive

A header is one block, whose fields a reader gets back and whose sum agrees, and contents
fill whole blocks. -/

namespace ModularBuild.Tar

open Reader

theorem cut_append {width : Nat} {widths : List Nat} {a b : Bytes} (h : a.length = width) :
    cut (width :: widths) (a ++ b) = a :: cut widths b := by
  subst h
  rw [cut, List.take_left, List.drop_left]

/-! ## Sums -/

theorem foldl_sum (b : Bytes) (start : Nat) :
    b.foldl (fun acc x => acc + x.toNat) start = start + sum b := by
  induction b generalizing start with
  | nil => rfl
  | cons x rest ih => rw [sum, List.foldl_cons, List.foldl_cons, ih, ih (0 + x.toNat)]; omega

theorem sum_append (a b : Bytes) : sum (a ++ b) = sum a + sum b := by
  rw [sum, List.foldl_append, foldl_sum b]
  rfl

theorem sum_le (b : Bytes) : sum b ≤ 255 * b.length := by
  induction b with
  | nil => exact Nat.zero_le _
  | cons x rest ih =>
    have := x.toNat_lt
    rw [sum, List.foldl_cons, foldl_sum, List.length_cons]
    omega

/-! ## Headers -/

namespace Header

theorem length_front (h : Header) : h.front.length = 148 := by
  have width8 (n : Nat) : (octalField 8 n).length = 8 := length_octalField n (by decide)
  have width12 (n : Nat) : (octalField 12 n).length = 12 := length_octalField n (by decide)
  simp only [front, List.length_append, length_paddedField, width8, width12, length_sizeField,
    nameSize]

theorem back_eq (h : Header) : h.back =
    [h.flag.byte] ++ (zeros 100 ++ (gnuMagic ++ (zeros 32 ++ (zeros 32 ++ zeros 183)))) := by
  unfold back
  cases h.flag <;> decide +kernel

theorem length_back (h : Header) : h.back.length = 356 := by
  simp [back, blockSize]

theorem length_block (h : Header) : h.block.length = blockSize := by
  rw [block, List.length_append, List.length_append, length_front, length_back,
    length_octalField _ (by decide)]
  rfl

theorem checksum_lt (h : Header) : h.checksum < 8 ^ 7 := by
  have hf := sum_le h.front
  have hb := sum_le h.back
  rw [length_front] at hf
  rw [length_back] at hb
  unfold checksum
  omega

theorem blockSum_block (h : Header) : blockSum h.block = h.checksum := by
  have hfront : h.block.take 148 = h.front := by
    rw [block, List.append_assoc, ← h.length_front, List.take_left]
  have hback : h.block.drop 156 = h.back := by
    have hl : (h.front ++ octalField 8 h.checksum).length = 156 := by
      rw [List.length_append, length_front, length_octalField _ (by decide)]
    rw [block, ← hl, List.drop_left]
  have hspaces : sum (List.replicate 8 32) = 8 * 32 := rfl
  have hsum : blockSum h.block = sum (h.front ++ List.replicate 8 32 ++ h.back) := by
    rw [blockSum, hfront, hback, sum]
  rw [hsum, sum_append, sum_append, hspaces, checksum]

/-- What a reader sees of a header. -/
def heading (h : Header) : Heading :=
  ⟨untilNul (paddedField nameSize h.name), h.mode, 0, 0, h.size, 0, h.flag.byte, [], []⟩

/-- A reader cuts a block where its fields meet. -/
theorem cut_block (h : Header) : cut fieldWidths h.block =
    [paddedField nameSize h.name, octalField 8 h.mode, octalField 8 0, octalField 8 0,
      sizeField h.size, octalField 12 0, octalField 8 h.checksum, [h.flag.byte], zeros 100,
      gnuMagic, zeros 32, zeros 32, zeros 183] := by
  have width8 (n : Nat) : (octalField 8 n).length = 8 := length_octalField n (by decide)
  have width12 (n : Nat) : (octalField 12 n).length = 12 := length_octalField n (by decide)
  have flagWidth : [h.flag.byte].length = 1 := rfl
  have magicWidth : gnuMagic.length = 8 := rfl
  rw [block, front, back_eq]
  simp only [fieldWidths, nameSize, List.append_assoc]
  rw [cut_append (length_paddedField _ _), cut_append (width8 _), cut_append (width8 _),
    cut_append (width8 _), cut_append (length_sizeField _), cut_append (width12 _),
    cut_append (width8 _), cut_append flagWidth, cut_append (length_zeros _),
    cut_append magicWidth, cut_append (length_zeros _), cut_append (length_zeros _), cut]

theorem heading?_block {h : Header} (hm : h.mode < 8 ^ 7) (hs : h.size < 2 ^ 64) :
    heading? h.block = some h.heading := by
  have hzero8 : number? (octalField 8 0) = some 0 := number?_octalField (by decide) (by decide)
  have hzero12 : number? (octalField 12 0) = some 0 := number?_octalField (by decide) (by decide)
  have hmode : number? (octalField 8 h.mode) = some h.mode := number?_octalField (by decide) hm
  have hsum : number? (octalField 8 h.checksum) = some (blockSum h.block) := by
    rw [blockSum_block]
    exact number?_octalField (by decide) h.checksum_lt
  rw [heading?, cut_block]
  simp only [hsum, hmode, hzero8, hzero12, number?_sizeField hs, and_self, if_true]
  rfl

/-- A header is never taken for the end of an archive. -/
theorem block_not_empty (h : Header) : h.block.all (· == 0) = false := by
  rw [List.all_eq_false]
  refine ⟨h.flag.byte, ?_, by cases h.flag <;> decide⟩
  rw [block, back_eq]
  simp

end Header

/-! ## Contents -/

theorem length_padded (b : Bytes) : (padded b).length = wholeBlocks b.length := by
  simp only [padded, List.length_append, length_zeros, wholeBlocks, blockSize]
  omega

theorem untilNul_append {name : Bytes} (h : 0 ∉ name) {rest : Bytes}
    (hr : rest.head? = none ∨ rest.head? = some 0) : untilNul (name ++ rest) = name := by
  have hpos : ∀ b ∈ name, (b != 0) = true := by
    intro b hb
    refine bne_iff_ne.mpr ?_
    rintro rfl
    exact h hb
  have hstop : rest.takeWhile (· != 0) = [] := by
    cases rest with
    | nil => rfl
    | cons c rest =>
      have hc : c = 0 := by simpa using hr
      rw [List.takeWhile_cons, hc]
      rfl
  rw [untilNul, List.takeWhile_append_of_pos hpos, hstop, List.append_nil]

theorem untilNul_paddedField {name : Bytes} {width : Nat} (h : 0 ∉ name)
    (hl : name.length ≤ width) : untilNul (paddedField width name) = name := by
  rw [paddedField, List.take_of_length_le hl]
  cases hroom : width - name.length with
  | zero => exact untilNul_append h (.inl rfl)
  | succ n => exact untilNul_append h (.inr rfl)

/-! ## Records -/

/-- A record is read as one entry; a long name is kept for the next one. -/
theorem members?_record {h : Header} {b : Bytes} (longName : Option Bytes) (rest : Bytes)
    (hm : h.mode < 8 ^ 7) (hb : h.size = b.length) (hs : b.length < 2 ^ 64) :
    members? longName (record h b ++ rest) =
      if h.flag.byte = 76 then members? (some (untilNul b)) rest
      else do
        let member ← member? h.heading (longName.getD h.heading.name) b
        let (members, tail) ← members? none rest
        return (member :: members, tail) := by
  have htake : (record h b ++ rest).take blockSize = h.block := by
    rw [record, List.append_assoc, ← h.length_block, List.take_left]
  have hdrop : (record h b ++ rest).drop blockSize = padded b ++ rest := by
    rw [record, List.append_assoc, ← h.length_block, List.drop_left]
  have hcontents : (padded b ++ rest).take b.length = b := by
    rw [padded, List.append_assoc, List.take_left]
  have hafter : (padded b ++ rest).drop (wholeBlocks b.length) = rest := by
    rw [← length_padded, List.drop_left]
  have hroom : ¬ (padded b ++ rest).length < wholeBlocks b.length := by
    rw [List.length_append, length_padded]
    omega
  have hlong : ¬ (record h b ++ rest).length < blockSize := by
    rw [record, List.length_append, List.length_append, h.length_block]
    omega
  have hhead : heading? h.block = some h.heading := Header.heading?_block hm (hb ▸ hs)
  rw [members?, if_neg hlong, htake, h.block_not_empty, hdrop, hhead]
  simp only [Bool.false_eq_true, if_false, Option.bind_eq_bind, Option.bind_some]
  rw [show h.heading.size = b.length from hb, if_neg hroom, hcontents, hafter]
  rfl

theorem members?_trailer : members? none trailer = some ([], trailer) := by
  have hall : (trailer.take blockSize).all (· == 0) = true := by
    rw [List.all_eq_true]
    intro b hb
    rw [List.eq_of_mem_replicate (List.mem_of_mem_take hb)]
    rfl
  have hlong : ¬ trailer.length < blockSize := by
    rw [trailer, length_zeros]
    omega
  rw [members?, if_neg hlong, if_pos hall]
  rfl

end ModularBuild.Tar
