import Mathlib.Control.Basic
import Mathlib.Data.Option.Basic
import ModularBuild.Archive.Gzip

/-! # Stored blocks are read back

The encoder that stores its contents cuts them into blocks that are short enough for their length
to fit into its two bytes. A reader goes from block to block up to the one that is marked as the
last, so it finds all of the contents, and the trailer behind them. -/

namespace ModularBuild

/-! ## Pieces -/

namespace Bytes

variable {size fuel : Nat} {b piece : Bytes}

theorem flatten_chunksGo (hsize : 0 < size) (hfuel : b.length ≤ fuel) :
    (chunks.go size fuel b).flatten = b := by
  induction fuel generalizing b with
  | zero => simp [List.length_eq_zero_iff.mp (Nat.le_zero.mp hfuel), chunks.go]
  | succ fuel ih =>
    unfold chunks.go
    split
    · next hempty => simp [List.isEmpty_iff.mp hempty]
    · have hrest : (b.drop size).length ≤ fuel := by
        rw [List.length_drop]
        omega
      rw [List.flatten_cons, ih hrest, List.take_append_drop]

theorem length_of_mem_chunksGo (h : piece ∈ chunks.go size fuel b) : piece.length ≤ size := by
  induction fuel generalizing b with
  | zero => cases h
  | succ fuel ih =>
    unfold chunks.go at h
    split at h
    · cases h
    · rcases List.mem_cons.mp h with rfl | hrest
      · exact List.length_take_le size b
      · exact ih hrest

/-- The pieces together are what was cut. -/
theorem flatten_chunks (hsize : 0 < size) (b : Bytes) : (chunks size b).flatten = b :=
  flatten_chunksGo hsize (Nat.le_refl _)

theorem length_of_mem_chunks (h : piece ∈ chunks size b) : piece.length ≤ size :=
  length_of_mem_chunksGo h

end Bytes

/-! ## Blocks -/

namespace Gzip

variable {fuel : Nat} {b rest : Bytes} {pieces : List Bytes}

/-- A short number is put together again from its two bytes. -/
theorem short_value {n : Nat} (h : n ≤ blockLimit) : n % 256 + 256 * (n / 256 % 256) = n := by
  unfold blockLimit at h
  omega

theorem decodeBlocks?_last (h : b.length ≤ blockLimit) :
    decodeBlocks? (fuel + 1) (block true b ++ rest) = some (b, rest) := by
  simp [block, short, decodeBlocks?, short_value h]

theorem decodeBlocks?_more (h : b.length ≤ blockLimit) :
    decodeBlocks? (fuel + 1) (block false b ++ rest) =
      (decodeBlocks? fuel rest).map fun found => (b ++ found.1, found.2) := by
  cases hfound : decodeBlocks? fuel rest <;>
    simp [block, short, decodeBlocks?, short_value h, hfound]

theorem blocks_cons_cons (piece next : Bytes) (others : List Bytes) :
    blocks (piece :: next :: others) = block false piece ++ blocks (next :: others) := rfl

theorem length_le_blocks (pieces : List Bytes) : pieces.length ≤ (blocks pieces).length := by
  induction pieces with
  | nil => exact Nat.zero_le _
  | cons piece others ih =>
    cases others with
    | nil => simp [blocks, block]
    | cons next others =>
      rw [List.length_cons, blocks_cons_cons, List.length_append]
      have hblock : 0 < (block false piece).length := by simp [block]
      omega

/-- The blocks of all pieces are read, of which there may be none, and nothing behind them. -/
theorem decodeBlocks?_blocks (hshort : ∀ piece ∈ pieces, piece.length ≤ blockLimit)
    (hfuel : pieces.length < fuel) :
    decodeBlocks? fuel (blocks pieces ++ rest) = some (pieces.flatten, rest) := by
  induction pieces generalizing fuel with
  | nil =>
    obtain ⟨fuel, rfl⟩ := Nat.exists_eq_add_one_of_ne_zero (Nat.ne_zero_of_lt hfuel)
    exact decodeBlocks?_last (Nat.zero_le _)
  | cons piece others ih =>
    obtain ⟨fuel, rfl⟩ := Nat.exists_eq_add_one_of_ne_zero (Nat.ne_zero_of_lt hfuel)
    obtain ⟨hpiece, hothers⟩ := List.forall_mem_cons.mp hshort
    cases others with
    | nil => simpa [blocks] using decodeBlocks?_last hpiece
    | cons next others =>
      rw [blocks_cons_cons, List.append_assoc, decodeBlocks?_more hpiece,
        ih hothers (Nat.lt_of_succ_lt_succ hfuel), List.flatten_cons]
      rfl

/-! ## The container -/

/-- A container of stored blocks holds what was put into it. -/
theorem decode?_wrap_stored (b : Bytes) : decode? (wrap stored b) = some b := by
  have hpieces : (Bytes.chunks blockLimit b).length < (wrap stored b).length := by
    have hblocks := length_le_blocks (Bytes.chunks blockLimit b)
    simp only [wrap, stored, header, List.length_append, List.length_cons]
    omega
  have hfound : decodeBlocks? (wrap stored b).length (stored b ++ trailer b) =
      some (b, trailer b) := by
    rw [stored, decodeBlocks?_blocks (fun _ => Bytes.length_of_mem_chunks) hpieces,
      Bytes.flatten_chunks (by decide)]
  have hheader : (wrap stored b).take header.length = header ∧
      (wrap stored b).drop header.length = stored b ++ trailer b := by
    simp [wrap, List.append_assoc]
  rw [decode?, hheader.1, hheader.2, hfound]
  simp

end Gzip
end ModularBuild
