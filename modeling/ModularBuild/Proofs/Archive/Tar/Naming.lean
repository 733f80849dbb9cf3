import Mathlib.Data.List.Induction
import ModularBuild.Proofs.Archive.Tar.Name

/-! # NUL characters in names

A name is written segment by segment, and a segment with a NUL cannot be written. Of a path that
is too long only the beginning is written, so a NUL behind that beginning goes unnoticed. For a
spelling nothing else can go wrong: an entry gets a name exactly if the beginning of its path that
fits into the field has no NUL, and otherwise the fault tells which segments were written. -/

namespace ModularBuild.Tar

open EntryPath (Canonical IsSegment)

variable {cs front start : List Char}

/-- The text is all of the path that stands before the segment with the first NUL. -/
def StopsAt (start cs : List Char) : Prop :=
  ∃ segment rest, cs = start ++ segment ++ '\x00' :: rest ∧ '\x00' ∉ start ++ segment ∧
    '/' ∉ segment ∧ (start = [] ∨ ∃ above, start = above ++ ['/'])

theorem exists_lastSegment (cs : List Char) : ∃ start segment, cs = start ++ segment ∧
    '/' ∉ segment ∧ (start = [] ∨ ∃ above, start = above ++ ['/']) := by
  induction cs using List.reverseRecOn with
  | nil => exact ⟨[], [], rfl, by simp, .inl rfl⟩
  | append_singleton cs c ih =>
    by_cases hc : c = '/'
    · exact ⟨cs ++ [c], [], by simp, by simp, .inr ⟨cs, by rw [hc]⟩⟩
    · obtain ⟨start, segment, rfl, hsegment, hstart⟩ := ih
      refine ⟨start, segment ++ [c], by simp, ?_, hstart⟩
      simp [hsegment, Ne.symm hc]

theorem exists_stopsAt (h : '\x00' ∈ cs) : ∃ start, StopsAt start cs := by
  obtain ⟨before, rest, rfl, hbefore⟩ := List.eq_append_cons_of_mem h
  obtain ⟨start, segment, rfl, hsegment, hstart⟩ := exists_lastSegment before
  exact ⟨start, segment, rest, rfl, hbefore, hsegment, hstart⟩

theorem StopsAt.mem (h : StopsAt start cs) : '\x00' ∈ cs := by
  obtain ⟨segment, rest, rfl, -⟩ := h
  simp

/-- The text is cut into whole segments, then the one with the NUL, then the others. -/
theorem StopsAt.exists_pieces (h : StopsAt start cs) : ∃ before piece pieces,
    Text.splitOn '/' cs = before ++ piece :: pieces ∧ start = before.flatMap (· ++ ['/']) ∧
      (∀ q ∈ before, '\x00' ∉ q) ∧ '\x00' ∈ piece ∧ start ++ piece <+: cs := by
  obtain ⟨segment, rest, rfl, hfirst, hsegment, hstart⟩ := h
  obtain ⟨q, pieces, hrest⟩ := List.exists_cons_of_ne_nil (Text.splitOn_ne_nil '/' rest)
  have hcut : Text.splitOn '/' (segment ++ '\x00' :: rest) = (segment ++ '\x00' :: q) :: pieces :=
    Text.splitOn_append_of_not_mem hsegment (Text.splitOn_cons_of_ne (by decide) hrest)
  have hq : q <+: rest := by
    rw [← Text.joinWith_splitOn '/' rest, hrest, Text.joinWith_cons]
    exact List.prefix_append q _
  obtain ⟨before, hbefore, rfl⟩ : ∃ before,
      Text.splitOn '/' (start ++ (segment ++ '\x00' :: rest)) =
        before ++ (segment ++ '\x00' :: q) :: pieces ∧
      start = before.flatMap (· ++ ['/']) := by
    rcases hstart with rfl | ⟨above, rfl⟩
    · exact ⟨[], hcut, rfl⟩
    · refine ⟨Text.splitOn '/' above, ?_, ?_⟩
      · rw [List.append_assoc, List.singleton_append, Text.splitOn_append, hcut]
      · rw [Text.flatMap_concat '/' (Text.splitOn_ne_nil '/' above), Text.joinWith_splitOn]
  refine ⟨before, segment ++ '\x00' :: q, pieces, by rw [List.append_assoc, hbefore], rfl,
    fun q hq hz => hfirst ?_, by simp, ?_⟩
  · exact List.mem_append_left _ (List.mem_flatMap.mpr ⟨q, hq, List.mem_append_left _ hz⟩)
  · rw [List.append_assoc]
    exact (List.prefix_append_right_inj _).mpr ((List.prefix_append_right_inj _).mpr
      (List.cons_prefix_cons.mpr ⟨rfl, hq⟩))

/-! ## Writing up to the NUL -/

theorem zero_mem_ofText {piece : List Char} (h : '\x00' ∈ piece) :
    0 ∈ Bytes.ofText (String.ofList piece) := by
  rw [Bytes.ofText_ofList, List.mem_flatMap]
  exact ⟨'\x00', h, by decide⟩

theorem append_of_nul {field piece : Bytes} (hz : 0 ∈ piece)
    (hl : field.length + piece.length ≤ nameSize) :
    append field piece = .error (.nulByte, field) := by
  rw [append, if_neg (Nat.not_lt.mpr hl), if_pos (by simpa using hz)]

theorem appendPart_of_nul {field piece : Bytes} (hf : field ≠ []) (hz : 0 ∈ piece)
    (hl : (field ++ [47]).length + piece.length ≤ nameSize) :
    appendPart field piece = .error (.nulByte, field ++ [47]) := by
  have hslash : append field [47] = .ok (field ++ [47]) :=
    append_eq_ok_iff.mpr ⟨by decide, rfl, Nat.le_trans (Nat.le_add_right _ _) hl⟩
  have he : field.isEmpty = false := by simpa using hf
  rw [appendPart, he]
  simp only [Bool.false_eq_true, if_false, hslash]
  exact append_of_nul hz hl

theorem writeParts_append (cutShort : Bool) (pieces : List (List Char)) (rest : List NamePart)
    (field : Bytes) : writeParts cutShort field (words pieces ++ rest) =
      (writeParts cutShort field (words pieces) >>= fun next => writeParts cutShort next rest) := by
  induction pieces generalizing field with
  | nil => rfl
  | cons p pieces ih =>
    simp only [words, List.map_cons, List.cons_append, writeParts, bind_assoc]
    exact bind_congr fun next => ih next

/-- What is above a part of a spelling is canonical, for only the end of a spelling can be a
slash. -/
theorem Spelling.canonical_above {above rest : List Char} (h : Spelling cs) (hne : rest ≠ [])
    (hp : above ++ '/' :: rest <+: cs) : Canonical above := by
  have habove : above ++ ['/'] <+: above ++ '/' :: rest := ⟨rest, by simp⟩
  obtain ⟨path, hpath, rfl | rfl⟩ := h
  · exact hpath.of_front (habove.trans hp)
  · rcases List.prefix_concat_iff.mp (habove.trans hp) with heq | hfront
    · have hlength := hp.length_le
      rw [← heq] at hlength
      have := List.length_pos_of_ne_nil hne
      simp only [List.length_append, List.length_cons, List.length_nil] at hlength
      omega
    · exact hpath.of_front hfront

theorem Spelling.isSegment_above {pieces : List (List Char)} {rest : List Char} (h : Spelling cs)
    (hne : rest ≠ []) (hslash : ∀ q ∈ pieces, '/' ∉ q)
    (hp : pieces.flatMap (· ++ ['/']) ++ rest <+: cs) : ∀ q ∈ pieces, IsSegment q := by
  by_cases hpieces : pieces = []
  · simp [hpieces]
  · rw [Text.flatMap_concat '/' hpieces, List.append_assoc, List.singleton_append] at hp
    have habove := EntryPath.canonical_iff.mp (h.canonical_above hne hp)
    rwa [Text.splitOn_joinWith hpieces hslash] at habove

/-- The parts of a path that stops at a NUL: whole segments, and then the one with the NUL. -/
theorem StopsAt.exists_parts (hstop : StopsAt start front) (h : Spelling cs) (hp : front <+: cs) :
    ∃ before piece after, nameParts ⟨String.ofList front⟩ =
        words before ++ .word (Bytes.ofText (String.ofList piece)) :: after ∧
      (∀ q ∈ before, q ≠ [] ∧ '\x00' ∉ q) ∧ '\x00' ∈ piece ∧
      start = before.flatMap (· ++ ['/']) ∧ start ++ piece <+: front := by
  have hne : front ≠ [] := List.ne_nil_of_mem hstop.mem
  have hparts := nameParts_relative hne (h.front_head?_ne_slash hp hne)
  obtain ⟨before, piece, pieces, hcut, rfl, hclean, hnul, hpiece⟩ := hstop.exists_pieces
  have hslash : ∀ q ∈ before, '/' ∉ q := fun q hq =>
    Text.not_mem_of_mem_splitOn (hcut ▸ List.mem_append_left _ hq)
  have hsegments := h.isSegment_above (List.ne_nil_of_mem hnul) hslash (hpiece.trans hp)
  have hhere : piece ≠ ['.'] := by rintro rfl; exact absurd hnul (by decide)
  have hup : piece ≠ ['.', '.'] := by rintro rfl; exact absurd hnul (by decide)
  have hidle : Path.idle piece = false :=
    Path.idle_eq_false_iff.mpr ⟨List.ne_nil_of_mem hnul, hhere⟩
  have hwritten : EntryPath.segments front =
      before ++ piece :: pieces.filter fun q => !Path.idle q := by
    rw [EntryPath.segments, hcut, List.filter_append, List.filter_cons_of_pos (by simp [hidle]),
      EntryPath.filter_segments hsegments]
  have hwords : before.map NamePart.ofPiece = words before :=
    List.map_congr_left fun q hq => if_neg (hsegments q hq).ne_up
  have hword : NamePart.ofPiece piece = .word (Bytes.ofText (String.ofList piece)) := if_neg hup
  rw [hwritten, if_neg (by simp), List.map_append, List.map_cons, hword, hwords] at hparts
  exact ⟨before, piece, _, hparts, fun q hq => ⟨(hsegments q hq).ne_nil, hclean q hq⟩, hnul, rfl,
    hpiece⟩

theorem writeParts_of_nul {cutShort : Bool} {pieces : List (List Char)} {piece : List Char}
    {after : List NamePart} (hpieces : ∀ q ∈ pieces, q ≠ [] ∧ '\x00' ∉ q) (hnul : '\x00' ∈ piece)
    (hroom : (Bytes.ofText (String.ofList (pieces.flatMap (· ++ ['/']) ++ piece))).length ≤
      nameSize) :
    writeParts cutShort [] (words pieces ++ .word (Bytes.ofText (String.ofList piece)) :: after) =
      .error (.nulByte, Bytes.ofText (String.ofList (pieces.flatMap (· ++ ['/'])))) := by
  have hz := zero_mem_ofText hnul
  rw [Bytes.ofText_append, List.length_append] at hroom
  by_cases hne : pieces = []
  · subst hne
    have hpart : appendPart [] (Bytes.ofText (String.ofList piece)) = .error (.nulByte, []) :=
      append_of_nul hz (by rw [List.length_nil]; omega)
    simp only [words, List.map_nil, List.nil_append, writeParts, hpart]
    rfl
  · have hslash : Bytes.ofText (String.ofList (pieces.flatMap (· ++ ['/']))) =
        Bytes.ofText (String.ofList (Text.joinWith ['/'] pieces)) ++ [47] := by
      rw [Text.flatMap_concat '/' hne, Bytes.ofText_append]
      exact congrArg _ (by decide)
    rw [hslash] at hroom ⊢
    have hfit := hroom
    rw [List.length_append] at hfit
    have hjoined : writeParts cutShort [] (words pieces) =
        .ok (Bytes.ofText (String.ofList (Text.joinWith ['/'] pieces))) :=
      (writeParts_joined (fun q hq => (hpieces q hq).1)
        fun q hq => Bytes.zero_not_mem_ofText (hpieces q hq).2).mpr ⟨rfl, by omega⟩
    have hfield : Text.joinWith ['/'] pieces ≠ [] := by
      obtain ⟨first, rest, rfl⟩ := List.exists_cons_of_ne_nil hne
      rw [Text.joinWith_cons]
      exact List.append_ne_nil_of_left_ne_nil (hpieces first List.mem_cons_self).1 _
    rw [writeParts_append, hjoined]
    have hpart := appendPart_of_nul (Bytes.ofText_ne_nil hfield) hz hroom
    simp only [bind, Except.bind, writeParts, hpart]

/-- A name cannot be written past the segment with the first NUL. -/
theorem writeName_of_stopsAt {cutShort : Bool} (h : Spelling cs) (hp : front <+: cs)
    (hstop : StopsAt start front) (hl : (Bytes.ofText (String.ofList front)).length ≤ nameSize) :
    writeName cutShort ⟨String.ofList front⟩ =
      .error (.nulByte, Bytes.ofText (String.ofList start)) := by
  obtain ⟨before, piece, after, hparts, hbefore, hnul, rfl, hpiece⟩ := hstop.exists_parts h hp
  have hroom := Nat.le_trans (Bytes.length_ofText_le hpiece.sublist) hl
  rw [writeName_eq hparts (by simp), writeParts_of_nul hbefore hnul hroom]
  rfl

theorem not_zero_of_appendPart {field piece out : Bytes} (h : appendPart field piece = .ok out) :
    0 ∉ piece := by
  rw [appendPart] at h
  split at h
  · exact (append_eq_ok_iff.mp h).1
  · obtain ⟨_, -, h⟩ := Outcome.bind_eq_ok_iff.mp h
    exact (append_eq_ok_iff.mp h).1

/-- Every word that has been written is without a NUL. -/
theorem not_zero_of_writeParts {cutShort : Bool} {parts : List NamePart} {field out : Bytes}
    (h : writeParts cutShort field parts = .ok out) {w : Bytes} (hw : .word w ∈ parts) :
    0 ∉ w := by
  induction parts generalizing field with
  | nil => cases hw
  | cons part rest ih =>
    cases part with
    | root => cases h
    | up =>
      rw [writeParts] at h
      split at h
      · next hlast =>
        rw [Bool.and_eq_true, List.isEmpty_iff] at hlast
        rw [hlast.2] at hw
        cases hw with
        | tail _ hw => cases hw
      · cases h
    | word v =>
      rw [writeParts] at h
      obtain ⟨next, hnext, h⟩ := Outcome.bind_eq_ok_iff.mp h
      rcases List.mem_cons.mp hw with hv | hw
      · cases hv
        exact not_zero_of_appendPart hnext
      · exact ih h hw

theorem not_nul_of_writeName {cutShort : Bool} {out : Bytes} (h : Spelling cs)
    (hw : writeName cutShort ⟨String.ofList cs⟩ = .ok out) : '\x00' ∉ cs := by
  intro hnul
  obtain ⟨start, hstop⟩ := exists_stopsAt hnul
  obtain ⟨before, piece, after, hparts, -, hpiece, -⟩ := hstop.exists_parts h (List.prefix_refl cs)
  rw [writeName_eq hparts (by simp)] at hw
  obtain ⟨field, hfield, -⟩ := Outcome.bind_eq_ok_iff.mp hw
  exact not_zero_of_writeParts hfield (by simp) (zero_mem_ofText hpiece)

/-! ## Names of entries -/

theorem nameError_ofText (fault : NameFault) (s : String) :
    nameError (fault, Bytes.ofText s) = .entryName s fault := by
  rw [nameError, Bytes.text?_ofText]
  rfl

section
variable {path : String} (h : Spelling path.toList)
include h

/-- A NUL in the beginning that would be written leaves the entry without a name. -/
theorem naming_of_stopsAt (hstop : StopsAt start (textWithin nameSize path.toList)) :
    naming path = .error (.entryName (String.ofList start) .nulByte) := by
  obtain ⟨cs, rfl⟩ : ∃ cs, path = String.ofList cs := ⟨_, String.ofList_toList.symm⟩
  rw [String.toList_ofList] at h hstop
  have hfront := textWithin_beginning nameSize cs
  have hfits := length_textWithin_le nameSize cs
  rw [naming]
  cases hw : writeName false ⟨String.ofList cs⟩ with
  | ok name => exact absurd (hfront.subset hstop.mem) (not_nul_of_writeName h hw)
  | error fault =>
    -- the fault of a short path counts, any other path is tried once more without its end
    by_cases hshort : (Bytes.ofText (String.ofList cs)).length < nameSize
    · rw [textWithin_of_fits (Nat.le_of_lt hshort)] at hstop
      rw [writeName_of_stopsAt h (List.prefix_refl cs) hstop (Nat.le_of_lt hshort)] at hw
      cases hw
      simp only [if_pos hshort, nameError_ofText]
    · simp only [if_neg hshort, String.toList_ofList, writeName_of_stopsAt h hfront hstop hfits,
        nameError_ofText]

/-- A spelling that fits is its own name; for any other the full text stands in front. -/
theorem naming_spelling (hnul : '\x00' ∉ textWithin nameSize path.toList) :
    ∃ n, naming path = .ok n ∧
      (n = ⟨[], Bytes.ofText path⟩ ∧ (Bytes.ofText path).length ≤ nameSize ∨
        n.before =
          record (longNameHeader (Bytes.ofText path).length) (Bytes.ofText path ++ [0])) := by
  obtain ⟨cs, rfl⟩ : ∃ cs, path = String.ofList cs := ⟨_, String.ofList_toList.symm⟩
  rw [String.toList_ofList] at h hnul
  cases hw : writeName false ⟨String.ofList cs⟩ with
  | ok name =>
    obtain ⟨rfl, hl⟩ := (writeName_spelling h (not_nul_of_writeName h hw)).mp hw
    exact ⟨_, by rw [naming, hw], .inl ⟨rfl, hl⟩⟩
  | error fault =>
    have hlong : ¬ (Bytes.ofText (String.ofList cs)).length < nameSize := by
      intro hl
      rw [textWithin_of_fits (Nat.le_of_lt hl)] at hnul
      rw [(writeName_spelling h hnul).mpr ⟨rfl, Nat.le_of_lt hl⟩] at hw
      cases hw
    obtain ⟨name, hname⟩ := writeName_front h (textWithin_beginning nameSize cs)
      (textWithin_ne_nil h.ne_nil (by decide)) hnul (length_textWithin_le nameSize cs)
    refine ⟨⟨_, overwrite fault.2 name⟩, ?_, .inr rfl⟩
    simp only [naming, hw, if_neg hlong, String.toList_ofList, hname]
    rfl

theorem exists_naming_iff :
    (∃ n, naming path = .ok n) ↔ '\x00' ∉ textWithin nameSize path.toList := by
  constructor
  · rintro ⟨n, hn⟩ hnul
    obtain ⟨start, hstop⟩ := exists_stopsAt hnul
    rw [naming_of_stopsAt h hstop] at hn
    cases hn
  · intro hnul
    obtain ⟨n, hn, -⟩ := naming_spelling h hnul
    exact ⟨n, hn⟩

theorem naming_eq_error_iff {fault : BuildError} : naming path = .error fault ↔
    ∃ start, StopsAt start (textWithin nameSize path.toList) ∧
      fault = .entryName (String.ofList start) .nulByte := by
  constructor
  · intro hfault
    have hnul : '\x00' ∈ textWithin nameSize path.toList := by
      by_contra hnul
      obtain ⟨n, hn, -⟩ := naming_spelling h hnul
      rw [hfault] at hn
      cases hn
    obtain ⟨start, hstop⟩ := exists_stopsAt hnul
    rw [naming_of_stopsAt h hstop] at hfault
    exact ⟨start, hstop, (Except.error.inj hfault).symm⟩
  · rintro ⟨start, hstop, rfl⟩
    exact naming_of_stopsAt h hstop

end

end ModularBuild.Tar
