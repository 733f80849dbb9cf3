import Mathlib.Data.List.Flatten
import ModularBuild.Archive.Tar
import ModularBuild.Proofs.Archive.EntryPath
import ModularBuild.Proofs.Outcome
import ModularBuild.Proofs.Text.Utf8

/-! # Names in tar headers

The spelling of an entry's path is its canonical path, with a slash behind a directory. A
spelling that fits into the name field is written there as it is. Any other goes into an
entry of its own, and then its beginning can always be written into the field, wherever it
is cut off. -/

namespace ModularBuild.Tar

open EntryPath (Canonical IsSegment)

/-- How the path of a file or of a directory is spelled. -/
def Spelling (cs : List Char) : Prop :=
  ∃ path, Canonical path ∧ (cs = path ∨ cs = path ++ ['/'])

theorem Spelling.ne_nil {cs : List Char} (h : Spelling cs) : cs ≠ [] := by
  obtain ⟨path, hp, rfl | rfl⟩ := h
  · exact hp.ne_nil
  · simp

theorem Spelling.head?_ne_slash {cs : List Char} (h : Spelling cs) : cs.head? ≠ some '/' := by
  obtain ⟨path, hp, rfl | rfl⟩ := h
  · exact hp.head?_ne_slash
  · obtain ⟨c, rest, rfl⟩ := List.exists_cons_of_ne_nil hp.ne_nil
    exact hp.head?_ne_slash

theorem Spelling.front_head?_ne_slash {cs front : List Char} (h : Spelling cs) (hp : front <+: cs)
    (hne : front ≠ []) : front.head? ≠ some '/' := by
  obtain ⟨c, rest, rfl⟩ := List.exists_cons_of_ne_nil hne
  obtain ⟨tail, rfl⟩ := hp
  exact h.head?_ne_slash

/-- The pieces of a spelling are its segments, and nothing behind a slash at the end. -/
theorem Spelling.segments {cs : List Char} (h : Spelling cs) :
    EntryPath.segments cs ≠ [] ∧ (∀ s ∈ EntryPath.segments cs, IsSegment s) ∧
    (∀ p ∈ Text.splitOn '/' cs, p ∈ EntryPath.segments cs ∨ p = []) ∧
    cs = Text.joinWith ['/'] (EntryPath.segments cs) ++
      if cs.getLast? = some '/' then ['/'] else [] := by
  obtain ⟨path, hpath, hcs⟩ := h
  have hsegments : EntryPath.segments cs = Text.splitOn '/' path := by
    rcases hcs with rfl | rfl
    · exact hpath.segments_eq
    · rw [EntryPath.segments_concat_slash, hpath.segments_eq]
  rw [hsegments, Text.joinWith_splitOn]
  refine ⟨Text.splitOn_ne_nil '/' path, EntryPath.canonical_iff.mp hpath, ?_⟩
  rcases hcs with rfl | rfl
  · have hlast : cs.getLast? ≠ some '/' := by
      intro hl
      obtain ⟨front, hfront⟩ := List.getLast?_eq_some_iff.mp hl
      exact hpath.ne_concat_slash front hfront
    rw [if_neg hlast, List.append_nil]
    exact ⟨fun p hp => .inl hp, rfl⟩
  · rw [List.getLast?_concat, if_pos rfl, Text.splitOn_concat_sep]
    refine ⟨fun p hp => ?_, rfl⟩
    rcases List.mem_append.mp hp with hp | hp
    · exact .inl hp
    · exact .inr (List.mem_singleton.mp hp)

/-! ## Parts of a path -/

theorem nameParts_relative {cs : List Char} (hne : cs ≠ []) (hrel : cs.head? ≠ some '/') :
    nameParts ⟨String.ofList cs⟩ =
      if EntryPath.segments cs = [] then [.word [46]]
      else (EntryPath.segments cs).map NamePart.ofPiece := by
  obtain ⟨c, rest, rfl⟩ := List.exists_cons_of_ne_nil hne
  have hc : c ≠ '/' := fun he => hrel (congrArg some he)
  obtain ⟨piece, pieces, hs⟩ := List.exists_cons_of_ne_nil (Text.splitOn_ne_nil '/' rest)
  have hsplit := Text.splitOn_cons_of_ne hc hs
  by_cases hdot : c :: piece = ['.']
  · have hw : EntryPath.segments (c :: rest) = pieces.filter fun piece => !Path.idle piece := by
      rw [EntryPath.segments, hsplit, hdot, List.filter_cons_of_neg (by decide)]
    simp only [nameParts, Path.cut, Path.chars, String.toList_ofList, hsplit, hdot, hw]
    simp
  · have hidle : Path.idle (c :: piece) = false := Path.idle_eq_false_iff.mpr ⟨by simp, hdot⟩
    have hw : EntryPath.segments (c :: rest) =
        (c :: piece) :: pieces.filter fun piece => !Path.idle piece := by
      rw [EntryPath.segments, hsplit, List.filter_cons_of_pos (by simp [hidle])]
    have hcut : Path.cut ⟨String.ofList (c :: rest)⟩ = (.none, (c :: piece) :: pieces) := by
      simp only [Path.cut, Path.chars, String.toList_ofList, hsplit]
      split
      · contradiction
      · rename_i he; exact absurd (List.cons.inj he).1 (by simp)
      · rename_i he; exact absurd (List.cons.inj he).1 hdot
      · rfl
    rw [if_neg (by rw [hw]; simp), nameParts, hcut, hw]
    simp [hidle]

/-! ## Writing words -/

def words (pieces : List (List Char)) : List NamePart :=
  pieces.map fun piece => .word (Bytes.ofText (String.ofList piece))

theorem append_eq_ok_iff {field piece out : Bytes} : append field piece = .ok out ↔
    0 ∉ piece ∧ out = field ++ piece ∧ out.length ≤ nameSize := by
  simp only [append]
  split
  · rename_i hlong
    constructor
    · intro h; cases h
    · rintro ⟨-, rfl, hl⟩; rw [List.length_append] at hl; omega
  · split
    · rename_i hz
      constructor
      · intro h; cases h
      · rintro ⟨hn, -⟩; exact absurd (by simpa using hz) hn
    · rename_i hlen hz
      constructor
      · intro h; cases h
        exact ⟨by simpa using hz, rfl, by rw [List.length_append]; omega⟩
      · rintro ⟨-, rfl, -⟩; rfl

theorem appendPart_eq_ok_iff {field piece out : Bytes} (hf : field ≠ []) :
    appendPart field piece = .ok out ↔
      0 ∉ piece ∧ out = field ++ 47 :: piece ∧ out.length ≤ nameSize := by
  have he : field.isEmpty = false := by simpa using hf
  rw [appendPart, he]
  constructor
  · intro h
    obtain ⟨next, hslash, h⟩ := Outcome.bind_eq_ok_iff.mp h
    obtain ⟨-, rfl, -⟩ := append_eq_ok_iff.mp hslash
    obtain ⟨hz, hout, hl⟩ := append_eq_ok_iff.mp h
    exact ⟨hz, by simpa using hout, hl⟩
  · rintro ⟨hz, rfl, hl⟩
    rw [List.length_append, List.length_cons] at hl
    have hslash : append field [47] = .ok (field ++ [47]) :=
      append_eq_ok_iff.mpr ⟨by decide, rfl, by simp; omega⟩
    simp only [Bool.false_eq_true, if_false, hslash]
    refine append_eq_ok_iff.mpr ⟨hz, by simp, ?_⟩
    simp only [List.length_append, List.length_cons]
    omega

theorem writeParts_words {cutShort : Bool} {pieces : List (List Char)} {field out : Bytes}
    (hf : field ≠ []) (hl : field.length ≤ nameSize) :
    writeParts cutShort field (words pieces) = .ok out ↔
      (∀ p ∈ pieces, 0 ∉ Bytes.ofText (String.ofList p)) ∧
      out = field ++ pieces.flatMap (fun p => 47 :: Bytes.ofText (String.ofList p)) ∧
      out.length ≤ nameSize := by
  induction pieces generalizing field with
  | nil =>
    simp only [words, List.map_nil, writeParts, List.flatMap_nil, List.append_nil]
    constructor
    · intro h; cases h; exact ⟨by simp, rfl, hl⟩
    · rintro ⟨-, rfl, -⟩; rfl
  | cons p rest ih =>
    simp only [words, List.map_cons, writeParts, List.flatMap_cons]
    constructor
    · intro h
      obtain ⟨next, hp, h⟩ := Outcome.bind_eq_ok_iff.mp h
      obtain ⟨hz, rfl, hnext⟩ := (appendPart_eq_ok_iff hf).mp hp
      obtain ⟨hrest, rfl, hout⟩ := (ih (by simp) hnext).mp h
      refine ⟨?_, by simp, hout⟩
      intro q hq
      rcases List.mem_cons.mp hq with rfl | hq
      · exact hz
      · exact hrest q hq
    · rintro ⟨hz, rfl, hout⟩
      have hp : appendPart field (Bytes.ofText (String.ofList p)) =
          .ok (field ++ 47 :: Bytes.ofText (String.ofList p)) := by
        refine (appendPart_eq_ok_iff hf).mpr ⟨hz p List.mem_cons_self, rfl, ?_⟩
        simp only [List.length_append, List.length_cons] at hout ⊢
        omega
      rw [hp]
      refine (ih (by simp) ?_).mpr ⟨fun q hq => hz q (List.mem_cons_of_mem _ hq), by simp, hout⟩
      exact ((appendPart_eq_ok_iff hf).mp hp).2.2

/-- Words are written with single slashes between them, as long as they fit. -/
theorem writeParts_joined {cutShort : Bool} {pieces : List (List Char)} {out : Bytes}
    (hne : ∀ p ∈ pieces, p ≠ []) (hz : ∀ p ∈ pieces, 0 ∉ Bytes.ofText (String.ofList p)) :
    writeParts cutShort [] (words pieces) = .ok out ↔
      out = Bytes.ofText (String.ofList (Text.joinWith ['/'] pieces)) ∧
      out.length ≤ nameSize := by
  cases pieces with
  | nil =>
    constructor
    · intro h; cases h; exact ⟨by decide, by decide⟩
    · rintro ⟨rfl, -⟩; rfl
  | cons p rest =>
    have hp : Bytes.ofText (String.ofList p) ≠ [] := Bytes.ofText_ne_nil (hne p List.mem_cons_self)
    have hrest : ∀ q ∈ rest, 0 ∉ Bytes.ofText (String.ofList q) :=
      fun q hq => hz q (List.mem_cons_of_mem _ hq)
    have hjoin : Bytes.ofText (String.ofList (Text.joinWith ['/'] (p :: rest))) =
        Bytes.ofText (String.ofList p) ++
          rest.flatMap fun q => 47 :: Bytes.ofText (String.ofList q) := by
      have hslash : String.utf8EncodeChar '/' = [47] := by decide
      rw [Text.joinWith_cons, Bytes.ofText_append]
      simp only [Bytes.ofText_ofList, List.flatMap_assoc, List.flatMap_cons, hslash,
        List.singleton_append]
    rw [hjoin]
    simp only [words, List.map_cons, writeParts]
    constructor
    · intro h
      obtain ⟨next, ha, h⟩ := Outcome.bind_eq_ok_iff.mp h
      obtain ⟨-, rfl, hl⟩ := append_eq_ok_iff.mp (show append [] _ = _ from ha)
      exact ((writeParts_words hp hl).mp h).2
    · rintro ⟨rfl, hl⟩
      have ha : appendPart [] (Bytes.ofText (String.ofList p)) =
          .ok (Bytes.ofText (String.ofList p)) := by
        refine append_eq_ok_iff.mpr ⟨hz p List.mem_cons_self, rfl, ?_⟩
        rw [List.length_append] at hl
        omega
      rw [ha]
      exact (writeParts_words hp (append_eq_ok_iff.mp ha).2.2).mpr ⟨hrest, rfl, hl⟩

/-- Where a name may have been cut short, two dots at its end are a word like any other. -/
theorem writeParts_ofPiece {pieces : List (List Char)} {field : Bytes}
    (h : ∀ p ∈ pieces.dropLast, p ≠ ['.', '.']) :
    writeParts true field (pieces.map NamePart.ofPiece) = writeParts true field (words pieces) := by
  induction pieces generalizing field with
  | nil => rfl
  | cons p rest ih =>
    by_cases hp : p = ['.', '.']
    · cases rest with
      | nil =>
        subst hp
        have hup : [['.', '.']].map NamePart.ofPiece = [.up] := by decide
        have hword : words [['.', '.']] = [.word [46, 46]] := by decide
        rw [hup, hword]
        simp only [writeParts, List.isEmpty_nil, Bool.and_self, if_true]
        cases appendPart field [46, 46] <;> rfl
      | cons q rest =>
        exact absurd hp (h p (by rw [List.dropLast_cons_of_ne_nil (by simp)]; simp))
    · have hrest : ∀ q ∈ rest.dropLast, q ≠ ['.', '.'] := by
        intro q hq
        refine h q ?_
        rw [List.dropLast_cons_of_ne_nil (by rintro rfl; simp at hq)]
        exact List.mem_cons_of_mem _ hq
      simp only [words, List.map_cons, NamePart.ofPiece, if_neg hp, writeParts]
      cases appendPart field (Bytes.ofText (String.ofList p)) with
      | error e => rfl
      | ok next => exact ih hrest

/-! ## Whole names -/

/-- A slash at the end of a path is written behind its parts. -/
theorem writeName_eq {cutShort : Bool} {cs : List Char} {parts : List NamePart}
    (hp : nameParts ⟨String.ofList cs⟩ = parts) (hne : parts ≠ []) :
    writeName cutShort ⟨String.ofList cs⟩ = (writeParts cutShort [] parts >>= fun field =>
      if cs.getLast? = some '/' then append field [47] else .ok field) := by
  have he : parts.isEmpty = false := by simpa using hne
  simp only [writeName, hp, he, Path.chars, String.toList_ofList]
  rfl

theorem writeName_of_parts {cutShort : Bool} {cs : List Char} {parts : List NamePart}
    (hp : nameParts ⟨String.ofList cs⟩ = parts) (hne : parts ≠ []) {field : Bytes}
    (hw : writeParts cutShort [] parts = .ok field) :
    writeName cutShort ⟨String.ofList cs⟩ =
      if cs.getLast? = some '/' then append field [47] else .ok field := by
  rw [writeName_eq hp hne, hw]
  rfl

theorem not_zero_of_mem_splitOn {cs p : List Char} (hz : '\x00' ∉ cs)
    (hp : p ∈ Text.splitOn '/' cs) : 0 ∉ Bytes.ofText (String.ofList p) := by
  refine Bytes.zero_not_mem_ofText fun hm => ?_
  have hflat : '\x00' ∈ '/' :: cs := by
    rw [← Text.flatMap_splitOn '/' cs]
    exact List.mem_flatMap.mpr ⟨p, hp, List.mem_cons_of_mem _ hm⟩
  rcases List.mem_cons.mp hflat with hc | hc
  · exact absurd hc (by decide)
  · exact hz hc

/-- The name field takes a spelling exactly if it fits. -/
theorem writeName_spelling {cs : List Char} (h : Spelling cs) (hz : '\x00' ∉ cs) {out : Bytes} :
    writeName false ⟨String.ofList cs⟩ = .ok out ↔
      out = Bytes.ofText (String.ofList cs) ∧ out.length ≤ nameSize := by
  obtain ⟨hne, hs, -, hcs⟩ := h.segments
  have hparts : nameParts ⟨String.ofList cs⟩ = words (EntryPath.segments cs) := by
    rw [nameParts_relative h.ne_nil h.head?_ne_slash, if_neg hne]
    exact List.map_congr_left fun s hm => if_neg (hs s hm).ne_up
  have hwords : words (EntryPath.segments cs) ≠ [] := by simpa [words] using hne
  have hzs : ∀ s ∈ EntryPath.segments cs, 0 ∉ Bytes.ofText (String.ofList s) := fun s hm =>
    not_zero_of_mem_splitOn hz (List.mem_filter.mp hm).1
  have hnil : ∀ s ∈ EntryPath.segments cs, s ≠ [] := fun s hm => (hs s hm).ne_nil
  have hslash : Bytes.ofText (String.ofList ['/']) = [47] := by decide
  have hbytes : Bytes.ofText (String.ofList cs) =
      Bytes.ofText (String.ofList (Text.joinWith ['/'] (EntryPath.segments cs))) ++
        if cs.getLast? = some '/' then [47] else [] := by
    refine (congrArg (fun l => Bytes.ofText (String.ofList l)) hcs).trans ?_
    rw [Bytes.ofText_append]
    split
    · rw [hslash]
    · rfl
  rw [writeName_eq hparts hwords, Outcome.bind_eq_ok_iff, hbytes]
  constructor
  · rintro ⟨field, hf, ho⟩
    obtain ⟨rfl, hl⟩ := (writeParts_joined hnil hzs).mp hf
    split at ho
    · rename_i hlast
      rw [if_pos hlast]
      exact (append_eq_ok_iff.mp ho).2
    · rename_i hlast
      cases ho
      rw [if_neg hlast, List.append_nil]
      exact ⟨rfl, hl⟩
  · rintro ⟨rfl, hl⟩
    have hfit := hl
    rw [List.length_append] at hfit
    refine ⟨_, (writeParts_joined hnil hzs).mpr ⟨rfl, by omega⟩, ?_⟩
    split
    · rename_i hlast
      rw [if_pos hlast] at hl
      exact append_eq_ok_iff.mpr ⟨by decide, rfl, hl⟩
    · rw [List.append_nil]

/-- There is room for the segments of a path wherever there is room for the path. -/
theorem segments_sublist (cs : List Char) :
    (Text.joinWith ['/'] (EntryPath.segments cs)).Sublist cs := by
  cases hsegments : EntryPath.segments cs with
  | nil => exact List.nil_sublist cs
  | cons segment rest =>
    have hflat : ((EntryPath.segments cs).flatMap ('/' :: ·)).Sublist ('/' :: cs) := by
      rw [← Text.flatMap_splitOn '/' cs]
      exact List.Sublist.flatMap List.filter_sublist _
    rw [hsegments, List.flatMap_cons, List.cons_append, List.cons_sublist_cons] at hflat
    rwa [Text.joinWith_cons]

/-- With a slash at the end, there is also room for that slash. -/
theorem segments_slash_sublist {cs : List Char} (h : cs.getLast? = some '/') :
    (Text.joinWith ['/'] (EntryPath.segments cs) ++ ['/']).Sublist cs := by
  obtain ⟨front, rfl⟩ := List.getLast?_eq_some_iff.mp h
  rw [EntryPath.segments_concat_slash]
  exact (segments_sublist front).append_right ['/']

theorem mem_dropLast_of_filter {α : Type} {q : α → Bool} {l : List α} {a : α}
    (h : a ∈ (l.filter q).dropLast) : a ∈ l.dropLast := by
  rcases List.eq_nil_or_concat l with rfl | ⟨front, last, rfl⟩
  · simp at h
  · rw [List.concat_eq_append, List.filter_append] at h
    rw [List.concat_eq_append, List.dropLast_concat]
    by_cases hq : q last = true
    · rw [List.filter_cons_of_pos hq, List.filter_nil, List.dropLast_concat] at h
      exact (List.mem_filter.mp h).1
    · rw [List.filter_cons_of_neg hq, List.filter_nil, List.append_nil] at h
      exact (List.mem_filter.mp (List.dropLast_subset _ h)).1

/-- The beginning of a spelling can be written wherever it ends. -/
theorem writeName_front {cs front : List Char} (h : Spelling cs) (hp : front <+: cs)
    (hne : front ≠ []) (hz : '\x00' ∉ front)
    (hl : (Bytes.ofText (String.ofList front)).length ≤ nameSize) :
    ∃ out, writeName true ⟨String.ofList front⟩ = .ok out := by
  have hparts := nameParts_relative hne (h.front_head?_ne_slash hp hne)
  by_cases hw : EntryPath.segments front = []
  · rw [if_pos hw] at hparts
    rw [writeName_of_parts hparts (by simp)
      (show writeParts true [] [.word [46]] = .ok [46] from rfl)]
    split
    · exact ⟨[46, 47], rfl⟩
    · exact ⟨[46], rfl⟩
  · rw [if_neg hw] at hparts
    obtain ⟨-, hs, hmem, -⟩ := h.segments
    have hups : ∀ p ∈ (EntryPath.segments front).dropLast, p ≠ ['.', '.'] := by
      rintro p hm rfl
      have hfull := (Text.dropLast_splitOn_beginning hp).subset (mem_dropLast_of_filter hm)
      rcases hmem _ hfull with hm | hm
      · exact (hs _ hm).ne_up rfl
      · cases hm
    have hzs : ∀ p ∈ EntryPath.segments front, 0 ∉ Bytes.ofText (String.ofList p) := fun p hm =>
      not_zero_of_mem_splitOn hz (List.mem_filter.mp hm).1
    have hnil : ∀ p ∈ EntryPath.segments front, p ≠ [] := fun p hm =>
      (Path.idle_eq_false_iff.mp (by simpa using (List.mem_filter.mp hm).2)).1
    have hf : writeParts true [] ((EntryPath.segments front).map NamePart.ofPiece) =
        .ok (Bytes.ofText (String.ofList (Text.joinWith ['/'] (EntryPath.segments front)))) := by
      rw [writeParts_ofPiece hups]
      exact (writeParts_joined hnil hzs).mpr
        ⟨rfl, Nat.le_trans (Bytes.length_ofText_le (segments_sublist front)) hl⟩
    rw [writeName_of_parts hparts (by simpa using hw) hf]
    split
    · rename_i hlast
      have hroom := Nat.le_trans (Bytes.length_ofText_le (segments_slash_sublist hlast)) hl
      rw [Bytes.ofText_append] at hroom
      exact ⟨_, append_eq_ok_iff.mpr ⟨by decide, rfl, hroom⟩⟩
    · exact ⟨_, rfl⟩

/-! ## The beginning that is written -/

theorem textWithin_beginning (room : Nat) (cs : List Char) : textWithin room cs <+: cs := by
  induction cs generalizing room with
  | nil => simp [textWithin]
  | cons c rest ih =>
    rw [textWithin]
    split
    · exact List.cons_prefix_cons.mpr ⟨rfl, ih _⟩
    · exact List.nil_prefix

theorem length_textWithin_le (room : Nat) (cs : List Char) :
    (Bytes.ofText (String.ofList (textWithin room cs))).length ≤ room := by
  induction cs generalizing room with
  | nil => exact Nat.zero_le room
  | cons c rest ih =>
    rw [textWithin]
    split
    · have := ih (room - c.utf8Size)
      rw [Bytes.length_ofText_cons]
      omega
    · exact Nat.zero_le room

theorem textWithin_of_fits {room : Nat} {cs : List Char}
    (h : (Bytes.ofText (String.ofList cs)).length ≤ room) : textWithin room cs = cs := by
  induction cs generalizing room with
  | nil => rfl
  | cons c rest ih =>
    rw [Bytes.length_ofText_cons] at h
    rw [textWithin, if_pos (by omega), ih (by omega)]

theorem textWithin_prefix {room : Nat} {front cs : List Char} (h : front <+: cs) :
    textWithin room front <+: textWithin room cs := by
  induction front generalizing room cs with
  | nil => exact List.nil_prefix
  | cons c front ih =>
    obtain ⟨tail, rfl⟩ := h
    rw [List.cons_append, textWithin, textWithin]
    split
    · exact List.cons_prefix_cons.mpr ⟨rfl, ih (List.prefix_append front tail)⟩
    · exact List.nil_prefix

theorem textWithin_ne_nil {room : Nat} {cs : List Char} (h : cs ≠ []) (hr : 4 ≤ room) :
    textWithin room cs ≠ [] := by
  obtain ⟨c, rest, rfl⟩ := List.exists_cons_of_ne_nil h
  have hc : c.utf8Size ≤ room := Nat.le_trans c.utf8Size_le_four hr
  rw [textWithin, if_pos hc]
  simp

end ModularBuild.Tar
