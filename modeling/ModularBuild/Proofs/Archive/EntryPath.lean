import ModularBuild.Archive.EntryPath
import ModularBuild.Proofs.Text.Pieces

/-! Canonical paths inside an archive: what they consist of, and that every path that is
accepted gets this form. -/

namespace ModularBuild.EntryPath

/-- A segment that names something below its directory. -/
structure IsSegment (segment : List Char) : Prop where
  ne_nil : segment ≠ []
  ne_here : segment ≠ ['.']
  ne_up : segment ≠ ['.', '.']
  no_slash : '/' ∉ segment
  no_backslash : '\\' ∉ segment

/-- At least one segment, and single slashes between them. -/
def Canonical (cs : List Char) : Prop :=
  ∃ segments, segments ≠ [] ∧ (∀ s ∈ segments, IsSegment s) ∧ cs = Text.joinWith ['/'] segments

theorem IsSegment.idle_eq_false {segment : List Char} (h : IsSegment segment) :
    Path.idle segment = false := Path.idle_eq_false_iff.mpr ⟨h.ne_nil, h.ne_here⟩

/-- None of the segments is dropped. -/
theorem filter_segments {pieces : List (List Char)} (h : ∀ s ∈ pieces, IsSegment s) :
    pieces.filter (fun piece => !Path.idle piece) = pieces :=
  List.filter_eq_self.mpr fun s hs => by simp [(h s hs).idle_eq_false]

/-- A slash at the end adds no segment. -/
theorem segments_concat_slash (cs : List Char) : segments (cs ++ ['/']) = segments cs := by
  rw [segments, Text.splitOn_concat_sep, List.filter_append]
  simp [segments, Path.idle]

theorem canonical_iff {cs : List Char} :
    Canonical cs ↔ ∀ s ∈ Text.splitOn '/' cs, IsSegment s := by
  constructor
  · rintro ⟨segments, hne, hs, rfl⟩ s hm
    rw [Text.splitOn_joinWith hne fun s h => (hs s h).no_slash] at hm
    exact hs s hm
  · intro h
    exact ⟨_, Text.splitOn_ne_nil '/' cs, h, (Text.joinWith_splitOn '/' cs).symm⟩

theorem backslash_not_mem_unify (cs : List Char) : '\\' ∉ unify cs := by
  intro h
  obtain ⟨c, -, hc⟩ := List.mem_map.mp h
  split at hc
  · exact absurd hc (by decide)
  · contradiction

theorem canonical_of_normalizeChars {raw cs : List Char} (h : normalizeChars raw = .ok cs) :
    Canonical cs := by
  simp only [normalizeChars] at h
  split at h; · cases h
  split at h; · cases h
  split at h; · cases h
  rename_i hup
  split at h
  · cases h
  · rename_i hne
    cases h
    refine ⟨segments (unify raw), hne, fun s hs => ?_, rfl⟩
    obtain ⟨hmem, hidle⟩ := List.mem_filter.mp hs
    obtain ⟨hnil, hhere⟩ := Path.idle_eq_false_iff.mp (by simpa using hidle)
    refine ⟨hnil, hhere, ?_, Text.not_mem_of_mem_splitOn hmem, ?_⟩
    · rintro rfl
      exact hup hs
    · intro hb
      have hflat : '\\' ∈ '/' :: unify raw := by
        rw [← Text.flatMap_splitOn '/' (unify raw)]
        exact List.mem_flatMap.mpr ⟨s, hmem, List.mem_cons_of_mem _ hb⟩
      rcases List.mem_cons.mp hflat with hc | hc
      · exact absurd hc (by decide)
      · exact backslash_not_mem_unify raw hc

namespace Canonical

variable {cs : List Char}

theorem ne_nil (h : Canonical cs) : cs ≠ [] := by
  obtain ⟨segments, hne, hs, rfl⟩ := h
  obtain ⟨s, rest, rfl⟩ := List.exists_cons_of_ne_nil hne
  rw [Text.joinWith_cons]
  exact List.append_ne_nil_of_left_ne_nil (hs s List.mem_cons_self).ne_nil _

theorem head?_ne_slash (h : Canonical cs) : cs.head? ≠ some '/' := by
  obtain ⟨segments, hne, hs, rfl⟩ := h
  obtain ⟨s, rest, rfl⟩ := List.exists_cons_of_ne_nil hne
  have hseg := hs s List.mem_cons_self
  obtain ⟨c, tail, rfl⟩ := List.exists_cons_of_ne_nil hseg.ne_nil
  rw [Text.joinWith_cons, List.cons_append, List.head?_cons]
  rintro hc
  exact hseg.no_slash (Option.some.inj hc ▸ List.mem_cons_self)

theorem ne_concat_slash (h : Canonical cs) (front : List Char) : cs ≠ front ++ ['/'] := by
  rintro rfl
  rw [canonical_iff, Text.splitOn_concat_sep] at h
  exact (h [] (by simp)).ne_nil rfl

/-- A directory above a canonical path has a canonical path itself. -/
theorem of_front {front : List Char} (h : Canonical cs) (hf : front ++ ['/'] <+: cs) :
    Canonical front := by
  have hp : (Text.splitOn '/' (front ++ ['/'])).dropLast <+: Text.splitOn '/' cs :=
    Text.dropLast_splitOn_beginning hf
  rw [Text.splitOn_concat_sep, List.dropLast_concat] at hp
  exact canonical_iff.mpr fun s hs => canonical_iff.mp h s (hp.subset hs)

theorem backslash_not_mem (h : Canonical cs) : '\\' ∉ cs := by
  intro hmem
  rcases Text.mem_of_mem_splitOn '/' hmem with hc | ⟨s, hs, hc⟩
  · exact absurd hc (by decide)
  · exact (canonical_iff.mp h s hs).no_backslash hc

theorem segments_eq (h : Canonical cs) : segments cs = Text.splitOn '/' cs :=
  filter_segments (canonical_iff.mp h)

end Canonical

theorem normalize_eq_ok_iff {raw path : String} :
    normalize raw = .ok path ↔ normalizeChars raw.toList = .ok path.toList := by
  rw [normalize]
  cases normalizeChars raw.toList with
  | error reason => simp
  | ok cs => simp [String.ext_iff]

theorem canonical_of_normalize {raw path : String} (h : normalize raw = .ok path) :
    Canonical path.toList := canonical_of_normalizeChars (normalize_eq_ok_iff.mp h)

/-! ## Drives -/

/-- Only the first two characters tell a drive, and these are in the first segment. -/
theorem isDriveQualified_append {front rest : List Char} (hne : front ≠ [])
    (hrest : rest.head? ≠ some ':') :
    isDriveQualified (front ++ rest) = isDriveQualified front := by
  match front, rest with
  | [c], [] => rfl
  | [c], d :: rest =>
    have hd : d ≠ ':' := fun h => hrest (congrArg some h)
    simp [isDriveQualified, hd]
  | c :: d :: front, rest =>
    by_cases hd : d = ':' <;> simp [isDriveQualified, hd]

/-- Normalizing a canonical path changes nothing, but one that looks drive-qualified is
rejected. -/
theorem normalizeChars_of_canonical {cs : List Char} (h : Canonical cs) :
    normalizeChars cs = if isDriveQualified cs then .error .driveQualified else .ok cs := by
  have hunify : unify cs = cs := by
    refine (List.map_congr_left fun c hc => if_neg ?_).trans (List.map_id cs)
    rintro rfl
    exact h.backslash_not_mem hc
  have hup : ['.', '.'] ∉ Text.splitOn '/' cs := fun hm => (canonical_iff.mp h _ hm).ne_up rfl
  simp only [normalizeChars, hunify, h.segments_eq, if_neg h.head?_ne_slash, if_neg hup,
    if_neg (Text.splitOn_ne_nil '/' cs), Text.joinWith_splitOn]

theorem normalize_of_canonical {path : String} (h : Canonical path.toList) : normalize path =
    if isDriveQualified path.toList then .error (.invalidArchivePath path .driveQualified)
    else .ok path := by
  rw [normalize, normalizeChars_of_canonical h]
  cases isDriveQualified path.toList with
  | true => rfl
  | false => exact congrArg Except.ok String.ofList_toList

/-- A path gets drive-qualified by normalizing only if it hides the drive behind a `.`. -/
theorem hidden_of_isDriveQualified {raw cs : List Char} (h : normalizeChars raw = .ok cs)
    (hdrive : isDriveQualified cs = true) : ['.', '/'] <+: unify raw := by
  simp only [normalizeChars] at h
  split at h; · cases h
  rename_i hroot
  split at h; · cases h
  rename_i hplain
  split at h; · cases h
  split at h; · cases h
  rename_i hne
  cases h
  obtain ⟨first, rest, hsplit⟩ := List.exists_cons_of_ne_nil (Text.splitOn_ne_nil '/' (unify raw))
  have hraw : unify raw = first ++ rest.flatMap ('/' :: ·) := by
    rw [← Text.joinWith_splitOn '/' (unify raw), hsplit, Text.joinWith_cons]
    rfl
  have hcolon : ∀ pieces : List (List Char), (pieces.flatMap ('/' :: ·)).head? ≠ some ':' := by
    rintro (_ | ⟨piece, pieces⟩) <;> simp
  rw [segments, hsplit] at hne hdrive
  by_cases hidle : Path.idle first = true
  · rw [List.filter_cons_of_neg (by simp [hidle])] at hne
    obtain ⟨next, rest, rfl⟩ := List.exists_cons_of_ne_nil fun hrest : rest = [] =>
      hne (by rw [hrest]; rfl)
    rcases Bool.or_eq_true_iff.mp hidle with hnil | hhere
    · rw [hraw, eq_of_beq hnil] at hroot
      exact absurd rfl hroot
    · rw [hraw, eq_of_beq hhere]
      exact ⟨_, rfl⟩
  · have hfirst : first ≠ [] := by
      rintro rfl
      exact hidle rfl
    rw [hraw, isDriveQualified_append hfirst (hcolon rest)] at hplain
    rw [List.filter_cons_of_pos (by simpa using hidle), Text.joinWith_cons] at hdrive
    exact absurd ((isDriveQualified_append hfirst (hcolon _)).symm.trans hdrive) hplain

/-! ## Directories -/

theorem mem_ancestorChars_iff {above cs a : List Char} :
    a ∈ ancestorChars above cs ↔ ∃ front, a = above ++ front ++ ['/'] ∧ front ++ ['/'] <+: cs := by
  induction cs generalizing above with
  | nil => simp [ancestorChars]
  | cons c rest ih =>
    have hrest : a ∈ ancestorChars (above ++ [c]) rest ↔
        ∃ front, a = above ++ (c :: front) ++ ['/'] ∧ front ++ ['/'] <+: rest := by
      rw [ih]
      simp
    rw [ancestorChars]
    constructor
    · intro h
      split at h
      · rename_i hc
        rcases List.mem_cons.mp h with rfl | h
        · exact ⟨[], by rw [List.append_nil, hc], by rw [hc]; simp⟩
        · obtain ⟨front, ha, hf⟩ := hrest.mp h
          exact ⟨c :: front, ha, List.cons_prefix_cons.mpr ⟨rfl, hf⟩⟩
      · obtain ⟨front, ha, hf⟩ := hrest.mp h
        exact ⟨c :: front, ha, List.cons_prefix_cons.mpr ⟨rfl, hf⟩⟩
    · rintro ⟨front, rfl, hf⟩
      cases front with
      | nil =>
        obtain ⟨rfl, -⟩ := List.cons_prefix_cons.mp hf
        simp
      | cons d front =>
        obtain ⟨rfl, htail⟩ := List.cons_prefix_cons.mp hf
        have hm := hrest.mpr ⟨front, rfl, htail⟩
        split
        · exact List.mem_cons_of_mem _ hm
        · exact hm

theorem mem_ancestors_iff {dir path : String} :
    dir ∈ ancestors path ↔ ∃ front, dir.toList = front ++ ['/'] ∧ dir.toList <+: path.toList := by
  rw [ancestors, List.mem_map]
  constructor
  · rintro ⟨cs, hcs, rfl⟩
    obtain ⟨front, rfl, hfront⟩ := mem_ancestorChars_iff.mp hcs
    exact ⟨front, by simp, by simpa using hfront⟩
  · rintro ⟨front, hdir, hpath⟩
    refine ⟨dir.toList, mem_ancestorChars_iff.mpr ⟨front, hdir, ?_⟩, String.ofList_toList⟩
    rwa [← hdir]

end ModularBuild.EntryPath
