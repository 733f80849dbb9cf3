import Mathlib.Data.List.Basic
import ModularBuild.Path
import ModularBuild.Proofs.Text.Pieces

/-! # Paths by their parts

The moves of a path are its steps without those that stay. Joining paths appends their moves, and
the path above another one has all its moves but the last. -/

namespace ModularBuild.Path

variable {p : Path}

/-- What a path is cut into are pieces between its slashes. -/
theorem mem_splitOn_of_mem_cut {piece : List Char} (h : piece ∈ p.cut.2) :
    piece ∈ Text.splitOn '/' p.chars := by
  unfold cut at h
  split at h
  case h_1 => cases h
  case h_2 rest hs =>
    split at h
    · cases h
    · exact hs ▸ List.mem_cons_of_mem _ h
  case h_3 rest hs => exact hs ▸ List.mem_cons_of_mem _ h
  case h_4 pieces _ _ _ => exact h

/-! ## Moves -/

/-- The steps of a path that lead away. -/
def moves (p : Path) : List Step := p.steps.filter (· ≠ .stay)

/-- The moves along the pieces between slashes. -/
def onward (pieces : List (List Char)) : List Step :=
  (pieces.filter fun piece => !idle piece).map Step.ofPiece

theorem onward_append (pieces rest : List (List Char)) :
    onward (pieces ++ rest) = onward pieces ++ onward rest := by
  rw [onward, List.filter_append, List.map_append]
  rfl

theorem onward_of_idle {pieces : List (List Char)} (h : ∀ piece ∈ pieces, idle piece = true) :
    onward pieces = [] := by
  rw [onward, List.filter_eq_nil_iff.mpr fun piece hpiece => by simp [h piece hpiece]]
  rfl

theorem onward_singleton {piece : List Char} (h : idle piece = false) :
    onward [piece] = [Step.ofPiece piece] := by
  simp [onward, h]

theorem filter_steps (pieces : List (List Char)) :
    ((pieces.filter (· ≠ [])).map Step.ofPiece).filter (· ≠ .stay) = onward pieces := by
  rw [List.filter_map, List.filter_filter, onward]
  congr 2
  funext piece
  have hstay : Step.ofPiece piece = .stay ↔ piece = ['.'] := by
    rw [Step.ofPiece]
    split
    · simp [*]
    · split <;> simp [*]
  rw [Bool.eq_iff_iff]
  simp [idle, hstay, and_comm]

theorem moves_eq (p : Path) : p.moves = onward (Text.splitOn '/' p.chars) := by
  rw [moves, steps]
  split
  · rw [List.filter_append, filter_steps]
    simp
  · exact filter_steps _

/-- The second path only adds pieces. -/
theorem splitOn_join (base : Path) {rel : Path} (h : rel.isAbsolute = false) :
    ∃ front, Text.splitOn '/' (base.join rel).chars = front ++ Text.splitOn '/' rel.chars ∧
      onward front = base.moves := by
  rw [moves_eq, join, h, if_neg Bool.false_ne_true]
  by_cases hbase : base.chars = []
  · refine ⟨[], ?_, by rw [hbase]; rfl⟩
    simp only [chars] at hbase ⊢
    simp [hbase]
  · by_cases hslash : base.chars.getLast? = some '/'
    · obtain ⟨front, hfront⟩ := List.getLast?_eq_some_iff.mp hslash
      refine ⟨Text.splitOn '/' front, ?_, ?_⟩
      · simp only [chars] at hslash hfront ⊢
        simp [hfront, ← Text.splitOn_append]
      · rw [hfront, Text.splitOn_concat_sep, onward_append]
        exact (List.append_nil _).symm
    · refine ⟨Text.splitOn '/' base.chars, ?_, rfl⟩
      simp only [chars] at hbase hslash ⊢
      simp [hbase, hslash, ← Text.splitOn_append]

theorem moves_join (base : Path) {rel : Path} (h : rel.isAbsolute = false) :
    (base.join rel).moves = base.moves ++ rel.moves := by
  obtain ⟨front, hsplit, hfront⟩ := base.splitOn_join h
  rw [moves_eq (base.join rel), hsplit, onward_append, hfront, ← moves_eq]

theorem isAbsolute_join (base : Path) {rel : Path} (h : rel.isAbsolute = false) :
    (base.join rel).isAbsolute = base.isAbsolute := by
  rw [join, h, if_neg Bool.false_ne_true]
  cases hbase : base.chars with
  | nil =>
    simp only [isAbsolute, chars] at hbase h ⊢
    simpa [hbase] using h
  | cons c cs =>
    simp only [isAbsolute, chars] at hbase ⊢
    split <;> simp [hbase]

theorem mem_chars_join {base rel : Path} {c : Char} (h : c ∈ (base.join rel).chars) :
    c ∈ base.chars ∨ c = '/' ∨ c ∈ rel.chars := by
  rw [join] at h
  split at h
  · exact .inr (.inr h)
  · split at h <;> simp only [chars, String.toList_append, List.mem_append] at h
    · exact h.imp_right .inr
    · exact (or_assoc.mp h).imp_right (Or.imp_left (by simp))

/-- Slashes at the end make no moves. -/
theorem moves_withoutSlashes (p : Path) : p.withoutSlashes.moves = p.moves := by
  have hslashes : ∀ cs : List Char,
      onward (Text.splitOn '/' (cs.dropWhile (· == '/')).reverse) =
        onward (Text.splitOn '/' cs.reverse) := by
    intro cs
    induction cs with
    | nil => rfl
    | cons c rest ih =>
      by_cases hc : c = '/'
      · rw [hc, List.dropWhile_cons_of_pos (by simp), ih, List.reverse_cons,
          Text.splitOn_concat_sep, onward_append]
        exact (List.append_nil _).symm
      · rw [List.dropWhile_cons_of_neg (by simpa using hc)]
  have htrim := hslashes p.chars.reverse
  rw [List.reverse_reverse] at htrim
  rw [moves_eq, moves_eq, ← htrim, withoutSlashes, chars, String.toList_ofList]

/-! ## The path above another one -/

/-- The last piece leads on; so no slash is left at the end. -/
def Tidy (p : Path) : Prop :=
  ∃ front piece, Text.splitOn '/' p.chars = front ++ [piece] ∧ idle piece = false

theorem Tidy.chars_ne_nil (h : p.Tidy) : p.chars ≠ [] := by
  obtain ⟨front, piece, hsplit, hidle⟩ := h
  intro hempty
  have hnothing : [] ++ [[]] = front ++ [piece] := by rw [← hsplit, hempty]; rfl
  obtain ⟨-, hpiece⟩ := List.append_inj' hnothing rfl
  cases hpiece
  cases hidle

theorem Tidy.getLast?_ne_slash (h : p.Tidy) : p.chars.getLast? ≠ some '/' := by
  obtain ⟨front, piece, hsplit, hidle⟩ := h
  intro hslash
  obtain ⟨cs, hcs⟩ := List.getLast?_eq_some_iff.mp hslash
  rw [hcs, Text.splitOn_concat_sep] at hsplit
  obtain ⟨-, hpiece⟩ := List.append_inj' hsplit rfl
  cases hpiece
  cases hidle

theorem Tidy.withoutSlashes_eq (h : p.Tidy) : p.withoutSlashes = p := by
  have hlast : p.chars.reverse.dropWhile (· == '/') = p.chars.reverse := by
    cases hrev : p.chars.reverse with
    | nil => rfl
    | cons c rest =>
      have hc : c ≠ '/' := by
        rintro rfl
        refine h.getLast?_ne_slash ?_
        rw [← List.head?_reverse, hrev]
        rfl
      rw [List.dropWhile_cons_of_neg (by simpa using hc)]
  rw [withoutSlashes, hlast, List.reverse_reverse]
  exact congrArg Path.mk String.ofList_toList

theorem Tidy.exists_steps (h : p.Tidy) {front : List Step} {step : Step}
    (hmoves : p.moves = front ++ [step]) :
    ∃ before, p.steps = before ++ [step] ∧ before.filter (· ≠ .stay) = front := by
  obtain ⟨pieces, piece, hsplit, hidle⟩ := id h
  rw [moves_eq, hsplit, onward_append, onward_singleton hidle] at hmoves
  obtain ⟨rfl, hstep⟩ := List.append_inj' hmoves rfl
  cases hstep
  have hne : piece ≠ [] := by
    rintro rfl
    cases hidle
  refine ⟨(pieces.filter (· ≠ [])).map Step.ofPiece, ?_, filter_steps pieces⟩
  rw [steps, if_neg h.getLast?_ne_slash, hsplit, List.filter_append, List.map_append]
  simp [hne]

/-- The pieces that the lead of a path is cut from. -/
def Lead.pieces : Lead → List (List Char)
  | root => [[]]
  | here => [['.']]
  | none => []

theorem splitOn_eq_cut (h : p.chars ≠ []) :
    Text.splitOn '/' p.chars = p.cut.1.pieces ++ p.cut.2 := by
  unfold cut
  split
  case h_1 hs => exact absurd hs (Text.splitOn_ne_nil _ _)
  case h_2 rest hs => rw [List.isEmpty_eq_false_iff.mpr h]; exact hs
  case h_3 rest hs => exact hs
  case h_4 pieces _ _ _ => rfl

theorem cut_of_empty (h : p.chars = []) : p.cut = (.none, []) := by
  rw [cut, h]
  rfl

theorem onward_cut (p : Path) : onward p.cut.2 = p.moves := by
  rw [moves_eq]
  by_cases h : p.chars = []
  · rw [cut_of_empty h, h]
    rfl
  · rw [splitOn_eq_cut h, onward_append]
    cases p.cut.1 <;> rfl

/-- A path with a move names something. -/
theorem not_idle_cut (h : p.moves ≠ []) : ¬ (p.cut.1 = .none && p.cut.2.all idle) = true := by
  intro hidle
  rw [Bool.and_eq_true, List.all_eq_true] at hidle
  rw [← onward_cut] at h
  exact h (onward_of_idle hidle.2)

theorem length_lt_of_beginning {above : Path} (h : above.chars <+: p.chars) (hne : above ≠ p) :
    above.chars.length < p.chars.length :=
  Nat.lt_of_le_of_ne h.length_le fun hlength =>
    hne (congrArg Path.mk (String.toList_inj.mp (h.eq_of_length hlength)))

theorem chars_spell {lead : Lead} {pieces : List (List Char)} (h : pieces ≠ []) :
    (spell lead pieces).chars = Text.joinWith ['/'] (lead.pieces ++ pieces) := by
  obtain ⟨piece, rest, rfl⟩ := List.exists_cons_of_ne_nil h
  rw [chars, spell, String.toList_ofList]
  cases lead <;> rfl

theorem spell_cut (p : Path) : spell p.cut.1 p.cut.2 = p := by
  refine congrArg Path.mk (String.toList_inj.mp ?_)
  change (spell p.cut.1 p.cut.2).chars = p.chars
  by_cases h : p.chars = []
  · rw [cut_of_empty h, h]
    rfl
  · have hjoin := Text.joinWith_splitOn '/' p.chars
    rw [splitOn_eq_cut h] at hjoin
    by_cases hpieces : p.cut.2 = []
    · rw [hpieces] at hjoin ⊢
      cases hlead : p.cut.1 with
      | here => rw [hlead] at hjoin; exact hjoin
      | root | none => rw [hlead] at hjoin; exact absurd hjoin.symm h
    · rw [chars_spell hpieces, hjoin]

theorem spell_prefix (lead : Lead) {front pieces : List (List Char)} (h : front <+: pieces) :
    (spell lead front).chars <+: (spell lead pieces).chars := by
  by_cases hfront : front = []
  · subst hfront
    by_cases hpieces : pieces = []
    · exact hpieces ▸ List.prefix_rfl
    · rw [chars_spell hpieces]
      obtain ⟨piece, rest, rfl⟩ := List.exists_cons_of_ne_nil hpieces
      cases lead with
      | root | here => exact ⟨_, rfl⟩
      | none => exact List.nil_prefix
  · have hpieces : pieces ≠ [] := fun hnil => hfront (List.prefix_nil.mp (hnil ▸ h))
    rw [chars_spell hfront, chars_spell hpieces]
    exact Text.joinWith_prefix _ ((List.prefix_append_right_inj _).mpr h)

theorem splitOn_spell {lead : Lead} {pieces : List (List Char)} (h : pieces ≠ [])
    (hslash : ∀ piece ∈ pieces, '/' ∉ piece) :
    Text.splitOn '/' (spell lead pieces).chars = lead.pieces ++ pieces := by
  rw [chars_spell h, Text.splitOn_joinWith (List.append_ne_nil_of_right_ne_nil _ h)]
  intro piece hpiece
  rcases List.mem_append.mp hpiece with hlead | hpiece
  · cases lead <;> simp [Lead.pieces] at hlead <;> simp [hlead]
  · exact hslash piece hpiece

theorem moves_spell {lead : Lead} {pieces : List (List Char)}
    (hslash : ∀ piece ∈ pieces, '/' ∉ piece) : (spell lead pieces).moves = onward pieces := by
  by_cases h : pieces = []
  · rw [h]
    cases lead <;> rfl
  · rw [moves_eq, splitOn_spell h hslash, onward_append]
    cases lead <;> rfl

theorem cut_of_isAbsolute (h : p.isAbsolute = true) : p.cut.1 = .root := by
  rw [isAbsolute, beq_iff_eq, List.head?_eq_some_iff] at h
  obtain ⟨rest, hrest⟩ := h
  rw [cut, hrest, Text.splitOn_cons_sep]
  rfl

theorem isAbsolute_spell {front : List (List Char)} (h : front <+: p.cut.2) :
    (spell p.cut.1 front).isAbsolute = p.isAbsolute := by
  obtain ⟨rest, hrest⟩ := spell_prefix p.cut.1 h
  rw [spell_cut] at hrest
  cases habove : (spell p.cut.1 front).chars with
  | cons c cs => rw [isAbsolute, isAbsolute, ← hrest, habove]; rfl
  | nil =>
    have hrelative : p.isAbsolute = false := by
      refine Bool.eq_false_iff.mpr fun habsolute => ?_
      rw [cut_of_isAbsolute habsolute, chars, spell, String.toList_ofList] at habove
      simp [Lead.text] at habove
    rw [hrelative, isAbsolute, habove]
    rfl

/-- Only idle pieces are left out at the end. -/
theorem exists_lastFirst (pieces : List (List Char)) :
    ∃ tail, pieces = (lastFirst pieces).reverse ++ tail ∧ ∀ piece ∈ tail, idle piece = true := by
  refine ⟨(pieces.reverse.takeWhile idle).reverse, ?_, fun piece hpiece => ?_⟩
  · rw [lastFirst, ← List.reverse_append, List.takeWhile_append_dropWhile, List.reverse_reverse]
  · exact List.all_eq_true.mp List.all_takeWhile piece (List.mem_reverse.mp hpiece)

theorem lastFirst_beginning (pieces : List (List Char)) :
    (lastFirst pieces).reverse <+: pieces := by
  obtain ⟨tail, hpieces, -⟩ := exists_lastFirst pieces
  exact ⟨tail, hpieces.symm⟩

theorem onward_lastFirst (pieces : List (List Char)) :
    onward (lastFirst pieces).reverse = onward pieces := by
  obtain ⟨tail, hpieces, htail⟩ := exists_lastFirst pieces
  calc onward (lastFirst pieces).reverse
      = onward ((lastFirst pieces).reverse ++ tail) := by
        rw [onward_append, onward_of_idle htail, List.append_nil]
    _ = onward pieces := by rw [← hpieces]

theorem idle_of_lastFirst {pieces : List (List Char)} {piece : List Char} {rest : List (List Char)}
    (h : lastFirst pieces = piece :: rest) : idle piece = false := by
  have hhead := List.head?_dropWhile_not idle pieces.reverse
  rw [show pieces.reverse.dropWhile idle = piece :: rest from h] at hhead
  simpa using hhead

/-- The path above a path that leads on has all of its moves but the last, and is spelled like
the beginning of it. -/
theorem exists_parent {front : List Step} {step : Step} (h : p.moves = front ++ [step]) :
    ∃ above, p.parent? = some above ∧ above.moves = front ∧ above.chars <+: p.chars ∧
      above.isAbsolute = p.isAbsolute ∧ (front ≠ [] → above.Tidy) := by
  have hmoves := onward_lastFirst p.cut.2
  rw [onward_cut, h] at hmoves
  cases hlast : lastFirst p.cut.2 with
  | nil => rw [hlast] at hmoves; simp [onward] at hmoves
  | cons piece rest =>
    rw [hlast, List.reverse_cons, onward_append,
      onward_singleton (idle_of_lastFirst hlast)] at hmoves
    obtain ⟨rfl, -⟩ := List.append_inj' hmoves rfl
    have hkept : rest.dropWhile idle = lastFirst rest.reverse := by
      rw [lastFirst, List.reverse_reverse]
    have hbeginning : (lastFirst rest.reverse).reverse <+: p.cut.2 := by
      have hrest : rest.reverse <+: (lastFirst p.cut.2).reverse := by
        rw [hlast, List.reverse_cons]
        exact List.prefix_append _ _
      exact ((lastFirst_beginning _).trans hrest).trans (lastFirst_beginning _)
    have hslash : ∀ piece ∈ (lastFirst rest.reverse).reverse, '/' ∉ piece := fun piece hpiece =>
      Text.not_mem_of_mem_splitOn (mem_splitOn_of_mem_cut (hbeginning.subset hpiece))
    refine ⟨spell p.cut.1 (lastFirst rest.reverse).reverse, ?_, ?_, ?_,
      isAbsolute_spell hbeginning, ?_⟩
    · simp only [parent?, hlast, hkept]
    · rw [moves_spell hslash, onward_lastFirst]
    · simpa only [spell_cut] using spell_prefix p.cut.1 hbeginning
    · intro hfront
      cases hrest : lastFirst rest.reverse with
      | nil => rw [← onward_lastFirst, hrest] at hfront; exact absurd rfl hfront
      | cons last others =>
        rw [hrest] at hslash
        refine ⟨p.cut.1.pieces ++ others.reverse, last, ?_, idle_of_lastFirst hrest⟩
        rw [splitOn_spell (by simp) hslash, List.reverse_cons, List.append_assoc]

/-! ## File names -/

/-- A single part that leads down. -/
structure IsPart (name : String) : Prop where
  slash : '/' ∉ name.toList
  leads : idle name.toList = false
  notUp : name.toList ≠ ['.', '.']

theorem IsPart.ofPiece_eq {name : String} (h : IsPart name) :
    Step.ofPiece name.toList = .down name := by
  have hhere : name.toList ≠ ['.'] := by
    intro he
    have hleads := h.leads
    rw [he] at hleads
    cases hleads
  rw [Step.ofPiece, if_neg hhere, if_neg h.notUp, String.ofList_toList]

theorem IsPart.isAbsolute_eq {name : String} (h : IsPart name) :
    (⟨name⟩ : Path).isAbsolute = false := by
  refine Bool.eq_false_iff.mpr fun habsolute => ?_
  rw [isAbsolute, beq_iff_eq] at habsolute
  exact h.slash (List.mem_of_head? habsolute)

theorem IsPart.splitOn_join {name : String} (h : IsPart name) (base : Path) : ∃ front,
    Text.splitOn '/' (base.join ⟨name⟩).chars = front ++ [name.toList] ∧
      onward front = base.moves := by
  obtain ⟨front, hsplit, hfront⟩ := base.splitOn_join h.isAbsolute_eq
  refine ⟨front, hsplit.trans ?_, hfront⟩
  exact congrArg _ (Text.splitOn_of_not_mem h.slash)

theorem IsPart.tidy_join {name : String} (h : IsPart name) (base : Path) :
    (base.join ⟨name⟩).Tidy := by
  obtain ⟨front, hsplit, -⟩ := h.splitOn_join base
  exact ⟨front, name.toList, hsplit, h.leads⟩

theorem IsPart.moves_join {name : String} (h : IsPart name) (base : Path) :
    (base.join ⟨name⟩).moves = base.moves ++ [.down name] := by
  obtain ⟨front, hsplit, hfront⟩ := h.splitOn_join base
  rw [moves_eq, hsplit, onward_append, hfront, onward_singleton h.leads, h.ofPiece_eq]

/-- Only short names have a meaning of their own. -/
theorem isPart_of_long {name : String} (hslash : '/' ∉ name.toList)
    (hlong : 2 < name.toList.length) : IsPart name := by
  have hother : ∀ other : List Char, other.length ≤ 2 → name.toList ≠ other := by
    rintro other hshort rfl
    omega
  refine ⟨hslash, ?_, hother _ (by decide)⟩
  exact idle_eq_false_iff.mpr ⟨hother [] (by decide), hother ['.'] (by decide)⟩

theorem isPart_append {name ending : String} (hname : '/' ∉ name.toList)
    (hending : '/' ∉ ending.toList) (hlong : 2 < ending.toList.length) :
    IsPart (name ++ ending) := by
  refine isPart_of_long ?_ ?_
  · rw [String.toList_append, List.mem_append, not_or]
    exact ⟨hname, hending⟩
  · rw [String.toList_append, List.length_append]
    omega

/-- A path that ends in a piece that leads on ends in it also without its lead. -/
theorem Tidy.exists_lastFirst {front : List (List Char)} {piece : List Char}
    (hsplit : Text.splitOn '/' p.chars = front ++ [piece]) (hidle : idle piece = false) :
    ∃ rest, lastFirst p.cut.2 = piece :: rest := by
  rw [splitOn_eq_cut (Tidy.chars_ne_nil ⟨front, piece, hsplit, hidle⟩)] at hsplit
  rcases List.eq_nil_or_concat' p.cut.2 with hnil | ⟨init, last, hcut⟩
  · -- the lead alone does not lead on
    rw [hnil, List.append_nil] at hsplit
    have hmem : piece ∈ p.cut.1.pieces := by simp [hsplit]
    cases hlead : p.cut.1 <;> rw [hlead] at hmem <;> simp [Lead.pieces] at hmem <;>
      rw [hmem] at hidle <;> cases hidle
  · rw [hcut, ← List.append_assoc] at hsplit
    obtain ⟨-, hpiece⟩ := List.append_inj' hsplit rfl
    cases hpiece
    refine ⟨init.reverse, ?_⟩
    rw [hcut, lastFirst, List.reverse_append, List.reverse_singleton, List.singleton_append,
      List.dropWhile_cons_of_neg (by simp [hidle])]

theorem fileName?_eq_some_iff {name : String} : p.fileName? = some name ↔
    ∃ rest, lastFirst p.cut.2 = name.toList :: rest ∧ name.toList ≠ ['.', '.'] := by
  unfold fileName?
  constructor
  · intro h
    split at h
    · cases h
    · next piece rest hlast =>
      split at h
      · cases h
      · next hup =>
        cases h
        rw [String.toList_ofList]
        exact ⟨rest, hlast, hup⟩
  · intro ⟨rest, hlast, hup⟩
    rw [hlast]
    simp [hup]

theorem IsPart.fileName?_join {name : String} (h : IsPart name) (base : Path) :
    (base.join ⟨name⟩).fileName? = some name := by
  obtain ⟨front, hsplit, -⟩ := h.splitOn_join base
  obtain ⟨rest, hlast⟩ := Tidy.exists_lastFirst hsplit h.leads
  exact fileName?_eq_some_iff.mpr ⟨rest, hlast, h.notUp⟩

theorem isPart_of_fileName? {name : String} (h : p.fileName? = some name) : IsPart name := by
  obtain ⟨rest, hlast, hup⟩ := fileName?_eq_some_iff.mp h
  have hpiece : name.toList ∈ p.cut.2 :=
    (lastFirst_beginning p.cut.2).subset (by simp [hlast])
  exact ⟨Text.not_mem_of_mem_splitOn (mem_splitOn_of_mem_cut hpiece), idle_of_lastFirst hlast, hup⟩

/-- The last move of a path with a file name is down to it. -/
theorem exists_moves_of_fileName? {name : String} (h : p.fileName? = some name) :
    ∃ front, p.moves = front ++ [.down name] := by
  have hpart := isPart_of_fileName? h
  obtain ⟨rest, hlast, -⟩ := fileName?_eq_some_iff.mp h
  refine ⟨onward rest.reverse, ?_⟩
  rw [← onward_cut, ← onward_lastFirst, hlast, List.reverse_cons, onward_append,
    onward_singleton hpart.leads, hpart.ofPiece_eq]

/-- A name is cut at a dot with something before it and no dot after it, or not at all. -/
theorem cutExtension_cases (cs : List Char) : cutExtension cs = (cs, none) ∨
    ∃ stem ext, cutExtension cs = (stem, some ext) ∧ stem ≠ [] ∧ '.' ∉ ext ∧
      cs = stem ++ '.' :: ext := by
  have hcut := List.takeWhile_append_dropWhile (p := (· != '.')) (l := cs.reverse)
  have hdrop : cs.reverse.drop (cs.reverse.takeWhile (· != '.')).length =
      cs.reverse.dropWhile (· != '.') := by
    have hleft := congrArg (List.drop (cs.reverse.takeWhile (· != '.')).length) hcut
    rw [List.drop_left] at hleft
    exact hleft.symm
  unfold cutExtension
  simp only [hdrop]
  split
  · exact .inl rfl
  · next dot stem hstem =>
    split
    · exact .inl rfl
    · next hne =>
      have hdot := List.head?_dropWhile_not (· != '.') cs.reverse
      rw [hstem] at hdot hcut
      obtain rfl : dot = '.' := by simpa using hdot
      refine .inr ⟨stem.reverse, _, rfl, by simpa using hne, fun hmem => ?_, ?_⟩
      · have hpass := List.all_eq_true.mp List.all_takeWhile _ (List.mem_reverse.mp hmem)
        simp at hpass
      · have hback := congrArg List.reverse hcut
        rw [List.reverse_reverse] at hback
        exact hback.symm.trans (by simp)

theorem cutExtension_append {stem ext : List Char} (hstem : stem ≠ []) (hext : '.' ∉ ext) :
    cutExtension (stem ++ '.' :: ext) = (stem, some ext) := by
  have hreverse : (stem ++ '.' :: ext).reverse = ext.reverse ++ '.' :: stem.reverse := by simp
  have hpass : ∀ c ∈ ext.reverse, (c != '.') = true := by
    intro c hc
    rw [bne_iff_ne]
    rintro rfl
    exact hext (List.mem_reverse.mp hc)
  unfold cutExtension
  simp only [hreverse, List.takeWhile_append_of_pos hpass]
  simp [hstem]

/-- The extension is what follows the last dot, if something comes before that. -/
theorem cutExtension_eq_some_iff {cs ext : List Char} (hext : '.' ∉ ext) :
    (cutExtension cs).2 = some ext ↔ ∃ stem, stem ≠ [] ∧ cs = stem ++ '.' :: ext := by
  constructor
  · intro h
    rcases cutExtension_cases cs with hnone | ⟨stem, _, hcut, hstem, -, hcs⟩
    · rw [hnone] at h
      cases h
    · rw [hcut] at h
      cases h
      exact ⟨stem, hstem, hcs⟩
  · rintro ⟨stem, hstem, rfl⟩
    rw [cutExtension_append hstem hext]

/-- Another extension makes another name. -/
theorem cutExtension_replace_iff {cs ext : List Char} :
    (cutExtension cs).1 ++ '.' :: ext = cs ↔ (cutExtension cs).2 = some ext := by
  rcases cutExtension_cases cs with hnone | ⟨stem, _, hcut, -, -, hcs⟩
  · rw [hnone]
    simp
  · rw [hcut, hcs]
    simp [eq_comm]

theorem hasExtension_iff {name ext : String} (h : p.fileName? = some name) :
    p.hasExtension ext = true ↔ (cutExtension name.toList).2 = some ext.toList := by
  rw [hasExtension, beq_iff_eq, extension?, h, Option.bind_some, Option.map_eq_some_iff]
  constructor
  · intro ⟨cs, hcs, he⟩
    rw [hcs, ← he, String.toList_ofList]
  · intro hcs
    exact ⟨_, hcs, String.ofList_toList⟩

/-- What stands before the extension of a name is not empty. -/
theorem IsPart.hasExtension_join {name ext : String} (h : IsPart name) (base : Path)
    (hext : '.' ∉ ext.toList) : (base.join ⟨name⟩).hasExtension ext = true ↔
      ∃ stem, stem ≠ "" ∧ name = stem ++ "." ++ ext := by
  rw [hasExtension_iff (h.fileName?_join base), cutExtension_eq_some_iff hext]
  constructor
  · intro ⟨stem, hstem, hname⟩
    refine ⟨String.ofList stem, ?_, ?_⟩
    · intro hnil
      exact hstem (by rw [← String.toList_ofList (l := stem), hnil]; rfl)
    · rw [← String.toList_inj, hname]
      simp
  · intro ⟨stem, hstem, hname⟩
    refine ⟨stem.toList, ?_, ?_⟩
    · intro hnil
      exact hstem (String.toList_inj.mp hnil)
    · rw [hname]
      simp

/-! ## Other extensions -/

theorem fileName?_of_moves {front : List Step} {name : String}
    (h : p.moves = front ++ [.down name]) : p.fileName? = some name := by
  have hmoves := onward_lastFirst p.cut.2
  rw [onward_cut, h] at hmoves
  cases hlast : lastFirst p.cut.2 with
  | nil => rw [hlast] at hmoves; simp [onward] at hmoves
  | cons piece rest =>
    rw [hlast, List.reverse_cons, onward_append,
      onward_singleton (idle_of_lastFirst hlast)] at hmoves
    obtain ⟨-, hstep⟩ := List.append_inj' hmoves rfl
    have hpiece := (List.cons.inj hstep).1
    unfold Step.ofPiece at hpiece
    split at hpiece
    · cases hpiece
    · split at hpiece
      · cases hpiece
      · next hup =>
        cases hpiece
        refine fileName?_eq_some_iff.mpr ⟨rest, ?_, ?_⟩
        · rw [hlast, String.toList_ofList]
        · rwa [String.toList_ofList]

/-- A path that does not start with a slash has no empty piece at its start. -/
theorem head?_cut_of_none (h : p.cut.1 = .none) : p.cut.2.head? ≠ some [] := by
  unfold cut at h ⊢
  split at h
  case h_1 => simp
  case h_2 rest hs =>
    split at h
    · next hempty => rw [if_pos hempty]; simp
    · cases h
  case h_3 => cases h
  case h_4 _ hroot _ =>
    intro hhead
    obtain ⟨rest, hrest⟩ := List.head?_eq_some_iff.mp hhead
    exact hroot rest hrest

theorem spell_eq_nil {lead : Lead} {pieces : List (List Char)}
    (h : (spell lead pieces).chars = []) :
    lead = .none ∧ (pieces = [] ∨ pieces.head? = some []) := by
  cases pieces with
  | nil => cases lead <;> simp [chars, spell, Lead.text, Text.joinWith] at h ⊢
  | cons piece rest =>
    rw [chars_spell (List.cons_ne_nil _ _)] at h
    cases lead <;> simp [Lead.pieces, Text.joinWith_cons] at h ⊢
    exact h.1

/-- A last name changes nothing about where a path starts. -/
theorem isAbsolute_spell_concat {front : List (List Char)} {name : String}
    (h : front <+: p.cut.2) (hname : IsPart name) :
    (spell p.cut.1 (front ++ [name.toList])).isAbsolute = p.isAbsolute := by
  rw [← isAbsolute_spell h]
  cases hfront : (spell p.cut.1 front).chars with
  | cons c cs =>
    obtain ⟨rest, hrest⟩ := spell_prefix p.cut.1 (List.prefix_append front [name.toList])
    rw [isAbsolute, isAbsolute, ← hrest, hfront]
    rfl
  | nil =>
    obtain ⟨hlead, hnil | hhead⟩ := spell_eq_nil hfront
    · have hspell : spell .none [name.toList] = ⟨name⟩ := congrArg Path.mk String.ofList_toList
      rw [hlead, hnil]
      exact (congrArg isAbsolute hspell).trans hname.isAbsolute_eq
    · obtain ⟨rest, rfl⟩ := List.head?_eq_some_iff.mp hhead
      obtain ⟨others, hothers⟩ := h
      refine absurd ?_ (head?_cut_of_none hlead)
      rw [← hothers]
      rfl

/-- The name with the extension in place of its own. -/
def renamed (name ext : String) : String :=
  String.ofList ((cutExtension name.toList).1 ++ '.' :: ext.toList)

theorem isPart_renamed {name ext : String} (hname : IsPart name) (hslash : '/' ∉ ext.toList)
    (hext : ext ≠ "") : IsPart (renamed name ext) := by
  have hne : name.toList ≠ [] := by
    intro hnil
    have hleads := hname.leads
    rw [hnil] at hleads
    cases hleads
  have hstem : (cutExtension name.toList).1 ≠ [] ∧ (cutExtension name.toList).1 ⊆ name.toList := by
    rcases cutExtension_cases name.toList with hcut | ⟨stem, _, hcut, hstem, -, hcs⟩
    · rw [hcut]
      exact ⟨hne, List.Subset.refl _⟩
    · rw [hcut, hcs]
      exact ⟨hstem, List.subset_append_left _ _⟩
  unfold renamed
  refine isPart_of_long ?_ ?_
  · rw [String.toList_ofList, List.mem_append, not_or]
    exact ⟨fun hmem => hname.slash (hstem.2 hmem), by simpa using hslash⟩
  · have hlength := List.length_pos_of_ne_nil hstem.1
    have hlong : 0 < ext.toList.length :=
      List.length_pos_of_ne_nil fun hnil => hext (String.toList_inj.mp hnil)
    rw [String.toList_ofList, List.length_append, List.length_cons]
    omega

theorem renamed_eq_iff {name ext : String} :
    renamed name ext = name ↔ (cutExtension name.toList).2 = some ext.toList := by
  rw [← cutExtension_replace_iff, renamed, ← String.toList_inj, String.toList_ofList]

/-- Only the last move changes with the extension. -/
theorem exists_moves_withExtension {name ext : String} (h : p.fileName? = some name)
    (hslash : '/' ∉ ext.toList) (hext : ext ≠ "") : ∃ front, p.moves = front ++ [.down name] ∧
      (p.withExtension ext).moves = front ++ [.down (renamed name ext)] ∧
      (p.withExtension ext).isAbsolute = p.isAbsolute := by
  have hpart := isPart_of_fileName? h
  have hrenamed := isPart_renamed hpart hslash hext
  obtain ⟨rest, hlast, hup⟩ := fileName?_eq_some_iff.mp h
  have hbeginning : rest.reverse <+: p.cut.2 := by
    refine List.IsPrefix.trans ?_ (lastFirst_beginning p.cut.2)
    rw [hlast, List.reverse_cons]
    exact List.prefix_append _ _
  have heq : p.withExtension ext =
      spell p.cut.1 (rest.reverse ++ [(renamed name ext).toList]) := by
    unfold withExtension
    simp only [hlast]
    rw [if_neg hup, List.reverse_cons, renamed, String.toList_ofList]
  refine ⟨onward rest.reverse, ?_, ?_, ?_⟩
  · rw [← onward_cut, ← onward_lastFirst, hlast, List.reverse_cons, onward_append,
      onward_singleton hpart.leads, hpart.ofPiece_eq]
  · rw [heq, moves_spell, onward_append, onward_singleton hrenamed.leads, hrenamed.ofPiece_eq]
    refine List.forall_mem_append.mpr ⟨fun piece hpiece => ?_, by simpa using hrenamed.slash⟩
    exact Text.not_mem_of_mem_splitOn (mem_splitOn_of_mem_cut (hbeginning.subset hpiece))
  · rw [heq, isAbsolute_spell_concat hbeginning hrenamed]

theorem withExtension_of_none {ext : String} (h : p.fileName? = none) :
    p.withExtension ext = p := by
  unfold fileName? at h
  unfold withExtension
  dsimp only
  split at h
  · rfl
  · split at h
    · next hup => exact if_pos hup
    · cases h

end ModularBuild.Path
