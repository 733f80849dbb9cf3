import ModularBuild.Proofs.FileTree.Growth
import ModularBuild.Proofs.Path

/-! # Making directories below a directory

A walk that ends in a directory is one of its moves only: steps that stay do not matter, and what
comes after it goes on from where it ends. So making the directories of a path below an existing one
succeeds if no file or link is in the way, and makes nothing else. -/

namespace ModularBuild.FileTree

variable {t t' : FileTree} {links : Nat} {here loc : Location} {steps rest : List Path.Step}
  {spot : Spot} {name : String}

/-! ## Walks to directories -/

theorem filter_moves (steps : List Path.Step) :
    (steps.filter (· ≠ .stay)).filter (· ≠ .stay) = steps.filter (· ≠ .stay) := by
  rw [List.filter_filter]
  simp

theorem Walk.stays {before : List Path.Step} (hbefore : ∀ step ∈ before, ¬ (step ≠ .stay))
    (h : Walk t links here rest spot) : Walk t links here (before ++ rest) spot := by
  induction before with
  | nil => exact h
  | cons step before ih =>
    rw [List.forall_mem_cons, not_ne_iff] at hbefore
    obtain ⟨rfl, hbefore⟩ := hbefore
    exact .stay (ih hbefore)

/-- Other steps that stay do not lead elsewhere. -/
theorem Walk.of_filter_eq {steps' : List Path.Step}
    (h : Walk t links here steps (.occupied loc .directory))
    (hsteps : steps'.filter (· ≠ .stay) = steps.filter (· ≠ .stay)) :
    Walk t links here steps' (.occupied loc .directory) := by
  generalize hspot : Spot.occupied loc .directory = spot at h ⊢
  induction h generalizing steps' with
  | here =>
    rw [← List.append_nil steps']
    refine .stays (fun step hstep => ?_) .here
    simpa using List.filter_eq_nil_iff.mp hsteps step hstep
  | stay _ ih => exact ih hsteps hspot
  | vacant | file => cases hspot
  | up _ ih =>
    obtain ⟨before, after, rfl, hbefore, -, hafter⟩ := List.filter_eq_cons_iff.mp hsteps
    exact .stays (by simpa using hbefore) (.up (ih hafter hspot))
  | directory hname he _ ih =>
    obtain ⟨before, after, rfl, hbefore, -, hafter⟩ := List.filter_eq_cons_iff.mp hsteps
    exact .stays (by simpa using hbefore) (.directory hname he (ih hafter hspot))
  | link hname he htarget _ ih =>
    obtain ⟨before, after, rfl, hbefore, -, hafter⟩ := List.filter_eq_cons_iff.mp hsteps
    refine .stays (by simpa using hbefore) (.link hname he htarget (ih ?_ hspot))
    rw [List.filter_append, List.filter_append, hafter]

/-- What comes after a walk to a directory is a walk from there. -/
theorem Walk.exists_resolveFrom_append (h : Walk t links here steps (.occupied loc .directory)) :
    ∃ left, ∀ rest, t.resolveFrom true links here (steps ++ rest) =
      t.resolveFrom true (left + 1) loc rest := by
  generalize hspot : Spot.occupied loc .directory = spot at h
  induction h with
  | @here links here =>
    cases hspot
    exact ⟨links, fun _ => rfl⟩
  | @stay links here steps spot _ ih =>
    obtain ⟨left, hleft⟩ := ih hspot
    refine ⟨left, fun rest => (hleft rest).symm ▸ ?_⟩
    cases links <;> rfl
  | @up links here steps spot _ ih =>
    obtain ⟨left, hleft⟩ := ih hspot
    refine ⟨left, fun rest => (hleft rest).symm ▸ ?_⟩
    cases links <;> rfl
  | vacant | file => cases hspot
  | @directory links here name steps spot hname he _ ih =>
    obtain ⟨left, hleft⟩ := ih hspot
    refine ⟨left, fun rest => ?_⟩
    rw [← hleft]
    cases links with
    | zero => rfl
    | succ links => simp [resolveFrom, advance, Nat.not_lt.mpr hname, he]
  | link hname he htarget _ ih =>
    obtain ⟨left, hleft⟩ := ih hspot
    refine ⟨left, fun rest => ?_⟩
    rw [← hleft, List.append_assoc]
    simp [resolveFrom, advance, Nat.not_lt.mpr hname, he, htarget]

theorem resolveFrom_directory (hname : name.utf8ByteSize ≤ maxNameBytes)
    (he : t.entry? (here ++ [name]) = some .directory) :
    t.resolveFrom true (links + 1) here (.down name :: rest) =
      t.resolveFrom true (links + 1) (here ++ [name]) rest := by
  simp [resolveFrom, advance, Nat.not_lt.mpr hname, he]

theorem resolveFrom_missing (hname : name.utf8ByteSize ≤ maxNameBytes)
    (he : t.entry? (here ++ [name]) = none) :
    t.resolveFrom true (links + 1) here (.down name :: rest) =
      if rest.isEmpty then .ok (.vacant (here ++ [name])) else .error .notFound := by
  simp [resolveFrom, advance, Nat.not_lt.mpr hname, he]

/-- Directories and links stay, and so do walks that see nothing else. -/
theorem Grown.walk_to_directory {written : Location → Bool} (hg : Grown written t t')
    (h : Walk t links here steps (.occupied loc .directory)) :
    Walk t' links here steps (.occupied loc .directory) := by
  generalize hspot : Spot.occupied loc .directory = spot at h ⊢
  induction h with
  | here => exact .here
  | stay _ ih => exact .stay (ih hspot)
  | up _ ih => exact .up (ih hspot)
  | vacant | file => cases hspot
  | directory hname he _ ih => exact .directory hname (hg.directory _ he) (ih hspot)
  | link hname he htarget _ ih =>
    exact .link hname ((hg.link _ _).mpr he) htarget (ih hspot)

/-- A walk that ends with a name goes through the directory that this is looked up in. -/
theorem Walk.exists_above
    (h : Walk t links here (steps ++ [.down name]) (.occupied loc .directory)) :
    name.utf8ByteSize ≤ maxNameBytes ∧ ∃ above,
      Walk t links here steps (.occupied above .directory) ∧
        (t.entry? (above ++ [name])).isSome = true := by
  generalize hall : steps ++ [.down name] = all at h
  generalize hspot : Spot.occupied loc .directory = spot at h
  induction h generalizing steps with
  | here => simp at hall
  | vacant | file => cases hspot
  | stay _ ih =>
    cases steps with
    | nil => cases hall
    | cons step steps =>
      cases hall
      obtain ⟨hname, above, hwalk, he⟩ := ih rfl hspot
      exact ⟨hname, above, .stay hwalk, he⟩
  | up _ ih =>
    cases steps with
    | nil => cases hall
    | cons step steps =>
      cases hall
      obtain ⟨hname, above, hwalk, he⟩ := ih rfl hspot
      exact ⟨hname, above, .up hwalk, he⟩
  | directory hdir he h ih =>
    cases steps with
    | nil =>
      cases hall
      cases h
      exact ⟨hdir, _, .here, by rw [he]; rfl⟩
    | cons step steps =>
      cases hall
      obtain ⟨hname, above, hwalk, habove⟩ := ih rfl hspot
      exact ⟨hname, above, .directory hdir he hwalk, habove⟩
  | link hlink he htarget _ ih =>
    cases steps with
    | nil =>
      cases hall
      exact ⟨hlink, _, .here, by rw [he]; rfl⟩
    | cons step steps =>
      cases hall
      obtain ⟨hname, above, hwalk, habove⟩ := ih (List.append_assoc ..) hspot
      exact ⟨hname, above, .link hlink he htarget hwalk, habove⟩

/-- The moves lead down to a directory, from the root or from the current directory. -/
def LeadsTo (t : FileTree) (absolute : Bool) (moves : List Path.Step) (loc : Location) : Prop :=
  Walk t (maxLinks + 1) (if absolute then [] else t.current) moves (.occupied loc .directory)

section
variable {p : Path} {absolute : Bool} {moves : List Path.Step}

theorem walk_iff_resolveFrom : Walk t links here steps spot ↔
    t.resolveFrom true links here steps = .ok spot := ⟨Walk.resolveFrom_eq, walk_of_resolveFrom⟩

theorem stat_directory_iff : t.stat p = .ok (loc, .directory) ↔
    checkSpelling p = .ok () ∧ t.LeadsTo p.isAbsolute p.moves loc := by
  have hmoves : p.moves.filter (· ≠ .stay) = p.steps.filter (· ≠ .stay) := filter_moves p.steps
  rw [stat_eq_ok_iff, follow_eq_ok_iff]
  exact and_congr_right fun _ => ⟨(·.of_filter_eq hmoves), (·.of_filter_eq hmoves.symm)⟩

theorem LeadsTo.grown {written : Location → Bool} (h : t.LeadsTo absolute moves loc)
    (hg : Grown written t t') : t'.LeadsTo absolute moves loc := by
  rw [LeadsTo, hg.current]
  exact hg.walk_to_directory h

theorem LeadsTo.exists_resolveFrom (h : t.LeadsTo p.isAbsolute moves loc)
    (hsteps : steps.filter (· ≠ .stay) = moves) : ∃ left, ∀ rest,
      t.resolveFrom true (maxLinks + 1) (t.start p) (steps ++ rest) =
        t.resolveFrom true (left + 1) loc rest := by
  subst hsteps
  exact Walk.exists_resolveFrom_append (Walk.of_filter_eq h (filter_moves steps).symm)

theorem LeadsTo.down (h : t.LeadsTo absolute moves loc) (hname : name.utf8ByteSize ≤ maxNameBytes)
    (he : t.entry? (loc ++ [name]) = some .directory) :
    t.LeadsTo absolute (moves ++ [.down name]) (loc ++ [name]) := by
  obtain ⟨left, hleft⟩ := Walk.exists_resolveFrom_append h
  refine walk_iff_resolveFrom.mpr ?_
  rw [hleft, resolveFrom_directory hname he]
  rfl

/-- One after the other the names are directories below the location. -/
def Through (t : FileTree) (loc : Location) (names : List String) : Prop :=
  ∀ front, front <+: names → front ≠ [] → t.entry? (loc ++ front) = some .directory

theorem through_concat {names : List String} : t.Through loc (names ++ [name]) ↔
    t.Through loc names ∧ t.entry? (loc ++ (names ++ [name])) = some .directory := by
  constructor
  · intro h
    exact ⟨fun front hfront => h front (hfront.trans (List.prefix_append _ _)),
      h _ List.prefix_rfl (by simp)⟩
  · rintro ⟨hnames, hname⟩ front hfront hne
    rcases List.prefix_concat_iff.mp hfront with rfl | hfront
    · exact hname
    · exact hnames front hfront hne

theorem through_cons {names : List String} : t.Through loc (name :: names) ↔
    t.entry? (loc ++ [name]) = some .directory ∧ t.Through (loc ++ [name]) names := by
  constructor
  · intro h
    refine ⟨h [name] (List.prefix_append [name] names) (List.cons_ne_nil _ _),
      fun front hfront _ => ?_⟩
    rw [List.append_assoc]
    exact h (name :: front) (List.cons_prefix_cons.mpr ⟨rfl, hfront⟩) (List.cons_ne_nil _ _)
  · rintro ⟨hname, hnames⟩ (_ | ⟨first, front⟩) hfront hne
    · exact absurd rfl hne
    · obtain ⟨rfl, htail⟩ := List.cons_prefix_cons.mp hfront
      by_cases hnil : front = []
      · rw [hnil]
        exact hname
      · rw [List.append_cons]
        exact hnames front htail hnil

theorem Through.grown {names : List String} (h : t.Through loc names)
    (hg : Grown (fun _ => false) t t') : t'.Through loc names :=
  fun front hfront hne => hg.directory _ (h front hfront hne)

theorem through_nil : t.Through loc [] :=
  fun _ hfront hne => absurd (List.prefix_nil.mp hfront) hne

/-- A walk down names that are not links goes through directories. -/
theorem Walk.through {names : List String} (h : Walk t links here steps spot)
    (hsteps : steps.filter (· ≠ .stay) = names.map .down)
    (hlinks : ∀ l target, l ≠ [] → t.entry? (here ++ l) ≠ some (.link target)) :
    t.Through here names.dropLast ∧ spot.location = here ++ names := by
  have hlast : ∀ {name : String} {names : List String} {here : Location},
      Path.Step.down name :: [] = names.map .down →
      t.Through here names.dropLast ∧ here ++ [name] = here ++ names := by
    intro name names here hnames
    obtain ⟨_, rest, rfl, hname, hrest⟩ := List.map_eq_cons_iff.mp hnames.symm
    cases hname
    rw [List.map_eq_nil_iff.mp hrest]
    exact ⟨through_nil, rfl⟩
  induction h generalizing names with
  | here =>
    rw [List.map_eq_nil_iff.mp hsteps.symm]
    exact ⟨through_nil, (List.append_nil _).symm⟩
  | stay _ ih => exact ih hsteps hlinks
  | up => cases names <;> cases hsteps
  | vacant | file => exact hlast hsteps
  | @directory links here first steps spot hname he hwalk ih =>
    obtain ⟨_, rest, rfl, hfirst, hrest⟩ := List.map_eq_cons_iff.mp hsteps.symm
    cases hfirst
    obtain ⟨hthrough, hspot⟩ := ih hrest.symm fun l target _ => by
      rw [List.append_assoc]
      exact hlinks _ target (List.cons_ne_nil _ _)
    rw [hspot, ← List.append_cons]
    refine ⟨?_, rfl⟩
    cases rest with
    | nil => exact through_nil
    | cons next rest =>
      rw [List.dropLast_cons_of_ne_nil (List.cons_ne_nil _ _)]
      exact through_cons.mpr ⟨he, hthrough⟩
  | link _ he => exact absurd he (hlinks _ _ (List.cons_ne_nil _ _))

theorem LeadsTo.through {names : List String} (h : t.LeadsTo absolute moves loc)
    (hnames : ∀ name ∈ names, name.utf8ByteSize ≤ maxNameBytes) (hthrough : t.Through loc names) :
    t.LeadsTo absolute (moves ++ names.map .down) (loc ++ names) := by
  induction names using List.reverseRecOn with
  | nil => rwa [List.map_nil, List.append_nil, List.append_nil]
  | append_singleton names name ih =>
    rw [List.forall_mem_append] at hnames
    obtain ⟨hfront, he⟩ := through_concat.mp hthrough
    rw [← List.append_assoc] at he
    rw [List.map_append, ← List.append_assoc, ← List.append_assoc]
    exact (ih hnames.1 hfront).down (hnames.2 name List.mem_cons_self) he

/-- Where no file or link is in the way, either all names are directories or there is a first one
that is missing. -/
theorem through_or_missing {names : List String}
    (hfree : ∀ front, front <+: names → front ≠ [] → t.Passable (loc ++ front)) :
    t.Through loc names ∨ ∃ front next more, names = front ++ next :: more ∧
      t.Through loc front ∧ t.entry? (loc ++ front ++ [next]) = none := by
  induction names using List.reverseRecOn with
  | nil => exact .inl through_nil
  | append_singleton names name ih =>
    rcases ih fun front hfront => hfree front (hfront.trans (List.prefix_append _ _)) with
      hnames | ⟨front, next, more, rfl, hfront, hnext⟩
    · rcases hfree _ List.prefix_rfl (by simp) with hmissing | he
      · exact .inr ⟨names, name, [], rfl, hnames, by rwa [List.append_assoc]⟩
      · exact .inl (through_concat.mpr ⟨hnames, he⟩)
    · exact .inr ⟨front, next, more ++ [name], by simp, hfront, hnext⟩

/-! ## Making one directory -/

theorem directoryAt_of_walk
    (h : Walk t (maxLinks + 1) (t.start p) steps (.occupied loc .directory)) :
    t.directoryAt p steps = .ok loc := by
  rw [directoryAt, h.resolveFrom_eq]
  rfl

/-- A directory that is there is not made again. -/
theorem makeDirectory_of_stat (h : t.stat p = .ok (loc, .directory)) :
    t.makeDirectory p = .error .alreadyExists := by
  obtain ⟨hspelling, hwalk⟩ := stat_directory_iff.mp h
  have hsteps : Walk t (maxLinks + 1) (t.start p) p.withoutSlashes.steps
      (.occupied loc .directory) := by
    refine Walk.of_filter_eq hwalk (Eq.trans ?_ (filter_moves p.steps).symm)
    exact p.moves_withoutSlashes
  refine Outcome.bind_eq_error_iff.mpr (.inr ⟨(), hspelling, ?_⟩)
  dsimp only
  split
  case h_1 name hlast =>
    obtain ⟨before, hbefore⟩ := List.getLast?_eq_some_iff.mp hlast
    rw [hbefore] at hsteps ⊢
    obtain ⟨hname, above, habove, he⟩ := hsteps.exists_above
    rw [List.dropLast_concat, directoryAt_of_walk habove]
    simp [bind, Except.bind, Nat.not_lt.mpr hname, he, throw, throwThe, MonadExceptOf.throw]
  case h_2 =>
    rw [directoryAt_of_walk hsteps]
    rfl

/-- Making a directory where nothing or a directory stands. -/
theorem makeDirectory_eq (hp : p.Tidy) (hspelling : checkSpelling p = .ok ())
    (hmoves : p.moves = moves ++ [.down name]) (hname : name.utf8ByteSize ≤ maxNameBytes)
    (h : t.LeadsTo p.isAbsolute moves loc) : t.makeDirectory p =
      if (t.entry? (loc ++ [name])).isSome then .error .alreadyExists
      else .ok (t.put (loc ++ [name]) .directory) := by
  obtain ⟨before, hsteps, hbefore⟩ := hp.exists_steps hmoves
  have habove : t.directoryAt p before = .ok loc := by
    obtain ⟨left, hleft⟩ := h.exists_resolveFrom hbefore
    refine directoryAt_of_walk (walk_iff_resolveFrom.mpr ?_)
    rw [← List.append_nil before, hleft]
    rfl
  rw [makeDirectory, hspelling, hp.withoutSlashes_eq, hsteps]
  simp only [List.getLast?_concat, List.dropLast_concat, habove]
  simp [bind, Except.bind, Nat.not_lt.mpr hname, throw, throwThe, MonadExceptOf.throw, pure,
    Except.pure]

/-- Above a directory that is to be made, one is missing. -/
theorem makeDirectory_missing {next : String} {more : List String} (hp : p.Tidy)
    (hspelling : checkSpelling p = .ok ())
    (hmoves : p.moves = moves ++ .down next :: more.map .down ++ [.down name])
    (hnext : next.utf8ByteSize ≤ maxNameBytes) (h : t.LeadsTo p.isAbsolute moves loc)
    (he : t.entry? (loc ++ [next]) = none) : t.makeDirectory p = .error .notFound := by
  obtain ⟨before, hsteps, hbefore⟩ := hp.exists_steps hmoves
  obtain ⟨first, last, rfl, hfirst, hlast⟩ := List.filter_eq_append_iff.mp hbefore
  obtain ⟨stays, after, rfl, hstays, -, -⟩ := List.filter_eq_cons_iff.mp hlast
  have hloc : (first ++ stays).filter (· ≠ .stay) = moves := by
    rw [List.filter_append, hfirst, List.filter_eq_nil_iff.mpr hstays, List.append_nil]
  obtain ⟨left, hleft⟩ := h.exists_resolveFrom hloc
  have hdirectory : t.directoryAt p (first ++ (stays ++ .down next :: after)) =
      .error .notFound := by
    rw [directoryAt, ← List.append_assoc, hleft, resolveFrom_missing hnext he]
    cases after <;> rfl
  rw [makeDirectory, hspelling, hp.withoutSlashes_eq, hsteps]
  simp only [List.getLast?_concat, List.dropLast_concat, hdirectory]
  rfl

/-! ## Spellings -/

theorem checkSpelling_eq_ok_iff : checkSpelling p = .ok () ↔
    '\x00' ∉ p.chars ∧ p.chars ≠ [] ∧ p.text.utf8ByteSize < maxPathBytes := by
  rw [← Nat.not_le]
  by_cases hnul : '\x00' ∈ p.chars
  · simp [checkSpelling, hnul]
  · by_cases hempty : p.chars = []
    · simp [checkSpelling, hempty]
    · by_cases hsize : maxPathBytes ≤ p.text.utf8ByteSize
      · simp [checkSpelling, hnul, hempty, hsize]
      · simp [checkSpelling, hnul, hempty, hsize]

theorem checkSpelling_of_beginning {above : Path} (h : checkSpelling p = .ok ())
    (hbeginning : above.chars <+: p.chars) : above.chars = [] ∨ checkSpelling above = .ok () := by
  obtain ⟨hnul, -, hsize⟩ := checkSpelling_eq_ok_iff.mp h
  refine or_iff_not_imp_left.mpr fun hne => checkSpelling_eq_ok_iff.mpr ⟨?_, hne, ?_⟩
  · exact fun hmem => hnul (hbeginning.subset hmem)
  · obtain ⟨rest, hrest⟩ := hbeginning
    have htext : p.text = above.text ++ String.ofList rest := by
      rw [← String.toList_inj, String.toList_append, String.toList_ofList]
      exact hrest.symm
    rw [htext, String.utf8ByteSize_append] at hsize
    omega

/-! ## Making what is missing -/

/-- Below a directory the names are directories now, and nothing else is new. -/
structure Laid (t t' : FileTree) (loc : Location) (names : List String) : Prop where
  grown : Grown (fun _ => false) t t'
  through : t'.Through loc names
  only : ∀ l e, t'.entry? l = some e → t.entry? l = some e ∨
    e = .directory ∧ ∃ front, front <+: names ∧ front ≠ [] ∧ l = loc ++ front

theorem laid_of_through {names : List String} (h : t.Through loc names) : Laid t t loc names :=
  ⟨.refl _ t, h, fun _ _ he => .inl he⟩

theorem Laid.only_concat {names : List String} {l : Location} {e : FileEntry}
    (h : Laid t t' loc names) (he : t'.entry? l = some e) : t.entry? l = some e ∨
      e = .directory ∧ ∃ front, front <+: names ++ [name] ∧ front ≠ [] ∧ l = loc ++ front := by
  rcases h.only l e he with hbefore | ⟨hdirectory, front, hfront, hne, hloc⟩
  · exact .inl hbefore
  · exact .inr ⟨hdirectory, front, hfront.trans (List.prefix_append _ _), hne, hloc⟩

theorem Laid.put {names : List String} (h : Laid t t' loc names)
    (he : t'.entry? (loc ++ (names ++ [name])) = none) :
    Laid t (t'.put (loc ++ (names ++ [name])) .directory) loc (names ++ [name]) := by
  have hgrown : Grown (fun _ => false) t' (t'.put (loc ++ (names ++ [name])) .directory) :=
    .put_vacant he (by simp)
  have hput := entry?_put (t := t') (ne_root_of_vacant he) .directory
  refine ⟨h.grown.trans hgrown, through_concat.mpr ⟨h.through.grown hgrown, ?_⟩,
    fun l e hl => ?_⟩
  · rw [hput, if_pos rfl]
  · rw [hput] at hl
    split at hl
    · next hloc => exact .inr ⟨(Option.some.inj hl).symm, _, List.prefix_rfl, by simp, hloc⟩
    · exact h.only_concat hl

/-- The directory is made, or is there already. -/
def Provides (t : FileTree) (p : Path) (t' : FileTree) : Prop :=
  t.makeDirectory p = .ok t' ∨ t' = t ∧ ∃ loc, t.stat p = .ok (loc, .directory)

/-- Once the directories above are there, the last one is made or is there too. -/
theorem Laid.exists_provides {names : List String} (hl : Laid t t' loc names) (hp : p.Tidy)
    (hspelling : checkSpelling p = .ok ())
    (hmoves : p.moves = moves ++ (names ++ [name]).map .down)
    (hnames : ∀ x ∈ names ++ [name], x.utf8ByteSize ≤ maxNameBytes)
    (h : t.LeadsTo p.isAbsolute moves loc) (hfree : t.Passable (loc ++ (names ++ [name]))) :
    ∃ t'', t'.Provides p t'' ∧ Laid t t'' loc (names ++ [name]) := by
  have hnow := (h.grown hl.grown).through (List.forall_mem_append.mp hnames).1 hl.through
  cases he : t'.entry? (loc ++ (names ++ [name])) with
  | none =>
    have hlast : p.moves = moves ++ names.map .down ++ [.down name] := by simp [hmoves]
    refine ⟨_, .inl ?_, hl.put he⟩
    rw [makeDirectory_eq hp hspelling hlast (hnames name (by simp)) hnow, List.append_assoc, he]
    rfl
  | some e =>
    have hdirectory : e = .directory := by
      rcases hl.only _ _ he with hbefore | ⟨hdir, -⟩
      · rcases hfree with hmissing | hdir
        · rw [hmissing] at hbefore; cases hbefore
        · rw [hdir] at hbefore; exact (Option.some.inj hbefore).symm
      · exact hdir
    subst hdirectory
    have hthrough := through_concat.mpr ⟨hl.through, he⟩
    refine ⟨t', .inr ⟨rfl, loc ++ (names ++ [name]), ?_⟩, hl.grown, hthrough,
      fun _ _ => hl.only_concat⟩
    rw [stat_directory_iff, hmoves]
    exact ⟨hspelling, (h.grown hl.grown).through hnames hthrough⟩

section
variable {fuel : Nat}

theorem runOn_settle (fault : FileFault) (h : t.stat p = .ok (loc, .directory)) :
    ((do if (← get).isDirectory p then return else throw fault :
      Disk FileFault Unit).runOn t) = (.ok (), t) := by
  rw [Disk.runOn_get_bind, isDirectory, h]
  rfl

/-- A path without moves and without a lead is nothing that has to be made. -/
theorem runOn_makeDirectoriesWithin_empty (h : p.chars = []) :
    (makeDirectoriesWithin (fuel + 1) p).runOn t = (.ok (), t) := by
  rw [makeDirectoriesWithin, Path.cut_of_empty h]
  rfl

theorem runOn_makeDirectoriesWithin_of_stat (h : t.stat p = .ok (loc, .directory)) :
    (makeDirectoriesWithin (fuel + 1) p).runOn t = (.ok (), t) := by
  rw [makeDirectoriesWithin]
  split
  · rfl
  · rw [Disk.runOn_get_bind, makeDirectory_of_stat h]
    exact runOn_settle _ h

theorem Provides.runOn_makeDirectoriesWithin (hmoves : p.moves ≠ []) (h : t.Provides p t') :
    (makeDirectoriesWithin (fuel + 1) p).runOn t = (.ok (), t') := by
  rcases h with h | ⟨rfl, l, hstat⟩
  · rw [makeDirectoriesWithin, if_neg (Path.not_idle_cut hmoves), Disk.runOn_get_bind, h]
    rfl
  · exact runOn_makeDirectoriesWithin_of_stat hstat

/-- What is missing above is made first. -/
theorem Provides.runOn_makeDirectoriesWithin_above {above : Path} {mid : FileTree}
    (hmoves : p.moves ≠ []) (hmissing : t.makeDirectory p = .error .notFound)
    (hparent : p.parent? = some above)
    (hrun : (makeDirectoriesWithin fuel above).runOn t = (.ok (), mid)) (h : mid.Provides p t') :
    (makeDirectoriesWithin (fuel + 1) p).runOn t = (.ok (), t') := by
  rw [makeDirectoriesWithin, if_neg (Path.not_idle_cut hmoves), Disk.runOn_get_bind, hmissing,
    hparent]
  dsimp only
  rw [Disk.runOn_bind, hrun]
  dsimp only
  rw [Disk.runOn_get_bind]
  rcases h with h | ⟨rfl, l, hstat⟩
  · rw [h]
    rfl
  · rw [makeDirectory_of_stat hstat]
    exact runOn_settle _ hstat

end

theorem exists_makeDirectoriesWithin {names : List String} {fuel : Nat}
    (hfuel : p.chars.length < fuel) (hspelling : p.chars = [] ∨ checkSpelling p = .ok ())
    (hmoves : p.moves = moves ++ names.map .down) (htidy : names ≠ [] → p.Tidy)
    (h : t.LeadsTo p.isAbsolute moves loc)
    (hnames : ∀ name ∈ names, name.utf8ByteSize ≤ maxNameBytes)
    (hfree : ∀ front, front <+: names → front ≠ [] → t.Passable (loc ++ front)) :
    ∃ t', (makeDirectoriesWithin fuel p).runOn t = (.ok (), t') ∧ Laid t t' loc names := by
  obtain ⟨fuel, rfl⟩ := Nat.exists_eq_add_one_of_ne_zero (Nat.ne_zero_of_lt hfuel)
  induction names using List.reverseRecOn generalizing fuel p with
  | nil =>
    refine ⟨t, ?_, laid_of_through through_nil⟩
    rcases hspelling with hempty | hspelling
    · exact runOn_makeDirectoriesWithin_empty hempty
    · rw [List.map_nil, List.append_nil] at hmoves
      exact runOn_makeDirectoriesWithin_of_stat (stat_directory_iff.mpr ⟨hspelling, hmoves ▸ h⟩)
  | append_singleton names name ih =>
    have hp := htidy (by simp)
    have hspelling := hspelling.resolve_left hp.chars_ne_nil
    have hlastFree := hfree _ List.prefix_rfl (by simp)
    have hfree : ∀ front, front <+: names → front ≠ [] → t.Passable (loc ++ front) :=
      fun front hfront => hfree front (hfront.trans (List.prefix_append _ _))
    have hne : p.moves ≠ [] := by simp [hmoves]
    rcases through_or_missing hfree with hthrough | ⟨front, next, more, rfl, hfront, hnext⟩
    · obtain ⟨t', hprovides, hlaid⟩ := (laid_of_through hthrough).exists_provides hp hspelling
        hmoves hnames h hlastFree
      exact ⟨t', hprovides.runOn_makeDirectoriesWithin hne, hlaid⟩
    · -- the directories above are made first, with what is left of the fuel
      have hmissing : t.makeDirectory p = .error .notFound := by
        have hsplit : p.moves = moves ++ front.map .down ++ .down next :: more.map .down ++
            [.down name] := by simp [hmoves]
        exact makeDirectory_missing hp hspelling hsplit (hnames next (by simp))
          (h.through (fun x hx => hnames x (by simp [hx])) hfront) hnext
      have hlast : p.moves = moves ++ (front ++ next :: more).map .down ++ [.down name] := by
        simp [hmoves]
      obtain ⟨above, hparent, hmovesAbove, hbeginning, habsolute, htidyAbove⟩ :=
        Path.exists_parent hlast
      have hshorter : above.chars.length < p.chars.length := by
        refine Path.length_lt_of_beginning hbeginning fun hsame => ?_
        rw [← hmovesAbove, hsame] at hlast
        simpa using congrArg List.length hlast
      obtain ⟨fuel, rfl⟩ := Nat.exists_eq_add_one_of_ne_zero (n := fuel) (by omega)
      obtain ⟨mid, hrun, hlaid⟩ := ih (checkSpelling_of_beginning hspelling hbeginning)
        hmovesAbove (fun _ => htidyAbove (by simp)) (habsolute ▸ h)
        (fun x hx => hnames x (List.mem_append_left _ hx)) hfree fuel (by omega)
      obtain ⟨t', hprovides, hlaid⟩ := hlaid.exists_provides hp hspelling hmoves hnames h hlastFree
      exact ⟨t', hprovides.runOn_makeDirectoriesWithin_above hne hmissing hparent hrun, hlaid⟩

/-- From the directory above it a path leads to what stands there, if that is not a link. -/
theorem follow_down (hp : p.Tidy) (hspelling : checkSpelling p = .ok ())
    (hmoves : p.moves = moves ++ [.down name]) (h : t.LeadsTo p.isAbsolute moves loc)
    (hlink : ∀ target, t.entry? (loc ++ [name]) ≠ some (.link target)) :
    t.follow p = if maxNameBytes < name.utf8ByteSize then .error .nameTooLong
      else .ok <| match t.entry? (loc ++ [name]) with
        | none => .vacant (loc ++ [name])
        | some e => .occupied (loc ++ [name]) e := by
  obtain ⟨before, hsteps, hbefore⟩ := hp.exists_steps hmoves
  obtain ⟨left, hleft⟩ := h.exists_resolveFrom hbefore
  rw [follow, resolve, hspelling, hsteps]
  change t.resolveFrom true (maxLinks + 1) (t.start p) (before ++ [.down name]) = _
  rw [hleft, resolveFrom, advance]
  by_cases hname : maxNameBytes < name.utf8ByteSize
  · simp only [hname, if_true]
  · simp only [hname, if_false]
    cases he : t.entry? (loc ++ [name]) with
    | none => rfl
    | some e =>
      cases e with
      | file | directory => rfl
      | link target => exact absurd he (hlink target)

theorem follow_vacant (hp : p.Tidy) (hspelling : checkSpelling p = .ok ())
    (hmoves : p.moves = moves ++ [.down name]) (hname : name.utf8ByteSize ≤ maxNameBytes)
    (h : t.LeadsTo p.isAbsolute moves loc) (he : t.entry? (loc ++ [name]) = none) :
    t.follow p = .ok (.vacant (loc ++ [name])) := by
  rw [follow_down hp hspelling hmoves h (by simp [he]), if_neg (Nat.not_lt.mpr hname), he]

/-- A path that leads somewhere below a directory without links goes through directories there. -/
theorem LeadsTo.through_of_follow {names : List String} (h : t.LeadsTo p.isAbsolute moves loc)
    (hmoves : p.moves = moves ++ names.map .down)
    (hlinks : ∀ l target, l ≠ [] → t.entry? (loc ++ l) ≠ some (.link target))
    (hp : t.follow p = .ok spot) :
    t.Through loc names.dropLast ∧ spot.location = loc ++ names := by
  have hwalk := (follow_eq_ok_iff.mp hp).2
  obtain ⟨first, rest, hsteps, hfirst, hrest⟩ := List.filter_eq_append_iff.mp hmoves
  obtain ⟨left, hleft⟩ := h.exists_resolveFrom hfirst
  rw [hsteps, walk_iff_resolveFrom, hleft] at hwalk
  exact (walk_iff_resolveFrom.mpr hwalk).through hrest hlinks

end

end ModularBuild.FileTree
