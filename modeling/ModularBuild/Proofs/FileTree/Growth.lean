import ModularBuild.Proofs.FileTree.Change
import ModularBuild.Proofs.FileTree.Course
import ModularBuild.Proofs.Table

/-! # Trees that grow

Making directories and writing files changes little: what stood before stays of its kind, and
only the files that are written get other contents. No link is made, so a path that leads
somewhere afterwards led there before, if the directories that were missing count as made. This is
what lets the writes of a long run be told from the tree that it started with. -/

namespace ModularBuild

namespace FileTree

variable {t t' t'' : FileTree} {loc : Location} {written : Location → Bool}

theorem entry?_root (t : FileTree) : t.entry? [] = some .directory := rfl

/-- Everywhere but at the root a row says what stands there. -/
theorem entry?_below_root (hloc : loc ≠ []) : t.entry? loc = t.rows.find? loc := if_neg hloc

theorem ne_root_of_vacant (h : t.entry? loc = none) : loc ≠ [] := by
  rintro rfl
  cases h

theorem entry?_put (hloc : loc ≠ []) (e : FileEntry) (l : Location) :
    entry? (t.put loc e) l = if l = loc then some e else t.entry? l := by
  by_cases hl : l = []
  · simp [hl, Ne.symm hloc, entry?_root]
  · rw [entry?_below_root hl, entry?_below_root hl, put, Table.find?_insert]

@[simp] theorem entry?_put_self (hloc : loc ≠ []) (e : FileEntry) :
    entry? (t.put loc e) loc = some e := by rw [entry?_put hloc, if_pos rfl]

/-- Directories are made and files written, over older ones only where `written` says so. -/
structure Grown (written : Location → Bool) (t t' : FileTree) : Prop where
  current : t'.current = t.current
  directory : ∀ loc, t.entry? loc = some .directory → t'.entry? loc = some .directory
  link : ∀ loc target, t'.entry? loc = some (.link target) ↔ t.entry? loc = some (.link target)
  file : ∀ loc bytes executable, t.entry? loc = some (.file bytes executable) →
    ∃ bytes' executable', t'.entry? loc = some (.file bytes' executable') ∧
      (written loc = false → bytes' = bytes ∧ executable' = executable)

namespace Grown

theorem refl (written : Location → Bool) (t : FileTree) : Grown written t t where
  current := rfl
  directory _ h := h
  link _ _ := .rfl
  file _ bytes executable h := ⟨bytes, executable, h, fun _ => ⟨rfl, rfl⟩⟩

theorem trans (h : Grown written t t') (h' : Grown written t' t'') : Grown written t t'' where
  current := h'.current.trans h.current
  directory loc hd := h'.directory loc (h.directory loc hd)
  link loc target := (h'.link loc target).trans (h.link loc target)
  file loc bytes executable hf := by
    obtain ⟨b, x, hbx, hsame⟩ := h.file loc bytes executable hf
    obtain ⟨b', x', hbx', hsame'⟩ := h'.file loc b x hbx
    refine ⟨b', x', hbx', fun hw => ?_⟩
    obtain ⟨rfl, rfl⟩ := hsame hw
    exact hsame' hw

theorem mono {written' : Location → Bool} (h : Grown written t t')
    (hle : ∀ loc, written loc = true → written' loc = true) : Grown written' t t' where
  current := h.current
  directory := h.directory
  link := h.link
  file loc bytes executable hf := by
    obtain ⟨b, x, hbx, hsame⟩ := h.file loc bytes executable hf
    refine ⟨b, x, hbx, fun hnot => hsame ?_⟩
    rw [Bool.eq_false_iff] at hnot ⊢
    exact mt (hle loc) hnot

theorem kept (h : Grown written t t') : Kept written t t' where
  current := h.current
  entry loc e he hw := by
    cases e with
    | directory => exact h.directory loc he
    | link target => exact (h.link loc target).mpr he
    | file bytes executable =>
      obtain ⟨b, x, hbx, hsame⟩ := h.file loc bytes executable he
      obtain ⟨rfl, rfl⟩ := hsame hw
      exact hbx

/-- Where nothing is overwritten, whatever could be read still can. -/
theorem readBytes (h : Grown (fun _ => false) t t') {p : Path} {bytes : Bytes}
    (hp : t.readBytes p = .ok bytes) : t'.readBytes p = .ok bytes := by
  refine h.kept.readBytes hp ?_
  rw [avoids]
  cases t.course p <;> simp

theorem put_vacant (he : t.entry? loc = none) {e : FileEntry} (hlink : ∀ target, e ≠ .link target) :
    Grown written t (t.put loc e) := by
  have hroot := ne_root_of_vacant he
  have hput : ∀ l e', t.entry? l = some e' → entry? (t.put loc e) l = some e' := by
    intro l e' hl
    rw [entry?_put hroot, if_neg, hl]
    rintro rfl
    rw [he] at hl
    cases hl
  refine ⟨rfl, fun l hl => hput l _ hl, fun l target => ⟨fun hl => ?_, hput l _⟩, ?_⟩
  · rw [entry?_put hroot] at hl
    split at hl
    · exact absurd (Option.some.inj hl) (hlink target)
    · exact hl
  · exact fun l bytes executable hl => ⟨bytes, executable, hput l _ hl, fun _ => ⟨rfl, rfl⟩⟩

theorem put_file {bytes bytes' : Bytes} {executable executable' : Bool}
    (he : t.entry? loc = some (.file bytes executable)) (hw : written loc = true) :
    Grown written t (t.put loc (.file bytes' executable')) := by
  have hroot : loc ≠ [] := by
    rintro rfl
    rw [entry?_root] at he
    cases he
  have hother : ∀ l, l ≠ loc → entry? (t.put loc (.file bytes' executable')) l = t.entry? l :=
    fun l hl => by rw [entry?_put hroot, if_neg hl]
  have hself : entry? (t.put loc (.file bytes' executable')) loc =
      some (.file bytes' executable') := by rw [entry?_put hroot, if_pos rfl]
  refine ⟨rfl, fun l hl => ?_, fun l target => ?_, fun l b x hl => ?_⟩
  · rw [hother, hl]
    rintro rfl
    rw [he] at hl
    cases hl
  · by_cases hl : l = loc
    · simp [hl, hself, he]
    · rw [hother l hl]
  · by_cases hloc : l = loc
    · subst hloc
      refine ⟨bytes', executable', hself, fun hnot => ?_⟩
      rw [hw] at hnot
      cases hnot
    · exact ⟨b, x, (hother l hloc).trans hl, fun _ => ⟨rfl, rfl⟩⟩

/-- A course in the grown tree is the course in the tree that it grew from. -/
theorem courseFrom (h : Grown written t t') {links : Nat} {here : Location}
    {steps : List Path.Step} {c : Course} (hc : t'.courseFrom links here steps = some c) :
    t.courseFrom links here steps = some c := by
  induction links generalizing here steps c with
  | zero => cases hc
  | succ links ih =>
    induction steps generalizing here c with
    | nil => exact hc
    | cons step rest ihSteps =>
      cases step with
      | stay =>
        rw [courseFrom_stay] at hc ⊢
        exact ihSteps hc
      | up =>
        rw [courseFrom_up] at hc ⊢
        exact ihSteps hc
      | down name =>
        have hthrough (hbefore : t.Passable (here ++ [name]))
            (hafter : t'.Passable (here ++ [name])) :
            t.courseFrom (links + 1) here (.down name :: rest) = some c := by
          rw [courseFrom_passable hafter, Option.map_eq_some_iff] at hc
          obtain ⟨onwards, honwards, rfl⟩ := hc
          rw [courseFrom_passable hbefore, ihSteps honwards]
          rfl
        cases he : t.entry? (here ++ [name]) with
        | none =>
          cases he' : t'.entry? (here ++ [name]) with
          | none => exact hthrough (.inl he) (.inl he')
          | some e =>
            cases e with
            | directory => exact hthrough (.inl he) (.inr he')
            | link target => simp [(h.link _ target).mp he'] at he
            | file bytes executable =>
              -- a file that is new at the end of the walk, where there was nothing
              rw [courseFrom_file he'] at hc
              cases rest with
              | nil => rw [courseFrom_passable (.inl he)]; exact hc
              | cons => cases hc
        | some e =>
          cases e with
          | directory => exact hthrough (.inr he) (.inr (h.directory _ he))
          | link target =>
            rw [courseFrom_link ((h.link _ target).mpr he), Option.map_eq_some_iff] at hc
            obtain ⟨onwards, honwards, rfl⟩ := hc
            rw [courseFrom_link he, ih honwards]
            rfl
          | file bytes executable =>
            obtain ⟨b, x, hbx, -⟩ := h.file _ _ _ he
            rw [courseFrom_file hbx] at hc
            rw [courseFrom_file he, hc]

theorem goal? (h : Grown written t t') {p : Path} (hp : t'.goal? p = some loc) :
    t.goal? p = some loc := by
  obtain ⟨c, hc, rfl⟩ := Option.map_eq_some_iff.mp hp
  have hstart : t'.start p = t.start p := h.kept.start p
  rw [course, hstart] at hc
  exact Option.map_eq_some_iff.mpr ⟨c, h.courseFrom hc, rfl⟩

end Grown

/-! ## Writing files -/

theorem Walk.vacant_entry {links : Nat} {here : Location} {steps : List Path.Step}
    (h : Walk t links here steps (.vacant loc)) : t.entry? loc = none := by
  generalize hspot : Spot.vacant loc = spot at h
  induction h with
  | here | file => cases hspot
  | stay _ ih | up _ ih => exact ih hspot
  | directory _ _ _ ih | link _ _ _ _ ih => exact ih hspot
  | vacant _ he => cases hspot; exact he

theorem Walk.file_entry {links : Nat} {here : Location} {steps : List Path.Step}
    {bytes : Bytes} {executable : Bool}
    (h : Walk t links here steps (.occupied loc (.file bytes executable))) :
    t.entry? loc = some (.file bytes executable) := by
  generalize hspot : Spot.occupied loc (.file bytes executable) = spot at h
  induction h with
  | here | vacant => cases hspot
  | stay _ ih | up _ ih => exact ih hspot
  | directory _ _ _ ih | link _ _ _ _ ih => exact ih hspot
  | file _ he => cases hspot; exact he

/-- A file that is opened for writing is there already or will be new. -/
theorem follow_of_openForWriting {p : Path} {executable : Bool}
    (h : t.openForWriting p = .ok (loc, executable)) : t.follow p = .ok (.vacant loc) ∨
      ∃ bytes, t.follow p = .ok (.occupied loc (.file bytes executable)) := by
  unfold openForWriting at h
  split at h
  case h_1 loc' bytes x hp => cases h; exact .inr ⟨bytes, hp⟩
  case h_3 loc' hp => cases h; exact .inl hp
  case h_4 => split at h <;> cases h
  all_goals cases h

/-- What is opened for writing stands where the path leads, and is a file or nothing yet. -/
theorem openForWriting_spot {p : Path} {executable : Bool}
    (h : t.openForWriting p = .ok (loc, executable)) : t.goal? p = some loc ∧
      (t.entry? loc = none ∨ ∃ bytes executable, t.entry? loc = some (.file bytes executable)) := by
  rcases follow_of_openForWriting h with hp | ⟨bytes, hp⟩
  · exact ⟨goal?_of_follow hp, .inl (follow_eq_ok_iff.mp hp).2.vacant_entry⟩
  · exact ⟨goal?_of_follow hp, .inr ⟨bytes, _, (follow_eq_ok_iff.mp hp).2.file_entry⟩⟩

theorem ne_root_of_openForWriting {p : Path} {executable : Bool}
    (h : t.openForWriting p = .ok (loc, executable)) : loc ≠ [] := by
  rintro rfl
  obtain ⟨-, hfree | ⟨_, _, hfree⟩⟩ := openForWriting_spot h <;> cases hfree

theorem grown_of_openForWriting {p : Path} {executable executable' : Bool} {bytes : Bytes}
    (h : t.openForWriting p = .ok (loc, executable))
    (hw : ∀ loc, t.goal? p = some loc → written loc = true) :
    Grown written t (t.put loc (.file bytes executable')) := by
  obtain ⟨hgoal, hvacant | ⟨b, x, hfile⟩⟩ := openForWriting_spot h
  · exact .put_vacant hvacant (by simp)
  · exact .put_file hfile (hw loc hgoal)

theorem grown_of_writeFile {p : Path} {bytes : Bytes} (h : t.writeFile p bytes = .ok t')
    (hw : ∀ loc, t.goal? p = some loc → written loc = true) : Grown written t t' := by
  obtain ⟨⟨loc, executable⟩, hopen, h⟩ := Outcome.bind_eq_ok_iff.mp h
  cases h
  exact grown_of_openForWriting hopen hw

theorem put_of_copyFile {source target : Path} (h : t.copyFile source target = .ok t') :
    ∃ dest executable bytes executable', t.openForWriting target = .ok (dest, executable) ∧
      t' = t.put dest (.file bytes executable') := by
  obtain ⟨⟨loc, e⟩, -, h⟩ := Outcome.bind_eq_ok_iff.mp h
  cases e with
  | file bytes executable =>
    obtain ⟨⟨dest, x⟩, hopen, h⟩ := Outcome.bind_eq_ok_iff.mp h
    cases h
    exact ⟨dest, x, _, executable, hopen, rfl⟩
  | directory => cases h
  | link => cases h

theorem grown_of_copyFile {source target : Path} (h : t.copyFile source target = .ok t')
    (hw : ∀ loc, t.goal? target = some loc → written loc = true) : Grown written t t' := by
  obtain ⟨dest, executable, bytes, executable', hopen, rfl⟩ := put_of_copyFile h
  exact grown_of_openForWriting hopen hw

/-! ## Making directories -/

theorem put_of_makeDirectory {p : Path} (h : t.makeDirectory p = .ok t') :
    ∃ loc, t.entry? loc = none ∧ t' = t.put loc .directory := by
  obtain ⟨_, -, h⟩ := Outcome.bind_eq_ok_iff.mp h
  dsimp only at h
  split at h
  case h_1 name hlast =>
    obtain ⟨above, -, h⟩ := Outcome.bind_eq_ok_iff.mp h
    split at h
    · cases h
    · split at h
      · cases h
      · next hvacant =>
        cases h
        exact ⟨_, Option.not_isSome_iff_eq_none.mp hvacant, rfl⟩
  case h_2 =>
    obtain ⟨_, -, h⟩ := Outcome.bind_eq_ok_iff.mp h
    cases h

section
variable {P : FileTree → Prop}

/-- Looking whether a directory is there in the end changes nothing. -/
theorem keeps_settle (p : Path) (fault : FileFault) (h : P t) :
    P ((do if (← get).isDirectory p then return else throw fault :
      Disk FileFault Unit).runOn t).2 := by
  rw [Disk.runOn_get_bind]
  split <;> exact h

/-- What stays with each single directory that is made stays when all of them are made. -/
theorem keeps_makeDirectoriesWithin
    (hstep : ∀ t loc, P t → t.entry? loc = none → P (t.put loc .directory)) (fuel : Nat) (p : Path)
    (h : P t) : P ((makeDirectoriesWithin fuel p).runOn t).2 := by
  have hmade : ∀ {p t t'}, P t → t.makeDirectory p = .ok t' → P t' := by
    intro p t t' h hmake
    obtain ⟨loc, hvacant, rfl⟩ := put_of_makeDirectory hmake
    exact hstep t loc h hvacant
  induction fuel generalizing p t with
  | zero => exact h
  | succ fuel ih =>
    rw [makeDirectoriesWithin]
    split
    · exact h
    · rw [Disk.runOn_get_bind]
      split
      case h_1 t' hmake => exact hmade h hmake
      case h_2 =>
        split
        · exact h
        · refine Disk.keeps_bind (ih _ h) fun _ t' h' => ?_
          rw [Disk.runOn_get_bind]
          split
          case h_1 t'' hmake => exact hmade h' hmake
          case h_2 => exact keeps_settle p _ h'
      case h_3 => exact keeps_settle p _ h

end

theorem grown_makeDirectories (p : Path) (t : FileTree) :
    Grown written t ((makeDirectories p).runOn t).2 :=
  keeps_makeDirectoriesWithin
    (fun _ _ hgrown hvacant => hgrown.trans (.put_vacant hvacant (by simp))) _ p (.refl written t)

theorem grown_of_makeDirectories {p : Path} {result : Except FileFault Unit}
    (h : (makeDirectories p).runOn t = (result, t')) : Grown written t t' := by
  have hgrown : Grown written t ((makeDirectories p).runOn t).2 := grown_makeDirectories p t
  rwa [h] at hgrown

/-- Only directories are new. -/
def Furnished (t t' : FileTree) : Prop :=
  ∀ loc e, t'.entry? loc = some e → t.entry? loc = some e ∨ e = .directory

theorem furnished_makeDirectories (p : Path) (t : FileTree) :
    Furnished t ((makeDirectories p).runOn t).2 := by
  refine keeps_makeDirectoriesWithin (fun now loc hnow hvacant => ?_) _ p fun _ _ he => .inl he
  intro l e he
  rw [entry?_put (ne_root_of_vacant hvacant)] at he
  split at he
  · exact .inr (Option.some.inj he).symm
  · exact hnow l e he

/-! ## Removing directories -/

theorem entry?_dropAt (root : Location) (t : FileTree) (hloc : loc ≠ []) :
    entry? (t.dropAt root) loc = if root.isPrefixOf loc then none else t.entry? loc := by
  refine Option.ext fun e => ?_
  rw [entry?_below_root hloc, entry?_below_root hloc, dropAt, Table.find?_filter_eq_some_iff]
  cases root.isPrefixOf loc <;> simp

theorem kept_dropAt (root : Location) (t : FileTree) :
    Kept (root.isPrefixOf ·) t (t.dropAt root) := by
  refine ⟨rfl, fun loc e he houtside => ?_⟩
  by_cases hloc : loc = []
  · subst hloc; exact he
  · rwa [entry?_dropAt root t hloc, houtside, if_neg Bool.false_ne_true]

theorem removeDirectory_eq_dropAt {p : Path} (h : t.removeDirectory p = .ok t') :
    ∃ root e, t.resolve false p = .ok (.occupied root e) ∧ t' = t.dropAt root := by
  obtain ⟨spot, hspot, h⟩ := Outcome.bind_eq_ok_iff.mp h
  split at h
  · cases h
  · cases h
  · cases h
    exact ⟨_, _, hspot, rfl⟩

end FileTree
end ModularBuild
