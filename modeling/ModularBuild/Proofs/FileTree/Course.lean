import ModularBuild.FileTree
import ModularBuild.Proofs.Outcome

/-! # The course of a path

A walk that succeeds looks at one place after the other, and nothing but what stands there decides
where it leads. So it leads to the same place in another tree that has the same at those places.
The course of a path is also known when directories on the way are yet to be made: then it
is the one that the path takes once they are. -/

namespace ModularBuild.FileTree

/-! ## Walks that succeed -/

/-- With so many links at most, the walk ends at the spot. -/
inductive Walk (t : FileTree) : Nat → Location → List Path.Step → Spot → Prop
  | here {links here} : Walk t (links + 1) here [] (.occupied here .directory)
  | stay {links here rest spot} (h : Walk t links here rest spot) :
      Walk t links here (.stay :: rest) spot
  | up {links here rest spot} (h : Walk t links here.dropLast rest spot) :
      Walk t links here (.up :: rest) spot
  | vacant {links here name} (hname : name.utf8ByteSize ≤ maxNameBytes)
      (he : t.entry? (here ++ [name]) = none) :
      Walk t (links + 1) here [.down name] (.vacant (here ++ [name]))
  | file {links here name bytes executable} (hname : name.utf8ByteSize ≤ maxNameBytes)
      (he : t.entry? (here ++ [name]) = some (.file bytes executable)) :
      Walk t (links + 1) here [.down name] (.occupied (here ++ [name]) (.file bytes executable))
  | directory {links here name rest spot} (hname : name.utf8ByteSize ≤ maxNameBytes)
      (he : t.entry? (here ++ [name]) = some .directory)
      (h : Walk t links (here ++ [name]) rest spot) : Walk t links here (.down name :: rest) spot
  | link {links here name rest target spot} (hname : name.utf8ByteSize ≤ maxNameBytes)
      (he : t.entry? (here ++ [name]) = some (.link target)) (htarget : target.chars ≠ [])
      (h : Walk t links (if target.isAbsolute then [] else here) (target.steps ++ rest) spot) :
      Walk t (links + 1) here (.down name :: rest) spot

theorem walk_of_resolveFrom {t : FileTree} {links : Nat} {here : Location}
    {steps : List Path.Step} {spot : Spot}
    (h : t.resolveFrom true links here steps = .ok spot) : Walk t links here steps spot := by
  -- first on the links that may be followed, then on the steps up to the next of them
  induction links generalizing here steps with
  | zero => cases h
  | succ links ih =>
    rw [resolveFrom] at h
    induction steps generalizing here with
    | nil =>
      cases h
      exact .here
    | cons step rest ihSteps =>
      cases step with
      | stay => exact .stay (ihSteps h)
      | up => exact .up (ihSteps h)
      | down name =>
        rw [advance] at h
        by_cases hname : maxNameBytes < name.utf8ByteSize
        · simp only [hname, if_true] at h
          cases h
        · simp only [hname, if_false] at h
          have hname := Nat.le_of_not_lt hname
          cases he : t.entry? (here ++ [name]) with
          | none =>
            cases rest with
            | nil => simp [he] at h; exact h ▸ .vacant hname he
            | cons => simp [he] at h
          | some e =>
            cases e with
            | file bytes executable =>
              cases rest with
              | nil => simp [he] at h; exact h ▸ .file hname he
              | cons => simp [he] at h
            | directory =>
              simp only [he] at h
              exact .directory hname he (ihSteps h)
            | link target =>
              by_cases htarget : target.chars = []
              · simp [he, htarget] at h
              · simp [he, htarget] at h
                exact .link hname he htarget (ih h)

theorem Walk.resolveFrom_eq {t : FileTree} {links : Nat} {here : Location}
    {steps : List Path.Step} {spot : Spot} (h : Walk t links here steps spot) :
    t.resolveFrom true links here steps = .ok spot := by
  induction h with
  | here => rfl
  | @stay links here rest spot h ih =>
    cases links <;> exact ih
  | @up links here rest spot h ih =>
    cases links <;> exact ih
  | vacant hname he => simp [resolveFrom, advance, Nat.not_lt.mpr hname, he]
  | file hname he => simp [resolveFrom, advance, Nat.not_lt.mpr hname, he]
  | @directory links here name rest spot hname he h ih =>
    cases links with
    | zero => exact ih
    | succ links => simpa [resolveFrom, advance, Nat.not_lt.mpr hname, he] using ih
  | link hname he htarget h ih =>
    simpa [resolveFrom, advance, Nat.not_lt.mpr hname, he, htarget] using ih

/-- A path that leads somewhere is spelled in a way that the system takes, and is walked along. -/
theorem follow_eq_ok_iff {t : FileTree} {p : Path} {spot : Spot} : t.follow p = .ok spot ↔
    checkSpelling p = .ok () ∧ Walk t (maxLinks + 1) (t.start p) p.steps spot := by
  constructor
  · intro h
    obtain ⟨_, hspelling, h⟩ := Outcome.bind_eq_ok_iff.mp h
    exact ⟨hspelling, walk_of_resolveFrom h⟩
  · rintro ⟨hspelling, h⟩
    exact Outcome.bind_eq_ok_iff.mpr ⟨(), hspelling, h.resolveFrom_eq⟩

/-- What can be looked at is what the path leads to. -/
theorem stat_eq_ok_iff {t : FileTree} {p : Path} {loc : Location} {e : FileEntry} :
    t.stat p = .ok (loc, e) ↔ t.follow p = .ok (.occupied loc e) := by
  rw [stat, Outcome.bind_eq_ok_iff]
  constructor
  · intro ⟨spot, hspot, h⟩
    cases spot with
    | occupied => cases h; exact hspot
    | vacant => cases h
  · intro h
    exact ⟨_, h, rfl⟩

/-- Only a directory is reached without going down in the end. -/
theorem Walk.exists_down {t : FileTree} {links : Nat} {here : Location} {steps : List Path.Step}
    {spot : Spot} (h : Walk t links here steps spot) (hspot : ∀ l, spot ≠ .occupied l .directory) :
    ∃ front name, steps.filter (· ≠ .stay) = front ++ [.down name] := by
  induction h with
  | here => exact absurd rfl (hspot _)
  | stay _ ih => exact ih hspot
  | up _ ih =>
    obtain ⟨front, name, hrest⟩ := ih hspot
    exact ⟨.up :: front, name, congrArg (Path.Step.up :: ·) hrest⟩
  | @vacant _ _ name | @file _ _ name => exact ⟨[], name, rfl⟩
  | @directory _ _ first _ _ _ _ _ ih =>
    obtain ⟨front, name, hrest⟩ := ih hspot
    exact ⟨.down first :: front, name, congrArg (Path.Step.down first :: ·) hrest⟩
  | @link _ _ first rest _ _ _ _ _ _ ih =>
    obtain ⟨front, name, hall⟩ := ih hspot
    rw [List.filter_append] at hall
    rcases List.eq_nil_or_concat' (rest.filter (· ≠ .stay)) with hnil | ⟨init, last, hrest⟩
    · exact ⟨[], first, congrArg (Path.Step.down first :: ·) hnil⟩
    · rw [hrest, ← List.append_assoc] at hall
      obtain ⟨-, hlast⟩ := List.append_inj' hall rfl
      cases hlast
      exact ⟨.down first :: init, name, congrArg (Path.Step.down first :: ·) hrest⟩

/-! ## Links at the end -/

/-- Whether the last link is followed matters only if there is one. -/
theorem advance_followLast (t : FileTree) (here : Location) (steps : List Path.Step) :
    t.advance true here steps = t.advance false here steps ∨
      ∃ loc target, t.advance false here steps = .over (.ok (.occupied loc (.link target))) := by
  induction steps generalizing here with
  | nil => exact .inl rfl
  | cons step rest ih =>
    cases step with
    | stay => exact ih here
    | up => exact ih here.dropLast
    | down name =>
      by_cases hname : maxNameBytes < name.utf8ByteSize
      · exact .inl (by simp [advance, hname])
      · cases he : t.entry? (here ++ [name]) with
        | none => exact .inl (by simp [advance, he])
        | some e =>
          cases e with
          | file => exact .inl (by simp [advance, he])
          | directory => simpa [advance, hname, he] using ih (here ++ [name])
          | link target =>
            cases rest with
            | nil => exact .inr ⟨here ++ [name], target, by simp [advance, hname, he]⟩
            | cons => exact .inl (by simp [advance, he])

theorem resolveFrom_followLast (t : FileTree) (links : Nat) (here : Location)
    (steps : List Path.Step) :
    t.resolveFrom true links here steps = t.resolveFrom false links here steps ∨
      ∃ loc target, t.resolveFrom false links here steps = .ok (.occupied loc (.link target)) := by
  induction links generalizing here steps with
  | zero => exact .inl rfl
  | succ links ih =>
    rcases t.advance_followLast here steps with hsame | ⟨loc, target, hlink⟩
    · rw [resolveFrom, resolveFrom, hsame]
      rcases t.advance false here steps with result | ⟨here, steps⟩
      · exact .inl rfl
      · exact ih here steps
    · exact .inr ⟨loc, target, by rw [resolveFrom, hlink]⟩

/-! ## Courses -/

/-- The location that a walk ends at. -/
def Spot.location : Spot → Location
  | occupied loc _ => loc
  | vacant loc => loc

/-- The places that a walk looks at, and the one that it ends at. -/
structure Course where
  seen : List Location
  goal : Location
  deriving DecidableEq, Repr

def Course.after (loc : Location) (c : Course) : Course := ⟨loc :: c.seen, c.goal⟩

/-- Walks up to the first link. What is missing counts as a directory. -/
def courseWith (t : FileTree) (onLink : Location → List Path.Step → Option Course) :
    Location → List Path.Step → Option Course
  | here, [] => some ⟨[], here⟩
  | here, .stay :: rest => courseWith t onLink here rest
  | here, .up :: rest => courseWith t onLink here.dropLast rest
  | here, .down name :: rest =>
    let loc := here ++ [name]
    let onwards := match t.entry? loc with
      | some (.link target) =>
        onLink (if target.isAbsolute then [] else here) (target.steps ++ rest)
      | some (.file ..) => if rest.isEmpty then some ⟨[], loc⟩ else none
      | _ => courseWith t onLink loc rest
    onwards.map (·.after loc)

def courseFrom (t : FileTree) : Nat → Location → List Path.Step → Option Course
  | 0 => fun _ _ => none
  | links + 1 => t.courseWith (t.courseFrom links)

/-- The course of a path, with all links followed. -/
def course (t : FileTree) (p : Path) : Option Course :=
  t.courseFrom (maxLinks + 1) (t.start p) p.steps

def goal? (t : FileTree) (p : Path) : Option Location := (t.course p).map (·.goal)

section
variable {t : FileTree} {links : Nat} {here : Location} {name : String} {rest : List Path.Step}

theorem courseFrom_stay :
    t.courseFrom links here (.stay :: rest) = t.courseFrom links here rest := by
  cases links <;> rfl

theorem courseFrom_up :
    t.courseFrom links here (.up :: rest) = t.courseFrom links here.dropLast rest := by
  cases links <;> rfl

theorem courseFrom_link {target : Path} (he : t.entry? (here ++ [name]) = some (.link target)) :
    t.courseFrom (links + 1) here (.down name :: rest) =
      (t.courseFrom links (if target.isAbsolute then [] else here) (target.steps ++ rest)).map
        (·.after (here ++ [name])) := by
  simp [courseFrom, courseWith, he]

theorem courseFrom_file {bytes : Bytes} {executable : Bool}
    (he : t.entry? (here ++ [name]) = some (.file bytes executable)) :
    t.courseFrom (links + 1) here (.down name :: rest) =
      if rest.isEmpty then some ⟨[here ++ [name]], here ++ [name]⟩ else none := by
  cases rest <;> simp [courseFrom, courseWith, he, Course.after]

/-- There is a directory, or one may be made. -/
def Passable (t : FileTree) (loc : Location) : Prop :=
  t.entry? loc = none ∨ t.entry? loc = some .directory

theorem courseFrom_passable (he : t.Passable (here ++ [name])) :
    t.courseFrom links here (.down name :: rest) =
      (t.courseFrom links (here ++ [name]) rest).map (·.after (here ++ [name])) := by
  cases links with
  | zero => rfl
  | succ links => rcases he with he | he <;> simp [courseFrom, courseWith, he]

end

/-- A walk that succeeds takes the course of its path. -/
theorem Walk.course {t : FileTree} {links : Nat} {here : Location} {steps : List Path.Step}
    {spot : Spot} (h : Walk t links here steps spot) :
    ∃ seen, t.courseFrom links here steps = some ⟨seen, spot.location⟩ := by
  induction h with
  | here => exact ⟨[], rfl⟩
  | stay h ih => rwa [courseFrom_stay]
  | up h ih => rwa [courseFrom_up]
  | @vacant links here name hname he =>
    refine ⟨[here ++ [name]], ?_⟩
    rw [courseFrom_passable (.inl he)]
    rfl
  | file hname he => exact ⟨_, courseFrom_file he⟩
  | directory hname he h ih =>
    obtain ⟨seen, hseen⟩ := ih
    rw [courseFrom_passable (.inr he), hseen]
    exact ⟨_, rfl⟩
  | link hname he htarget h ih =>
    obtain ⟨seen, hseen⟩ := ih
    rw [courseFrom_link he, hseen]
    exact ⟨_, rfl⟩

theorem goal?_of_follow {t : FileTree} {p : Path} {spot : Spot} (h : t.follow p = .ok spot) :
    t.goal? p = some spot.location := by
  obtain ⟨seen, hseen⟩ := (follow_eq_ok_iff.mp h).2.course
  rw [goal?, course, hseen]
  rfl

theorem readBytes_of_isFile {t : FileTree} {p : Path} (h : t.isFile p = true) :
    ∃ bytes, t.readBytes p = .ok bytes := by
  unfold isFile at h
  split at h
  · next loc bytes executable hp => exact ⟨bytes, Outcome.bind_eq_ok_iff.mpr ⟨_, hp, rfl⟩⟩
  · cases h

theorem stat_of_isDirectory {t : FileTree} {p : Path} (h : t.isDirectory p = true) :
    ∃ loc, t.stat p = .ok (loc, .directory) := by
  unfold isDirectory at h
  split at h
  · next loc hp => exact ⟨loc, hp⟩
  · cases h

/-! ## Trees that keep what is outside an area -/

/-- Whatever stands outside the area still stands there. -/
structure Kept (area : Location → Bool) (t t' : FileTree) : Prop where
  current : t'.current = t.current
  entry : ∀ loc e, t.entry? loc = some e → area loc = false → t'.entry? loc = some e

/-- The course of the path stays clear of the area. -/
def avoids (t : FileTree) (area : Location → Bool) (p : Path) : Bool :=
  (t.course p).all fun c => c.seen.all fun loc => !area loc

namespace Kept

variable {area area' : Location → Bool} {t t' t'' : FileTree}

theorem refl (area : Location → Bool) (t : FileTree) : Kept area t t := ⟨rfl, fun _ _ h _ => h⟩

theorem trans (h : Kept area t t') (h' : Kept area t' t'') : Kept area t t'' where
  current := h'.current.trans h.current
  entry loc e he ha := h'.entry loc e (h.entry loc e he ha) ha

theorem mono (h : Kept area t t') (hle : ∀ loc, area loc = true → area' loc = true) :
    Kept area' t t' where
  current := h.current
  entry loc e he ha := h.entry loc e he <| by
    cases hloc : area loc with
    | false => rfl
    | true => rw [hle loc hloc] at ha; cases ha

/-- A walk to something that exists sees only what exists, so in a tree that keeps all of it the
walk is the same. -/
theorem walk {links : Nat} {here : Location} {steps : List Path.Step} {loc : Location}
    {e : FileEntry} (h : Kept area t t') (hwalk : Walk t links here steps (.occupied loc e))
    {c : Course} (hc : t.courseFrom links here steps = some c)
    (hclear : ∀ l ∈ c.seen, area l = false) : Walk t' links here steps (.occupied loc e) := by
  generalize hspot : Spot.occupied loc e = spot at hwalk ⊢
  induction hwalk generalizing c with
  | here => exact .here
  | stay _ ih => exact .stay (ih (courseFrom_stay ▸ hc) hclear hspot)
  | up _ ih => exact .up (ih (courseFrom_up ▸ hc) hclear hspot)
  | vacant => cases hspot
  | file hname he =>
    rw [courseFrom_file he, List.isEmpty_nil, if_pos rfl] at hc
    cases hc
    exact .file hname (h.entry _ _ he (hclear _ List.mem_cons_self))
  | directory hname he _ ih =>
    rw [courseFrom_passable (.inr he), Option.map_eq_some_iff] at hc
    obtain ⟨c, hc, rfl⟩ := hc
    obtain ⟨hloc, hrest⟩ := List.forall_mem_cons.mp hclear
    exact .directory hname (h.entry _ _ he hloc) (ih hc hrest hspot)
  | link hname he htarget _ ih =>
    rw [courseFrom_link he, Option.map_eq_some_iff] at hc
    obtain ⟨c, hc, rfl⟩ := hc
    obtain ⟨hloc, hrest⟩ := List.forall_mem_cons.mp hclear
    exact .link hname (h.entry _ _ he hloc) htarget (ih hc hrest hspot)

theorem start (h : Kept area t t') (p : Path) : t'.start p = t.start p := by
  rw [FileTree.start, FileTree.start, h.current]

/-- A path that stays clear of the area leads to what it led to. -/
theorem follow {p : Path} {loc : Location} {e : FileEntry} (h : Kept area t t')
    (hp : t.follow p = .ok (.occupied loc e)) (hclear : t.avoids area p = true) :
    t'.follow p = .ok (.occupied loc e) := by
  obtain ⟨hspelling, hwalk⟩ := follow_eq_ok_iff.mp hp
  obtain ⟨seen, hseen⟩ := hwalk.course
  rw [avoids, course, hseen] at hclear
  refine follow_eq_ok_iff.mpr ⟨hspelling, ?_⟩
  rw [h.start]
  refine h.walk hwalk hseen fun l hl => ?_
  simpa using List.all_eq_true.mp hclear l hl

theorem stat {p : Path} {found : Location × FileEntry} (h : Kept area t t')
    (hp : t.stat p = .ok found) (hclear : t.avoids area p = true) : t'.stat p = .ok found :=
  stat_eq_ok_iff.mpr (h.follow (stat_eq_ok_iff.mp hp) hclear)

theorem readBytes {p : Path} {bytes : Bytes} (h : Kept area t t')
    (hp : t.readBytes p = .ok bytes) (hclear : t.avoids area p = true) :
    t'.readBytes p = .ok bytes := by
  obtain ⟨found, hfound, hp⟩ := Outcome.bind_eq_ok_iff.mp hp
  exact Outcome.bind_eq_ok_iff.mpr ⟨found, h.stat hfound hclear, hp⟩

end Kept

end ModularBuild.FileTree
