import ModularBuild.Proofs.FileTree.Making
import ModularBuild.Proofs.FileTree.Writing

/-! # Files by their places

Without links a path has one place, and keeps it while directories come and go on the way to it.
So what a run makes of the files is told place by place: making directories changes none of them,
a copy sets the one of its target, and clearing a directory takes those below its place. -/

namespace ModularBuild.FileTree

variable {t t' : FileTree} {p source target : Path} {loc : Location} {spot : Spot} {bytes : Bytes}

/-- The contents of the regular file at the location. -/
def fileAt? (t : FileTree) (loc : Location) : Option Bytes :=
  match t.entry? loc with
  | some (.file bytes _) => some bytes
  | _ => none

theorem fileAt?_eq_some_iff :
    t.fileAt? loc = some bytes ↔ ∃ executable, t.entry? loc = some (.file bytes executable) := by
  rw [fileAt?]
  cases t.entry? loc with
  | none => simp
  | some e => cases e <;> simp

theorem fileAt?_root (t : FileTree) : t.fileAt? [] = none := rfl

/-! ## Places -/

theorem locate_append (here : Location) (steps rest : List Path.Step) :
    locate here (steps ++ rest) = locate (locate here steps) rest := List.foldl_append

theorem locate_down (here : Location) (names : List String) :
    locate here (names.map .down) = here ++ names := by
  induction names generalizing here with
  | nil => exact (List.append_nil here).symm
  | cons name rest ih => exact (ih (here ++ [name])).trans (List.append_cons here name rest).symm

namespace Unlinked

variable (hlinks : t.Unlinked)
include hlinks

theorem location_of_stat {e : FileEntry} (h : t.stat p = .ok (loc, e)) :
    loc = t.destination p := hlinks.location_of_follow (stat_eq_ok_iff.mp h)

theorem fileAt?_of_stat {executable : Bool} (h : t.stat p = .ok (loc, .file bytes executable)) :
    t.fileAt? (t.destination p) = some bytes := by
  obtain ⟨-, hwalk⟩ := follow_eq_ok_iff.mp (stat_eq_ok_iff.mp h)
  rw [← hlinks.location_of_stat h, fileAt?_eq_some_iff]
  exact ⟨executable, hwalk.file_entry⟩

theorem fileAt?_of_readBytes (h : t.readBytes p = .ok bytes) :
    t.fileAt? (t.destination p) = some bytes := by
  obtain ⟨⟨loc, e⟩, hstat, h⟩ := Outcome.bind_eq_ok_iff.mp h
  cases e with
  | file contents executable => cases h; exact hlinks.fileAt?_of_stat hstat
  | directory | link => cases h

/-- It does not matter whether a last link would be followed. -/
theorem advance_eq (here : Location) (steps : List Path.Step) :
    t.advance false here steps = t.advance true here steps := by
  induction steps generalizing here with
  | nil => rfl
  | cons step rest ih =>
    cases step with
    | stay => exact ih here
    | up => exact ih here.dropLast
    | down name =>
      rw [advance, advance]
      split
      · rfl
      · dsimp only
        cases he : t.entry? (here ++ [name]) with
        | none => rfl
        | some e =>
          cases e with
          | directory => exact ih (here ++ [name])
          | file => rfl
          | link target => exact absurd he (hlinks _ target)

theorem resolve_eq (p : Path) : t.resolve false p = t.follow p := by
  have hwalk : ∀ links here steps,
      t.resolveFrom false links here steps = t.resolveFrom true links here steps := by
    intro links
    induction links with
    | zero => exact fun _ _ => rfl
    | succ links ih =>
      intro here steps
      rw [resolveFrom, resolveFrom, hlinks.advance_eq]
      rcases t.advance true here steps with _ | ⟨here, steps⟩
      · rfl
      · exact ih here steps
  rw [follow, resolve, resolve, hwalk]

theorem removeDirectory_eq (h : t.removeDirectory p = .ok t') :
    t' = t.dropAt (t.destination p) := by
  obtain ⟨root, e, hroot, rfl⟩ := removeDirectory_eq_dropAt h
  rw [hlinks.resolve_eq] at hroot
  rw [← hlinks.location_of_follow hroot]
  rfl

theorem dropAt (root : Location) : (t.dropAt root).Unlinked := by
  intro loc target he
  by_cases hloc : loc = []
  · subst hloc
    cases he
  · rw [entry?_dropAt root t hloc] at he
    split at he
    · cases he
    · exact hlinks loc target he

/-- A copy puts what was in its source at the place of its target. -/
theorem put_of_copyFile (hne : t.destination source ≠ t.destination target)
    (h : t.copyFile source target = .ok t') :
    t.destination target ≠ [] ∧ ∃ bytes executable,
      t.fileAt? (t.destination source) = some bytes ∧
        t' = t.put (t.destination target) (.file bytes executable) := by
  obtain ⟨⟨loc, e⟩, hstat, h⟩ := Outcome.bind_eq_ok_iff.mp h
  cases e with
  | file bytes executable =>
    obtain ⟨⟨dest, _⟩, hopen, h⟩ := Outcome.bind_eq_ok_iff.mp h
    have hroot := ne_root_of_openForWriting hopen
    obtain rfl := hlinks.location_of_openForWriting hopen
    cases h
    refine ⟨hroot, bytes, executable, hlinks.fileAt?_of_stat hstat, ?_⟩
    rw [if_neg (hlinks.location_of_stat hstat ▸ hne.symm)]
  | directory | link => cases h

end Unlinked

/-! ## Files after a change -/

theorem fileAt?_put_file (hloc : loc ≠ []) (executable : Bool) (l : Location) :
    fileAt? (t.put loc (.file bytes executable)) l =
      if l = loc then some bytes else t.fileAt? l := by
  rw [fileAt?, fileAt?, entry?_put hloc]
  by_cases hl : l = loc
  · rw [if_pos hl, if_pos hl]
  · rw [if_neg hl, if_neg hl]

theorem fileAt?_dropAt (root : Location) (t : FileTree) (l : Location) :
    fileAt? (t.dropAt root) l = if root.isPrefixOf l then none else t.fileAt? l := by
  by_cases hl : l = []
  · subst hl
    rw [fileAt?_root, fileAt?_root, ite_self]
  · rw [fileAt?, fileAt?, entry?_dropAt root t hl]
    cases root.isPrefixOf l <;> rfl

theorem fileAt?_of_furnished (hgrown : Grown (fun _ => false) t t') (hfurnished : Furnished t t')
    (l : Location) : t'.fileAt? l = t.fileAt? l := by
  refine Option.ext fun bytes => ?_
  rw [fileAt?_eq_some_iff, fileAt?_eq_some_iff]
  constructor
  · rintro ⟨executable, he⟩
    exact ⟨executable, (hfurnished l _ he).resolve_right (by simp)⟩
  · rintro ⟨executable, he⟩
    obtain ⟨_, _, he', hsame⟩ := hgrown.file l bytes executable he
    obtain ⟨rfl, rfl⟩ := hsame rfl
    exact ⟨_, he'⟩

theorem fileAt?_of_makeDirectories {result : Except FileFault Unit}
    (h : (makeDirectories p).runOn t = (result, t')) (l : Location) :
    t'.fileAt? l = t.fileAt? l := by
  have hfurnished := furnished_makeDirectories p t
  rw [h] at hfurnished
  exact fileAt?_of_furnished (grown_of_makeDirectories h) hfurnished l

/-- A file that has stayed the same is read as before, whatever else has been made. -/
theorem Grown.readBytes_of_fileAt? {written : Location → Bool} (hg : Grown written t t')
    (hlinks : t.Unlinked) (h : t.readBytes p = .ok bytes)
    (hsame : t'.fileAt? (t.destination p) = some bytes) : t'.readBytes p = .ok bytes := by
  obtain ⟨⟨loc, e⟩, hstat, h⟩ := Outcome.bind_eq_ok_iff.mp h
  cases e with
  | file contents executable =>
    cases h
    obtain ⟨executable', he⟩ := fileAt?_eq_some_iff.mp hsame
    rw [← hlinks.location_of_stat hstat] at he
    exact Outcome.bind_eq_ok_iff.mpr
      ⟨_, hg.stat_to_file (stat_eq_ok_iff.mp hstat) (by simp) he, rfl⟩
  | directory | link => cases h

theorem put_self {e : FileEntry} (hloc : loc ≠ []) (he : t.entry? loc = some e) :
    t.put loc e = t := by
  have hrows : t.rows.insert loc e = t.rows := by
    rw [entry?_below_root hloc] at he
    refine Table.ext_find? fun l => ?_
    rw [Table.find?_insert]
    split
    · next hl => rw [hl, he]
    · rfl
  rw [put, hrows]

/-- Writing the same bytes once more changes nothing. -/
theorem writeFile_again (h : t.writeFile p bytes = .ok t') : t'.writeFile p bytes = .ok t' := by
  have hgrown : Grown (fun _ => true) t t' := grown_of_writeFile h fun _ _ => rfl
  obtain ⟨⟨loc, executable⟩, hopen, h⟩ := Outcome.bind_eq_ok_iff.mp h
  cases h
  have hloc := ne_root_of_openForWriting hopen
  have hfile := entry?_put_self (t := t) hloc (.file bytes executable)
  have hspot := stat_eq_ok_iff.mp (hgrown.stat_of_openForWriting hopen hfile)
  unfold writeFile openForWriting
  rw [hspot]
  exact congrArg Except.ok (put_self hloc hfile)

/-! ## Directories that have been made -/

theorem walk_of_directoryAt {steps : List Path.Step} (h : t.directoryAt p steps = .ok loc) :
    Walk t (maxLinks + 1) (t.start p) steps (.occupied loc .directory) := by
  obtain ⟨spot, hspot, h⟩ := Outcome.bind_eq_ok_iff.mp h
  split at h
  · cases h
    exact walk_of_resolveFrom hspot
  · cases h
  · cases h

theorem stat_of_makeDirectory (h : t.makeDirectory p = .ok t') :
    ∃ loc, t'.stat p = .ok (loc, .directory) := by
  obtain ⟨_, hspelling, h⟩ := Outcome.bind_eq_ok_iff.mp h
  dsimp only at h
  split at h
  case h_1 name hlast =>
    obtain ⟨above, habove, h⟩ := Outcome.bind_eq_ok_iff.mp h
    obtain ⟨front, hfront⟩ := List.getLast?_eq_some_iff.mp hlast
    rw [hfront, List.dropLast_concat] at habove
    have hmoves : p.moves = front.filter (· ≠ .stay) ++ [.down name] := by
      rw [← p.moves_withoutSlashes, Path.moves, hfront, List.filter_append]
      rfl
    have hleads : t.LeadsTo p.isAbsolute (front.filter (· ≠ .stay)) above :=
      (walk_of_directoryAt habove).of_filter_eq (filter_moves front)
    split at h
    · cases h
    · next hname =>
      split at h
      · cases h
      · next hvacant =>
        cases h
        have hvacant := Option.not_isSome_iff_eq_none.mp hvacant
        have hgrown : Grown (fun _ => false) t (t.put (above ++ [name]) .directory) :=
          .put_vacant hvacant (by simp)
        refine ⟨above ++ [name], stat_directory_iff.mpr ⟨hspelling, hmoves ▸ ?_⟩⟩
        refine (hleads.grown hgrown).down (Nat.le_of_not_lt hname) ?_
        rw [entry?_put (ne_root_of_vacant hvacant), if_pos rfl]
  case h_2 =>
    obtain ⟨_, -, h⟩ := Outcome.bind_eq_ok_iff.mp h
    cases h

theorem stat_of_settle {fault : FileFault}
    (h : ((do if (← get).isDirectory p then return else throw fault :
      Disk FileFault Unit).runOn t) = (.ok (), t')) :
    ∃ loc, t'.stat p = .ok (loc, .directory) := by
  rw [Disk.runOn_get_bind] at h
  split at h
  · next hdirectory =>
    cases h
    exact stat_of_isDirectory hdirectory
  · cases h

theorem stat_of_makeDirectoriesWithin {fuel : Nat} (hmoves : p.moves ≠ [])
    (h : (makeDirectoriesWithin fuel p).runOn t = (.ok (), t')) :
    ∃ loc, t'.stat p = .ok (loc, .directory) := by
  cases fuel with
  | zero => cases h
  | succ fuel =>
    rw [makeDirectoriesWithin, if_neg (Path.not_idle_cut hmoves), Disk.runOn_get_bind] at h
    split at h
    case h_1 t'' hmake =>
      cases h
      exact stat_of_makeDirectory hmake
    case h_2 =>
      split at h
      · cases h
      · next above _ =>
        rw [Disk.runOn_bind] at h
        rcases habove : (makeDirectoriesWithin fuel above).runOn t with ⟨_ | _, mid⟩
        · rw [habove] at h
          cases h
        · rw [habove] at h
          dsimp only at h
          rw [Disk.runOn_get_bind] at h
          split at h
          case h_1 t'' hmake =>
            cases h
            exact stat_of_makeDirectory hmake
          case h_2 => exact stat_of_settle h
    case h_3 => exact stat_of_settle h

/-! ## Files in a directory -/

section
variable {moves : List Path.Step} {name : String} (hp : p.Tidy)
  (hmoves : p.moves = moves ++ [.down name]) (h : t.LeadsTo p.isAbsolute moves loc)
  (hlink : ∀ target, t.entry? (loc ++ [name]) ≠ some (.link target))
include hp hmoves h hlink

/-- A file is written in the directory that its path leads to. -/
theorem put_of_writeFile_down (hwrite : t.writeFile p bytes = .ok t') :
    ∃ executable, t.openForWriting p = .ok (loc ++ [name], executable) ∧
      t' = t.put (loc ++ [name]) (.file bytes executable) := by
  obtain ⟨⟨dest, executable⟩, hopen, hwrite⟩ := Outcome.bind_eq_ok_iff.mp hwrite
  cases hwrite
  have hdest : ∀ spot, t.follow p = .ok spot → spot.location = loc ++ [name] := by
    intro spot hspot
    rw [follow_down hp (follow_eq_ok_iff.mp hspot).1 hmoves h hlink] at hspot
    split at hspot
    · cases hspot
    · cases hspot
      cases t.entry? (loc ++ [name]) <;> rfl
  have heq : dest = loc ++ [name] := by
    rcases follow_of_openForWriting hopen with hspot | ⟨_, hspot⟩
    · exact hdest _ hspot
    · exact hdest _ hspot
  subst heq
  exact ⟨executable, hopen, rfl⟩

/-- There has to be room for the name, and no directory may have it. -/
theorem exists_writeFile_iff : (∃ t', t.writeFile p bytes = .ok t') ↔
    checkSpelling p = .ok () ∧ name.utf8ByteSize ≤ maxNameBytes ∧
      t.entry? (loc ++ [name]) ≠ some .directory := by
  constructor
  · rintro ⟨t', hwrite⟩
    obtain ⟨executable, hopen, -⟩ := put_of_writeFile_down hp hmoves h hlink hwrite
    obtain ⟨-, hfree⟩ := openForWriting_spot hopen
    have hspot : ∃ spot, t.follow p = .ok spot := by
      rcases follow_of_openForWriting hopen with hspot | ⟨_, hspot⟩ <;> exact ⟨_, hspot⟩
    obtain ⟨spot, hspot⟩ := hspot
    have hspelling := (follow_eq_ok_iff.mp hspot).1
    rw [follow_down hp hspelling hmoves h hlink] at hspot
    split at hspot
    · cases hspot
    · next hname =>
      refine ⟨hspelling, Nat.le_of_not_lt hname, fun he => ?_⟩
      rw [he] at hfree
      rcases hfree with hfree | ⟨_, _, hfree⟩ <;> cases hfree
  · rintro ⟨hspelling, hname, hdirectory⟩
    have hfollow := follow_down hp hspelling hmoves h hlink
    rw [if_neg (Nat.not_lt.mpr hname)] at hfollow
    unfold writeFile openForWriting
    rw [hfollow]
    cases he : t.entry? (loc ++ [name]) with
    | none => exact ⟨_, rfl⟩
    | some e =>
      cases e with
      | file => exact ⟨_, rfl⟩
      | directory => exact absurd he hdirectory
      | link target => exact absurd he (hlink target)

end

/-- What has been written is read back. -/
theorem readBytes_of_writeFile (h : t.writeFile p bytes = .ok t') :
    t'.readBytes p = .ok bytes := by
  have hgrown : Grown (fun _ => true) t t' := grown_of_writeFile h fun _ _ => rfl
  obtain ⟨⟨dest, executable⟩, hopen, h⟩ := Outcome.bind_eq_ok_iff.mp h
  cases h
  have hfile := entry?_put_self (t := t) (ne_root_of_openForWriting hopen) (.file bytes executable)
  exact Outcome.bind_eq_ok_iff.mpr ⟨_, hgrown.stat_of_openForWriting hopen hfile, rfl⟩

end ModularBuild.FileTree
