import ModularBuild.Proofs.FileTree.Growth
import ModularBuild.Proofs.Path

/-! # Writing files where no link is on the way

Without links a path leads where its moves lead, whatever stands there. So paths that differ in
their last move only lead to entries of one directory, and a file that has been written is read
back from its path when later writes have other places. -/

namespace ModularBuild.FileTree

variable {t t' : FileTree} {p : Path} {loc here : Location} {links : Nat}
  {steps : List Path.Step} {spot : Spot} {bytes : Bytes} {written : Location → Bool}

/-- There are no links anywhere. -/
def Unlinked (t : FileTree) : Prop := ∀ loc target, t.entry? loc ≠ some (.link target)

theorem unlinked_of_rows
    (h : t.rows.rows.all (fun row => match row.2 with | .link _ => false | _ => true) = true) :
    t.Unlinked := by
  intro loc target he
  unfold entry? at he
  split at he
  · cases he
  · have hrow := List.all_eq_true.mp h _ (Table.find?_eq_some_iff.mp he)
    cases hrow

theorem Unlinked.grown (h : t.Unlinked) (hg : Grown written t t') : t'.Unlinked :=
  fun loc target hlink => h loc target ((hg.link loc target).mp hlink)

/-- Where the steps lead if no link is on the way. -/
def locate (here : Location) (steps : List Path.Step) : Location :=
  steps.foldl (fun here step =>
    match step with
    | .stay => here
    | .up => here.dropLast
    | .down name => here ++ [name]) here

theorem locate_concat_down (here : Location) (steps : List Path.Step) (name : String) :
    locate here (steps ++ [.down name]) = locate here steps ++ [name] := by
  rw [locate, List.foldl_append]
  rfl

theorem locate_moves (here : Location) (p : Path) : locate here p.moves = locate here p.steps := by
  unfold Path.moves
  generalize p.steps = steps
  induction steps generalizing here with
  | nil => rfl
  | cons step rest ih => cases step <;> exact ih _

theorem Walk.location_eq (h : Walk t links here steps spot) (hlinks : t.Unlinked) :
    spot.location = locate here steps := by
  induction h with
  | here => rfl
  | stay _ ih | up _ ih => exact ih
  | vacant | file => rfl
  | directory _ _ _ ih => exact ih
  | link _ he => exact absurd he (hlinks _ _)

/-- Where the path leads if no link is on the way, whatever stands there. -/
def destination (t : FileTree) (p : Path) : Location := locate (t.start p) p.moves

theorem destination_congr (h : t'.current = t.current) (p : Path) :
    t'.destination p = t.destination p := by
  rw [destination, destination, start, start, h]

theorem Unlinked.location_of_follow (hlinks : t.Unlinked) (h : t.follow p = .ok spot) :
    spot.location = t.destination p := by
  rw [destination, locate_moves]
  exact (follow_eq_ok_iff.mp h).2.location_eq hlinks

theorem Unlinked.location_of_openForWriting (hlinks : t.Unlinked) {executable : Bool}
    (h : t.openForWriting p = .ok (loc, executable)) : loc = t.destination p := by
  rcases follow_of_openForWriting h with hp | ⟨_, hp⟩
  · exact hlinks.location_of_follow hp
  · exact hlinks.location_of_follow hp

/-- Once there is a file where a walk led that did not end in a directory, it leads to the file. -/
theorem Grown.walk_to_file (hg : Grown written t t') (h : Walk t links here steps spot)
    (hspot : ∀ l, spot ≠ .occupied l .directory) {executable : Bool}
    (hfile : t'.entry? spot.location = some (.file bytes executable)) :
    Walk t' links here steps (.occupied spot.location (.file bytes executable)) := by
  induction h with
  | here => exact absurd rfl (hspot _)
  | stay _ ih => exact .stay (ih hspot hfile)
  | up _ ih => exact .up (ih hspot hfile)
  | vacant hname _ | file hname _ => exact .file hname hfile
  | directory hname he _ ih => exact .directory hname (hg.directory _ he) (ih hspot hfile)
  | link hname he htarget _ ih =>
    exact .link hname ((hg.link _ _).mpr he) htarget (ih hspot hfile)

theorem Grown.stat_to_file (hg : Grown written t t') (h : t.follow p = .ok spot)
    (hspot : ∀ l, spot ≠ .occupied l .directory) {executable : Bool}
    (hfile : t'.entry? spot.location = some (.file bytes executable)) :
    t'.stat p = .ok (spot.location, .file bytes executable) := by
  obtain ⟨hspelling, hwalk⟩ := follow_eq_ok_iff.mp h
  have hfollow : t'.follow p = .ok (.occupied spot.location (.file bytes executable)) := by
    refine follow_eq_ok_iff.mpr ⟨hspelling, ?_⟩
    rw [hg.kept.start]
    exact hg.walk_to_file hwalk hspot hfile
  exact Outcome.bind_eq_ok_iff.mpr ⟨_, hfollow, rfl⟩

/-- A path that was opened for writing leads to the file that is there later. -/
theorem Grown.stat_of_openForWriting (hg : Grown written t t') {executable executable' : Bool}
    (h : t.openForWriting p = .ok (loc, executable))
    (hfile : t'.entry? loc = some (.file bytes executable')) :
    t'.stat p = .ok (loc, .file bytes executable') := by
  rcases follow_of_openForWriting h with hp | ⟨before, hp⟩
  · exact hg.stat_to_file hp (by simp) hfile
  · exact hg.stat_to_file hp (by simp) hfile

/-- A file is written where the moves of its path lead. -/
theorem put_of_writeFile (hlinks : t.Unlinked) (h : t.writeFile p bytes = .ok t') :
    ∃ executable, t.openForWriting p = .ok (t.destination p, executable) ∧
      t' = t.put (t.destination p) (.file bytes executable) := by
  obtain ⟨⟨loc, executable⟩, hopen, h⟩ := Outcome.bind_eq_ok_iff.mp h
  cases h
  obtain rfl := hlinks.location_of_openForWriting hopen
  exact ⟨executable, hopen, rfl⟩

end ModularBuild.FileTree
