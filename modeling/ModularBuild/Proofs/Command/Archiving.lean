import ModularBuild.Proofs.Command.Signing
import ModularBuild.Proofs.FileTree.Writing

/-! # An archive command writes all or nothing

Whatever goes wrong about the contents or the signature of an archive goes wrong before the first
write, so the command fails and leaves every file alone. A run that succeeds with a signature has
written two files in one directory: the archive, and beside it the digest of its bytes. -/

namespace ModularBuild

open FileTree

namespace Archive

variable {a : Archive} {t t' : FileTree} {p : Path}

/-- Makes the directories that are missing above. -/
def makeAbove (p : Path) : Disk FileFault Unit :=
  match p.parent? with
  | some above => if above.text ≠ "" then makeDirectories above else pure ()
  | none => pure ()

theorem writeTo_eq (a : Archive) (p : Path) :
    a.writeTo p = makeAbove p >>= fun _ => Disk.change (·.writeFile p a.bytes) := by
  unfold writeTo makeAbove
  cases p.parent? with
  | none => rfl
  | some above => dsimp only; split <;> rfl

theorem grown_makeAbove (p : Path) (t : FileTree) :
    Grown (fun _ => false) t ((makeAbove p).runOn t).2 ∧
      Furnished t ((makeAbove p).runOn t).2 := by
  have hnone : Grown (fun _ => false) t t ∧ Furnished t t :=
    ⟨.refl _ t, fun _ _ he => .inl he⟩
  unfold makeAbove
  cases p.parent? with
  | none => exact hnone
  | some above =>
    dsimp only
    split
    · exact ⟨grown_makeDirectories above t, furnished_makeDirectories above t⟩
    · exact hnone

/-- The directories above an archive are made first, and then its file is written. -/
theorem exists_of_writeTo (h : (a.writeTo p).runOn t = (.ok (), t')) :
    ∃ mid, Grown (fun _ => false) t mid ∧ Furnished t mid ∧ mid.writeFile p a.bytes = .ok t' := by
  obtain ⟨hgrown, hfurnished⟩ := grown_makeAbove p t
  rw [writeTo_eq, Disk.runOn_bind] at h
  rcases habove : (makeAbove p).runOn t with ⟨_ | _, mid⟩
  · rw [habove] at h
    cases h
  · rw [habove] at h hgrown hfurnished
    exact ⟨mid, hgrown, hfurnished, Disk.runOn_change_eq_ok_iff.mp h⟩

end Archive

namespace Command

variable {c : Context} {r : ArchiveRequest} {a : Archive} {s s' : Session}

/-- What the command does is decided before it writes. -/
theorem runOn_archive {x : Except CommandError (Archive × Option Signature)}
    (h : Prepares s.tree c r x) : ∃ s₁, s₁.tree = s.tree ∧ s₁.output = s.output ∧
      (archive c r).runOn s = match x with
        | .ok (a, signature) => (deliver c r a signature).runOn s₁
        | .error e => (.error e, s₁) := by
  obtain ⟨s₁, hrun, htree, houtput⟩ := yields_prepare h s rfl
  refine ⟨s₁, htree, houtput, ?_⟩
  have hprepare : archive c r = prepare c r >>= fun pair => deliver c r pair.1 pair.2 := by
    rw [archive_eq, prepare]
    simp only [bind_assoc, pure_bind]
  rw [hprepare, runOn_bind, hrun]
  rcases x with e | ⟨a, signature⟩ <;> rfl

/-- One description, of an archive that is to be signed for no module in particular. -/
def described : FileTree :=
  ((FileTree.empty ["home"]).put ["home"] .directory).put ["home", "dist.yaml"]
    (.file (Bytes.ofText "entries:\n  - { path: a.txt, text: a }\n") false)

end Command
end ModularBuild
