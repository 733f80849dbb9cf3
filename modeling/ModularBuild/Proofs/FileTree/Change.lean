import ModularBuild.FileTree.Change
import ModularBuild.Proofs.Outcome

/-! Changes to a file tree by the tree that they leave. -/

namespace ModularBuild.Disk

variable {ε α β : Type} {t t' t'' : FileTree}

theorem runOn_bind (d : Disk ε α) (f : α → Disk ε β) (t : FileTree) :
    (d >>= f).runOn t = match d.runOn t with
      | (.ok a, t') => (f a).runOn t'
      | (.error e, t') => (.error e, t') := by
  unfold runOn
  rw [Outcome.run_bind]
  rcases d.run.run t with ⟨_ | _, _⟩ <;> rfl

/-- What holds of a tree after each change of a run holds of the tree that the run leaves. -/
theorem keeps_bind {P : FileTree → Prop} {d : Disk ε α} {f : α → Disk ε β} (hd : P (d.runOn t).2)
    (hf : ∀ a t', P t' → P ((f a).runOn t').2) : P ((d >>= f).runOn t).2 := by
  rw [runOn_bind]
  rcases h : d.runOn t with ⟨_ | a, t'⟩
  · rw [h] at hd
    exact hd
  · rw [h] at hd
    exact hf a t' hd

theorem runOn_get_bind (f : FileTree → Disk ε α) (t : FileTree) :
    (get >>= f).runOn t = (f t).runOn t := rfl

theorem runOn_change (f : FileTree → Except ε FileTree) (t : FileTree) :
    (change f).runOn t = match f t with
      | .ok t' => (.ok (), t')
      | .error e => (.error e, t) := by
  have hrun : (change f).runOn t = (match f t with
      | .ok t' => set t'
      | .error e => throw e : Disk ε Unit).runOn t := rfl
  rw [hrun]
  cases f t <;> rfl

theorem runOn_change_eq_ok_iff {f : FileTree → Except ε FileTree} :
    (change f).runOn t = (.ok (), t') ↔ f t = .ok t' := by
  rw [runOn_change]
  cases f t <;> simp

end ModularBuild.Disk
