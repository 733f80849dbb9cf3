import ModularBuild.Command.Session
import ModularBuild.Proofs.Outcome

/-! Commands by the sessions that they leave. A command that looks for something and finds it has
printed and logged perhaps, but the file tree is the one that it started with. -/

namespace ModularBuild.Command

variable {α β : Type} {s s' s'' : Session}

theorem runOn_bind (c : Command α) (f : α → Command β) (s : Session) :
    (c >>= f).runOn s = match c.runOn s with
      | (.ok a, s') => (f a).runOn s'
      | (.error e, s') => (.error e, s') := by
  unfold runOn
  rw [Outcome.run_bind]
  rcases c.run.run s with ⟨_ | _, _⟩ <;> rfl

theorem runOn_bind_eq_ok_iff {c : Command α} {f : α → Command β} {b : β} :
    (c >>= f).runOn s = (.ok b, s'') ↔
      ∃ a s', c.runOn s = (.ok a, s') ∧ (f a).runOn s' = (.ok b, s'') := by
  rw [runOn_bind]
  constructor
  · intro h
    split at h
    case h_1 a s' hc => exact ⟨a, s', hc, h⟩
    case h_2 => cases h
  · rintro ⟨a, s', hc, h⟩
    rw [hc]
    exact h

theorem runOn_get (s : Session) : (get : Command Session).runOn s = (.ok s, s) := rfl

/-! A command that changes files does what the change does. -/

theorem runOn_change_of_ok {d : Disk FileFault α} {a : α} {t : FileTree}
    (h : d.runOn s.tree = (.ok a, t)) : (change d).runOn s = (.ok a, { s with tree := t }) := by
  rw [change, runOn_bind, runOn_get]
  dsimp only
  rw [h]
  rfl

theorem runOn_change_of_error {d : Disk FileFault α} {fault : FileFault} {t : FileTree}
    (h : d.runOn s.tree = (.error fault, t)) :
    (change d).runOn s = (.error (.build (.system fault)), { s with tree := t }) := by
  rw [change, runOn_bind, runOn_get]
  dsimp only
  rw [h]
  rfl

theorem runOn_change_eq_ok_iff {d : Disk FileFault α} {a : α} :
    (change d).runOn s = (.ok a, s') ↔
      ∃ t, d.runOn s.tree = (.ok a, t) ∧ s' = { s with tree := t } := by
  constructor
  · intro h
    rcases hd : d.runOn s.tree with ⟨_ | b, t⟩
    · rw [runOn_change_of_error hd] at h
      cases h
    · rw [runOn_change_of_ok hd] at h
      cases h
      exact ⟨t, rfl, rfl⟩
  · rintro ⟨t, hd, rfl⟩
    exact runOn_change_of_ok hd

/-- The command ends with the value and has left all files alone. -/
def Finds (c : Command α) (a : α) (s s' : Session) : Prop :=
  c.runOn s = (.ok a, s') ∧ s'.tree = s.tree

theorem Finds.runOn_bind {c : Command α} {a : α} (h : c.Finds a s s') (f : α → Command β) :
    (c >>= f).runOn s = (f a).runOn s' := by
  rw [Command.runOn_bind, h.1]

/-! ## Commands that only look -/

/-- With this tree the command comes to the result, in whatever session it starts. It leaves all
files alone and prints nothing, also when it fails. -/
def Yields (c : Command α) (t : FileTree) (result : Except CommandError α) : Prop :=
  ∀ s, s.tree = t → ∃ s', c.runOn s = (result, s') ∧ s'.tree = t ∧ s'.output = s.output

section
variable {t : FileTree} {c : Command α} {f : α → Command β}

theorem Yields.exists_finds {a : α} (h : c.Yields s.tree (.ok a)) : ∃ s', c.Finds a s s' := by
  obtain ⟨s', hrun, htree, -⟩ := h s rfl
  exact ⟨s', hrun, htree⟩

theorem Yields.unique {x y : Except CommandError α} (h : c.Yields t x) (h' : c.Yields t y) :
    x = y := by
  obtain ⟨s, hrun, -⟩ := h ⟨t, "", ""⟩ rfl
  obtain ⟨s', hrun', -⟩ := h' ⟨t, "", ""⟩ rfl
  rw [hrun] at hrun'
  exact congrArg Prod.fst hrun'

theorem Yields.bind {a : α} {y : Except CommandError β} (h : c.Yields t (.ok a))
    (hf : (f a).Yields t y) : (c >>= f).Yields t y := by
  intro s hs
  obtain ⟨s', hrun, htree, houtput⟩ := h s hs
  obtain ⟨s'', hrun', htree', houtput'⟩ := hf s' htree
  refine ⟨s'', ?_, htree', houtput'.trans houtput⟩
  rw [runOn_bind, hrun]
  exact hrun'

theorem Yields.bind_error {e : CommandError} (h : c.Yields t (.error e)) :
    (c >>= f).Yields t (.error e) := by
  intro s hs
  obtain ⟨s', hrun, hrest⟩ := h s hs
  refine ⟨s', ?_, hrest⟩
  rw [runOn_bind, hrun]

theorem yields_pure (a : α) (t : FileTree) : Yields (pure a) t (.ok a) :=
  fun s hs => ⟨s, rfl, hs, rfl⟩

theorem yields_throw (e : CommandError) (t : FileTree) :
    Yields (throw e : Command α) t (.error e) := fun s hs => ⟨s, rfl, hs, rfl⟩

theorem yields_check {x : Except BuildError α} {a : α} (h : x = .ok a) (t : FileTree) :
    (check x).Yields t (.ok a) := by
  rw [h]
  exact yields_pure a t

theorem yields_check_error {x : Except BuildError α} {e : BuildError} (h : x = .error e)
    (t : FileTree) : (check x).Yields t (.error (.build e)) := by
  rw [h]
  exact yields_throw _ t

theorem runOn_inspect (f : FileTree → Except BuildError α) (s : Session) :
    (inspect f).runOn s = (check (f s.tree)).runOn s := by
  rw [inspect, runOn_bind, runOn_get]
  rfl

theorem yields_inspect {f : FileTree → Except BuildError α} {a : α} (h : f t = .ok a) :
    (inspect f).Yields t (.ok a) := by
  intro s hs
  rw [runOn_inspect, hs]
  exact yields_check h t s hs

theorem yields_inspect_error {f : FileTree → Except BuildError α} {e : BuildError}
    (h : f t = .error e) : (inspect f).Yields t (.error (.build e)) := by
  intro s hs
  rw [runOn_inspect, hs]
  exact yields_check_error h t s hs

theorem yields_printError (text : String) (t : FileTree) : (printError text).Yields t (.ok ()) :=
  fun s hs => ⟨{ s with errors := s.errors ++ text }, rfl, hs, rfl⟩

theorem yields_log (c : Context) (e : Event) (t : FileTree) : (log c e).Yields t (.ok ()) := by
  unfold log
  split
  · exact yields_printError _ t
  · exact yields_pure () t

theorem yields_logAll (c : Context) (events : List Event) (t : FileTree) :
    (logAll c events).Yields t (.ok ()) := by
  induction events with
  | nil => exact yields_pure () t
  | cons e rest ih => exact (yields_log c e t).bind ih

theorem yields_report (c : Context) (status : Status) (message : String) (t : FileTree) :
    (report c status message).Yields t (.ok ()) := by
  unfold report
  split
  · exact yields_pure () t
  · exact yields_printError _ t

/-- What is printed at the end is all that is printed. -/
theorem Yields.of_print {c : Command Unit} {text : String} (h : c.Yields t (.ok ()))
    (hs : s.tree = t) (hrun : (c >>= fun _ => print text).runOn s = (.ok (), s')) :
    s'.tree = t ∧ s'.output = s.output ++ text := by
  obtain ⟨s₁, hrun₁, htree, houtput⟩ := h s hs
  have hprint : (c >>= fun _ => print text).runOn s =
      (.ok (), { s₁ with output := s₁.output ++ text }) := by
    rw [runOn_bind, hrun₁]
    rfl
  rw [hprint] at hrun
  cases hrun
  exact ⟨htree, congrArg (· ++ text) houtput⟩

end

end ModularBuild.Command
