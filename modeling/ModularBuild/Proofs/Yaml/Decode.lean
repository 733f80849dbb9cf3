import ModularBuild.Proofs.Outcome
import ModularBuild.Yaml.Decode

/-! # What reading a document gives

Two judgements about a reader. `Gives` says what it gives, whatever has been counted so far;
`Ensures` says what holds of anything it gives. The readers of collections are taken apart once
for each of them, by induction on the items or the entries. -/

namespace ModularBuild.Yaml

namespace Decode

variable {α β : Type}

/-- The reader gives the value and follows no alias. -/
def Gives (d : Decode α) (a : α) : Prop := ∀ jumps, d.run jumps = .ok (a, jumps)

/-- Whatever the reader gives has the property. -/
def Ensures (d : Decode α) (P : α → Prop) : Prop :=
  ∀ jumps a jumps', d.run jumps = .ok (a, jumps') → P a

theorem run_bind_eq_ok_iff {d : Decode α} {f : α → Decode β} {jumps jumps' : Nat} {b : β} :
    (d >>= f).run jumps = .ok (b, jumps') ↔
      ∃ a between, d.run jumps = .ok (a, between) ∧ (f a).run between = .ok (b, jumps') := by
  rw [StateT.run_bind, Outcome.bind_eq_ok_iff, Prod.exists]

theorem run_tryCatch (d : Decode α) (handle : Fault → Decode α) (jumps : Nat) :
    (tryCatch d handle).run jumps = match d.run jumps with
      | .ok r => .ok r
      | .error fault => (handle fault).run jumps := by
  change Except.tryCatch (d.run jumps) (fun fault => (handle fault).run jumps) = _
  cases d.run jumps <;> rfl

namespace Gives

theorem pure (a : α) : Gives (Pure.pure a) a := fun _ => rfl

theorem bind {d : Decode α} {f : α → Decode β} {a : α} {b : β} (h : Gives d a)
    (hf : Gives (f a) b) : Gives (d >>= f) b := by
  intro jumps
  exact run_bind_eq_ok_iff.mpr ⟨a, jumps, h jumps, hf jumps⟩

end Gives

namespace Ensures

variable {P : α → Prop} {Q : β → Prop}

theorem pure {a : α} (h : P a) : Ensures (Pure.pure a) P := by
  intro jumps a' jumps' hrun
  cases hrun
  exact h

theorem bind {d : Decode α} {f : α → Decode β} (h : Ensures d P)
    (hf : ∀ a, P a → Ensures (f a) Q) : Ensures (d >>= f) Q := by
  intro jumps b jumps' hrun
  obtain ⟨a, between, hd, hrest⟩ := run_bind_eq_ok_iff.mp hrun
  exact hf a (h jumps a between hd) between b jumps' hrest

theorem trivial (d : Decode α) : Ensures d fun _ => True := fun _ _ _ _ => True.intro

end Ensures
end Decode

/-! ## Names of fields -/

namespace Document

/-- The node that an alias stands for; any other node stands for itself. -/
def behind? (document : Document) : Node → Option Node
  | .ref _ number => document.target? number
  | node => some node

/-- The text of a key that is a scalar. -/
def keyText? (document : Document) (key : Node) : Option String :=
  match document.behind? key with
  | some (.scalar _ _ _ text) => some text
  | _ => none

/-- The names of the fields of a mapping. -/
def fieldNames (document : Document) (node : Node) : List String :=
  match document.behind? node with
  | some (.mapping _ _ entries) => entries.filterMap fun entry => document.keyText? entry.1
  | _ => []

end Document

namespace Value

open Decode (Gives Ensures)

variable {α σ : Type} {v : Value}

/-! ## Values in their places -/

/-- Giving a fault a place never makes a value of it. -/
theorem run_placed_eq_ok_iff {d : Decode α} {jumps jumps' : Nat} {a : α} :
    (v.placed d).run jumps = .ok (a, jumps') ↔ d.run jumps = .ok (a, jumps') := by
  rw [placed, Decode.run_tryCatch]
  cases d.run jumps with
  | ok r => exact Iff.rfl
  | error fault =>
    constructor
    · intro h
      dsimp only at h
      split at h <;> cases h
    · intro h
      cases h

theorem gives_placed {d : Decode α} {a : α} (h : Gives d a) : Gives (v.placed d) a :=
  fun jumps => run_placed_eq_ok_iff.mpr (h jumps)

theorem ensures_placed {d : Decode α} {P : α → Prop} (h : Ensures d P) :
    Ensures (v.placed d) P :=
  fun jumps a jumps' hrun => h jumps a jumps' (run_placed_eq_ok_iff.mp hrun)

theorem gives_target (h : ∀ mark number, v.node ≠ .ref mark number) : Gives v.target v := by
  unfold target
  split
  · next mark number hv => exact absurd hv (h mark number)
  · exact Gives.pure v

/-- Most readers look at the target of the value, and both may give a fault its place. -/
theorem gives_within {read : Value → Decode α} {a : α}
    (h : ∀ mark number, v.node ≠ .ref mark number) (hread : Gives (read v) a) :
    Gives (v.placed do let w ← v.target; w.placed (read w)) a :=
  gives_placed ((gives_target h).bind (gives_placed hread))

theorem ensures_fail (cause : Cause) (P : α → Prop) : Ensures (fail cause : Decode α) P := by
  intro jumps a jumps' hrun
  cases hrun

/-- What the target of a value is does not depend on the count of aliases. -/
theorem ensures_target :
    Ensures v.target fun w =>
      w.document = v.document ∧ v.document.behind? v.node = some w.node := by
  unfold target
  split
  · next mark number hv =>
    refine (Ensures.trivial _).bind fun jumps _ => (Ensures.trivial _).bind fun _ _ => ?_
    split
    · next node hnode =>
      have hfound := Ensures.pure (a := { v with node }) (P := fun w =>
        w.document = v.document ∧ v.document.behind? v.node = some w.node)
        ⟨rfl, by rw [hv]; exact hnode⟩
      split
      · exact (Ensures.trivial _).bind fun _ _ => hfound
      · exact hfound
    · split
      · exact (Ensures.trivial _).bind fun _ _ => ensures_fail _ _
      · exact ensures_fail _ _
  · next hv =>
    refine Ensures.pure ⟨rfl, ?_⟩
    unfold Document.behind?
    split
    · next mark number hnode => exact absurd hnode (hv mark number)
    · rfl

theorem ensures_within_target {read : Value → Decode α} {P : α → Prop}
    (h : ∀ w, w.document = v.document → v.document.behind? v.node = some w.node →
      Ensures (read w) P) :
    Ensures (v.placed do let w ← v.target; w.placed (read w)) P :=
  ensures_placed (ensures_target.bind fun w hw => ensures_placed (h w hw.1 hw.2))

theorem ensures_within {read : Value → Decode α} {P : α → Prop}
    (h : ∀ w, Ensures (read w) P) :
    Ensures (v.placed do let w ← v.target; w.placed (read w)) P :=
  ensures_within_target fun w _ _ => h w

theorem ensures_mismatch (node : Node) (expected : String) (P : α → Prop) :
    Ensures (mismatch node expected : Decode α) P := by
  cases node with
  | scalar mark tag style text =>
    rw [mismatch]
    split
    · exact ensures_fail _ _
    · exact ensures_fail _ _
  | ref mark number => exact ensures_fail _ _
  | sequence mark tag items => exact ensures_fail _ _
  | mapping mark tag entries => exact ensures_fail _ _

theorem gives_enter (h : v.depth ≠ 0) : Gives v.enter () := by
  rw [enter, if_neg h]
  exact Gives.pure ()

/-! ## Lists -/

theorem gives_readItems {read : Value → Decode α} {items : List Node} {as : List α}
    (h : List.Forall₂ (fun item a => ∀ trail, Gives (read (v.member trail item)) a) items as)
    (index : Nat) : Gives (readItems v read index items) as := by
  induction h generalizing index with
  | nil => exact Gives.pure []
  | cons hitem _ ih => exact (hitem _).bind ((ih (index + 1)).bind (Gives.pure _))

theorem ensures_readItems {read : Value → Decode α} {P : α → Prop}
    (h : ∀ w, Ensures (read w) P) (index : Nat) (items : List Node) :
    Ensures (readItems v read index items) fun as => ∀ a ∈ as, P a := by
  induction items generalizing index with
  | nil => exact Ensures.pure (by simp)
  | cons item rest ih =>
    refine (h _).bind fun a ha => (ih (index + 1)).bind fun as has => Ensures.pure ?_
    exact List.forall_mem_cons.mpr ⟨ha, has⟩

theorem ensures_list {read : Value → Decode α} {P : α → Prop} (h : ∀ w, Ensures (read w) P) :
    Ensures (v.list read) fun as => ∀ a ∈ as, P a := by
  refine ensures_within fun w => ?_
  split
  · exact (Ensures.trivial _).bind fun _ _ => ensures_readItems h 0 _
  · split
    · exact Ensures.pure (by simp)
    · exact ensures_mismatch _ _ _

/-! ## Fields -/

theorem ensures_keyText (expected : String) :
    Ensures (v.scalarText expected) fun text => v.document.keyText? v.node = some text := by
  refine ensures_within_target fun w _ hnode => ?_
  split
  · next mark tag style text hw =>
    refine Ensures.pure ?_
    rw [Document.keyText?, hnode, hw]
  · exact ensures_mismatch _ _ _

theorem ensures_foldFields {step : σ → String → Value → Decode σ} {I : σ → Prop}
    {entries : List (Node × Node)}
    (hstep : ∀ s name value, name ∈ entries.filterMap (fun entry => v.document.keyText? entry.1) →
      I s → Ensures (step s name value) I) {s : σ} (hs : I s) :
    Ensures (foldEntries v (fun s key value => do
      step s (← key.scalarText "field identifier") value) s entries) I := by
  induction entries generalizing s with
  | nil => exact Ensures.pure hs
  | cons entry rest ih =>
    refine ((ensures_keyText _).bind fun name hname => hstep s name _ ?_ hs).bind fun s' hs' =>
      ih (fun s name value hmem => hstep s name value ?_) hs'
    · exact List.mem_filterMap.mpr ⟨entry, List.mem_cons_self, hname⟩
    · obtain ⟨other, hother, hname⟩ := List.mem_filterMap.mp hmem
      exact List.mem_filterMap.mpr ⟨other, List.mem_cons_of_mem _ hother, hname⟩

/-- What holds at the start and is kept by every field of the mapping is there at the end. -/
theorem ensures_fields_of_names {type : String} {initial : σ}
    {step : σ → String → Value → Decode σ} {finish : σ → Decode α} {I : σ → Prop} {P : α → Prop}
    (hinitial : I initial)
    (hstep : ∀ s name value, name ∈ v.document.fieldNames v.node → I s →
      Ensures (step s name value) I)
    (hfinish : ∀ s, I s → Ensures (finish s) P) :
    Ensures (v.fields type initial step finish) P := by
  refine ensures_within_target fun w hdocument hnode => ?_
  split
  · next mark tag entries hw =>
    refine (Ensures.trivial _).bind fun _ _ =>
      (ensures_foldFields (fun s name value hname => hstep s name value ?_) hinitial).bind hfinish
    rw [hdocument] at hname
    rwa [Document.fieldNames, hnode, hw]
  · split
    · exact hfinish initial hinitial
    · exact ensures_mismatch _ _ _

theorem ensures_fields {type : String} {initial : σ} {step : σ → String → Value → Decode σ}
    {finish : σ → Decode α} {I : σ → Prop} {P : α → Prop} (hinitial : I initial)
    (hstep : ∀ s name value, I s → Ensures (step s name value) I)
    (hfinish : ∀ s, I s → Ensures (finish s) P) :
    Ensures (v.fields type initial step finish) P :=
  ensures_fields_of_names hinitial (fun s name value _ => hstep s name value) hfinish

theorem gives_once {name : String} {d : Decode α} {a : α} (h : Gives d a) :
    Gives (once name none d) (some a) :=
  h.bind (Gives.pure _)

theorem ensures_once {name : String} {old : Option α} {d : Decode α} {P : α → Prop}
    (h : Ensures d P) : Ensures (once name old d) fun new => ∀ a ∈ new, P a := by
  have hread : Ensures (do return some (← d)) fun new => ∀ a ∈ new, P a := by
    refine h.bind fun a ha => Ensures.pure ?_
    intro a' ha'
    cases ha'
    exact ha
  cases old with
  | none => exact hread
  | some a => exact ensures_fail _ _

theorem ensures_required {name : String} {field : Option α} {P : α → Prop}
    (h : ∀ a ∈ field, P a) : Ensures (required name field) P := by
  cases field with
  | none => exact ensures_fail _ _
  | some a => exact Ensures.pure (h a rfl)

end Value

/-- What reading the root of a text ensures holds of what the text is decoded to. -/
theorem of_decode {α : Type} {read : Value → Decode α} {P : α → Prop} {text : String} {a : α}
    (h : decode text read = .ok a)
    (hread : ∀ v : Value, Document.read? text = some v.document →
      v.node = v.document.root.getD (.scalar ⟨0, 0⟩ none .plain "") → Decode.Ensures (read v) P) :
    P a := by
  rw [decode] at h
  split at h
  · cases h
  · next document hdocument =>
    obtain ⟨⟨a', jumps⟩, hrun, h⟩ := Outcome.bind_eq_ok_iff.mp h
    cases h
    exact hread _ hdocument rfl 0 a jumps hrun

end ModularBuild.Yaml
