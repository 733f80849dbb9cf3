import ModularBuild.Data
import ModularBuild.Proofs.Yaml.Decode
import Mathlib.Data.List.Forall2

/-! # Trees of texts in a document

A tree of mappings, sequences and texts may be written out in many ways. Whichever is chosen, the
readers find its texts in their order, and they follow no alias for that. -/

namespace ModularBuild.Yaml

/-! ## What a scalar says -/

namespace Scalar

theorem int?_ne_text (s t : String) : int? s ≠ some (.text t) := by
  intro h
  rw [int?] at h
  split at h
  all_goals
    obtain ⟨n, -, hn⟩ := Option.bind_eq_some_iff.mp h
    dsimp only at hn
    split at hn
    · cases hn
    · split at hn <;> cases hn

/-- A plain scalar that means a text means the text that it shows. -/
theorem eq_of_ofPlain {s t : String} (h : ofPlain s = .text t) : s = t := by
  rw [ofPlain] at h
  split at h
  · cases h
  · split at h
    · cases h
    · split at h
      · next n hn => exact absurd (h ▸ hn) (int?_ne_text s t)
      · split at h
        · cases h; rfl
        · split at h
          · cases h
          · cases h; rfl

end Scalar

theorem Value.eq_of_meaning {tag : Option String} {style : Style} {text s : String}
    (h : meaning tag style text = .ok (.text s)) : text = s := by
  cases tag with
  | none =>
    have h := Except.ok.inj h
    split at h
    · exact Scalar.eq_of_ofPlain h
    · exact Scalar.text.inj h
  | some tag =>
    -- a tag of the standard gives another meaning than a text, or none
    dsimp only [meaning] at h
    split at h
    · cases hb : Scalar.bool? text <;> rw [hb] at h <;> cases h
    split at h
    · cases hn : Scalar.int? text <;> rw [hn] at h
      · cases h
      · exact absurd (Except.ok.inj h ▸ hn) (Scalar.int?_ne_text text s)
    split at h
    · cases hx : Scalar.float? text <;> rw [hx] at h <;> cases h
    split at h
    · split at h <;> cases h
    split at h
    · exact Scalar.eq_of_ofPlain (Except.ok.inj h)
    · exact Scalar.text.inj (Except.ok.inj h)

/-! ## Trees written out -/

namespace Node

mutual

/-- Whether the node is the tree written out: each text as a scalar that means this text, each
collection with its members in their order, and neither aliases nor tags of the document's own. -/
def spells : Node → Data → Bool
  | .scalar _ tag style text, .text s =>
    (Value.tagName? tag).isNone && (Value.meaning tag style text).toOption == some (.text s)
  | .sequence _ tag items, .list ds => (Value.tagName? tag).isNone && spellsAll items ds
  | .mapping _ tag entries, .object fields =>
    (Value.tagName? tag).isNone && spellsFields entries fields
  | _, _ => false

def spellsAll : List Node → List Data → Bool
  | [], [] => true
  | item :: items, d :: ds => spells item d && spellsAll items ds
  | _, _ => false

def spellsFields : List (Node × Node) → List (String × Data) → Bool
  | [], [] => true
  | (key, value) :: entries, (name, d) :: fields =>
    spells key (.text name) && spells value d && spellsFields entries fields
  | _, _ => false

end

variable {n : Node}

theorem spells_text {s : String} (h : n.spells (.text s) = true) :
    ∃ mark tag style, n = .scalar mark tag style s ∧ Value.tagName? tag = none ∧
      Value.meaning tag style s = .ok (.text s) := by
  cases n with
  | scalar mark tag style text =>
    simp only [spells, Bool.and_eq_true, Option.isNone_iff_eq_none, beq_iff_eq,
      Outcome.toOption_eq_some_iff] at h
    obtain rfl := Value.eq_of_meaning h.2
    exact ⟨mark, tag, style, rfl, h⟩
  | ref | sequence | mapping => simp [spells] at h

theorem spellsAll_iff {items : List Node} {ds : List Data} :
    spellsAll items ds = true ↔ List.Forall₂ (fun item d => item.spells d = true) items ds := by
  induction items generalizing ds with
  | nil => cases ds <;> simp [spellsAll]
  | cons item items ih => cases ds <;> simp [spellsAll, ih]

theorem spells_list {ds : List Data} (h : n.spells (.list ds) = true) :
    ∃ mark tag items, n = .sequence mark tag items ∧
      List.Forall₂ (fun item d => item.spells d = true) items ds := by
  cases n with
  | sequence mark tag items =>
    rw [spells, Bool.and_eq_true, spellsAll_iff] at h
    exact ⟨mark, tag, items, rfl, h.2⟩
  | ref | scalar | mapping => simp [spells] at h

theorem spells_object {fields : List (String × Data)} (h : n.spells (.object fields) = true) :
    ∃ mark tag entries, n = .mapping mark tag entries ∧ spellsFields entries fields = true := by
  cases n with
  | mapping mark tag entries =>
    rw [spells, Bool.and_eq_true] at h
    exact ⟨mark, tag, entries, rfl, h.2⟩
  | ref | scalar | sequence => simp [spells] at h

end Node

/-- Whether the text is one document and this document is the tree written out. -/
def reads (text : String) (d : Data) : Bool :=
  (Document.read? text).any fun document => document.root.any (·.spells d)

/-! ## Reading a tree -/

namespace Value

open Decode (Gives)

variable {α σ : Type} {v : Value}

theorem gives_scalarText {s : String} (expected : String) (h : v.node.spells (.text s) = true) :
    Gives (v.scalarText expected) s := by
  obtain ⟨mark, tag, style, hv, -⟩ := Node.spells_text h
  refine gives_within (by simp [hv]) ?_
  rw [hv]
  exact Gives.pure s

theorem gives_content {s : String} (h : v.node.spells (.text s) = true) :
    Gives v.content (.scalar (.text s)) := by
  obtain ⟨mark, tag, style, hv, htag, hs⟩ := Node.spells_text h
  -- a scalar is read at any depth
  rw [content, contentWithin.eq_def]
  refine gives_within (by simp [hv]) ?_
  simp only [hv, htag, hs, Option.isSome_none, Bool.false_eq_true, if_false]
  exact Gives.pure (Found.scalar (.text s))

theorem gives_variant {known : List (String × α)} {s : String} {a : α}
    (h : v.node.spells (.text s) = true) (ha : known.lookup s = some a) :
    Gives (v.variant known) a := by
  obtain ⟨mark, tag, style, hv, htag, -⟩ := Node.spells_text h
  refine (gives_target (by simp [hv])).bind ?_
  simp only [hv, htag]
  refine gives_placed ?_
  rw [choose, ha]
  exact Gives.pure a

/-- A list is read item by item, each one level below it. -/
theorem gives_list {read : Value → Decode α} {ds : List Data} {as : List α}
    (hdepth : v.depth ≠ 0) (h : v.node.spells (.list ds) = true)
    (hread : List.Forall₂ (fun d a => ∀ w : Value, w.depth = v.depth - 1 →
      w.node.spells d = true → Gives (read w) a) ds as) :
    Gives (v.list read) as := by
  obtain ⟨mark, tag, items, hv, hitems⟩ := Node.spells_list h
  have hboth : List.Forall₂ (fun item a => ∀ trail, Gives (read (v.member trail item)) a)
      items as := by
    clear hv h
    induction hitems generalizing as with
    | nil =>
      cases hread
      exact .nil
    | cons hitem _ ih =>
      obtain _ | ⟨ha, hread⟩ := hread
      exact .cons (fun trail => ha _ rfl hitem) (ih hread)
  refine gives_within (by simp [hv]) ?_
  rw [hv]
  exact (gives_enter hdepth).bind (gives_readItems hboth 0)

/-- The states that the steps over the fields come through, when the value of each field is the
tree beside its name and may hold so many collections. -/
inductive Steps (step : σ → String → Value → Decode σ) (depth : Nat) :
    σ → List (String × Data) → σ → Prop
  | nil (s : σ) : Steps step depth s [] s
  | cons {s s' : σ} {name : String} {d : Data} {rest : List (String × Data)} (between : σ)
      (h : ∀ w : Value, w.depth = depth → w.node.spells d = true →
        Gives (step s name w) between)
      (hrest : Steps step depth between rest s') : Steps step depth s ((name, d) :: rest) s'

theorem gives_foldFields {step : σ → String → Value → Decode σ} {s s' : σ}
    {entries : List (Node × Node)} {fields : List (String × Data)}
    (hsteps : Steps step (v.depth - 1) s fields s')
    (h : Node.spellsFields entries fields = true) :
    Gives (foldEntries v (fun s key value => do
      step s (← key.scalarText "field identifier") value) s entries) s' := by
  induction hsteps generalizing entries with
  | nil s =>
    cases entries with
    | nil => exact Gives.pure s
    | cons => simp [Node.spellsFields] at h
  | cons _ hstep _ ih =>
    cases entries with
    | nil => simp [Node.spellsFields] at h
    | cons =>
      simp only [Node.spellsFields, Bool.and_eq_true] at h
      obtain ⟨⟨hkey, hvalue⟩, hrest⟩ := h
      exact ((gives_scalarText _ hkey).bind (hstep _ rfl hvalue)).bind (ih hrest)

theorem gives_fields {type : String} {initial s : σ} {step : σ → String → Value → Decode σ}
    {finish : σ → Decode α} {fields : List (String × Data)} {a : α} (hdepth : v.depth ≠ 0)
    (h : v.node.spells (.object fields) = true) (hsteps : Steps step (v.depth - 1) initial fields s)
    (hfinish : Gives (finish s) a) : Gives (v.fields type initial step finish) a := by
  obtain ⟨mark, tag, entries, hv, hentries⟩ := Node.spells_object h
  refine gives_within (by simp [hv]) ?_
  rw [hv]
  exact (gives_enter hdepth).bind ((gives_foldFields hsteps hentries).bind hfinish)

end Value

/-- A reader that gives the value on every node that spells the tree out gives it on a text for
the tree. -/
theorem decode_of_reads {α : Type} {read : Value → Decode α} {text : String} {d : Data} {a : α}
    (h : reads text d = true)
    (hread : ∀ v : Value, v.depth = maxDepth → v.node.spells d = true →
      Decode.Gives (read v) a) : decode text read = .ok a := by
  obtain ⟨document, hdocument, hroot⟩ := (Option.any_eq_true _ _).mp h
  obtain ⟨node, hnode, hspells⟩ := (Option.any_eq_true _ _).mp hroot
  have hgives := hread ⟨document, 100 * document.weight, maxDepth, .root, node⟩ rfl hspells 0
  simp only [decode, hdocument, hnode, Option.getD_some]
  exact Outcome.bind_eq_ok_iff.mpr ⟨(a, 0), hgives, rfl⟩

end ModularBuild.Yaml
