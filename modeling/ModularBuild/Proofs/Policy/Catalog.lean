import ModularBuild.Policy.Propagation
import ModularBuild.Proofs.Outcome
import ModularBuild.Proofs.Table

/-! # Known versions

A catalog grows by what is added to it. A bundle is rejected for the first tool whose pinned
version the catalog does not know; one entry per tool makes the first of the pinned rows
the first of the tools. -/

namespace ModularBuild

theorem Tool.mem_all (tool : Tool) : tool ∈ all := by
  cases tool <;> decide

namespace PerTool

variable {α : Type} {p : PerTool (Option α)}

theorem mem_present_iff {tool : Tool} {a : α} : (tool, a) ∈ p.present ↔ p.get tool = some a := by
  simp only [present, List.mem_filterMap, Option.map_eq_some_iff, Prod.mk.injEq]
  constructor
  · rintro ⟨_, -, _, hget, rfl, rfl⟩
    exact hget
  · intro hget
    exact ⟨tool, tool.mem_all, a, hget, rfl, rfl⟩

/-- Checks of the present values are checks of the tools, where an absent value passes. -/
theorem forM_present {ε : Type} (f : Tool × α → Except ε Unit) :
    p.present.forM f =
      Tool.all.forM fun tool => (p.get tool).elim (.ok ()) fun a => f (tool, a) := by
  rw [present]
  induction Tool.all with
  | nil => rfl
  | cons tool rest ih =>
    rw [List.filterMap_cons, List.forM, ← ih]
    cases p.get tool <;> rfl

end PerTool

namespace Catalog

variable {c : Catalog} {tool : Tool} {version : String}

theorem isKnown_addVersions {other : Tool} {added : List String} :
    (c.addVersions other added).isKnown tool version = true ↔
      c.isKnown tool version = true ∨ tool = other ∧ version ∈ added := by
  rw [isKnown, isKnown, addVersions, PerTool.get_set]
  split
  · rename_i h
    subst h
    rw [Option.any_some, Table.contains_insertMany, List.map_map, Function.comp_def, List.map_id',
      or_comm]
    cases c.known.get tool with
    | none => simp [Table.contains, show (∅ : Table String Unit).find? version = none from rfl]
    | some table => simp
  · simp [*]

theorem isKnown_foldl_addVersions {rows : List (Tool × List String)} :
    (rows.foldl (fun c (tool, added) => c.addVersions tool added) c).isKnown tool version = true ↔
      c.isKnown tool version = true ∨ ∃ added, (tool, added) ∈ rows ∧ version ∈ added := by
  induction rows generalizing c with
  | nil => simp
  | cons row rest ih =>
    rw [List.foldl_cons, ih, isKnown_addVersions, or_assoc]
    refine or_congr_right ?_
    constructor
    · rintro (⟨rfl, hv⟩ | ⟨added, hrow, hv⟩)
      · exact ⟨row.2, List.mem_cons_self, hv⟩
      · exact ⟨added, List.mem_cons_of_mem _ hrow, hv⟩
    · rintro ⟨added, hrow, hv⟩
      rcases List.mem_cons.mp hrow with h | hrow
      · subst h
        exact .inl ⟨rfl, hv⟩
      · exact .inr ⟨added, hrow, hv⟩

theorem check_eq_ok_iff : c.check tool version = .ok () ↔ c.isKnown tool version = true := by
  rw [check]
  split <;> simp [*]

theorem check_eq_error_iff {e : BuildError} : c.check tool version = .error e ↔
    c.isKnown tool version = false ∧ e = .unknownToolchain tool.name version (c.versions tool) := by
  rw [check]
  split <;> simp [*, eq_comm]

/-- The bundle pins a version of the tool that the catalog does not know. -/
def Lacks (c : Catalog) (b : PolicyBundle) (tool : Tool) (version : String) : Prop :=
  b.toolchains.get tool = some version ∧ c.isKnown tool version = false

end Catalog

section Pinned

variable {b : PolicyBundle} {c : Catalog} {e : BuildError}

theorem Catalog.checkPinned_eq_ok_iff {tool : Tool} :
    (b.toolchains.get tool).elim (.ok ()) (c.check tool) = .ok () ↔
      ∀ version, ¬ c.Lacks b tool version := by
  cases hget : b.toolchains.get tool with
  | none => simp [Lacks, hget]
  | some version => simp [Lacks, hget, check_eq_ok_iff]

theorem Catalog.checkPinned_eq_error_iff {tool : Tool} :
    (b.toolchains.get tool).elim (.ok ()) (c.check tool) = .error e ↔
      ∃ version, c.Lacks b tool version ∧
        e = .unknownToolchain tool.name version (c.versions tool) := by
  cases hget : b.toolchains.get tool with
  | none => simp [Lacks, hget]
  | some version => simp [Lacks, hget, check_eq_error_iff]

theorem PolicyBundle.check_of_encoding (hencoding : Text.allBlank b.encoding = false) :
    b.check c = Tool.all.forM fun tool =>
      (b.toolchains.get tool).elim (.ok ()) (c.check tool) := by
  rw [check, hencoding, PerTool.forM_present]
  exact bind_pure _

namespace Propagator

/-- A bundle with an encoding is taken if all its versions are known. -/
theorem exists_ofBundle_iff (hencoding : Text.allBlank b.encoding = false) :
    (∃ p, ofBundle b c = .ok p) ↔ ∀ tool version, ¬ c.Lacks b tool version := by
  have hok : b.check c = .ok () ↔ ∀ tool version, ¬ c.Lacks b tool version := by
    rw [PolicyBundle.check_of_encoding hencoding, Outcome.forM_eq_ok_iff]
    simp only [Catalog.checkPinned_eq_ok_iff, Tool.mem_all, forall_const]
  rw [← hok, ofBundle]
  cases b.check c with
  | error e => simp
  | ok u => simp [hencoding]

/-- Else it is refused for the first of the tools with an unknown version. -/
theorem ofBundle_eq_error_iff (hencoding : Text.allBlank b.encoding = false) :
    ofBundle b c = .error e ↔ ∃ before tool after version, Tool.all = before ++ tool :: after ∧
      (∀ earlier ∈ before, ∀ v, ¬ c.Lacks b earlier v) ∧ c.Lacks b tool version ∧
      e = .unknownToolchain tool.name version (c.versions tool) := by
  have herror : ofBundle b c = .error e ↔ b.check c = .error e := by
    rw [ofBundle]
    cases b.check c with
    | error e' => simp
    | ok u => simp [hencoding]
  rw [herror, PolicyBundle.check_of_encoding hencoding, Outcome.forM_eq_error_iff]
  simp only [Catalog.checkPinned_eq_ok_iff, Catalog.checkPinned_eq_error_iff, exists_and_left]

end Propagator
end Pinned
end ModularBuild
