import ModularBuild.Proofs.Module.Registry
import ModularBuild.Proofs.Policy.Provenance

/-! # Registries over whole runs

Starting from an empty registry, modules are registered, policies go over all modules and single
modules are changed, in any order and with any failures. The modules are those that were
registered, in the order of their registration, each with the changes made to it since; this
is the invariant of the run. What one further operation does is said of every registry, for the
exact index is part of what a registry is. -/

namespace ModularBuild

/-- The second module is the first one after some changes. -/
def Module.Evolves (m m' : Module) : Prop := ∃ changes, m' = m.performAll changes

namespace Module.Evolves

theorem refl (m : Module) : m.Evolves m := ⟨[], rfl⟩

theorem trans {m m' m'' : Module} (h : m.Evolves m') (h' : m'.Evolves m'') : m.Evolves m'' := by
  obtain ⟨changes, rfl⟩ := h
  obtain ⟨changes', rfl⟩ := h'
  exact ⟨changes ++ changes', (performAll_append m changes changes').symm⟩

theorem forall₂_refl (modules : List Module) : List.Forall₂ Evolves modules modules :=
  List.forall₂_same.mpr fun m _ => .refl m

theorem forall₂_trans {a b c : List Module} (hab : List.Forall₂ Evolves a b)
    (hbc : List.Forall₂ Evolves b c) : List.Forall₂ Evolves a c := by
  induction hab generalizing c with
  | nil => exact hbc
  | cons h _ ih =>
    cases hbc with
    | cons h' hrest => exact .cons (h.trans h') (ih hrest)

end Module.Evolves

namespace Registry

/-! ## Policies -/

section
variable {σ ε : Type} {policy : ModulePolicy σ ε} {s s' : σ} {modules modules' : List Module}

/-- The policy goes over the modules without a failure: once over each of them, in their order. -/
inductive Passes (policy : ModulePolicy σ ε) : σ → List Module → List Module → σ → Prop
  | nil {s : σ} : Passes policy s [] [] s
  | cons {s s₁ s' : σ} {m : Module} {changes : List Change} {rest rest' : List Module}
      (first : policy m s = ((changes, none), s₁)) (others : Passes policy s₁ rest rest' s') :
      Passes policy s (m :: rest) (m.performAll changes :: rest') s'

/-- The policy fails at one of the modules. It has passed those before; that one keeps what was
done to it, and those after it are as they were. -/
def Stops (policy : ModulePolicy σ ε) (s : σ) (modules modules' : List Module) (e : ε) (s' : σ) :
    Prop :=
  ∃ before before' m after changes s₁, modules = before ++ m :: after ∧
    Passes policy s before before' s₁ ∧ policy m s₁ = ((changes, some e), s') ∧
    modules' = before' ++ m.performAll changes :: after

/-- The policy passes all modules, or it stops at one of them with the failure. -/
def Sweeps (policy : ModulePolicy σ ε) (s : σ) (modules modules' : List Module) :
    Option ε → σ → Prop
  | none, s' => Passes policy s modules modules' s'
  | some e, s' => Stops policy s modules modules' e s'

theorem sweeps_runPolicy (policy : ModulePolicy σ ε) (modules : List Module) (s : σ) :
    let run := runPolicy policy modules s
    Sweeps policy s modules run.1.1 run.1.2 run.2 := by
  induction modules generalizing s with
  | nil => exact .nil
  | cons m rest ih =>
    rw [runPolicy_cons]
    rcases hfirst : policy m s with ⟨⟨changes, _ | e⟩, s₁⟩
    · have hrest := ih s₁
      dsimp only at hrest ⊢
      generalize runPolicy policy rest s₁ = run at hrest ⊢
      obtain ⟨⟨rest', _ | e⟩, s'⟩ := run
      · exact .cons hfirst hrest
      · obtain ⟨before, before', m', after, changes', s₂, rfl, hpassed, hfails, rfl⟩ := hrest
        exact ⟨m :: before, m.performAll changes :: before', m', after, changes', s₂, rfl,
          .cons hfirst hpassed, hfails, rfl⟩
    · exact ⟨[], [], m, rest, changes, s, rfl, .nil, hfirst, rfl⟩

theorem Passes.evolves (h : Passes policy s modules modules' s') :
    List.Forall₂ Module.Evolves modules modules' := by
  induction h with
  | nil => exact .nil
  | cons _ _ ih => exact .cons ⟨_, rfl⟩ ih

theorem Sweeps.evolves {failure : Option ε} (h : Sweeps policy s modules modules' failure s') :
    List.Forall₂ Module.Evolves modules modules' := by
  cases failure with
  | none => exact Passes.evolves h
  | some e =>
    obtain ⟨before, before', m, after, changes, s₁, rfl, hpassed, -, rfl⟩ := h
    exact List.rel_append hpassed.evolves
      (.cons ⟨changes, rfl⟩ (Module.Evolves.forall₂_refl after))

end

/-! ## One operation -/

/-- What can be done to a registry. A policy comes with the state that it starts from. -/
inductive Operation : Type 1
  | register (m : Module)
  | applyToAll {σ : Type} (policy : ModulePolicy σ BuildError) (start : σ)
  | update (name : String) (changes : List Change)

def perform (r : Registry) : Operation → Registry
  | .register m => (r.register m).2
  | .applyToAll policy start => (r.applyToAll policy start).1.1
  | .update name changes => r.update name changes

/-- The module that the operation registers, if it does and is not refused. -/
def accepted? (r : Registry) : Operation → Option Module
  | .register m => if (r.register m).1.isOk then some m else none
  | .applyToAll .. | .update .. => none

/-- An operation changes the modules that are there, and the one that it registers comes last. -/
theorem evolves_perform (r : Registry) (op : Operation) :
    List.Forall₂ Module.Evolves (r.modules ++ (r.accepted? op).toList) (r.perform op).modules := by
  have hsame := Module.Evolves.forall₂_refl r.modules
  cases op with
  | register m =>
    by_cases hm : m.name ∈ r.names
    · simpa [accepted?, perform, register_of_mem hm, Except.isOk, Except.toBool] using hsame
    · simpa [accepted?, perform, register_of_new hm, Except.isOk, Except.toBool, append] using
        List.rel_append hsame (.cons (.refl m) .nil)
  | applyToAll policy start =>
    rw [accepted?, Option.toList_none, List.append_nil]
    exact (sweeps_runPolicy policy r.modules start).evolves
  | update name changes =>
    rw [accepted?, Option.toList_none, List.append_nil, perform, modules_update,
      List.forall₂_map_right_iff]
    refine List.forall₂_same.mpr fun m _ => ?_
    split
    · exact ⟨changes, rfl⟩
    · exact .refl m

/-! ## Runs -/

def performAll (r : Registry) (ops : List Operation) : Registry := ops.foldl perform r

/-- The modules that the run registers, in the order of their registration. -/
def accepted (r : Registry) : List Operation → List Module
  | [] => []
  | op :: rest => (r.accepted? op).toList ++ (r.perform op).accepted rest

theorem evolves_performAll (r : Registry) (ops : List Operation) :
    List.Forall₂ Module.Evolves (r.modules ++ r.accepted ops) (r.performAll ops).modules := by
  induction ops generalizing r with
  | nil => simpa [accepted, performAll] using Module.Evolves.forall₂_refl r.modules
  | cons op rest ih =>
    have hlater := Module.Evolves.forall₂_refl ((r.perform op).accepted rest)
    rw [accepted, ← List.append_assoc]
    exact Module.Evolves.forall₂_trans (List.rel_append (r.evolves_perform op) hlater)
      (ih (r.perform op))

/-- A registry after any run from the empty one: its modules and what is found by a name, what a
further registration does, and how a further policy or change goes. -/
theorem performAll_empty (ops : List Operation) :
    let r := empty.performAll ops
    r.names.Nodup ∧
    List.Forall₂ Module.Evolves (empty.accepted ops) r.modules ∧
    (∀ name, (∀ m, r.get? name = some m ↔ m ∈ r.modules ∧ m.name = name) ∧
      (r.get? name = none ↔ ∀ m ∈ r.modules, m.name ≠ name)) ∧
    (∀ m, (m.name ∈ r.names → r.register m = (.error (.duplicateModule m.name), r)) ∧
      (m.name ∉ r.names → ∃ r', r.register m = (.ok (), r') ∧ r'.modules = r.modules ++ [m])) ∧
    (∀ {σ : Type} (policy : ModulePolicy σ BuildError) (s : σ),
      let run := r.applyToAll policy s
      Sweeps policy s r.modules run.1.1.modules run.1.2 run.2) ∧
    ∀ name changes, (r.update name changes).modules =
      r.modules.map fun m => if m.name = name then m.performAll changes else m := by
  intro r
  refine ⟨r.nodup_names, empty.evolves_performAll ops, fun name => ?_, fun m => ?_,
    fun policy s => sweeps_runPolicy policy r.modules s, r.modules_update⟩
  · exact ⟨fun m => get?_eq_some_iff, get?_eq_none_iff⟩
  · exact ⟨register_of_mem, fun hm => ⟨_, register_of_new hm, rfl⟩⟩

/-- Counts the modules that it sees, and fails at the second one. -/
def failsAtSecond : ModulePolicy Nat BuildError := fun _ => do
  modify (· + 1)
  if (← get) = 2 then return ([.plugin "signing"], some (.policyRejected "broken"))
  else return ([.plugin "checkstyle"], none)

def rollCall : List Operation :=
  [.register (.bare "core" ⟨"core"⟩), .register (.bare "http" ⟨"http"⟩),
    .register (.bare "core" ⟨"copy"⟩), .applyToAll failsAtSecond 0,
    .register (.bare "dist" ⟨"dist"⟩), .update "dist" [.override "group" "team"]]

theorem performAll_rollCall : let r := empty.performAll rollCall
    r.names = ["core", "http", "dist"] ∧ r.names.Nodup ∧
    r.register (.bare "http" ⟨"other"⟩) = (.error (.duplicateModule "http"), r) ∧
    r.get? "signing" = none ∧
    ∃ m, r.get? "http" = some m ∧ m.hasPlugin "signing" = true ∧
      m.hasPlugin "checkstyle" = false := by
  obtain ⟨hnodup, -, hget, hregister, -⟩ := performAll_empty rollCall
  have hhttp : ((empty.performAll rollCall).modules.any fun m => m.name = "http" &&
      m.hasPlugin "signing" && !m.hasPlugin "checkstyle") = true := by decide +kernel
  obtain ⟨m, hm, hfacts⟩ := List.any_eq_true.mp hhttp
  simp only [Bool.and_eq_true, decide_eq_true_eq, Bool.not_eq_true'] at hfacts
  exact ⟨by decide +kernel, hnodup, (hregister _).1 (by decide +kernel),
    (hget "signing").2.mpr (by decide +kernel), m, ((hget "http").1 m).mpr ⟨hm, hfacts.1.1⟩,
    hfacts.1.2, hfacts.2⟩

end Registry
end ModularBuild
