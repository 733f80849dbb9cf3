import ModularBuild.Module.Change

/-! The modules of a project in the order of their registration, and an index from their names
to their positions. The index is exact, which every operation keeps, so a name stands for one
module at most and is looked up in one place. -/

namespace ModularBuild

/-- The index finds a name at the position where the module of that name is. -/
structure Registry where
  modules : List Module
  index : Table String Nat
  indexed : ∀ name i, index.find? name = some i ↔ (modules.map (·.name))[i]? = some name

/-- What a policy does to one module: some changes, and perhaps a failure after them. It may
remember what it has done in a state of its own. -/
abbrev ModulePolicy (σ ε : Type) := Module → StateM σ (List Change × Option ε)

namespace Registry

def empty : Registry := ⟨[], ∅, fun _ _ => by simp [EmptyCollection.emptyCollection]⟩

def names (r : Registry) : List String := r.modules.map (·.name)

def size (r : Registry) : Nat := r.modules.length

def isEmpty (r : Registry) : Bool := r.modules.isEmpty

theorem mem_names_iff {r : Registry} {name : String} :
    name ∈ r.names ↔ r.index.contains name = true := by
  rw [List.mem_iff_getElem?, Table.contains, Option.isSome_iff_exists]
  exact exists_congr fun i => (r.indexed name i).symm

theorem lt_size_of_index {r : Registry} {name : String} {i : Nat}
    (h : r.index.find? name = some i) : i < r.modules.length := by
  have hi := (r.indexed name i).mp h
  simpa using (List.getElem?_eq_some_iff.mp hi).1

def get? (r : Registry) (name : String) : Option Module :=
  match h : r.index.find? name with
  | some i => some (r.modules.get ⟨i, lt_size_of_index h⟩)
  | none => none

def require (r : Registry) (name : String) : Except BuildError Module :=
  match r.get? name with
  | some m => .ok m
  | none => .error (.unknownModule name)

/-- Puts a module of a new name behind the others. -/
def append (r : Registry) (m : Module) (hnew : m.name ∉ r.names) : Registry where
  modules := r.modules ++ [m]
  index := r.index.insert m.name r.modules.length
  indexed name i := by
    rw [Table.find?_insert, List.map_append, List.getElem?_append, List.length_map]
    split
    · next h =>
      subst h
      split
      · next hi =>
        refine ⟨fun h => absurd (Option.some.inj h).symm (Nat.ne_of_lt hi), fun h => ?_⟩
        exact absurd (List.mem_of_getElem? h) hnew
      · next hi =>
        rw [List.map_singleton, List.getElem?_singleton]
        simp only [Option.some.injEq, Option.ite_none_right_eq_some, and_true]
        omega
    · next h =>
      rw [r.indexed name i]
      split
      · rfl
      · next hi =>
        rw [List.getElem?_eq_none (by simpa using Nat.le_of_not_lt hi), List.map_singleton,
          List.getElem?_singleton]
        simp [Ne.symm h]

/-- What comes of registering a module, and the registry afterwards. -/
def register (r : Registry) (m : Module) : Except BuildError Unit × Registry :=
  if h : r.index.contains m.name = true then (.error (.duplicateModule m.name), r)
  else (.ok (), r.append m (mt mem_names_iff.mp h))

/-- Registers the modules one after the other, up to the first one that is refused. -/
def registerAll (r : Registry) : List Module → Except BuildError Registry
  | [] => .ok r
  | m :: rest =>
    match r.register m with
    | (.ok (), r) => r.registerAll rest
    | (.error e, _) => .error e

def ofModules (modules : List Module) : Except BuildError Registry := empty.registerAll modules

/-- Puts changed modules in place of the modules. -/
def withModules (r : Registry) (modules : List Module)
    (hnames : modules.map (·.name) = r.names) : Registry :=
  ⟨modules, r.index, by rw [hnames]; exact r.indexed⟩

theorem names_modify (modules : List Module) (i : Nat) (changes : List Change) :
    (modules.modify i (·.performAll changes)).map (·.name) = modules.map (·.name) := by
  induction modules generalizing i with
  | nil => cases i <;> rfl
  | cons m rest ih =>
    cases i with
    | zero => simp
    | succ i => simp [ih]

/-- Changes the module of that name, if there is one. -/
def update (r : Registry) (name : String) (changes : List Change) : Registry :=
  match r.index.find? name with
  | some i => r.withModules (r.modules.modify i (·.performAll changes)) (names_modify ..)
  | none => r

/-- Runs a policy over modules up to the first one at which it fails; that one keeps the
changes made to it before the failure. -/
def runPolicy {σ ε : Type} (policy : ModulePolicy σ ε) :
    List Module → StateM σ (List Module × Option ε)
  | [] => return ([], none)
  | m :: rest => do
    let (changes, failure) ← policy m
    match failure with
    | some e => return (m.performAll changes :: rest, some e)
    | none =>
      let (rest, failure) ← runPolicy policy rest
      return (m.performAll changes :: rest, failure)

theorem runPolicy_cons {σ ε : Type} (policy : ModulePolicy σ ε) (m : Module)
    (rest : List Module) (s : σ) : runPolicy policy (m :: rest) s =
      match policy m s with
      | ((changes, some e), s) => ((m.performAll changes :: rest, some e), s)
      | ((changes, none), s) =>
        let run := runPolicy policy rest s
        ((m.performAll changes :: run.1.1, run.1.2), run.2) := by
  have hrun : runPolicy policy (m :: rest) s =
      (match (policy m s).1.2 with
        | some e => return (m.performAll (policy m s).1.1 :: rest, some e)
        | none => do
          let (rest, failure) ← runPolicy policy rest
          return (m.performAll (policy m s).1.1 :: rest, failure) :
        StateM σ (List Module × Option ε)) (policy m s).2 := rfl
  rw [hrun]
  rcases policy m s with ⟨⟨changes, _ | e⟩, s⟩ <;> rfl

theorem names_runPolicy {σ ε : Type} (policy : ModulePolicy σ ε) (modules : List Module) (s : σ) :
    (runPolicy policy modules s).1.1.map (·.name) = modules.map (·.name) := by
  induction modules generalizing s with
  | nil => rfl
  | cons m rest ih =>
    rw [runPolicy_cons]
    rcases policy m s with ⟨⟨changes, _ | e⟩, s⟩
    · simpa using ih s
    · simp

/-- Runs a policy over all modules; afterwards the policy has another state. -/
def applyToAll {σ ε : Type} (r : Registry) (policy : ModulePolicy σ ε) :
    StateM σ (Registry × Option ε) := fun s =>
  let run := runPolicy policy r.modules s
  ((r.withModules run.1.1 (names_runPolicy ..), run.1.2), run.2)

/-- Applies a checked bundle to every module; this cannot fail. -/
def propagateAll (r : Registry) (p : Propagator) : Registry :=
  let policy : ModulePolicy Unit BuildError := fun _ => return ([.policy p], none)
  (r.applyToAll policy ()).1.1

end Registry
end ModularBuild
