import Mathlib.Data.List.Nodup
import ModularBuild.Module.Registry
import ModularBuild.Proofs.Outcome
import ModularBuild.Proofs.Policy.Propagation

/-! Registries by their modules. The index decides what is registered and what is found; being
exact, it makes the names distinct and a module the only one of its name. Whatever else is done
to a registry keeps the names, so it changes what a look-up finds and not whether it finds
something. -/

namespace ModularBuild.Registry

variable {r r' : Registry} {m : Module} {modules : List Module} {name : String}

theorem nodup_names (r : Registry) : r.names.Nodup := by
  rw [List.nodup_iff_getElem?_ne_getElem?]
  intro i j hij hj heq
  have hname : r.names[j]? = some r.names[j] := List.getElem?_eq_getElem hj
  have hi := (r.indexed _ i).mpr (heq.trans hname)
  rw [(r.indexed _ j).mpr hname] at hi
  exact absurd (Option.some.inj hi) (Nat.ne_of_gt hij)

/-! ## Registration -/

theorem register_of_mem (h : m.name ∈ r.names) :
    r.register m = (.error (.duplicateModule m.name), r) := dif_pos (mem_names_iff.mp h)

theorem register_of_new (h : m.name ∉ r.names) : r.register m = (.ok (), r.append m h) :=
  dif_neg (mt mem_names_iff.mpr h)

theorem modules_of_register (h : r.register m = (.ok (), r')) : r'.modules = r.modules ++ [m] := by
  by_cases hm : m.name ∈ r.names
  · rw [register_of_mem hm] at h
    cases h
  · rw [register_of_new hm] at h
    cases h
    rfl

theorem modules_of_registerAll (h : r.registerAll modules = .ok r') :
    r'.modules = r.modules ++ modules := by
  induction modules generalizing r with
  | nil =>
    cases h
    rw [List.append_nil]
  | cons m rest ih =>
    rw [registerAll] at h
    split at h
    · next next hm => rw [ih h, modules_of_register hm, List.append_assoc, List.singleton_append]
    · cases h

theorem registerAll_of_nodup (h : (r.names ++ modules.map (·.name)).Nodup) :
    ∃ r', r.registerAll modules = .ok r' := by
  induction modules generalizing r with
  | nil => exact ⟨r, rfl⟩
  | cons m rest ih =>
    have hm : m.name ∉ r.names := fun hin =>
      (List.nodup_append.mp h).2.2 _ hin _ List.mem_cons_self rfl
    have happend : (r.append m hm).names = r.names ++ [m.name] := List.map_append
    obtain ⟨r', hr'⟩ := ih (r := r.append m hm) (by simpa [happend] using h)
    exact ⟨r', by rw [registerAll, register_of_new hm]; exact hr'⟩

theorem modules_of_ofModules (h : ofModules modules = .ok r) : r.modules = modules :=
  modules_of_registerAll h

/-- Distinct names are all that registration asks for. -/
theorem ofModules_of_nodup (h : (modules.map (·.name)).Nodup) : ∃ r, ofModules modules = .ok r :=
  registerAll_of_nodup (r := empty) h

/-! ## Look-ups -/

theorem get?_eq_some_iff : r.get? name = some m ↔ m ∈ r.modules ∧ m.name = name := by
  have hfound : ∀ {m'}, r.get? name = some m' → m' ∈ r.modules ∧ m'.name = name := by
    intro m' h
    unfold get? at h
    split at h
    · next i hi =>
      cases h
      refine ⟨List.getElem_mem _, ?_⟩
      have hname := (r.indexed name i).mp hi
      rw [List.getElem?_map, List.getElem?_eq_getElem (lt_size_of_index hi)] at hname
      exact Option.some.inj hname
    · cases h
  refine ⟨hfound, ?_⟩
  rintro ⟨hm, rfl⟩
  cases h : r.get? m.name with
  | some m' =>
    obtain ⟨hmem, hname⟩ := hfound h
    rw [List.inj_on_of_nodup_map r.nodup_names hmem hm hname]
  | none =>
    have hin : r.index.contains m.name = true := mem_names_iff.mp (List.mem_map_of_mem hm)
    unfold get? at h
    split at h
    · cases h
    · next hi => rw [Table.contains, hi] at hin; cases hin

theorem get?_eq_none_iff : r.get? name = none ↔ ∀ m ∈ r.modules, m.name ≠ name := by
  rw [Option.eq_none_iff_forall_ne_some]
  constructor
  · intro h m hm hname
    exact h m (get?_eq_some_iff.mpr ⟨hm, hname⟩)
  · intro h m hm
    obtain ⟨hmem, hname⟩ := get?_eq_some_iff.mp hm
    exact h m hmem hname

/-! ## Changes -/

theorem runPolicy_total (changes : Module → List Change) (modules : List Module) :
    (runPolicy (ε := BuildError) (fun m => return (changes m, none)) modules ()).1.1 =
      modules.map fun m => m.performAll (changes m) := by
  induction modules with
  | nil => rfl
  | cons m rest ih =>
    rw [runPolicy_cons, List.map_cons, ← ih]
    rfl

theorem modules_propagateAll (r : Registry) (p : Propagator) :
    (r.propagateAll p).modules = r.modules.map p.propagate :=
  runPolicy_total (fun _ => [.policy p]) r.modules

theorem get?_propagateAll (p : Propagator) (h : r.get? name = some m) :
    (r.propagateAll p).get? name = some (p.propagate m) := by
  obtain ⟨hm, hname⟩ := get?_eq_some_iff.mp h
  refine get?_eq_some_iff.mpr ⟨?_, (p.name_propagate m).trans hname⟩
  rw [modules_propagateAll]
  exact List.mem_map_of_mem hm

/-- Of distinct modules the one at the position of a name is the one of that name. -/
theorem modules_update (r : Registry) (name : String) (changes : List Change) :
    (r.update name changes).modules =
      r.modules.map fun m => if m.name = name then m.performAll changes else m := by
  unfold update
  split
  · next i hi =>
    refine List.ext_getElem? fun j => ?_
    have hname := r.indexed name j
    rw [hi, List.getElem?_map, Option.some.injEq] at hname
    simp only [withModules, List.getElem?_modify, List.getElem?_map]
    cases hj : r.modules[j]? with
    | none => simp
    | some m =>
      rw [hj, Option.map_some, Option.some.injEq] at hname
      by_cases hij : i = j
      · simp [hij, hname.mp hij]
      · simp [hij, mt hname.mpr hij]
  · next hnone =>
    have hother : ∀ m ∈ r.modules, m.name ≠ name := by
      intro m hm hname
      have hin := mem_names_iff.mp (List.mem_map_of_mem hm)
      rw [hname, Table.contains, hnone] at hin
      cases hin
    have hsame : r.modules.map (fun m => if m.name = name then m.performAll changes else m) =
        r.modules.map id := List.map_congr_left fun m hm => if_neg (hother m hm)
    rw [hsame, List.map_id]

end ModularBuild.Registry
