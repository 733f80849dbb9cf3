import ModularBuild.Project.Notation
import ModularBuild.Proofs.Flag.Resolution
import ModularBuild.Proofs.Outcome

/-! # Arguments that are named like a flag

An argument that is named like a built-in flag sets it, and so does one that is named like a flag
nobody declares. For a flag of the project file only the properties count that its declaration
lists. A declaration without the list has an empty one, so the flag cannot be set by any argument,
not even by one of its own name. -/

namespace ModularBuild.Project

open FlagResolver hiding decide
open Table (Latest)

variable {p : Project} {args : List String} {env : Table String String} {n : String}
  {spec : FlagSpec}

/-- The flags that every resolver knows. -/
def builtinFlags : List FlagSpec :=
  [.named continuousIntegration [] (some "CI") false,
    .named enableSpotBugs ["enableSpotbugs"] none false]

/-- What the resolver of a project is told for a command line and an environment. -/
def told (p : Project) (args : List String) (env : Table String String) : List Input :=
  (builtinFlags ++ p.flags).map .flag ++ [.arguments args, .environment env.rows]

theorem resolver_eq (p : Project) (args : List String) (env : Table String String) :
    (p.resolver.setArguments args).withEnvironment env = ofInputs (p.told args env) := by
  have hflags : ∀ (r : FlagResolver) (specs : List FlagSpec),
      r.declareAll specs = (specs.map Input.flag).foldl FlagResolver.tell r := by
    intro r specs
    rw [List.foldl_map]
    rfl
  unfold ofInputs told resolver
  rw [hflags, List.map_append, List.append_assoc, List.foldl_append, List.foldl_append]
  simp only [List.foldl_cons, List.foldl_nil, FlagResolver.tell, Table.ofList_rows]
  rfl

def named (specs : List FlagSpec) : List (String × FlagSpec) := specs.map fun s => (s.name, s)

theorem declares_told_iff : Declares (p.told args env) n spec ↔ Latest (named p.flags) n spec ∨
    ((∀ s ∈ p.flags, s.name ≠ n) ∧ Latest (named builtinFlags) n spec) := by
  have hdeclared : declarations (p.told args env) = named builtinFlags ++ named p.flags := by
    unfold declarations told named
    simp [List.flatMap_map, Input.declarations, List.map_append, ← List.map_eq_flatMap]
  unfold Declares
  rw [hdeclared, Table.latest_append]
  simp [named]

theorem assignments_told : assignments (p.told args env) = args.map splitArgument := by
  have hnone : ∀ specs : List FlagSpec, specs.flatMap
      (fun _ => ([] : List (String × String))) = [] := fun specs => by simp
  unfold assignments told
  rw [List.flatMap_append, List.flatMap_map]
  simp [Input.assignments, hnone]

/-- Only arguments set properties. -/
theorem exists_argument_of_sets {key : String} {v : Bool} (h : Sets (p.told args env) key v) :
    ∃ arg ∈ args, (splitArgument arg).1 = key := by
  obtain ⟨raw, hraw, -⟩ := h
  rw [assignments_told] at hraw
  obtain ⟨before, after, hargs, -⟩ := hraw
  have hmem : (key, raw) ∈ args.map splitArgument := by simp [hargs]
  obtain ⟨arg, harg, he⟩ := List.mem_map.mp hmem
  exact ⟨arg, harg, congrArg Prod.fst he⟩

/-- The properties of a built-in flag start with its name. -/
theorem properties_builtinFlags (h : Latest (named builtinFlags) n spec) :
    ∃ back, spec.properties = n :: back := by
  have hall : ∀ pair ∈ named builtinFlags, ∃ back, pair.2.properties = pair.1 :: back :=
    List.forall_mem_map.mpr (by simp [builtinFlags, FlagSpec.named])
  obtain ⟨before, after, hsplit, -⟩ := h
  exact hall (n, spec) (by simp [hsplit])

/-- A flag that is not one of the project file lists its own name first, if it is declared. -/
theorem properties_of_unlisted (hflags : ∀ spec ∈ p.flags, spec.name ≠ n)
    (h : Declares (p.told args env) n spec) : ∃ back, spec.properties = n :: back := by
  rcases declares_told_iff.mp h with hdeclared | ⟨-, hbuiltin⟩
  · obtain ⟨before, after, hsplit, -⟩ := hdeclared
    have hmem : (n, spec) ∈ named p.flags := by simp [hsplit]
    obtain ⟨s, hs, he⟩ := List.mem_map.mp hmem
    exact absurd (congrArg Prod.fst he) (hflags s hs)
  · exact properties_builtinFlags hbuiltin

/-- A flag without properties has the value of its variable, or else its default. -/
theorem resolve_of_no_properties (hspec : Latest (named p.flags) n spec)
    (hnone : spec.properties = []) :
    ((p.resolver.setArguments args).withEnvironment env).resolve n =
      ((spec.environment.bind env.find?).bind parseSwitch).getD spec.default := by
  have hfound : ((p.resolver.setArguments args).withEnvironment env).specs.find? n = some spec := by
    rw [resolver_eq, find?_specs_iff]
    exact declares_told_iff.mpr (.inl hspec)
  unfold resolve explain FlagResolver.decide environmentValue
  rw [hfound]
  simp only [hnone, decidingProperty, withEnvironment]
  cases hname : spec.environment with
  | none => rfl
  | some name =>
    simp only [Option.bind_some]
    cases (env.find? name).bind parseSwitch <;> rfl

/-- An argument named like a flag sets it, if the flag is not one of the project file or lists its
own name there. A flag of the project file without properties takes its value from the
environment or its default, whatever the arguments are. -/
theorem resolve_of_argument (p : Project) {args : List String} {n raw : String} {v : Bool}
    (hlast : Latest (args.map splitArgument) n raw) (hmeans : Means raw v)
    (env : Table String String) :
    let r := (p.resolver.setArguments args).withEnvironment env
    ((∀ spec ∈ p.flags, spec.name ≠ n) → r.resolve n = v) ∧
    ∀ spec, Latest (named p.flags) n spec →
      (∀ front back, spec.properties = front ++ n :: back →
        (∀ arg ∈ args, (splitArgument arg).1 ∉ front) → r.resolve n = v) ∧
      (spec.properties = [] →
        r.resolve n = ((spec.environment.bind env.find?).bind parseSwitch).getD spec.default) := by
  intro r
  have hr : r = ofInputs (p.told args env) := resolver_eq p args env
  have hset : Sets (p.told args env) n v := ⟨raw, by rwa [assignments_told], hmeans⟩
  refine ⟨fun hflags => ?_, fun spec hspec => ⟨fun front back hsplit hfront => ?_, fun hnone => ?_⟩⟩
  · rw [hr, resolve, explain_of_own_property (fun spec hspec => ?_) hset]
    obtain ⟨back, hback⟩ := properties_of_unlisted hflags hspec
    exact ⟨[], back, hback, by simp⟩
  · rw [hr, resolve, explain_of_own_property (fun other hother => ?_) hset]
    cases hother.unique (declares_told_iff.mpr (.inl hspec))
    refine ⟨front, back, hsplit, fun key hkey v hset => ?_⟩
    obtain ⟨arg, harg, rfl⟩ := exists_argument_of_sets hset
    exact hfront arg harg hkey
  · exact resolve_of_no_properties hspec hnone

/-- A flag without a list of properties, and one that is listed under its name. -/
def flagged : String :=
  "flags:
  - { name: release, default: true }
  - { name: quick, properties: [fast, quick] }
"

def flaggedProject : Project :=
  { empty with
    flags := [⟨"release", [], none, true⟩, ⟨"quick", ["fast", "quick"], none, false⟩]
    root := ⟨"."⟩ }

theorem resolve_quick : ofYaml flagged = .ok flaggedProject ∧
    Latest (["quick=no", "quick"].map splitArgument) "quick" "" ∧ Means "" true ∧
    ∀ env, ((flaggedProject.resolver.setArguments ["quick=no", "quick"]).withEnvironment
      env).resolve "quick" = true := by
  have hlast : Latest (["quick=no", "quick"].map splitArgument) "quick" "" :=
    ⟨[("quick", "no")], [], by decide, by simp⟩
  have hmeans : Means "" true := .blank (by decide)
  have hspec : Latest (named flaggedProject.flags) "quick"
      ⟨"quick", ["fast", "quick"], none, false⟩ :=
    ⟨[("release", ⟨"release", [], none, true⟩)], [], rfl, by simp⟩
  refine ⟨Outcome.toOption_eq_some_iff.mp (by decide +kernel), hlast, hmeans, fun env => ?_⟩
  exact ((resolve_of_argument flaggedProject hlast hmeans env).2 _ hspec).1 ["fast"] [] rfl
    (by decide)

/-- The argument is named like a flag that the project declares, and does not set it. Without the
declaration it would. -/
theorem release_not_set : ofYaml flagged = .ok flaggedProject ∧
    Latest (["release=no"].map splitArgument) "release" "no" ∧ Means "no" false ∧
    ((flaggedProject.resolver.setArguments ["release=no"]).withEnvironment ∅).explain "release" =
      ⟨"release", true, .default⟩ ∧
    ((Project.empty.resolver.setArguments ["release=no"]).withEnvironment ∅).explain "release" =
      ⟨"release", false, .property "release"⟩ :=
  ⟨Outcome.toOption_eq_some_iff.mp (by decide +kernel), ⟨[], [], by decide, by simp⟩,
    .word (by decide), by decide +kernel, by decide +kernel⟩

end ModularBuild.Project
