import Mathlib.Data.List.TakeWhile
import ModularBuild.Flag.Resolver
import ModularBuild.Proofs.Table

/-! # What decides a flag

A resolver is told declarations, properties and snapshots of the environment in any order. Three
things of this history count: the latest declaration of the flag, the latest text of each property
and the latest snapshot. From these the deciding input is found without the tables of
the resolver: the first listed property that says something, else the variable, else the
default. A history that differs in other things only resolves the flag in the same way. -/

namespace ModularBuild

open Table (Latest)

/-! ## Truth values -/

theorem Text.trim_of_allBlank {raw : String} (h : Text.allBlank raw = true) :
    Text.trim raw = "" := by
  have hdrop : raw.toList.dropWhile Text.isBlank = [] :=
    List.dropWhile_eq_nil_iff.mpr (List.all_eq_true.mp h)
  unfold Text.trim Text.trimChars
  simp [hdrop]

theorem parseSwitch_of_allBlank {raw : String} (h : Text.allBlank raw = true) :
    parseSwitch raw = none := by
  unfold parseSwitch
  rw [Text.trim_of_allBlank h]
  decide

/-- What the text of a property means: yes, if it is blank, or else the truth value it spells. -/
inductive Means (raw : String) : Bool → Prop
  | blank (h : Text.allBlank raw = true) : Means raw true
  | word {value : Bool} (h : parseSwitch raw = some value) : Means raw value

namespace FlagResolver

theorem splitArgument_pair {key : String} (h : '=' ∉ key.toList) (value : String) :
    splitArgument (key ++ "=" ++ value) = (key, value) := by
  have hall : ∀ c ∈ key.toList, (c != '=') = true := fun c hc => by
    rw [bne_iff_ne]
    intro he
    exact h (he ▸ hc)
  have hkey : (key.toList ++ '=' :: value.toList).takeWhile (· != '=') = key.toList := by
    rw [List.takeWhile_append_of_pos hall]
    simp
  unfold splitArgument
  simp [hkey]

theorem splitArgument_bare {key : String} (h : '=' ∉ key.toList) :
    splitArgument key = (key, "") := by
  have hkey : key.toList.takeWhile (· != '=') = key.toList :=
    List.takeWhile_eq_self_iff.mpr fun c hc => by
      rw [bne_iff_ne]
      intro he
      exact h (he ▸ hc)
  unfold splitArgument
  simp [hkey]

/-- An argument is cut at its first equals sign; one without it has no value. -/
theorem splitArgument_eq_iff {arg key value : String} :
    splitArgument arg = (key, value) ↔
      '=' ∉ key.toList ∧ (arg = key ++ "=" ++ value ∨ arg = key ∧ value = "") := by
  constructor
  · intro h
    by_cases hsign : '=' ∈ arg.toList
    · obtain ⟨front, rest, harg, hfront⟩ := List.eq_append_cons_of_mem hsign
      have harg : arg = String.ofList front ++ "=" ++ String.ofList rest := by
        rw [← String.toList_inj, harg]
        simp
      rw [harg, splitArgument_pair (by simpa using hfront)] at h
      obtain ⟨rfl, rfl⟩ := Prod.mk.inj h
      exact ⟨by simpa using hfront, .inl harg⟩
    · rw [splitArgument_bare hsign] at h
      obtain ⟨rfl, rfl⟩ := Prod.mk.inj h
      exact ⟨hsign, .inr ⟨rfl, rfl⟩⟩
  · intro ⟨hkey, harg⟩
    rcases harg with rfl | ⟨rfl, rfl⟩
    · exact splitArgument_pair hkey value
    · exact splitArgument_bare hkey

/-! ## Histories -/

/-- One thing that a resolver is told. -/
inductive Input
  | flag (spec : FlagSpec)
  | property (key value : String)
  | arguments (args : List String)
  | environment (vars : List (String × String))

namespace Input

def declarations : Input → List (String × FlagSpec)
  | flag spec => [(spec.name, spec)]
  | _ => []

def assignments : Input → List (String × String)
  | property key value => [(key, value)]
  | arguments args => args.map splitArgument
  | _ => []

def snapshot? : Input → Option (List (String × String))
  | environment vars => some vars
  | _ => none

end Input

def tell (r : FlagResolver) : Input → FlagResolver
  | .flag spec => r.declare spec
  | .property key value => r.setProperty key value
  | .arguments args => r.setArguments args
  | .environment vars => r.withEnvironment (.ofList vars)

/-- The resolver that has been told all of it, one thing after the other. -/
def ofInputs (inputs : List Input) : FlagResolver := inputs.foldl tell empty

/-- The declarations and the assignments in their order, and the latest snapshot. -/
def declarations (inputs : List Input) : List (String × FlagSpec) :=
  inputs.flatMap (·.declarations)

def assignments (inputs : List Input) : List (String × String) :=
  inputs.flatMap (·.assignments)

def snapshot (inputs : List Input) : List (String × String) :=
  ((inputs.filterMap (·.snapshot?)).getLast?).getD []

theorem setArguments_eq (r : FlagResolver) (args : List String) : r.setArguments args =
    { r with properties := r.properties.insertMany (args.map splitArgument) } := by
  induction args generalizing r with
  | nil => rfl
  | cons arg rest ih => exact ih _

theorem specs_tell (r : FlagResolver) (input : Input) :
    (r.tell input).specs = r.specs.insertMany input.declarations := by
  cases input with
  | flag | property | environment => rfl
  | arguments args => rw [tell, setArguments_eq]; rfl

theorem properties_tell (r : FlagResolver) (input : Input) :
    (r.tell input).properties = r.properties.insertMany input.assignments := by
  cases input with
  | flag | property | environment => rfl
  | arguments args => rw [tell, setArguments_eq]; rfl

theorem environment_tell (r : FlagResolver) (input : Input) :
    (r.tell input).environment = (input.snapshot?.map .ofList).getD r.environment := by
  cases input with
  | flag | property | environment => rfl
  | arguments args => rw [tell, setArguments_eq]; rfl

theorem ofInputs_concat (inputs : List Input) (input : Input) :
    ofInputs (inputs ++ [input]) = (ofInputs inputs).tell input := by
  unfold ofInputs
  rw [List.foldl_append]
  rfl

/-- The tables of a resolver hold its history. -/
theorem specs_ofInputs (inputs : List Input) :
    (ofInputs inputs).specs = .ofList (declarations inputs) := by
  induction inputs using List.reverseRecOn with
  | nil => rfl
  | append_singleton inputs input ih =>
    unfold declarations at ih ⊢
    rw [ofInputs_concat, specs_tell, ih, ← Table.ofList_append]
    simp

theorem properties_ofInputs (inputs : List Input) :
    (ofInputs inputs).properties = .ofList (assignments inputs) := by
  induction inputs using List.reverseRecOn with
  | nil => rfl
  | append_singleton inputs input ih =>
    unfold assignments at ih ⊢
    rw [ofInputs_concat, properties_tell, ih, ← Table.ofList_append]
    simp

theorem environment_ofInputs (inputs : List Input) :
    (ofInputs inputs).environment = .ofList (snapshot inputs) := by
  induction inputs using List.reverseRecOn with
  | nil => rfl
  | append_singleton inputs input ih =>
    unfold snapshot at ih ⊢
    rw [ofInputs_concat, environment_tell, ih, List.filterMap_append]
    cases h : input.snapshot? <;> simp [h]

/-! ## What a history says about a flag -/

/-- The latest declaration of the flag. -/
def Declares (inputs : List Input) (n : String) (spec : FlagSpec) : Prop :=
  Latest (declarations inputs) n spec

/-- The property has a truth value: its latest text says it. -/
def Sets (inputs : List Input) (key : String) (value : Bool) : Prop :=
  ∃ raw, Latest (assignments inputs) key raw ∧ Means raw value

/-- The variable has a truth value in the latest snapshot. -/
def Carries (inputs : List Input) (name : String) (value : Bool) : Prop :=
  ∃ raw, Latest (snapshot inputs) name raw ∧ parseSwitch raw = some value

/-- The resolution of a flag, and the input that decides it. -/
inductive Decides (inputs : List Input) (n : String) : Resolution → Prop
  | property {spec before key after value} (hspec : Declares inputs n spec)
      (hsplit : spec.properties = before ++ key :: after)
      (hbefore : ∀ other ∈ before, ∀ v, ¬ Sets inputs other v) (hkey : Sets inputs key value) :
      Decides inputs n ⟨n, value, .property key⟩
  | environment {spec name value} (hspec : Declares inputs n spec)
      (hproperties : ∀ key ∈ spec.properties, ∀ v, ¬ Sets inputs key v)
      (hname : spec.environment = some name) (hvalue : Carries inputs name value) :
      Decides inputs n ⟨n, value, .environment name⟩
  | default {spec} (hspec : Declares inputs n spec)
      (hproperties : ∀ key ∈ spec.properties, ∀ v, ¬ Sets inputs key v)
      (henvironment : ∀ name, spec.environment = some name → ∀ v, ¬ Carries inputs name v) :
      Decides inputs n ⟨n, spec.default, .default⟩
  | ownName {value} (hspec : ∀ spec, ¬ Declares inputs n spec) (hkey : Sets inputs n value) :
      Decides inputs n ⟨n, value, .property n⟩
  | undeclared (hspec : ∀ spec, ¬ Declares inputs n spec) (hkey : ∀ v, ¬ Sets inputs n v) :
      Decides inputs n ⟨n, false, .default⟩

variable {inputs : List Input} {n key name : String} {value : Bool}

theorem find?_specs_iff {spec : FlagSpec} :
    (ofInputs inputs).specs.find? n = some spec ↔ Declares inputs n spec := by
  rw [specs_ofInputs]
  exact Table.find?_ofList_iff_latest

theorem find?_specs_eq_none_iff :
    (ofInputs inputs).specs.find? n = none ↔ ∀ spec, ¬ Declares inputs n spec := by
  rw [Option.eq_none_iff_forall_ne_some]
  simp only [ne_eq, find?_specs_iff]

theorem Declares.name_eq {spec : FlagSpec} (h : Declares inputs n spec) : spec.name = n := by
  obtain ⟨before, after, hsplit, -⟩ := h
  have hmem : (n, spec) ∈ declarations inputs := by simp [hsplit]
  obtain ⟨input, -, hinput⟩ := List.mem_flatMap.mp hmem
  cases input with
  | flag declared =>
    cases List.mem_singleton.mp hinput
    rfl
  | property | arguments | environment => cases hinput

theorem Declares.unique {spec spec' : FlagSpec} (h : Declares inputs n spec)
    (h' : Declares inputs n spec') : spec = spec' := by
  have hfound := find?_specs_iff.mpr h
  rw [find?_specs_iff.mpr h'] at hfound
  exact (Option.some.inj hfound).symm

theorem propertyValue_iff : (ofInputs inputs).propertyValue key = some value ↔
    Sets inputs key value := by
  unfold propertyValue Sets
  rw [properties_ofInputs, Option.bind_eq_some_iff]
  simp only [Table.find?_ofList_iff_latest]
  refine exists_congr fun raw => and_congr_right fun _ => ?_
  constructor
  · intro h
    split at h
    · next hblank => cases h; exact .blank hblank
    · exact .word h
  · intro h
    cases h with
    | blank hblank => rw [if_pos hblank]
    | word hword =>
      rw [if_neg, hword]
      intro hblank
      rw [parseSwitch_of_allBlank hblank] at hword
      cases hword

theorem propertyValue_eq_none_iff : (ofInputs inputs).propertyValue key = none ↔
    ∀ v, ¬ Sets inputs key v := by
  rw [Option.eq_none_iff_forall_ne_some]
  simp only [ne_eq, propertyValue_iff]

theorem environmentValue_iff : (ofInputs inputs).environmentValue name = some value ↔
    Carries inputs name value := by
  unfold environmentValue Carries
  rw [environment_ofInputs, Option.bind_eq_some_iff]
  simp only [Table.find?_ofList_iff_latest]

/-! ## The deciding input -/

/-- The first property with a truth value decides. -/
theorem decidingProperty_eq_some_iff {r : FlagResolver} {keys : List String} :
    r.decidingProperty keys = some (key, value) ↔ ∃ before after, keys = before ++ key :: after ∧
      (∀ other ∈ before, r.propertyValue other = none) ∧ r.propertyValue key = some value := by
  induction keys with
  | nil => simp [decidingProperty]
  | cons first rest ih =>
    unfold decidingProperty
    constructor
    · intro h
      split at h
      · next v hfirst => cases h; exact ⟨[], rest, rfl, by simp, hfirst⟩
      · next hfirst =>
        obtain ⟨before, after, rfl, hbefore, hkey⟩ := ih.mp h
        exact ⟨first :: before, after, rfl, List.forall_mem_cons.mpr ⟨hfirst, hbefore⟩, hkey⟩
    · intro ⟨before, after, hsplit, hbefore, hkey⟩
      cases before with
      | nil => cases hsplit; simp [hkey]
      | cons other before =>
        cases hsplit
        rw [List.forall_mem_cons] at hbefore
        rw [hbefore.1]
        exact ih.mpr ⟨before, after, rfl, hbefore.2, hkey⟩

theorem decidingProperty_eq_none_iff {r : FlagResolver} {keys : List String} :
    r.decidingProperty keys = none ↔ ∀ key ∈ keys, r.propertyValue key = none := by
  induction keys with
  | nil => simp [decidingProperty]
  | cons first rest ih =>
    unfold decidingProperty
    cases hfirst : r.propertyValue first <;> simp [hfirst, ih]

theorem decides_explain (inputs : List Input) (n : String) :
    Decides inputs n ((ofInputs inputs).explain n) := by
  unfold explain
  cases hspec : (ofInputs inputs).specs.find? n with
  | none =>
    have hspec := find?_specs_eq_none_iff.mp hspec
    cases hkey : (ofInputs inputs).propertyValue n with
    | none => exact .undeclared hspec (propertyValue_eq_none_iff.mp hkey)
    | some value => exact .ownName hspec (propertyValue_iff.mp hkey)
  | some spec =>
    have hspec := find?_specs_iff.mp hspec
    unfold decide
    simp only [hspec.name_eq]
    cases hdecides : (ofInputs inputs).decidingProperty spec.properties with
    | some found =>
      obtain ⟨before, after, hsplit, hbefore, hkey⟩ := decidingProperty_eq_some_iff.mp hdecides
      exact .property hspec hsplit
        (fun other hother => propertyValue_eq_none_iff.mp (hbefore other hother))
        (propertyValue_iff.mp hkey)
    | none =>
      have hproperties : ∀ key ∈ spec.properties, ∀ v, ¬ Sets inputs key v := fun key hkey =>
        propertyValue_eq_none_iff.mp (decidingProperty_eq_none_iff.mp hdecides key hkey)
      cases hname : spec.environment with
      | none => exact .default hspec hproperties (by simp [hname])
      | some name =>
        cases hvalue : (ofInputs inputs).environmentValue name with
        | some value =>
          simp only [Option.bind_some, hvalue, Option.map_some]
          exact .environment hspec hproperties hname (environmentValue_iff.mp hvalue)
        | none =>
          simp only [Option.bind_some, hvalue, Option.map_none]
          refine .default hspec hproperties fun other hother v hcarries => ?_
          cases hname.symm.trans hother
          rw [environmentValue_iff.mpr hcarries] at hvalue
          cases hvalue

/-- The resolution of a flag is the one that its history decides. -/
theorem explain_eq_iff {r : Resolution} :
    (ofInputs inputs).explain n = r ↔ Decides inputs n r := by
  constructor
  · intro h
    exact h ▸ decides_explain inputs n
  · intro h
    unfold explain
    cases h with
    | ownName hspec hkey =>
      rw [find?_specs_eq_none_iff.mpr hspec]
      simp only [propertyValue_iff.mpr hkey]
    | undeclared hspec hkey =>
      rw [find?_specs_eq_none_iff.mpr hspec]
      simp only [propertyValue_eq_none_iff.mpr hkey]
    | property hspec hsplit hbefore hkey =>
      have hdecides := decidingProperty_eq_some_iff.mpr ⟨_, _, hsplit,
        fun other hother => propertyValue_eq_none_iff.mpr (hbefore other hother),
        propertyValue_iff.mpr hkey⟩
      simp only [find?_specs_iff.mpr hspec, decide, hdecides, hspec.name_eq]
    | environment hspec hproperties hname hvalue =>
      have hdecides := decidingProperty_eq_none_iff.mpr fun key hkey =>
        propertyValue_eq_none_iff.mpr (hproperties key hkey)
      simp only [find?_specs_iff.mpr hspec, decide, hdecides, hname, Option.bind_some,
        environmentValue_iff.mpr hvalue, Option.map_some, hspec.name_eq]
    | @default spec hspec hproperties hnone =>
      have hdecides := decidingProperty_eq_none_iff.mpr fun key hkey =>
        propertyValue_eq_none_iff.mpr (hproperties key hkey)
      cases hname : spec.environment with
      | none =>
        simp only [find?_specs_iff.mpr hspec, decide, hdecides, hname, Option.bind_none,
          hspec.name_eq]
      | some name =>
        have hvalue : (ofInputs inputs).environmentValue name = none :=
          Option.eq_none_iff_forall_ne_some.mpr fun v hv =>
            hnone name hname v (environmentValue_iff.mp hv)
        simp only [find?_specs_iff.mpr hspec, decide, hdecides, hname, Option.bind_some, hvalue,
          Option.map_none, hspec.name_eq]

/-- The flag's own property decides, unless the declaration lists one before it that is set or
does not list it. -/
theorem explain_of_own_property (hown : ∀ spec, Declares inputs n spec → ∃ front back,
    spec.properties = front ++ n :: back ∧ ∀ key ∈ front, ∀ v, ¬ Sets inputs key v)
    (hset : Sets inputs n value) : (ofInputs inputs).explain n = ⟨n, value, .property n⟩ := by
  rw [explain_eq_iff]
  by_cases hspec : ∃ spec, Declares inputs n spec
  · obtain ⟨spec, hspec⟩ := hspec
    obtain ⟨front, back, hsplit, hfront⟩ := hown spec hspec
    exact .property hspec hsplit hfront hset
  · exact .ownName (not_exists.mp hspec) hset

theorem resolveAll_eq (r : FlagResolver) : r.resolveAll = r.names.map r.explain := by
  unfold resolveAll names Table.values Table.keys
  rw [List.map_map, List.map_map]
  refine List.map_congr_left fun row hrow => ?_
  simp only [Function.comp_apply, explain, Table.find?_eq_some_iff.mpr hrow]

/-! ## What else is told does not matter -/

/-- The properties that can decide the flag: those of its declaration, or its own name. -/
def Listed (inputs : List Input) (n key : String) : Prop :=
  (∃ spec, Declares inputs n spec ∧ key ∈ spec.properties) ∨
    (∀ spec, ¬ Declares inputs n spec) ∧ key = n

def Watched (inputs : List Input) (n name : String) : Prop :=
  ∃ spec, Declares inputs n spec ∧ spec.environment = some name

/-- The histories say the same about the flag, the properties that it lists and its variable. -/
structure Agree (n : String) (inputs inputs' : List Input) : Prop where
  spec : ∀ spec, Declares inputs n spec ↔ Declares inputs' n spec
  property : ∀ key, Listed inputs n key → ∀ v, Sets inputs key v ↔ Sets inputs' key v
  environment : ∀ name, Watched inputs n name → ∀ v, Carries inputs name v ↔ Carries inputs' name v

theorem Decides.transfer {inputs' : List Input} {r : Resolution} (h : Agree n inputs inputs')
    (hr : Decides inputs n r) : Decides inputs' n r := by
  have hlisted : ∀ spec, Declares inputs n spec → ∀ key ∈ spec.properties, ∀ v,
      Sets inputs key v ↔ Sets inputs' key v := fun spec hspec key hkey =>
    h.property key (.inl ⟨spec, hspec, hkey⟩)
  cases hr with
  | property hspec hsplit hbefore hkey =>
    refine .property ((h.spec _).mp hspec) hsplit (fun other hother v hset => ?_) ?_
    · exact hbefore other hother v ((hlisted _ hspec other (by simp [hsplit, hother]) v).mpr hset)
    · exact (hlisted _ hspec _ (by simp [hsplit]) _).mp hkey
  | environment hspec hproperties hname hvalue =>
    refine .environment ((h.spec _).mp hspec) (fun key hkey v hset => ?_) hname ?_
    · exact hproperties key hkey v ((hlisted _ hspec key hkey v).mpr hset)
    · exact (h.environment _ ⟨_, hspec, hname⟩ _).mp hvalue
  | default hspec hproperties hnone =>
    refine .default ((h.spec _).mp hspec) (fun key hkey v hset => ?_) fun name hname v hvalue => ?_
    · exact hproperties key hkey v ((hlisted _ hspec key hkey v).mpr hset)
    · exact hnone name hname v ((h.environment _ ⟨_, hspec, hname⟩ _).mpr hvalue)
  | ownName hspec hkey =>
    exact .ownName (fun spec hdeclared => hspec spec ((h.spec spec).mpr hdeclared))
      ((h.property n (.inr ⟨hspec, rfl⟩) _).mp hkey)
  | undeclared hspec hkey =>
    exact .undeclared (fun spec hdeclared => hspec spec ((h.spec spec).mpr hdeclared))
      fun v hset => hkey v ((h.property n (.inr ⟨hspec, rfl⟩) v).mpr hset)

theorem explain_of_agree {inputs' : List Input} (h : Agree n inputs inputs') :
    (ofInputs inputs').explain n = (ofInputs inputs).explain n :=
  explain_eq_iff.mpr ((decides_explain inputs n).transfer h)

theorem agree_of_unlisted {before after : List Input} {more : Input}
    (hspecs : more.declarations = []) (hsnapshot : more.snapshot? = none)
    (hkeys : ∀ pair ∈ more.assignments, ¬ Listed (before ++ after) n pair.1) :
    Agree n (before ++ after) (before ++ more :: after) where
  spec spec := by
    unfold Declares declarations
    simp [hspecs]
  property key hkey v := by
    unfold Sets assignments
    refine exists_congr fun raw => and_congr_left fun _ => ?_
    rw [List.flatMap_append, List.flatMap_append, List.flatMap_cons]
    refine (Table.latest_without fun pair hpair => ?_).symm
    intro he
    exact hkeys pair hpair (he ▸ hkey)
  environment name _ v := by
    unfold Carries snapshot
    simp [hsnapshot]

theorem agree_of_unwatched {before after : List Input} {vars vars' : List (String × String)}
    (hvars : ∀ name, Watched (before ++ .environment vars :: after) n name →
      ∀ raw, Latest vars name raw ↔ Latest vars' name raw) :
    Agree n (before ++ .environment vars :: after) (before ++ .environment vars' :: after) where
  spec spec := by
    unfold Declares declarations
    simp [Input.declarations]
  property key _ v := by
    unfold Sets assignments
    simp [Input.assignments]
  environment name hname v := by
    have hsnapshot : ∀ other, snapshot (before ++ .environment other :: after) =
        (after.filterMap (·.snapshot?)).getLast?.getD other := by
      intro other
      have hcons : (Input.environment other :: after).filterMap (·.snapshot?) =
          other :: after.filterMap (·.snapshot?) := rfl
      unfold snapshot
      rw [List.filterMap_append, hcons, List.getLast?_append, List.getLast?_cons]
      simp
    unfold Carries
    rw [hsnapshot, hsnapshot]
    cases (after.filterMap (·.snapshot?)).getLast? with
    | none => exact exists_congr fun raw => and_congr_left fun _ => hvars name hname raw
    | some later => rfl

/-- How a resolver with this history resolves the flag, and what cannot change it. -/
structure FollowsPriority (inputs : List Input) (n : String) : Prop where
  decided : ∀ r, (ofInputs inputs).explain n = r ↔ Decides inputs n r
  value : (ofInputs inputs).resolve n = ((ofInputs inputs).explain n).value
  all : (ofInputs inputs).resolveAll = (ofInputs inputs).names.map (ofInputs inputs).explain
  declared : n ∈ (ofInputs inputs).names ↔ ∃ spec, Declares inputs n spec
  argument : ∀ arg key value, (Input.arguments [arg]).assignments = [(key, value)] ↔
    '=' ∉ key.toList ∧ (arg = key ++ "=" ++ value ∨ arg = key ∧ value = "")
  unlisted : ∀ before after more, inputs = before ++ after → more.declarations = [] →
    more.snapshot? = none → (∀ pair ∈ more.assignments, ¬ Listed inputs n pair.1) →
    (ofInputs (before ++ more :: after)).explain n = (ofInputs inputs).explain n
  unwatched : ∀ before vars after vars', inputs = before ++ .environment vars :: after →
    (∀ name, Watched inputs n name → ∀ raw, Latest vars name raw ↔ Latest vars' name raw) →
    (ofInputs (before ++ .environment vars' :: after)).explain n = (ofInputs inputs).explain n

/-- Every resolver resolves every flag by the fixed priority, whatever it has been told. -/
theorem followsPriority (inputs : List Input) (n : String) : FollowsPriority inputs n where
  decided _ := explain_eq_iff
  value := rfl
  all := resolveAll_eq _
  declared := by
    unfold names
    rw [Table.mem_keys_iff]
    exact exists_congr fun spec => find?_specs_iff
  argument arg key value := by
    rw [← splitArgument_eq_iff]
    simp [Input.assignments]
  unlisted before after more hinputs hspecs hsnapshot hkeys := by
    subst hinputs
    exact explain_of_agree (agree_of_unlisted hspecs hsnapshot hkeys)
  unwatched before vars after vars' hinputs hvars := by
    subst hinputs
    exact explain_of_agree (agree_of_unwatched hvars)

/-- A text without a truth value is passed over, and a bare argument says yes. -/
example : (ofInputs [.flag (.named "fast" ["quick"] (some "FAST") false), .property "fast" "maybe",
    .arguments ["quick=no", "quick"], .environment [("FAST", "no")]]).explain "fast" =
      ⟨"fast", true, .property "quick"⟩ := by decide

end FlagResolver
end ModularBuild
