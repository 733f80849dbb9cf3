import ModularBuild.Coverage.ClassSet
import ModularBuild.Proofs.Outcome
import ModularBuild.Proofs.Table

/-! # The merge of classes, identity by identity

Everything a merge decides about an identity it decides from the classes that were found under
it, in their order: whether they collide, and which class stays. So classes that were found in
another order come to the same set or to the same collision. -/

namespace ModularBuild

/-! ## Results that differ in order only -/

def BuildError.isCollision : BuildError → Bool
  | .mergeCollision .. => true
  | _ => false

/-- Both succeed, with results that are related, or both fail. A collision has the same
identity and the same modules in some order; another failure is only told apart from it. -/
inductive AlikeUpTo {α : Type} (R : α → α → Prop) :
    Except BuildError α → Except BuildError α → Prop
  | ok {a b : α} (related : R a b) : AlikeUpTo R (.ok a) (.ok b)
  | collision {identity : String} {modules modules' : List String}
      (same : modules.Perm modules') : AlikeUpTo R (.error (.mergeCollision identity modules))
        (.error (.mergeCollision identity modules'))
  | failure {e e' : BuildError} (first : e.isCollision = false)
      (second : e'.isCollision = false) : AlikeUpTo R (.error e) (.error e')

/-- Without collisions it is enough that both succeed or neither does. -/
theorem AlikeUpTo.of_no_collision {α : Type} {R : α → α → Prop} {x y : Except BuildError α}
    (hx : ∀ e, x = .error e → e.isCollision = false)
    (hy : ∀ e, y = .error e → e.isCollision = false)
    (hxy : ∀ a, x = .ok a → ∃ b, y = .ok b ∧ R a b) (hyx : ∀ b, y = .ok b → ∃ a, x = .ok a) :
    AlikeUpTo R x y := by
  cases h : x with
  | ok a =>
    obtain ⟨b, rfl, hab⟩ := hxy a h
    exact .ok hab
  | error e =>
    cases h' : y with
    | ok b =>
      obtain ⟨a, ha⟩ := hyx b h'
      rw [h] at ha
      cases ha
    | error e' => exact .failure (hx e h) (hy e' h')

theorem AlikeUpTo.bind {α β : Type} {R : α → α → Prop} {S : β → β → Prop}
    {x y : Except BuildError α} {f g : α → Except BuildError β} (h : AlikeUpTo R x y)
    (hfg : ∀ a b, R a b → AlikeUpTo S (f a) (g b)) : AlikeUpTo S (x >>= f) (y >>= g) := by
  cases h with
  | ok hab => exact hfg _ _ hab
  | collision hp => exact .collision hp
  | failure he he' => exact .failure he he'

/-! ## Walking the trees -/

namespace ClassTree

variable {t : FileTree} {tree : ClassTree} {e : BuildError}

theorem classesBelow_eq_error {loc : Location} (h : tree.classesBelow t loc = .error e) :
    ∃ path fault, e = .walk path fault := by
  rcases Outcome.bind_eq_error_iff.mp h with hopens | ⟨_, -, hnever⟩
  · obtain ⟨_, row, _, -, -, hrow⟩ := Outcome.forM_eq_error_iff.mp hopens
    unfold openRow at hrow
    dsimp only at hrow
    split at hrow
    · obtain ⟨fault, -, he⟩ := Outcome.mapError_eq_error_iff.mp hrow
      exact ⟨_, fault, he.symm⟩
    · cases hrow
  · cases hnever

theorem walk_eq_error (h : tree.walk t = .error e) : ∃ path fault, e = .walk path fault := by
  rw [walk] at h
  split at h
  · exact ⟨_, _, (Except.error.inj h).symm⟩
  · exact ⟨_, _, (Except.error.inj h).symm⟩
  · exact classesBelow_eq_error h
  · cases h
  · -- a link for a root stands for the directory that it leads to
    split at h
    · exact ⟨_, _, (Except.error.inj h).symm⟩
    · exact classesBelow_eq_error h
    · cases h

/-- Trees in another order have the same classes in another order. -/
theorem walkAll_alike (t : FileTree) {trees trees' : List ClassTree} (h : trees.Perm trees') :
    AlikeUpTo List.Perm (walkAll t trees) (walkAll t trees') := by
  have hfailure : ∀ l e, walkAll t l = .error e → e.isCollision = false := by
    intro l e he
    rcases Outcome.bind_eq_error_iff.mp he with hwalks | ⟨parts, -, hnever⟩
    · obtain ⟨tree, -, hwalk⟩ := Outcome.exists_of_mapM_eq_error hwalks
      obtain ⟨path, fault, rfl⟩ := walk_eq_error hwalk
      rfl
    · cases hnever
  have hsuccess : ∀ {l l'}, l.Perm l' → ∀ found, walkAll t l = .ok found →
      ∃ found', walkAll t l' = .ok found' ∧ found.Perm found' := by
    intro l l' hl found hfound
    obtain ⟨parts, hparts, hfound⟩ := Outcome.bind_eq_ok_iff.mp hfound
    obtain ⟨parts', hparts', hp⟩ := Outcome.mapM_perm hl hparts
    cases hfound
    exact ⟨parts'.flatten, Outcome.bind_eq_ok_iff.mpr ⟨parts', hparts', rfl⟩, hp.flatten⟩
  refine .of_no_collision (hfailure _) (hfailure _) (hsuccess h) fun found' hfound' => ?_
  obtain ⟨found, hfound, -⟩ := hsuccess h.symm found' hfound'
  exact ⟨found, hfound⟩

end ClassTree

/-! ## Merging what was found -/

namespace ClassSet

/-- The classes that were found under an identity. -/
def group (found : List ClassArtifact) (identity : String) : List ClassArtifact :=
  found.filter fun a => a.identity = identity

/-- The first identity that more than one class has, with these classes. -/
def collision? (found : List ClassArtifact) : Option (String × List ClassArtifact) :=
  (claims found).rows.find? fun row => 1 < row.2.length

variable {found found' : List ClassArtifact} {identity : String}

theorem find?_claims (found : List ClassArtifact) (identity : String) :
    (claims found).find? identity =
      if group found identity = [] then none else some (group found identity) := by
  induction found using List.reverseRecOn with
  | nil => rfl
  | append_singleton found a ih =>
    have hstep : claims (found ++ [a]) = (claims found).insert a.identity
        (((claims found).find? a.identity).getD [] ++ [a]) := by
      rw [claims, List.foldl_append]
      rfl
    have hgroup : group (found ++ [a]) identity =
        group found identity ++ if a.identity = identity then [a] else [] := by
      rw [group, List.filter_append, List.filter_singleton]
      by_cases hk : a.identity = identity <;> simp [group, hk]
    rw [hstep, Table.find?_insert, hgroup]
    by_cases hk : identity = a.identity
    · subst hk
      rw [if_pos rfl, if_pos rfl, if_neg (List.append_ne_nil_of_right_ne_nil _ (by simp)), ih]
      by_cases hg : group found a.identity = [] <;> simp [hg]
    · rw [if_neg hk, if_neg (Ne.symm hk), List.append_nil, ih]

theorem group_perm (h : found.Perm found') (identity : String) :
    (group found identity).Perm (group found' identity) := h.filter _

theorem claims_rel (h : found.Perm found') (identity : String) :
    Option.Rel List.Perm ((claims found).find? identity) ((claims found').find? identity) := by
  have hp := group_perm h identity
  have hempty : group found identity = [] ↔ group found' identity = [] := by
    rw [← List.length_eq_zero_iff, ← List.length_eq_zero_iff, hp.length_eq]
  rw [find?_claims, find?_claims]
  by_cases hg : group found identity = []
  · rw [if_pos hg, if_pos (hempty.mp hg)]
    exact .none
  · rw [if_neg hg, if_neg (mt hempty.mpr hg)]
    exact .some hp

theorem collision?_rel (h : found.Perm found') :
    Option.Rel (fun x y => x.1 = y.1 ∧ x.2.Perm y.2) (collision? found) (collision? found') := by
  rw [collision?, collision?]
  generalize (claims found).rows = rows, (claims found').rows = rows',
    Table.forall₂_rows (claims_rel h) = hrows
  induction hrows with
  | nil => exact .none
  | @cons x y xs ys hxy _ ih =>
    rw [List.find?_cons, List.find?_cons, hxy.2.length_eq]
    split
    · exact .some hxy
    · exact ih

theorem group_of_no_collision (h : collision? found = none) (identity : String) :
    (group found identity).length ≤ 1 := by
  by_cases hg : group found identity = []
  · rw [hg]; exact Nat.zero_le 1
  · have hf : (claims found).find? identity = some (group found identity) := by
      rw [find?_claims, if_neg hg]
    have := List.find?_eq_none.mp h _ (Table.find?_eq_some_iff.mp hf)
    simpa using this

/-- The classes of a set without collisions do not depend on an order. -/
theorem artifacts_eq (h : found.Perm found') (hc : collision? found = none) :
    (Table.ofList (found.map fun a => (a.identity, a)) : Table String ClassArtifact) =
      .ofList (found'.map fun a => (a.identity, a)) := by
  refine Table.ext_find? fun identity => ?_
  have hfilter : ∀ l : List ClassArtifact,
      (l.map fun a => (a.identity, a)).filter (fun pair => pair.1 = identity) =
        (group l identity).map fun a => (a.identity, a) := fun l => List.filter_map
  have hgroup : group found identity = group found' identity := by
    have hp := group_perm h identity
    match hg : group found identity, group_of_no_collision hc identity with
    | [], _ => rw [hg] at hp; exact (List.nil_perm.mp hp).symm
    | [a], _ => rw [hg] at hp; exact (List.perm_singleton.mp hp.symm).symm
  rw [Table.find?_ofList, Table.find?_ofList, hfilter, hfilter, hgroup]

theorem ofFound_eq (trees : List ClassTree) (rules : ExclusionRules)
    (found : List ClassArtifact) : ofFound trees rules found =
      match collision? (found.filter fun a => !rules.excludes a.identity) with
      | some row => .error (.mergeCollision row.1 (row.2.map (·.module)))
      | none => .ok
        { trees
          artifacts := .ofList
            ((found.filter fun a => !rules.excludes a.identity).map fun a => (a.identity, a))
          excluded := found.filter fun a => rules.excludes a.identity } := by
  rw [ofFound, collision?]
  split <;> simp [*]

/-- Sets of the same classes from trees in another order. -/
structure Reordered (s s' : ClassSet) : Prop where
  artifacts : s.artifacts = s'.artifacts
  trees : s.trees.Perm s'.trees
  excluded : s.excluded.Perm s'.excluded

theorem ofFound_alike {trees trees' : List ClassTree} (rules : ExclusionRules)
    (ht : trees.Perm trees') (h : found.Perm found') :
    AlikeUpTo Reordered (ofFound trees rules found) (ofFound trees' rules found') := by
  have hkept := h.filter fun a => !rules.excludes a.identity
  have hexcluded := h.filter fun a => rules.excludes a.identity
  have hrel := collision?_rel hkept
  rw [ofFound_eq, ofFound_eq]
  match hx : collision? (found.filter fun a => !rules.excludes a.identity),
      hy : collision? (found'.filter fun a => !rules.excludes a.identity), hrel with
  | none, none, _ => exact .ok ⟨artifacts_eq hkept hx, ht, hexcluded⟩
  | some (identity, _), some (identity', _), .some ⟨hidentity, hclaimants⟩ =>
    cases hidentity
    exact .collision (hclaimants.map _)

theorem merge_alike {trees trees' : List ClassTree} (t : FileTree) (rules : ExclusionRules)
    (ht : trees.Perm trees') :
    AlikeUpTo Reordered (merge t trees rules) (merge t trees' rules) :=
  (ClassTree.walkAll_alike t ht).bind fun _ _ hfound => ofFound_alike rules ht hfound

end ClassSet
end ModularBuild
