import ModularBuild.Proofs.Coverage.Merging

/-! # Leaving out more

Rules with more patterns leave out more classes, for a class is left out if one pattern accepts
it. What is left of the others has only fewer classes under each identity, so a merge that came
through still does: it keeps those of its classes that the new rules do not name, and everything
else stands among those that are left out. -/

namespace ModularBuild

namespace ExclusionRules

variable {rules rules' : ExclusionRules} {patterns patterns' : List String}

theorem excludes_mono (hmore : rules.globs ⊆ rules'.globs) {identity : String}
    (h : rules.excludes identity = true) : rules'.excludes identity = true := by
  obtain ⟨g, hg, haccepts⟩ := List.any_eq_true.mp h
  exact List.any_eq_true.mpr ⟨g, hmore hg, haccepts⟩

theorem globs_of_ofPatterns (h : ofPatterns patterns = .ok rules) :
    patterns.mapM (fun p => (Glob.parse p).mapError BuildError.pattern) = .ok rules.globs := by
  obtain ⟨globs, hglobs, hrules⟩ := Outcome.bind_eq_ok_iff.mp h
  cases hrules
  exact hglobs

/-- A pattern is read in the same way wherever it stands. -/
theorem globs_subset (h : ofPatterns patterns = .ok rules)
    (h' : ofPatterns patterns' = .ok rules') (hmore : patterns ⊆ patterns') :
    rules.globs ⊆ rules'.globs := by
  intro g hg
  obtain ⟨p, hp, hparse⟩ := Outcome.exists_of_mem_mapM (globs_of_ofPatterns h) hg
  obtain ⟨g', hg', hparse'⟩ := Outcome.exists_mem_of_mapM (globs_of_ofPatterns h') (hmore hp)
  rw [hparse] at hparse'
  cases hparse'
  exact hg'

end ExclusionRules

namespace ClassSet

open ClassTree

variable {t : FileTree} {trees : List ClassTree} {rules rules' : ExclusionRules}
  {found : List ClassArtifact} {s s' : ClassSet} {identity : String}

section
variable (hmore : ∀ identity, rules.excludes identity = true → rules'.excludes identity = true)
include hmore

/-- Only an identity that was not left out before can clash now. -/
theorem Clashes.of_more (h : Clashes rules' found identity) : Clashes rules found identity := by
  refine ⟨?_, h.2⟩
  cases hexcluded : rules.excludes identity with
  | false => rfl
  | true => exact absurd (hmore identity hexcluded) (Bool.eq_false_iff.mp h.1)

theorem Divides.artifacts_of_more (h : Divides rules found s) (h' : Divides rules' found s') :
    s'.artifacts = s.artifacts.filter fun identity _ => !rules'.excludes identity := by
  refine Table.ext_find? fun identity => Option.ext fun a => ?_
  rw [Table.find?_filter_eq_some_iff, h.artifacts, h'.artifacts, Bool.not_eq_true']
  constructor
  · rintro ⟨hkept, hgroup⟩
    refine ⟨⟨?_, hgroup⟩, hkept⟩
    cases hexcluded : rules.excludes identity with
    | false => rfl
    | true => exact absurd (hmore identity hexcluded) (Bool.eq_false_iff.mp hkept)
  · rintro ⟨⟨-, hgroup⟩, hkept⟩
    exact ⟨hkept, hgroup⟩

theorem Divides.excluded_of_more (h : Divides rules found s) (h' : Divides rules' found s') :
    s.excluded.Sublist s'.excluded := by
  rw [h.excluded, h'.excluded]
  exact List.monotone_filter_right found fun a => hmore a.identity

end

/-- A merge that comes through does so with more patterns too, and the same classes are then kept
or left out. -/
theorem merge_of_more_patterns {patterns patterns' : List String}
    (hrules : ExclusionRules.ofPatterns patterns = .ok rules)
    (hrules' : ExclusionRules.ofPatterns patterns' = .ok rules') (hmore : patterns ⊆ patterns')
    (h : merge t trees rules = .ok s) :
    ∃ s', merge t trees rules' = .ok s' ∧ s'.trees = s.trees ∧
      s'.artifacts = s.artifacts.filter (fun identity _ => !rules'.excludes identity) ∧
      s.excluded.Sublist s'.excluded ∧
      (s'.artifacts.values ++ s'.excluded).Perm (s.artifacts.values ++ s.excluded) := by
  have hexcludes : ∀ identity, rules.excludes identity = true → rules'.excludes identity = true :=
    fun _ => ExclusionRules.excludes_mono (ExclusionRules.globs_subset hrules hrules' hmore)
  obtain ⟨found, hfound, hs⟩ := Outcome.bind_eq_ok_iff.mp h
  have hfree := (exists_ofFound_iff trees).mp ⟨s, hs⟩
  have hfree' : ∀ identity, ¬ Clashes rules' found identity := fun identity hclash =>
    hfree identity (hclash.of_more hexcludes)
  obtain ⟨s', hs'⟩ := (exists_ofFound_iff trees).mpr hfree'
  obtain ⟨hnone, rfl⟩ := ofFound_eq_divided hs
  obtain ⟨hnone', rfl⟩ := ofFound_eq_divided hs'
  have hdivides := divides_divided trees hnone
  have hdivides' := divides_divided trees hnone'
  exact ⟨_, (merge_eq_ofFound hfound).trans hs', rfl,
    hdivides.artifacts_of_more hexcludes hdivides',
    hdivides.excluded_of_more hexcludes hdivides', hdivides'.all.symm.trans hdivides.all⟩

/-- Two more classes, beside the one that both modules have. -/
def unshared : FileTree :=
  (sharing.put ["http", "C.class"] (.file [67] false)).put ["http", "org", "B.class"]
    (.file [66] false)

theorem merge_of_more_patterns_unshared : ∃ rules rules' s s',
    ExclusionRules.ofPatterns ["A.class", "module-info.class"] = .ok rules ∧
    ExclusionRules.ofPatterns ["module-info.class", "org/*", "A.class"] = .ok rules' ∧
    merge unshared sharers rules = .ok s ∧ merge unshared sharers rules' = .ok s' ∧
    s.identities = ["C.class", "org/B.class"] ∧ s'.identities = ["C.class"] ∧
    s.excluded.Sublist s'.excluded ∧
    (s'.artifacts.values ++ s'.excluded).Perm (s.artifacts.values ++ s.excluded) := by
  obtain ⟨rules, hrules⟩ := Outcome.isOk_iff.mp (show
    (ExclusionRules.ofPatterns ["A.class", "module-info.class"]).isOk = true by decide +kernel)
  obtain ⟨rules', hrules'⟩ := Outcome.isOk_iff.mp (show
    (ExclusionRules.ofPatterns ["module-info.class", "org/*", "A.class"]).isOk = true by
      decide +kernel)
  have hidentities : (ExclusionRules.ofPatterns ["A.class", "module-info.class"] >>=
      merge unshared sharers).toOption.map (·.identities) = some ["C.class", "org/B.class"] := by
    decide +kernel
  have hidentities' : (ExclusionRules.ofPatterns ["module-info.class", "org/*", "A.class"] >>=
      merge unshared sharers).toOption.map (·.identities) = some ["C.class"] := by
    decide +kernel
  rw [hrules] at hidentities
  rw [hrules'] at hidentities'
  obtain ⟨s, hs, hidentities⟩ := Option.map_eq_some_iff.mp hidentities
  have hmerge : merge unshared sharers rules = .ok s := Outcome.toOption_eq_some_iff.mp hs
  obtain ⟨s', hs', -, -, hexcluded, hall⟩ :=
    merge_of_more_patterns hrules hrules' (by decide) hmerge
  rw [show (Except.ok rules' >>= merge unshared sharers) = .ok s' from hs'] at hidentities'
  exact ⟨rules, rules', s, s', hrules, hrules', hmerge, hs', hidentities,
    Option.some.inj hidentities', hexcluded, hall⟩

end ClassSet
end ModularBuild
