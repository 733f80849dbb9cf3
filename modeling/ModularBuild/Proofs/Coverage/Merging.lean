import ModularBuild.Proofs.Coverage.ClassSet
import ModularBuild.Proofs.Coverage.Walking
import ModularBuild.Proofs.Text.Utf8

/-! # Nothing is lost in a merge

Each class that is found below the roots is kept or left out, never both. What is left out is
left out by its identity alone. A merge fails exactly if an identity that is not left out comes
twice, and then names the first such identity and everyone who contributes it. -/

namespace ModularBuild.ClassSet

open FileTree ClassTree

variable {t : FileTree} {trees : List ClassTree} {rules : ExclusionRules}
  {found : List ClassArtifact} {identity : String} {s : ClassSet} {e : BuildError}

/-- The classes that are not left out. -/
def kept (rules : ExclusionRules) (found : List ClassArtifact) : List ClassArtifact :=
  found.filter fun a => !rules.excludes a.identity

/-- An identity that is not left out was found more than once. -/
def Clashes (rules : ExclusionRules) (found : List ClassArtifact) (identity : String) : Prop :=
  rules.excludes identity = false ∧ 1 < (group found identity).length

/-- The set has each class that was found in one of two places: under its identity, if it is the
only one of that identity and not left out, or else among those that are left out. -/
structure Divides (rules : ExclusionRules) (found : List ClassArtifact) (s : ClassSet) : Prop where
  all : found.Perm (s.artifacts.values ++ s.excluded)
  apart : ∀ a ∈ found, a ∈ s.artifacts.values ↔ a ∉ s.excluded
  artifacts : ∀ identity a, s.artifacts.find? identity = some a ↔
    rules.excludes identity = false ∧ group found identity = [a]
  excluded : s.excluded = found.filter fun a => rules.excludes a.identity

theorem group_kept (rules : ExclusionRules) (found : List ClassArtifact) (identity : String) :
    group (kept rules found) identity =
      if rules.excludes identity then [] else group found identity := by
  unfold group kept
  rw [List.filter_filter]
  split
  · next hexcluded =>
    refine List.filter_eq_nil_iff.mpr fun a _ hboth => ?_
    simp only [Bool.and_eq_true, decide_eq_true_eq] at hboth
    rw [hboth.1, hexcluded] at hboth
    cases hboth.2
  · next hkept =>
    refine List.filter_congr fun a _ => ?_
    by_cases ha : a.identity = identity <;> simp [ha, hkept]

theorem clashes_iff : Clashes rules found identity ↔
    1 < (group (kept rules found) identity).length := by
  unfold Clashes
  rw [group_kept]
  cases rules.excludes identity <;> simp

theorem collision?_eq_some {row : String × List ClassArtifact} (h : collision? found = some row) :
    row.2 = group found row.1 ∧ 1 < row.2.length ∧
      ∀ identity, 1 < (group found identity).length → identity = row.1 ∨ row.1 < identity := by
  have hfind : ∀ identity, 1 < (group found identity).length →
      (claims found).find? identity = some (group found identity) := by
    intro identity hlength
    rw [find?_claims, if_neg]
    intro hnil
    rw [hnil] at hlength
    cases hlength
  have hlength : 1 < row.2.length := by simpa using List.find?_some h
  have hrow : (claims found).find? row.1 = some row.2 :=
    Table.find?_eq_some_iff.mpr (List.mem_of_find?_eq_some h)
  rw [find?_claims] at hrow
  split at hrow
  · cases hrow
  · refine ⟨(Option.some.inj hrow).symm, hlength, fun identity hother => ?_⟩
    have hmem := Table.find?_eq_some_iff.mp (hfind identity hother)
    exact ((Table.find?_rows_eq_some_iff.mp h).2.2 _ hmem (by simpa using hother)).imp_left
      (congrArg Prod.fst)

/-- The classes in a table, under their identities. -/
def byIdentity (found : List ClassArtifact) : Table String ClassArtifact :=
  .ofList (found.map fun a => (a.identity, a))

section
variable (h : collision? found = none)
include h

theorem nodup_identities : ((found.map fun a => (a.identity, a)).map Prod.fst).Nodup := by
  refine List.nodup_iff_count_le_one.mpr fun identity => ?_
  have hgroup := group_of_no_collision h identity
  rw [List.map_map, List.count, List.countP_map, List.countP_eq_length_filter]
  simpa [group, Function.comp_def, beq_eq_decide] using hgroup

theorem values_byIdentity_perm : (byIdentity found).values.Perm found := by
  have hrows := (Table.rows_ofList_perm (nodup_identities h)).map Prod.snd
  rw [List.map_map] at hrows
  exact hrows.trans (by simp [Function.comp_def])

theorem find?_byIdentity {a : ClassArtifact} :
    (byIdentity found).find? identity = some a ↔ group found identity = [a] := by
  have hmem : (identity, a) ∈ found.map (fun a => (a.identity, a)) ↔ a ∈ group found identity := by
    simp [group, and_comm, eq_comm]
  have hlength := group_of_no_collision h identity
  rw [byIdentity, Table.find?_ofList_eq_some_iff (nodup_identities h), hmem]
  generalize group found identity = others at hlength
  rcases others with _ | ⟨b, _ | ⟨c, rest⟩⟩
  · simp
  · simp [eq_comm]
  · simp at hlength

end

/-- What a merge makes of classes that do not collide. -/
def divided (trees : List ClassTree) (rules : ExclusionRules) (found : List ClassArtifact) :
    ClassSet :=
  ⟨trees, byIdentity (kept rules found), found.filter fun a => rules.excludes a.identity⟩

theorem divides_divided (trees : List ClassTree) (h : collision? (kept rules found) = none) :
    Divides rules found (divided trees rules found) := by
  have hvalues := values_byIdentity_perm h
  refine ⟨?_, fun a ha => ?_, fun identity a => ?_, rfl⟩
  · exact (List.filter_append_perm _ found).symm.trans
      (List.perm_append_comm.trans (hvalues.symm.append_right _))
  · unfold divided
    rw [hvalues.mem_iff, kept, List.mem_filter, List.mem_filter]
    simp [ha]
  · refine (find?_byIdentity h).trans ?_
    rw [group_kept]
    cases rules.excludes identity <;> simp

theorem ofFound_eq_divided (h : ofFound trees rules found = .ok s) :
    collision? (kept rules found) = none ∧ s = divided trees rules found := by
  rw [ofFound_eq] at h
  split at h
  · cases h
  · next hnone =>
    cases h
    exact ⟨hnone, rfl⟩

theorem clash_of_ofFound (h : ofFound trees rules found = .error e) :
    ∃ identity, Bytes.Least (Clashes rules found) identity ∧
      e = .mergeCollision identity ((group found identity).map (·.module)) := by
  rw [ofFound_eq] at h
  split at h
  · next row hcollision =>
    obtain ⟨hgroup, hlength, hsmallest⟩ := collision?_eq_some hcollision
    have hclash : Clashes rules found row.1 := clashes_iff.mpr (hgroup ▸ hlength)
    refine ⟨row.1, ⟨hclash, fun other hother => ?_⟩, ?_⟩
    · exact (hsmallest other (clashes_iff.mp hother)).imp_right Bytes.ofText_lt
    · have hsame := group_kept rules found row.1
      rw [hclash.1, if_neg Bool.false_ne_true] at hsame
      rw [← Except.error.inj h, hgroup]
      exact congrArg _ (congrArg _ hsame)
  · cases h

theorem exists_ofFound_iff (trees : List ClassTree) : (∃ s, ofFound trees rules found = .ok s) ↔
    ∀ identity, ¬ Clashes rules found identity := by
  constructor
  · rintro ⟨s, hs⟩ identity hclash
    obtain ⟨hnone, -⟩ := ofFound_eq_divided hs
    exact absurd (clashes_iff.mp hclash)
      (Nat.not_lt.mpr (group_of_no_collision hnone identity))
  · intro hfree
    refine Outcome.exists_ok_iff.mpr fun ⟨e, he⟩ => ?_
    obtain ⟨identity, hclash, -⟩ := clash_of_ofFound he
    exact hfree identity hclash.1

/-- What was found collides in the first identity that clashes. -/
theorem ofFound_eq_error_iff (trees : List ClassTree) : ofFound trees rules found = .error e ↔
    ∃ identity, Bytes.Least (Clashes rules found) identity ∧
      e = .mergeCollision identity ((group found identity).map (·.module)) := by
  refine ⟨clash_of_ofFound, ?_⟩
  rintro ⟨identity, hleast, rfl⟩
  cases h : ofFound trees rules found with
  | ok s => exact absurd hleast.1 ((exists_ofFound_iff trees).mp ⟨s, h⟩ identity)
  | error e =>
    obtain ⟨other, hother, rfl⟩ := clash_of_ofFound h
    rw [hother.unique hleast]

theorem merge_eq_ofFound (h : walkAll t trees = .ok found) :
    merge t trees rules = ofFound trees rules found := by
  rw [merge, h]
  rfl

/-- A merge of trees that can be read accounts for every class that is found below the roots. -/
theorem merge_accounts (rules : ExclusionRules) (hnamed : t.WellNamed)
    (hreadable : ∀ tree ∈ trees, Readable t tree) :
    ∃ found, (∀ other, Found t trees other ↔ other = found) ∧
      ((∃ s, merge t trees rules = .ok s) ↔ ∀ identity, ¬ Clashes rules found identity) ∧
      (∀ s, merge t trees rules = .ok s → s.trees = trees ∧ Divides rules found s) ∧
      ∀ e, merge t trees rules = .error e → ∃ identity, Clashes rules found identity ∧
        (∀ other, Clashes rules found other → other ≠ identity →
          Bytes.ofText identity < Bytes.ofText other) ∧
        e = .mergeCollision identity ((group found identity).map (·.module)) := by
  obtain ⟨found, hfound⟩ := exists_walkAll hreadable
  rw [merge_eq_ofFound hfound]
  refine ⟨found, fun other => ?_, exists_ofFound_iff trees, fun s hs => ?_, fun e he => ?_⟩
  · rw [← walkAll_eq_ok_iff hnamed hreadable, hfound, Except.ok.injEq, eq_comm]
  · obtain ⟨hnone, rfl⟩ := ofFound_eq_divided hs
    exact ⟨rfl, divides_divided trees hnone⟩
  · obtain ⟨identity, ⟨hclash, hsmallest⟩, he⟩ := clash_of_ofFound he
    exact ⟨identity, hclash, fun other hother hne => (hsmallest other hother).resolve_left hne, he⟩

/-- Two modules that share a class, and of which both have a descriptor. -/
def sharing : FileTree :=
  let files : List Location := [["core", "module-info.class"], ["core", "org", "A.class"],
    ["http", "module-info.class"], ["http", "org", "A.class"]]
  let directories : List Location := [["core"], ["core", "org"], ["http"], ["http", "org"]]
  files.foldl (fun t loc => t.put loc (.file [65] false))
    (directories.foldl (fun t loc => t.put loc .directory) (.empty []))

def sharers : List ClassTree := [⟨"core", ⟨"core"⟩⟩, ⟨"http", ⟨"http"⟩⟩]

theorem merge_accounts_sharing : ∃ found, Found sharing sharers found ∧
    merge sharing sharers .standard = .error (.mergeCollision "org/A.class" ["core", "http"]) ∧
    Clashes .standard found "org/A.class" ∧
    ∀ other, Clashes .standard found other → other ≠ "org/A.class" →
      Bytes.ofText "org/A.class" < Bytes.ofText other := by
  have hnamed : sharing.WellNamed := by
    change ∀ row ∈ sharing.rows.rows, ∀ name ∈ row.1, IsName name
    decide +kernel
  have hreadable : ∀ tree ∈ sharers, Readable sharing tree :=
    readable_of_walks (by decide +kernel)
  have hmerge : merge sharing sharers .standard =
      .error (.mergeCollision "org/A.class" ["core", "http"]) :=
    Outcome.failure?_eq_some_iff.mp (by decide +kernel)
  obtain ⟨found, hfound, -, -, hfails⟩ := merge_accounts .standard hnamed hreadable
  obtain ⟨identity, hclash, hsmallest, he⟩ := hfails _ hmerge
  have hidentity : "org/A.class" = identity := (BuildError.mergeCollision.inj he).1
  rw [← hidentity] at hclash hsmallest
  exact ⟨found, (hfound found).mpr rfl, hmerge, hclash, hsmallest⟩

end ModularBuild.ClassSet
