import Mathlib.Data.List.Forall2
import Mathlib.Data.List.TakeWhile
import ModularBuild.Proofs.Glob
import ModularBuild.Proofs.Project
import ModularBuild.Proofs.Yaml.Decode

/-! # Leaving out by name

A pattern without special characters names classes: by their whole identity, or by the file name in
it. Rules of such patterns leave out what is named, in either case of the letters A to Z. The
standard rules are made from an escaped name and those of a project without a section for coverage
from the name itself, and both are the same rules. -/

namespace ModularBuild

namespace ExclusionRules

variable {s identity name : String} {patterns : List String}

/-! ## File names -/

/-- The file name is what follows the last slash, or all of an identity without slashes. -/
def IsFileName (identity name : String) : Prop :=
  '/' ∉ name.toList ∧ (identity = name ∨ ∃ dir, identity = dir ++ "/" ++ name)

theorem IsFileName.baseName_eq (h : IsFileName identity name) : baseName identity = name := by
  obtain ⟨hslash, hidentity⟩ := h
  have hname : ∀ c ∈ name.toList.reverse, (c != '/') = true := by
    refine fun c hc => bne_iff_ne.mpr ?_
    rintro rfl
    exact hslash (List.mem_reverse.mp hc)
  have htaken : identity.toList.reverse.takeWhile (· != '/') = name.toList.reverse := by
    rcases hidentity with rfl | ⟨dir, rfl⟩
    · exact List.takeWhile_eq_self_iff.mpr hname
    · rw [String.toList_append, List.reverse_append, List.takeWhile_append_of_pos hname,
        String.toList_append, List.reverse_append]
      simp
  rw [← String.toList_inj, baseName, String.toList_ofList, htaken, List.reverse_reverse]

theorem exists_isFileName (identity : String) : ∃ name, IsFileName identity name := by
  by_cases h : '/' ∈ identity.toList
  · -- the last slash is the first one from behind
    obtain ⟨back, front, hsplit, hback⟩ :=
      List.eq_append_cons_of_mem (List.mem_reverse.mpr h)
    refine ⟨String.ofList back.reverse, by simpa using hback,
      .inr ⟨String.ofList front.reverse, ?_⟩⟩
    rw [← String.toList_inj, ← List.reverse_inj, hsplit]
    simp
  · exact ⟨identity, h, .inl rfl⟩

theorem isFileName_iff : IsFileName identity name ↔ baseName identity = name := by
  constructor
  · exact IsFileName.baseName_eq
  · rintro rfl
    obtain ⟨name, hname⟩ := exists_isFileName identity
    rwa [hname.baseName_eq]

/-! ## Named classes -/

/-- The text is the identity or its file name, up to the case of the letters A to Z. -/
def Names (s identity : String) : Prop :=
  s.toLower = identity.toLower ∨ ∃ name, IsFileName identity name ∧ s.toLower = name.toLower

theorem names_iff : Names s identity ↔
    s.toLower = identity.toLower ∨ s.toLower = (baseName identity).toLower := by
  simp [Names, isFileName_iff]

/-- A name without slashes can only be a file name. -/
theorem names_iff_of_no_slash (h : '/' ∉ s.toLower.toList) :
    Names s identity ↔ ∃ name, IsFileName identity name ∧ name.toLower = s.toLower := by
  constructor
  · rintro (hsame | ⟨name, hname, hsame⟩)
    · refine ⟨identity, ⟨fun hslash => h ?_, .inl rfl⟩, hsame.symm⟩
      rw [hsame, toList_toLower]
      exact List.mem_map.mpr ⟨'/', hslash, rfl⟩
    · exact ⟨name, hname, hsame.symm⟩
  · rintro ⟨name, hname, hsame⟩
    exact .inr ⟨name, hname, hsame.symm⟩

theorem ofPatterns_escape (texts : List String) :
    ofPatterns (texts.map Glob.escape) = .ok ⟨texts.map Glob.globOf⟩ := by
  have hglobs : (texts.map Glob.escape).mapM (fun p => (Glob.parse p).mapError BuildError.pattern) =
      .ok (texts.map Glob.globOf) := by
    rw [Outcome.mapM_eq_ok_iff, List.forall₂_map_left_iff, List.forall₂_map_right_iff]
    refine List.forall₂_same.mpr fun s _ => ?_
    rw [Glob.parse_escape]
    rfl
  rw [ofPatterns, hglobs]
  rfl

theorem excludes_globOf_iff {texts : List String} :
    (⟨texts.map Glob.globOf⟩ : ExclusionRules).excludes identity = true ↔
      ∃ s ∈ texts, Names s identity := by
  simp only [excludes, List.any_map, List.any_eq_true, Function.comp_apply, Bool.or_eq_true,
    Glob.accepts_globOf, names_iff]

theorem ofPatterns_of_literal (h : ∀ p ∈ patterns, Glob.Literal p) :
    ofPatterns patterns = .ok ⟨patterns.map Glob.globOf⟩ := by
  have hself : patterns.map Glob.escape = patterns.map id :=
    List.map_congr_left fun p hp => Glob.escape_of_literal (h p hp)
  rw [← ofPatterns_escape, hself, List.map_id]

theorem standard_eq : standard = ⟨[Glob.globOf moduleDescriptor]⟩ := by
  rw [standard, show [Glob.escape moduleDescriptor] = [moduleDescriptor].map Glob.escape from rfl,
    ofPatterns_escape]
  rfl

end ExclusionRules

namespace Project

open Yaml (Document)
open Yaml.Decode (Ensures)
open Yaml.Value (ensures_fields_of_names)

variable {p : Project} {yaml : String}

/-- The text has no section of this name. -/
def LacksSection (yaml name : String) : Prop :=
  ∀ document, Document.read? yaml = some document →
    ∀ root, document.root = some root → name ∉ document.fieldNames root

/-- Only the section for coverage says what is left out. -/
theorem ensures_read_exclude {v : Yaml.Value}
    (h : "coverage" ∉ v.document.fieldNames v.node) :
    Ensures (read v) fun p => p.exclude = standardExclude := by
  refine ensures_fields_of_names (I := fun draft => draft.exclude = none) rfl
    (fun draft key value hkey hdraft => ?_) (fun draft hdraft => Ensures.pure ?_)
  · have hne : key ≠ "coverage" := fun hc => h (hc ▸ hkey)
    simp only [if_neg hne]
    split
    · exact (Ensures.trivial _).bind fun _ _ => Ensures.pure hdraft
    split
    · exact (Ensures.trivial _).bind fun _ _ => Ensures.pure hdraft
    split
    · exact (Ensures.trivial _).bind fun _ _ => Ensures.pure hdraft
    split
    · exact (Ensures.trivial _).bind fun _ _ => Ensures.pure hdraft
    split
    · exact (Ensures.trivial _).bind fun _ _ => Ensures.pure hdraft
    split
    · exact (Ensures.trivial _).bind fun _ _ => Ensures.pure hdraft
    · exact Ensures.pure hdraft
  · simp [hdraft]

theorem exclude_of_lacksSection (h : ofYaml yaml = .ok p) (hlacks : LacksSection yaml "coverage") :
    p.exclude = standardExclude := by
  refine Yaml.of_decode (P := fun p => p.exclude = standardExclude) (ofYaml_eq_ok_iff.mp h).1
    fun v hdocument hnode => ensures_read_exclude ?_
  rw [hnode]
  cases hroot : v.document.root with
  | none => exact List.not_mem_nil
  | some root => exact hlacks _ hdocument root hroot

theorem exclusions_of_standardExclude (h : p.exclude = standardExclude) :
    p.exclusions = .ok ExclusionRules.standard := by
  rw [exclusions, h, standardExclude, ExclusionRules.ofPatterns_of_literal (by decide),
    ExclusionRules.standard_eq]
  rfl

end Project

namespace ExclusionRules

open Yaml (Document)

/-- Rules of patterns without special characters can always be made, and leave out what a pattern
names. The standard rules are those of every project without a section for coverage, and leave out
the module descriptors, in whatever case their name is written. -/
theorem excludes_iff_names (patterns : List String)
    (hliteral : ∀ p ∈ patterns, Glob.Literal p) :
    (∃ rules, ofPatterns patterns = .ok rules ∧ rules.patterns = patterns ∧
      ∀ identity, rules.excludes identity = true ↔ ∃ p ∈ patterns, Names p identity) ∧
    Project.empty.exclusions = .ok standard ∧
    (∀ yaml project, Project.ofYaml yaml = .ok project → Project.LacksSection yaml "coverage" →
      project.exclusions = .ok standard) ∧
    ∀ identity, standard.excludes identity = true ↔
      ∃ name, IsFileName identity name ∧ name.toLower = "module-info.class" := by
  refine ⟨⟨_, ofPatterns_of_literal hliteral, ?_, fun identity => excludes_globOf_iff⟩,
    Project.exclusions_of_standardExclude rfl, fun yaml project h hlacks =>
      Project.exclusions_of_standardExclude (Project.exclude_of_lacksSection h hlacks),
    fun identity => ?_⟩
  · have hsource : ∀ p ∈ patterns, (Glob.globOf p).source = p := fun p hp =>
      Glob.escape_of_literal (hliteral p hp)
    rw [ExclusionRules.patterns, List.map_map]
    exact (List.map_congr_left hsource).trans patterns.map_id
  · have hname : moduleDescriptor.toLower = "module-info.class" := by decide +kernel
    have hslash : '/' ∉ moduleDescriptor.toLower.toList := by rw [hname]; decide
    rw [standard_eq, ← List.map_singleton, excludes_globOf_iff]
    simp only [List.mem_singleton, exists_eq_left, names_iff_of_no_slash hslash, hname]

/-- A project that is called like the section that it lacks. -/
def unsectioned : String := "name: coverage\nmodules:\n  - { name: core, dir: core }\n"

theorem excludes_iff_names_unsectioned :
    (∀ p ∈ ["org/example/Parser.class", "Main.class"], Glob.Literal p) ∧
    (∃ rules, ofPatterns ["org/example/Parser.class", "Main.class"] = .ok rules ∧
      rules.excludes "org/example/Main.class" = true ∧
      rules.excludes "lib/org/example/Parser.class" = false) ∧
    Project.LacksSection unsectioned "coverage" ∧
    ∃ project, Project.ofYaml unsectioned = .ok project ∧ project.exclusions = .ok standard := by
  have hliteral : ∀ p ∈ ["org/example/Parser.class", "Main.class"], Glob.Literal p := by decide
  obtain ⟨⟨rules, hrules, -, hexcludes⟩, -, hunsectioned, -⟩ := excludes_iff_names _ hliteral
  have hnames : (Document.read? unsectioned).bind (fun document =>
      document.root.map document.fieldNames) = some ["name", "modules"] := by decide +kernel
  have hlacks : Project.LacksSection unsectioned "coverage" := by
    intro document hdocument root hroot
    rw [hdocument, Option.bind_some, hroot] at hnames
    rw [Option.some.inj hnames]
    decide
  obtain ⟨project, hproject⟩ := Outcome.isOk_iff.mp (show
    (Project.ofYaml unsectioned).isOk = true by decide +kernel)
  refine ⟨hliteral, ⟨rules, hrules, (hexcludes _).mpr ⟨"Main.class", by decide, ?_⟩, ?_⟩, hlacks,
    project, hproject, hunsectioned _ _ hproject hlacks⟩
  · exact .inr ⟨"Main.class", ⟨by decide, .inr ⟨"org/example", by decide⟩⟩, rfl⟩
  · rw [Bool.eq_false_iff, ne_eq, hexcludes]
    simp only [names_iff]
    decide +kernel

/-- A class is left out though no pattern is its identity or its file name: a letter of it is
written in the other case. So are descriptors by the standard rules. -/
theorem excludes_other_case :
    (∀ p ∈ ["org/example/Parser.class"], Glob.Literal p) ∧
    (∃ rules, ofPatterns ["org/example/Parser.class"] = .ok rules ∧
      rules.excludes "org/example/parser.class" = true) ∧
    (¬ ∃ p ∈ ["org/example/Parser.class"],
      p = "org/example/parser.class" ∨ IsFileName "org/example/parser.class" p) ∧
    standard.excludes "org/Module-Info.class" = true ∧
    ¬ IsFileName "org/Module-Info.class" "module-info.class" := by
  simp only [isFileName_iff]
  have hliteral : ∀ p ∈ ["org/example/Parser.class"], Glob.Literal p := by decide
  exact ⟨hliteral, ⟨_, ofPatterns_of_literal hliteral, by decide +kernel⟩, by decide +kernel,
    by decide +kernel, by decide +kernel⟩

end ExclusionRules
end ModularBuild
