import ModularBuild.Proofs.Module.Registry
import ModularBuild.Signing

/-! # Signing what modules publish

An artifact is signed, left alone or refused by itself; a list of them is handled if none is
refused. A bad name matters only where there is something to sign. -/

namespace ModularBuild

namespace Signature

/-- A name that can stand on a line of a checksum list as the name of a file. -/
structure PlainName (name : String) : Prop where
  ne_empty : name ≠ ""
  slash : '/' ∉ name.toList
  backslash : '\\' ∉ name.toList

theorem isPlainName_iff {name : String} : isPlainName name = true ↔ PlainName name := by
  rw [isPlainName, Bool.and_eq_true, Bool.not_eq_true', List.all_eq_true]
  constructor
  · rintro ⟨hne, hall⟩
    refine ⟨?_, fun h => ?_, fun h => ?_⟩
    · rintro rfl
      cases hne
    · exact absurd (hall _ h) (by decide)
    · exact absurd (hall _ h) (by decide)
  · intro h
    refine ⟨?_, fun c hc => ?_⟩
    · rw [Bool.eq_false_iff, Ne, String.isEmpty_iff]
      exact h.ne_empty
    · rw [Bool.and_eq_true, bne_iff_ne, bne_iff_ne]
      exact ⟨fun he => h.slash (he ▸ hc), fun he => h.backslash (he ▸ hc)⟩

theorem checksum_of_plainName {name : String} (h : isPlainName name = true) (bytes : Bytes) :
    checksum name bytes =
      .ok ⟨name ++ ".sha256", Digest.sha256Hex bytes ++ "  " ++ name ++ "\n"⟩ := if_pos h

theorem checksum_of_not_plainName {name : String} (h : ¬ PlainName name) (bytes : Bytes) :
    checksum name bytes = .error (.unsignableName name) := if_neg (mt isPlainName_iff.mp h)

end Signature

variable {r : Registry} {m : Module} {a : Artifact} {artifacts : List Artifact}
  {signed : SignedArtifact} {e : BuildError}

theorem signArtifact_eq (sign : Signer) (hm : r.get? a.module = some m) :
    signArtifact r sign a =
      if m.hasPlugin publishingPlugin then
        (sign a.name a.bytes).map fun signature => ⟨a, some signature⟩
      else .ok ⟨a, none⟩ := by
  have hrequire : r.require a.module = .ok m := by rw [Registry.require, hm]
  rw [signArtifact, hrequire]
  change (if m.hasPlugin publishingPlugin then _ else _) = _
  split
  · cases sign a.name a.bytes <;> rfl
  · rfl

theorem signArtifact_of_unknown (sign : Signer) (h : r.get? a.module = none) :
    signArtifact r sign a = .error (.unknownModule a.module) := by
  rw [signArtifact, Registry.require, h]
  rfl

namespace Artifact

/-- Among the registered modules is the one that the artifact is from. -/
def Registered (r : Registry) (a : Artifact) : Prop := ∃ m ∈ r.modules, m.name = a.module

/-- The registered module that the artifact is from has the plugin for publishing. -/
def Published (r : Registry) (a : Artifact) : Prop :=
  ∃ m ∈ r.modules, m.name = a.module ∧ m.hasPlugin publishingPlugin = true

/-- Why an artifact stops the signing. -/
inductive Refused (r : Registry) (a : Artifact) : BuildError → Prop
  | unknownModule (h : ¬ Registered r a) : Refused r a (.unknownModule a.module)
  | unsignableName (hpublished : Published r a) (hname : ¬ Signature.PlainName a.name) :
      Refused r a (.unsignableName a.name)

/-- Nothing stands in the way of an artifact. -/
structure Acceptable (r : Registry) (a : Artifact) : Prop where
  registered : Registered r a
  plain : Published r a → Signature.PlainName a.name

/-- The artifact as it was, and with it a signature if and only if it is published. -/
structure Handled (r : Registry) (a : Artifact) (signed : SignedArtifact) : Prop where
  artifact : signed.artifact = a
  isSome : signed.signature.isSome = true ↔ Published r a
  signature : ∀ s ∈ signed.signature, Signature.checksum a.name a.bytes = .ok s

theorem published_iff (hm : r.get? a.module = some m) :
    Published r a ↔ m.hasPlugin publishingPlugin = true := by
  obtain ⟨hmem, hname⟩ := Registry.get?_eq_some_iff.mp hm
  constructor
  · rintro ⟨m', hm', hname', hplugin⟩
    have hget := Registry.get?_eq_some_iff.mpr ⟨hm', hname'⟩
    rw [hm] at hget
    cases hget
    exact hplugin
  · exact fun hplugin => ⟨m, hmem, hname, hplugin⟩

theorem acceptable_or_refused (r : Registry) (a : Artifact) :
    Acceptable r a ∨ ∃ e, Refused r a e := by
  by_cases hregistered : Registered r a
  · by_cases hpublished : Published r a
    · by_cases hname : Signature.PlainName a.name
      · exact .inl ⟨hregistered, fun _ => hname⟩
      · exact .inr ⟨_, .unsignableName hpublished hname⟩
    · exact .inl ⟨hregistered, fun h => absurd h hpublished⟩
  · exact .inr ⟨_, .unknownModule hregistered⟩

theorem signArtifact_of_refused (h : Refused r a e) :
    signArtifact r Signature.checksum a = .error e := by
  cases h with
  | unknownModule h =>
    refine signArtifact_of_unknown _ (Registry.get?_eq_none_iff.mpr fun m hm hname => ?_)
    exact h ⟨m, hm, hname⟩
  | unsignableName hpublished hname =>
    obtain ⟨m, hm, hmodule, hplugin⟩ := hpublished
    rw [signArtifact_eq _ (Registry.get?_eq_some_iff.mpr ⟨hm, hmodule⟩), if_pos hplugin,
      Signature.checksum_of_not_plainName hname]
    rfl

theorem exists_handled (h : Acceptable r a) :
    ∃ signed, signArtifact r Signature.checksum a = .ok signed ∧ Handled r a signed := by
  obtain ⟨m, hm⟩ := h.registered
  have hget := Registry.get?_eq_some_iff.mpr hm
  rw [signArtifact_eq _ hget]
  split
  · next hplugin =>
    have hpublished := (published_iff hget).mpr hplugin
    have hsum := Signature.checksum_of_plainName
      (Signature.isPlainName_iff.mpr (h.plain hpublished)) a.bytes
    rw [hsum]
    refine ⟨_, rfl, rfl, iff_of_true rfl hpublished, ?_⟩
    rintro s ⟨⟩
    exact hsum
  · next hplugin =>
    exact ⟨_, rfl, rfl, iff_of_false (by simp) (mt (published_iff hget).mp hplugin), by simp⟩

theorem exists_signArtifact_iff :
    (∃ signed, signArtifact r Signature.checksum a = .ok signed) ↔ Acceptable r a := by
  constructor
  · rintro ⟨signed, hsigned⟩
    refine (acceptable_or_refused r a).resolve_right ?_
    rintro ⟨e, h⟩
    rw [signArtifact_of_refused h] at hsigned
    cases hsigned
  · intro h
    obtain ⟨signed, hsigned, -⟩ := exists_handled h
    exact ⟨signed, hsigned⟩

theorem handled_of_signArtifact (h : signArtifact r Signature.checksum a = .ok signed) :
    Handled r a signed := by
  obtain ⟨signed', hsigned, hhandled⟩ := exists_handled (exists_signArtifact_iff.mp ⟨signed, h⟩)
  rw [h] at hsigned
  cases hsigned
  exact hhandled

theorem signArtifact_eq_error_iff :
    signArtifact r Signature.checksum a = .error e ↔ Refused r a e := by
  refine ⟨fun h => ?_, signArtifact_of_refused⟩
  rcases acceptable_or_refused r a with hok | ⟨e', hrefused⟩
  · obtain ⟨signed, hsigned, -⟩ := exists_handled hok
    rw [h] at hsigned
    cases hsigned
  · rw [signArtifact_of_refused hrefused] at h
    cases h
    exact hrefused

end Artifact

/-- Artifacts are handled if all of them can be, each as if it were alone; otherwise the first that
cannot be handled gives the error, and nothing else comes of them. -/
theorem signPublished_accounts (r : Registry) (artifacts : List Artifact) :
    ((∃ out, signPublished r Signature.checksum artifacts = .ok out) ↔
      ∀ a ∈ artifacts, a.Acceptable r) ∧
    (∀ out, signPublished r Signature.checksum artifacts = .ok out →
      List.Forall₂ (Artifact.Handled r) artifacts out) ∧
    ∀ e, signPublished r Signature.checksum artifacts = .error e ↔
      ∃ before a after, artifacts = before ++ a :: after ∧
        (∀ x ∈ before, x.Acceptable r) ∧ a.Refused r e := by
  refine ⟨⟨?_, fun h => ?_⟩, fun out h => ?_, fun e => ?_⟩
  · rintro ⟨out, h⟩ a ha
    obtain ⟨signed, -, hsigned⟩ := Outcome.exists_mem_of_mapM h ha
    exact Artifact.exists_signArtifact_iff.mp ⟨signed, hsigned⟩
  · exact Outcome.exists_mapM_eq_ok fun a ha => Artifact.exists_signArtifact_iff.mpr (h a ha)
  · exact (Outcome.mapM_eq_ok_iff.mp h).imp fun a signed => Artifact.handled_of_signArtifact
  · rw [signPublished, Outcome.mapM_eq_error_iff]
    simp only [Artifact.exists_signArtifact_iff, Artifact.signArtifact_eq_error_iff]

/-- A bad name does no harm where nothing is published, and the first offender counts. -/
example : (Registry.ofModules [.ofParts "core" ⟨"core"⟩ [publishingPlugin] [],
      .bare "docs" ⟨"docs"⟩]).bind (fun r => signPublished r Signature.checksum
        [⟨"docs", "site/docs.tar", []⟩, ⟨"core", "out/core.tar", []⟩, ⟨"ghost", "ghost.tar", []⟩]) =
    .error (.unsignableName "out/core.tar") := by
  decide +kernel

end ModularBuild
