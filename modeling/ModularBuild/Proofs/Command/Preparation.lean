import ModularBuild.Command.Archiving
import ModularBuild.Proofs.Command.Session
import ModularBuild.Proofs.Path
import ModularBuild.Proofs.Project
import ModularBuild.Proofs.Signing

/-! # What an archive command does before it writes

Up to the first write an archive command only looks: at the description, at what the entries are
made from, and at the project if the archive is signed for a module. Each way in which this can
end is one case of a relation on file trees. The relation decides how every run of the command
begins. -/

namespace ModularBuild

namespace Signature

/-- A file name can be signed, unless it has a backslash. -/
theorem isPlainName_of_fileName? {p : Path} {name : String} (h : p.fileName? = some name)
    (hname : '\\' ∉ name.toList) : isPlainName name = true := by
  have hpart := Path.isPart_of_fileName? h
  refine isPlainName_iff.mpr ⟨?_, hpart.slash, hname⟩
  rintro rfl
  cases hpart.leads

end Signature

/-- In a project that was loaded, the plugins of its entry decide whether a module has an artifact
signed. -/
theorem Project.exists_signArtifact {t : FileTree} {path : Path} {p : Project} {e : ModuleEntry}
    (hproject : Project.load t path = .ok p) (he : e ∈ p.modules) (name : String) (bytes : Bytes) :
    ∃ registry, p.registry = .ok registry ∧
      signArtifact registry Signature.checksum ⟨e.name, name, bytes⟩ =
        if publishingPlugin ∈ e.plugins then
          (Signature.checksum name bytes).map fun sg => ⟨⟨e.name, name, bytes⟩, some sg⟩
        else .ok ⟨⟨e.name, name, bytes⟩, none⟩ := by
  obtain ⟨registry, hregistry, hget⟩ := get?_registry (check_of_load hproject) he
  refine ⟨registry, hregistry, (signArtifact_eq Signature.checksum hget).trans ?_⟩
  rw [hasPlugin_moduleOf]
  simp

namespace Command

variable {t : FileTree} {c : Context} {r : ArchiveRequest} {a : Archive} {name : String}

/-! ## Signing -/

/-- A signature is made for no module in particular, or for one that publishes by its own entry in
the project file. -/
inductive Wanted (t : FileTree) (c : Context) (r : ArchiveRequest) : Prop
  | alone (hmodule : r.module = none)
  | published {p : Project} {e : ModuleEntry} (hmodule : r.module = some e.name)
      (hproject : Project.load t c.settings.project = .ok p) (he : e ∈ p.modules)
      (hplugin : publishingPlugin ∈ e.plugins)

/-- What signing comes to: a signature, none, or an error. -/
inductive Signs (t : FileTree) (c : Context) (r : ArchiveRequest) (a : Archive) :
    Except CommandError (Option Signature) → Prop
  | unasked (hsign : r.sign = false) : Signs t c r a (.ok none)
  | noFileName (hsign : r.sign = true) (hname : r.outputPath.fileName? = none) :
      Signs t c r a (.error (.noFileName r.outputPath))
  | badProject {name module : String} {e : BuildError} (hsign : r.sign = true)
      (hname : r.outputPath.fileName? = some name) (hmodule : r.module = some module)
      (hproject : Project.load t c.settings.project = .error e) :
      Signs t c r a (.error (.build e))
  | unknownModule {name module : String} {p : Project} (hsign : r.sign = true)
      (hname : r.outputPath.fileName? = some name) (hmodule : r.module = some module)
      (hproject : Project.load t c.settings.project = .ok p)
      (hunknown : ∀ e ∈ p.modules, e.name ≠ module) :
      Signs t c r a (.error (.build (.unknownModule module)))
  | unpublished {name : String} {p : Project} {e : ModuleEntry} (hsign : r.sign = true)
      (hname : r.outputPath.fileName? = some name) (hmodule : r.module = some e.name)
      (hproject : Project.load t c.settings.project = .ok p) (he : e ∈ p.modules)
      (hplugin : publishingPlugin ∉ e.plugins) : Signs t c r a (.ok none)
  | refused {name : String} (hsign : r.sign = true)
      (hname : r.outputPath.fileName? = some name) (hwanted : Wanted t c r)
      (hplain : Signature.isPlainName name = false) :
      Signs t c r a (.error (.build (.unsignableName name)))
  | signed {name : String} (hsign : r.sign = true)
      (hname : r.outputPath.fileName? = some name) (hwanted : Wanted t c r)
      (hplain : Signature.isPlainName name = true) :
      Signs t c r a (.ok (some
        ⟨name ++ ".sha256", Digest.sha256Hex a.bytes ++ "  " ++ name ++ "\n"⟩))

theorem exists_signs (t : FileTree) (c : Context) (r : ArchiveRequest) (a : Archive) :
    ∃ x, Signs t c r a x := by
  cases hsign : r.sign with
  | false => exact ⟨_, .unasked hsign⟩
  | true =>
    cases hname : r.outputPath.fileName? with
    | none => exact ⟨_, .noFileName hsign hname⟩
    | some name =>
      have hwanted : Wanted t c r → ∃ x, Signs t c r a x := by
        intro hwanted
        cases hplain : Signature.isPlainName name with
        | false => exact ⟨_, .refused hsign hname hwanted hplain⟩
        | true => exact ⟨_, .signed hsign hname hwanted hplain⟩
      cases hmodule : r.module with
      | none => exact hwanted (.alone hmodule)
      | some module =>
        cases hproject : Project.load t c.settings.project with
        | error e => exact ⟨_, .badProject hsign hname hmodule hproject⟩
        | ok p =>
          by_cases hknown : ∃ e ∈ p.modules, e.name = module
          · obtain ⟨e, he, rfl⟩ := hknown
            by_cases hplugin : publishingPlugin ∈ e.plugins
            · exact hwanted (.published hmodule hproject he hplugin)
            · exact ⟨_, .unpublished hsign hname hmodule hproject he hplugin⟩
          · push Not at hknown
            exact ⟨_, .unknownModule hsign hname hmodule hproject hknown⟩

theorem yields_loadProject {p : Project} (h : Project.load t c.settings.project = .ok p) :
    (loadProject c).Yields t (.ok p) :=
  (yields_inspect h).bind ((yields_log c _ t).bind (yields_pure p t))

section
variable {p : Project} {registry : Registry} {module : String}
  (hproject : Project.load t c.settings.project = .ok p) (hregistry : p.registry = .ok registry)
include hproject hregistry

theorem yields_signFor {signed : SignedArtifact}
    (h : signArtifact registry Signature.checksum ⟨module, name, a.bytes⟩ = .ok signed) :
    (signFor c module name a).Yields t (.ok signed.signature) := by
  refine (yields_loadProject hproject).bind ((yields_check hregistry t).bind
    ((yields_check h t).bind ?_))
  split
  · exact (yields_log c _ t).bind (yields_pure _ t)
  · exact yields_pure _ t

theorem yields_signFor_error {e : BuildError}
    (h : signArtifact registry Signature.checksum ⟨module, name, a.bytes⟩ = .error e) :
    (signFor c module name a).Yields t (.error (.build e)) :=
  (yields_loadProject hproject).bind ((yields_check hregistry t).bind
    (yields_check_error h t).bind_error)

end

theorem signArchive_of_module {module : String} (hsign : r.sign = true)
    (hname : r.outputPath.fileName? = some name) (hmodule : r.module = some module) :
    signArchive c r a = signFor c module name a := by
  rw [signArchive, hsign, hname, hmodule]
  rfl

theorem signArchive_alone (hsign : r.sign = true) (hname : r.outputPath.fileName? = some name)
    (hmodule : r.module = none) :
    signArchive c r a = (do return some (← check (Signature.checksum name a.bytes))) := by
  rw [signArchive, hsign, hname, hmodule]
  rfl

/-- Whoever wants a signature gets what the signer makes of the name. -/
theorem yields_signArchive_of_wanted (hsign : r.sign = true)
    (hname : r.outputPath.fileName? = some name) (hwanted : Wanted t c r) :
    (∀ signature, Signature.checksum name a.bytes = .ok signature →
      (signArchive c r a).Yields t (.ok (some signature))) ∧
    ∀ e, Signature.checksum name a.bytes = .error e →
      (signArchive c r a).Yields t (.error (.build e)) := by
  cases hwanted with
  | alone hmodule =>
    rw [signArchive_alone hsign hname hmodule]
    exact ⟨fun signature h => (yields_check h t).bind (yields_pure _ t),
      fun e h => (yields_check_error h t).bind_error⟩
  | @published p e hmodule hproject he hplugin =>
    obtain ⟨registry, hregistry, hsigns⟩ := Project.exists_signArtifact hproject he name a.bytes
    rw [if_pos hplugin] at hsigns
    rw [signArchive_of_module hsign hname hmodule]
    constructor
    · intro signature h
      rw [h] at hsigns
      exact yields_signFor hproject hregistry hsigns
    · intro e h
      rw [h] at hsigns
      exact yields_signFor_error hproject hregistry hsigns

theorem yields_signArchive {x : Except CommandError (Option Signature)} (h : Signs t c r a x) :
    (signArchive c r a).Yields t x := by
  cases h with
  | unasked hsign =>
    rw [signArchive, hsign]
    exact yields_pure _ t
  | noFileName hsign hname =>
    rw [signArchive, hsign, hname]
    exact yields_throw _ t
  | badProject hsign hname hmodule hproject =>
    rw [signArchive_of_module hsign hname hmodule]
    exact ((yields_inspect_error hproject).bind_error).bind_error
  | @unknownModule name module p hsign hname hmodule hproject hunknown =>
    obtain ⟨registry, hregistry⟩ := Project.exists_registry (Project.check_of_load hproject)
    have hnone : registry.get? module = none := by
      rw [Registry.get?_eq_none_iff, Project.modules_of_registry hregistry]
      exact List.forall_mem_map.mpr fun e he => by
        rw [Project.name_moduleOf]
        exact hunknown e he
    rw [signArchive_of_module hsign hname hmodule]
    refine yields_signFor_error hproject hregistry (Outcome.bind_eq_error_iff.mpr (.inl ?_))
    rw [Registry.require, hnone]
  | @unpublished name p e hsign hname hmodule hproject he hplugin =>
    obtain ⟨registry, hregistry, hsigns⟩ := Project.exists_signArtifact hproject he name a.bytes
    rw [if_neg hplugin] at hsigns
    rw [signArchive_of_module hsign hname hmodule]
    exact yields_signFor hproject hregistry hsigns
  | refused hsign hname hwanted hplain =>
    exact (yields_signArchive_of_wanted hsign hname hwanted).2 _
      (if_neg (Bool.not_eq_true _ ▸ hplain))
  | signed hsign hname hwanted hplain =>
    exact (yields_signArchive_of_wanted hsign hname hwanted).1 _
      (Signature.checksum_of_plainName hplain a.bytes)

/-! ## The beginning of the command -/

/-- What the command comes to before it writes: an error, or the archive and its signature. -/
inductive Prepares (t : FileTree) (c : Context) (r : ArchiveRequest) :
    Except CommandError (Archive × Option Signature) → Prop
  | badSpec {e : BuildError} (hspec : ArchiveSpec.load t r.spec = .error e) :
      Prepares t c r (.error (.build e))
  | badContents {spec : ArchiveSpec} {e : BuildError} (hspec : ArchiveSpec.load t r.spec = .ok spec)
      (hbuild : Archive.buildWith c.host.deflate t r.compression spec = .error e) :
      Prepares t c r (.error (.build e))
  | badSignature {spec : ArchiveSpec} {a : Archive} {e : CommandError}
      (hspec : ArchiveSpec.load t r.spec = .ok spec)
      (hbuild : Archive.buildWith c.host.deflate t r.compression spec = .ok a)
      (hsigns : Signs t c r a (.error e)) : Prepares t c r (.error e)
  | ready {spec : ArchiveSpec} {a : Archive} {signature : Option Signature}
      (hspec : ArchiveSpec.load t r.spec = .ok spec)
      (hbuild : Archive.buildWith c.host.deflate t r.compression spec = .ok a)
      (hsigns : Signs t c r a (.ok signature)) : Prepares t c r (.ok (a, signature))

theorem exists_prepares (t : FileTree) (c : Context) (r : ArchiveRequest) :
    ∃ x, Prepares t c r x := by
  cases hspec : ArchiveSpec.load t r.spec with
  | error e => exact ⟨_, .badSpec hspec⟩
  | ok spec =>
    cases hbuild : Archive.buildWith c.host.deflate t r.compression spec with
    | error e => exact ⟨_, .badContents hspec hbuild⟩
    | ok a =>
      obtain ⟨x, hsigns⟩ := exists_signs t c r a
      cases x with
      | error e => exact ⟨_, .badSignature hspec hbuild hsigns⟩
      | ok signature => exact ⟨_, .ready hspec hbuild hsigns⟩

theorem yields_buildArchive {spec : ArchiveSpec} (hspec : ArchiveSpec.load t r.spec = .ok spec)
    (hbuild : Archive.buildWith c.host.deflate t r.compression spec = .ok a) :
    (buildArchive c r).Yields t (.ok a) :=
  (yields_inspect hspec).bind ((yields_logAll c _ t).bind
    ((yields_inspect hbuild).bind ((yields_log c _ t).bind (yields_pure a t))))

/-- The part of the command that comes before the first write. -/
def prepare (c : Context) (r : ArchiveRequest) : Command (Archive × Option Signature) := do
  let a ← buildArchive c r
  let signature ← signArchive c r a
  return (a, signature)

theorem yields_prepare {x : Except CommandError (Archive × Option Signature)}
    (h : Prepares t c r x) : (prepare c r).Yields t x := by
  cases h with
  | badSpec hspec => exact ((yields_inspect_error hspec).bind_error).bind_error
  | @badContents spec _ hspec hbuild =>
    have hfails := yields_inspect_error
      (f := fun t => Archive.buildWith c.host.deflate t r.compression spec) hbuild
    refine Yields.bind_error ((yields_inspect hspec).bind ((yields_logAll c _ t).bind ?_))
    exact hfails.bind_error
  | badSignature hspec hbuild hsigns =>
    exact (yields_buildArchive hspec hbuild).bind (yields_signArchive hsigns).bind_error
  | ready hspec hbuild hsigns =>
    exact (yields_buildArchive hspec hbuild).bind
      ((yields_signArchive hsigns).bind (yields_pure _ t))

end Command
end ModularBuild
