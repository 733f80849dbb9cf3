import ModularBuild.Command.Line
import ModularBuild.Proofs.Command.Preparation
import ModularBuild.Proofs.FileTree.Change

/-! # Which modules have their archives signed

Signing looks a module up among those of the project file, before the policy is applied. So an
archive is signed for the modules whose own entry has the plugin for publishing, and a module
that has it from the policy alone is reported as publishing and not signed for. -/

namespace ModularBuild

namespace Command

variable {c : Context} {r : ArchiveRequest} {a : Archive} {s s' : Session}

/-- What is left to do once it is settled whether there is a signature. -/
def deliver (c : Context) (r : ArchiveRequest) (a : Archive) (signature : Option Signature) :
    Command Unit := do
  change (a.writeTo r.outputPath)
  match signature with
  | some s =>
    let path := signaturePath r.outputPath s
    change (Disk.change (·.writeFile path (Bytes.ofText s.contents)))
    report c .success ("wrote " ++ path.text)
  | none => if r.sign then report c .warning "module does not publish; no signature written"
  print (a.sha256 ++ "  " ++ r.outputPath.text ++ "\n")

theorem archive_eq (c : Context) (r : ArchiveRequest) :
    archive c r = buildArchive c r >>= fun a => signArchive c r a >>= deliver c r a := rfl

theorem exists_finds_buildArchive {spec : ArchiveSpec} (c : Context)
    (hspec : ArchiveSpec.load s.tree r.spec = .ok spec)
    (ha : Archive.buildWith c.host.deflate s.tree r.compression spec = .ok a) :
    ∃ s', (buildArchive c r).Finds a s s' := (yields_buildArchive hspec ha).exists_finds

variable {p : Project} {e : ModuleEntry} {name : String}

/-- The signature for a module as the project file declares it. -/
def ownSignature (e : ModuleEntry) (name : String) (a : Archive) : Option Signature :=
  if e.plugins.contains publishingPlugin then
    some ⟨name ++ ".sha256", Digest.sha256Hex a.bytes ++ "  " ++ name ++ "\n"⟩
  else none

theorem exists_finds_signArchive (hproject : Project.load s.tree c.settings.project = .ok p)
    (he : e ∈ p.modules) (hsign : r.sign = true) (hmodule : r.module = some e.name)
    (hfile : r.outputPath.fileName? = some name) (hname : '\\' ∉ name.toList) (a : Archive) :
    ∃ s', (signArchive c r a).Finds (ownSignature e name a) s s' := by
  refine (yields_signArchive ?_).exists_finds
  unfold ownSignature
  split
  · next hplugin =>
    exact .signed hsign hfile (.published hmodule hproject he (by simpa using hplugin))
      (Signature.isPlainName_of_fileName? hfile hname)
  · next hplugin => exact .unpublished hsign hfile hmodule hproject he (by simpa using hplugin)

/-- Puts a signature beside the archive, if there is one. -/
def writeSignature (output : Path) (signature : Option Signature) (t : FileTree) :
    Except FileFault FileTree :=
  match signature with
  | some sg => t.writeFile (signaturePath output sg) (Bytes.ofText sg.contents)
  | none => .ok t

/-- What a run that delivers leaves: the tree after both writes, and one more line. -/
theorem exists_of_deliver {signature : Option Signature}
    (h : (deliver c r a signature).runOn s = (.ok (), s')) :
    ∃ t, (a.writeTo r.outputPath).runOn s.tree = (.ok (), t) ∧
      writeSignature r.outputPath signature t = .ok s'.tree ∧
      s'.output = s.output ++ (a.sha256 ++ "  " ++ r.outputPath.text ++ "\n") := by
  obtain ⟨_, s₁, hwrite, h⟩ := runOn_bind_eq_ok_iff.mp h
  obtain ⟨t, ht, rfl⟩ := runOn_change_eq_ok_iff.mp hwrite
  refine ⟨t, ht, ?_⟩
  cases signature with
  | some sg =>
    obtain ⟨_, s₂, hsigned, h⟩ := runOn_bind_eq_ok_iff.mp h
    obtain ⟨t', ht', rfl⟩ := runOn_change_eq_ok_iff.mp hsigned
    obtain ⟨htree, houtput⟩ := (yields_report c _ _ _).of_print rfl h
    rw [htree]
    exact ⟨Disk.runOn_change_eq_ok_iff.mp ht', houtput⟩
  | none =>
    have hlast : s'.tree = t ∧
        s'.output = s.output ++ (a.sha256 ++ "  " ++ r.outputPath.text ++ "\n") := by
      dsimp only at h
      split at h
      · exact (yields_report c _ _ t).of_print (s := { s with tree := t }) rfl h
      · cases h
        exact ⟨rfl, rfl⟩
    exact ⟨congrArg _ hlast.1.symm, hlast.2⟩

theorem tree_of_deliver {signature : Option Signature}
    (h : (deliver c r a signature).runOn s = (.ok (), s')) :
    ∃ t, (a.writeTo r.outputPath).runOn s.tree = (.ok (), t) ∧
      writeSignature r.outputPath signature t = .ok s'.tree := by
  obtain ⟨t, ht, hsigned, -⟩ := exists_of_deliver h
  exact ⟨t, ht, hsigned⟩

/-! ## Signing for a module -/

/-- An archive is signed for a module of the project exactly if the module's own entry has the
plugin for publishing. This agrees with the configured modules unless the plugin comes to the
module from the policy alone. -/
theorem archive_signs_iff_declared {spec : ArchiveSpec}
    (hproject : Project.load s.tree c.settings.project = .ok p) (he : e ∈ p.modules)
    (hspec : ArchiveSpec.load s.tree r.spec = .ok spec)
    (ha : Archive.buildWith c.host.deflate s.tree r.compression spec = .ok a)
    (hsign : r.sign = true) (hmodule : r.module = some e.name)
    (hfile : r.outputPath.fileName? = some name) (hname : '\\' ∉ name.toList) :
    (∃ s₁, s₁.tree = s.tree ∧
      (archive c r).runOn s = (deliver c r a (ownSignature e name a)).runOn s₁) ∧
    (∀ s', (archive c r).runOn s = (.ok (), s') →
      ∃ t, (a.writeTo r.outputPath).runOn s.tree = (.ok (), t) ∧
        writeSignature r.outputPath (ownSignature e name a) t = .ok s'.tree) ∧
    ∀ registry, p.configuredRegistry = .ok registry → ∃ m, registry.get? e.name = some m ∧
      (((ownSignature e name a).isSome ↔ m.hasPlugin publishingPlugin) ↔
        (publishingPlugin ∈ p.policy.plugins → publishingPlugin ∈ e.plugins)) := by
  obtain ⟨s₁, h₁⟩ := exists_finds_buildArchive c hspec ha
  obtain ⟨s₂, h₂⟩ := exists_finds_signArchive (h₁.2 ▸ hproject) he hsign hmodule hfile hname a
  have hrun : (archive c r).runOn s = (deliver c r a (ownSignature e name a)).runOn s₂ := by
    rw [archive_eq, h₁.runOn_bind, h₂.runOn_bind]
  have htree : s₂.tree = s.tree := h₂.2.trans h₁.2
  refine ⟨⟨s₂, htree, hrun⟩, fun s' h => ?_, fun registry hregistry => ?_⟩
  · rw [← htree]
    exact tree_of_deliver (hrun.symm.trans h)
  · obtain ⟨m, hm, hplugins⟩ :=
      Project.get?_configuredRegistry (Project.check_of_load hproject) he hregistry
    refine ⟨m, hm, ?_⟩
    rw [hplugins, Bool.or_eq_true, List.contains_iff_mem, List.contains_iff_mem, ownSignature]
    by_cases hown : publishingPlugin ∈ e.plugins <;> simp [hown]

/-- A project in which every module publishes by policy, and one by its own entry too. -/
def release : FileTree :=
  [("dist.yaml", "entries:\n  - { path: a.txt, text: a }\n"),
   ("forja.yaml", "modules:\n  - { name: core, dir: core }\n" ++
    "  - { name: app, dir: app, plugins: [publishing] }\npolicy:\n  plugins: [publishing]\n")].foldl
    (fun t file => t.place ⟨file.1⟩ (.file (Bytes.ofText file.2) false)) (.empty ["home"])

def ownPublisher : ModuleEntry := ⟨"app", ⟨"app"⟩, [publishingPlugin], ∅, none, [], []⟩

def releaseProject : Project :=
  { Project.empty with
    modules := [⟨"core", ⟨"core"⟩, [], ∅, none, [], []⟩, ownPublisher]
    policy := { PolicyBundle.default with plugins := [publishingPlugin] }
    root := ⟨"."⟩ }

def console : Host := ⟨∅, false, fun _ _ _ => .error .notFound, Gzip.stored⟩

def signingRequest (module : String) : ArchiveRequest :=
  ⟨⟨"dist.yaml"⟩, none, false, true, some module⟩

theorem archive_signs_for_app : ∃ a s₁, (ownSignature ownPublisher "dist.tar" a).isSome = true ∧
    (archive ⟨.standard, console⟩ (signingRequest "app")).runOn ⟨release, "", ""⟩ =
      (deliver ⟨.standard, console⟩ (signingRequest "app") a
        (ownSignature ownPublisher "dist.tar" a)).runOn s₁ := by
  have hproject : Project.load release standardProjectFile = .ok releaseProject :=
    Outcome.toOption_eq_some_iff.mp (by decide +kernel)
  have hbuilds : (ArchiveSpec.load release ⟨"dist.yaml"⟩ >>=
      Archive.buildWith Gzip.stored release .none).isOk = true := by decide +kernel
  obtain ⟨a, ha⟩ := Outcome.isOk_iff.mp hbuilds
  obtain ⟨spec, hspec, ha⟩ := Outcome.bind_eq_ok_iff.mp ha
  have hfile : (signingRequest "app").outputPath.fileName? = some "dist.tar" := by decide +kernel
  obtain ⟨⟨s₁, -, hrun⟩, -⟩ := archive_signs_iff_declared (c := ⟨.standard, console⟩)
    (s := ⟨release, "", ""⟩) (r := signingRequest "app") (e := ownPublisher) (a := a) hproject
    (List.mem_cons_of_mem _ List.mem_cons_self) hspec ha rfl rfl hfile (by decide)
  exact ⟨a, s₁, rfl, hrun⟩

/-- The module is listed with the plugin, and yet its archive is not signed. -/
theorem core_publishes_unsigned :
    (Project.load release standardProjectFile).toOption = some releaseProject ∧
    ((releaseProject.configuredRegistry.bind (·.require "core")).map
      (·.hasPlugin publishingPlugin)).toOption = some true ∧
    let outcome := CommandLine.run console
      ["archive", "dist.yaml", "--sign", "--module", "core"] release
    (outcome.code, (outcome.tree.entry? ["home", "dist.tar"]).isSome,
      outcome.tree.entry? ["home", "dist.tar.sha256"]) = (0, true, none) := by
  decide +kernel

end Command
end ModularBuild
