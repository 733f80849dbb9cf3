import ModularBuild.Archive.Build
import ModularBuild.Archive.OctalMode
import ModularBuild.Command.Event
import ModularBuild.Coverage.Aggregation
import ModularBuild.Module.Registry

/-! The log events of the build steps. They are computed from what a step sees, so the steps
themselves know nothing of logging. -/

namespace ModularBuild.Journal

def library : String := "forja"

def loadedProject (path : Path) (modules : Nat) : Event :=
  ⟨.debug, [library, "project"], "loaded project",
    [("path", .plain path.text), ("modules", .number modules)]⟩

def propagated (p : Propagator) (m : Module) : Event :=
  let o := p.outcome m
  ⟨.debug, [library, "propagate"], "propagated policy",
    [("module", .quoted m.name), ("plugins_applied", .number o.pluginsApplied),
     ("settings_changed", .number o.settingsChanged),
     ("settings_skipped", .number o.settingsSkipped)]⟩

def sourceText : FlagSource → String
  | .property name => "Property(" ++ Text.quote name ++ ")"
  | .environment name => "Environment(" ++ Text.quote name ++ ")"
  | .default => "Default"

def resolvedFlag (r : Resolution) : Event :=
  ⟨.debug, [library, "toggle"], "resolved flag",
    [("flag", .quoted r.name), ("value", .plain (toString r.value)),
     ("source", .plain (sourceText r.source))]⟩

def builtinFlagsOnly (project : Path) : Event :=
  ⟨.debug, ["forjador", "handlers", "flags"], "no project file, using built-in flags",
    [("path", .plain project.text)]⟩

/-! ## Archives -/

def archives : List String := [library, "archive", "builder"]

/-- Warns of what a description asks for in vain. -/
def ignoredRequests (spec : ArchiveSpec) : List Event :=
  (if spec.timestamps = .preserve then
    [⟨.warn, archives, "timestamp preservation requested; entries use a fixed mtime", []⟩]
  else []) ++
  (if spec.permissions = .standard then []
  else
    [⟨.warn, archives,
      "custom permissions requested; using " ++ OctalMode.render ArchivePlan.fileMode ++ "/" ++
        OctalMode.render ArchivePlan.dirMode,
      [("file_mode", .plain (OctalMode.render spec.permissions.fileMode)),
       ("dir_mode", .plain (OctalMode.render spec.permissions.dirMode))]⟩])

def builtArchive (a : Archive) : Event :=
  ⟨.info, archives, "built reproducible archive",
    [("entries", .number a.entries.length), ("bytes", .number a.bytes.length),
     ("sha256", .plain a.sha256)]⟩

def notSigned (module artifact : String) : Event :=
  ⟨.debug, [library, "signing"], "module does not publish, not signing",
    [("module", .plain module), ("artifact", .plain artifact)]⟩

/-! ## Coverage -/

def skippedModule (module : String) : Event :=
  ⟨.debug, [library, "coverage", "aggregator"], "no coverage data or classes, skipping",
    [("module", .plain module)]⟩

def excludedClass (a : ClassArtifact) : Event :=
  ⟨.debug, [library, "coverage", "artifacts"], "excluded class from merge",
    [("module", .plain a.module), ("identity", .plain a.identity)]⟩

/-- The modules that are passed over, up to the first one that fails. -/
def skippedModules (t : FileTree) (present : List ExecutionData) : List ModuleCoverage → List Event
  | [] => []
  | c :: rest =>
    match Aggregation.checkClasses t present c with
    | .error _ => []
    | .ok () =>
      (if Aggregation.isSkipped t c then [skippedModule c.module] else []) ++
        skippedModules t present rest

/-- The classes that are left out, up to the first tree that cannot be walked. -/
def excludedClasses (t : FileTree) (rules : ExclusionRules) : List ClassTree → List Event
  | [] => []
  | tree :: rest =>
    match tree.walk t with
    | .error _ => []
    | .ok found =>
      (found.filter fun a => rules.excludes a.identity).map excludedClass ++
        excludedClasses t rules rest

def aggregated (r : ReportRequest) : Event :=
  ⟨.info, [library, "coverage", "aggregator"], "aggregated coverage",
    [("execution_data", .number r.executionData.length), ("classes", .number r.classes.size),
     ("excluded", .number r.classes.excluded.length), ("skipped", .number r.skipped.length),
     ("format", .plain r.format.name)]⟩

/-- All that an aggregation has to say, whether it succeeds or not. -/
def aggregation (t : FileTree) (g : Aggregation) : List Event :=
  let present := g.dataset.files t
  let skipped := skippedModules t present g.inputs
  match g.inputs.forM (Aggregation.checkClasses t present) with
  | .error _ => skipped
  | .ok () =>
    let included := g.inputs.filter fun c => !Aggregation.isSkipped t c
    let excluded := excludedClasses t g.exclusions (included.flatMap (Aggregation.treesOf t))
    let done := match g.aggregate t with
      | .ok r => [aggregated r]
      | .error _ => []
    skipped ++ excluded ++ done

def wrotePlan (o : ReportOutput) : Event :=
  ⟨.info, [library, "coverage", "generators"], "wrote coverage plan",
    [("path", .plain o.location.text)]⟩

def generatedReport (o : ReportOutput) : Event :=
  ⟨.info, [library, "coverage", "generators"], "generated coverage report",
    [("format", .plain o.format.name), ("path", .plain o.location.text)]⟩

end ModularBuild.Journal
