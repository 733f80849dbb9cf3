import ModularBuild.Coverage.ExecutionData
import ModularBuild.Coverage.Report

/-! The coverage of all modules brought together into one report request. A module without
classes is passed over, unless it has execution data: data that no class can explain is an
error. -/

namespace ModularBuild

/-- What one module contributes to a report. -/
structure ModuleCoverage where
  module : String
  executionData : Option Path
  classDirs : List Path
  sourceDirs : List Path
  deriving DecidableEq, Repr

namespace ModuleCoverage

def standardExecutionData : Path := ⟨"build/jacoco/test.exec"⟩
def standardClassDir : Path := ⟨"build/classes/java/main"⟩
def standardSourceDir : Path := ⟨"src/main/java"⟩

/-- The places that are conventional for a module in a directory. -/
def conventional (module : String) (dir : Path) : ModuleCoverage where
  module
  executionData := some (dir.join standardExecutionData)
  classDirs := [dir.join standardClassDir]
  sourceDirs := [dir.join standardSourceDir]

def data (c : ModuleCoverage) : Data :=
  .object [("module", .text c.module), ("execution_data", .ofOption (c.executionData.map (·.text))),
    ("class_dirs", .paths c.classDirs), ("source_dirs", .paths c.sourceDirs)]

end ModuleCoverage

def standardReportDir : Path := ⟨"build/reports/jacoco"⟩

structure Aggregation where
  inputs : List ModuleCoverage
  exclusions : ExclusionRules
  format : ReportFormat
  outputDir : Path

namespace Aggregation

/-- The execution data that is declared. -/
def dataset (g : Aggregation) : Dataset :=
  ⟨g.inputs.filterMap fun c => c.executionData.map fun path => ⟨c.module, path⟩⟩

/-- Whether one of the files was written by the module. -/
def hasData (present : List ExecutionData) (c : ModuleCoverage) : Bool :=
  present.any (·.module == c.module)

def existingClassDirs (t : FileTree) (c : ModuleCoverage) : List Path :=
  c.classDirs.filter t.isDirectory

/-- A module with data needs all the class trees that it declares, and at least one. -/
def checkClasses (t : FileTree) (present : List ExecutionData) (c : ModuleCoverage) :
    Except BuildError Unit :=
  if !hasData present c then .ok ()
  else if (existingClassDirs t c).isEmpty then .error (.missingClassArtifacts c.module)
  else
    match c.classDirs.find? fun dir => !t.isDirectory dir with
    | some dir => .error (.missingClassTree c.module dir)
    | none => .ok ()

/-- A module without classes is left out. -/
def isSkipped (t : FileTree) (c : ModuleCoverage) : Bool := (existingClassDirs t c).isEmpty

def treesOf (t : FileTree) (c : ModuleCoverage) : List ClassTree :=
  (existingClassDirs t c).map fun dir => ⟨c.module, dir⟩

/-- What the inputs that have been looked at give to a request. -/
structure Gathering where
  trees : List ClassTree
  sourceDirs : List Path
  modules : List String
  skipped : List String

def Gathering.empty : Gathering := ⟨[], [], [], []⟩

/-- Looks at one more input. -/
def Gathering.visit (t : FileTree) (present : List ExecutionData) (s : Gathering)
    (c : ModuleCoverage) : Except BuildError Gathering :=
  match checkClasses t present c with
  | .error e => .error e
  | .ok () =>
    if isSkipped t c then .ok { s with skipped := s.skipped ++ [c.module] }
    else .ok { s with
      trees := s.trees ++ treesOf t c
      sourceDirs := s.sourceDirs ++ c.sourceDirs.filter t.isDirectory
      modules := s.modules ++ [c.module] }

def gather (t : FileTree) (present : List ExecutionData) (inputs : List ModuleCoverage) :
    Except BuildError Gathering := inputs.foldlM (Gathering.visit t present) .empty

def aggregate (t : FileTree) (g : Aggregation) : Except BuildError ReportRequest := do
  let present := g.dataset.files t
  let s ← gather t present g.inputs
  let classes ← ClassSet.merge t s.trees g.exclusions
  return {
    executionData := present.map (·.path)
    classes
    exclusions := g.exclusions
    sourceDirs := s.sourceDirs
    modules := s.modules
    skipped := s.skipped
    format := g.format
    outputDir := g.outputDir }

end Aggregation
end ModularBuild
