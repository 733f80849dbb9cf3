import ModularBuild.Coverage.ClassSet
import ModularBuild.Flag.Resolver

/-! What a report is made from, and where it ends up. -/

namespace ModularBuild

inductive ReportFormat
  | html
  | xml
  deriving DecidableEq, Repr

namespace ReportFormat

def name : ReportFormat → String
  | html => "html"
  | xml => "xml"

/-- Under continuous integration a report is for machines, and otherwise for people. -/
def select (r : FlagResolver) : ReportFormat :=
  if r.resolve FlagResolver.continuousIntegration then xml else html

end ReportFormat

structure ReportRequest where
  executionData : List Path
  classes : ClassSet
  exclusions : ExclusionRules
  sourceDirs : List Path
  modules : List String
  skipped : List String
  format : ReportFormat
  outputDir : Path

structure ReportOutput where
  format : ReportFormat
  location : Path
  deriving DecidableEq, Repr

def Data.paths (paths : List Path) : Data := .texts (paths.map (·.text))

def ReportRequest.data (r : ReportRequest) : Data :=
  .object [("execution_data", .paths r.executionData), ("classes", r.classes.data),
    ("exclusions", .texts r.exclusions.patterns), ("source_dirs", .paths r.sourceDirs),
    ("modules", .texts r.modules), ("skipped", .texts r.skipped),
    ("format", .text r.format.name), ("output_dir", .text r.outputDir.text)]

def ReportOutput.data (o : ReportOutput) : Data :=
  .object [("format", .text o.format.name), ("location", .text o.location.text)]

end ModularBuild
