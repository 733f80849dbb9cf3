import ModularBuild.Coverage.Report
import ModularBuild.Data.Json

/-! A report request written down instead of a report, for dry runs and for other tools. -/

namespace ModularBuild.PlanReport

def fileName : Path := ⟨"coverage-plan.json"⟩

def location (r : ReportRequest) : Path := r.outputDir.join fileName

def generate (r : ReportRequest) : Disk FileFault ReportOutput := do
  FileTree.makeDirectories r.outputDir
  Disk.change (·.writeFile (location r) (Bytes.ofText r.data.json))
  return ⟨r.format, location r⟩

end ModularBuild.PlanReport
