import ModularBuild.Command.Loading
import ModularBuild.Command.Progress
import ModularBuild.Coverage.Jacoco
import ModularBuild.Coverage.PlanReport

/-! The command that makes one report of the coverage of all modules. -/

namespace ModularBuild

structure CoverageRequest where
  output : Path
  jacocoCli : Option Path
  java : Path
  dryRun : Bool
  format : Option ReportFormat
  deriving DecidableEq, Repr

namespace Command

/-- The format that is asked for, or else the one that the flags select. -/
def reportFormat (c : Context) (p : Project) (r : CoverageRequest) : Command ReportFormat := do
  match r.format with
  | some format => return format
  | none =>
    let resolver := c.settings.resolver c.host.environment p
    log c (Journal.resolvedFlag (resolver.explain FlagResolver.continuousIntegration))
    return ReportFormat.select resolver

def planReport (c : Context) (request : ReportRequest) : Command ReportOutput := do
  let output ← change (PlanReport.generate request)
  log c (Journal.wrotePlan output)
  return output

/-- Makes the report, and says how many classes were staged also if that fails. -/
def jacocoReport (c : Context) (j : Jacoco) (request : ReportRequest) : Command ReportOutput := do
  let run := j.generate c.host.launch request (← get).tree
  setTree run.tree
  match run.result with
  | .ok output => log c (Journal.generatedReport output)
  | .error _ => pure ()
  let total := request.classes.size
  let bar := Progress.start c.settings.verbosity.isQuiet total none
  let bar := run.staged.foldl (fun bar _ => bar.step) bar
  match bar.stagingSummary total with
  | some summary => report c .info summary
  | none => pure ()
  check run.result

def coverage (c : Context) (r : CoverageRequest) : Command Unit := do
  let p ← loadProject c
  let format ← reportFormat c p r
  let exclusions ← check p.exclusions
  let g : Aggregation := ⟨p.coverageInputs, exclusions, format, r.output⟩
  logAll c (Journal.aggregation (← get).tree g)
  let request ← inspect fun t => g.aggregate t
  let output ← match r.jacocoCli with
    | some jar =>
      if r.dryRun then planReport c request else jacocoReport c ⟨r.java, jar⟩ request
    | none => planReport c request
  request.skipped.forM fun module =>
    report c .info (module ++ ": no coverage data or classes, skipped")
  report c .success (output.format.name ++ " coverage for " ++ toString request.modules.length ++
    " module(s) (" ++ toString request.classes.size ++ " classes): " ++ output.location.text)

end Command
end ModularBuild
