import ModularBuild.Coverage.Report
import ModularBuild.Host.Program
import ModularBuild.Text.Blank
import ModularBuild.Text.Lines
import ModularBuild.Text.Lossy

/-! The report of the JaCoCo command line. It takes directories of classes and cannot leave
single files out, so the merged classes are first staged into a directory of their own. -/

namespace ModularBuild

structure Jacoco where
  java : Path
  cliJar : Path
  deriving DecidableEq, Repr

/-- How far a report got: the classes that were staged, the result, and the file tree. -/
structure JacocoRun where
  staged : List ClassArtifact
  result : Except BuildError ReportOutput
  tree : FileTree

namespace Jacoco

def standardJava : Path := ⟨"java"⟩

def stagingDir (r : ReportRequest) : Path := r.outputDir.join ⟨"classes"⟩

def reportLocation (r : ReportRequest) : Path :=
  match r.format with
  | .html => r.outputDir.join ⟨"html"⟩
  | .xml => r.outputDir.join ⟨"jacoco.xml"⟩

/-- What follows the program on the command line. -/
def arguments (j : Jacoco) (r : ReportRequest) : List String :=
  ["-jar", j.cliJar.text, "report"] ++ r.executionData.map (·.text) ++
  ["--classfiles", (stagingDir r).text] ++
  r.sourceDirs.flatMap (fun dir => ["--sourcefiles", dir.text]) ++
  ["--" ++ r.format.name, (reportLocation r).text]

/-- Removes what an earlier run staged. -/
def clearStaging (r : ReportRequest) (t : FileTree) : Except FileFault FileTree :=
  if t.pathExists (stagingDir r) then t.removeDirectory (stagingDir r) else .ok t

/-- The first line of an output that says something. -/
def firstLine? (output : Bytes) : Option String :=
  (Text.lines (Text.lossy output)).find? fun line => !Text.allBlank line

def runReport (j : Jacoco) (launch : Launcher) (r : ReportRequest) (t : FileTree) :
    Except BuildError ReportOutput × FileTree :=
  match launch j.java (j.arguments r) t with
  | .error fault => (.error (.reportGeneration (.cannotRun j.java fault)), t)
  | .ok run =>
    if run.status = .code 0 then (.ok ⟨r.format, reportLocation r⟩, run.tree)
    else
      let failure := ReportFailure.exited run.status.text (firstLine? run.errorOutput)
      (.error (.reportGeneration failure), run.tree)

def generate (j : Jacoco) (launch : Launcher) (r : ReportRequest) (t : FileTree) : JacocoRun :=
  match clearStaging r t with
  | .error fault => ⟨[], .error (.system fault), t⟩
  | .ok t =>
    let s := r.classes.stage (stagingDir r) t
    match s.fault with
    | some fault => ⟨s.staged, .error (.system fault), s.tree⟩
    | none =>
      let (result, t) := j.runReport launch r s.tree
      ⟨s.staged, result, t⟩

end Jacoco
end ModularBuild
