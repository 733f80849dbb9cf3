import ModularBuild.Data
import ModularBuild.FileTree

/-! Execution data: the samples that the test runs of modules leave behind. Which of the
declared files are there is asked anew each time. -/

namespace ModularBuild

def executionDataExtension : String := "exec"

/-- The declared place of one module's execution data. -/
structure ExecutionData where
  module : String
  path : Path
  deriving DecidableEq, Repr

def ExecutionData.hasDataExtension (d : ExecutionData) : Bool :=
  d.path.hasExtension executionDataExtension

def ExecutionData.isUsable (isThere : Path → Bool) (d : ExecutionData) : Bool :=
  d.hasDataExtension && isThere d.path

def ExecutionData.data (d : ExecutionData) : Data :=
  .object [("module", .text d.module), ("path", .text d.path.text)]

structure Dataset where
  candidates : List ExecutionData
  deriving DecidableEq, Repr

namespace Dataset

def push (s : Dataset) (d : ExecutionData) : Dataset := ⟨s.candidates ++ [d]⟩

def usable (s : Dataset) (isThere : Path → Bool) : List ExecutionData :=
  s.candidates.filter (·.isUsable isThere)

def files (s : Dataset) (t : FileTree) : List ExecutionData := s.usable t.isFile

def paths (s : Dataset) (t : FileTree) : List Path := (s.files t).map (·.path)

def hasDataFor (s : Dataset) (t : FileTree) (module : String) : Bool :=
  (s.files t).any (·.module == module)

end Dataset
end ModularBuild
