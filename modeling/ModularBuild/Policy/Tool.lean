import ModularBuild.Error
import ModularBuild.Text.Blank

/-! The quality and coverage tools whose versions a policy can pin. -/

namespace ModularBuild

inductive Tool
  | checkstyle
  | spotbugs
  | jacoco
  deriving DecidableEq, Repr

namespace Tool

/-- In the order in which pinned versions are checked and propagated. -/
def all : List Tool := [checkstyle, spotbugs, jacoco]

def name : Tool → String
  | checkstyle => "checkstyle"
  | spotbugs => "spotbugs"
  | jacoco => "jacoco"

/-- The plugin without which a module has no use for the tool. -/
def requiredPlugin? : Tool → Option String
  | jacoco => some "jacoco"
  | checkstyle | spotbugs => none

def settingKey (tool : Tool) : String := "toolchain." ++ tool.name

def named : List (String × Tool) := all.map fun tool => (tool.name, tool)

/-- Reads a tool name in any letter case. -/
def ofName (raw : String) : Except BuildError Tool :=
  let name := Text.lowerAscii raw
  match named.lookup name with
  | some tool => .ok tool
  | none => .error (.unknownTool name)

end Tool

/-- One value for each tool. -/
structure PerTool (α : Type) where
  checkstyle : α
  spotbugs : α
  jacoco : α
  deriving DecidableEq, Repr

namespace PerTool

variable {α β : Type}

def const (a : α) : PerTool α := ⟨a, a, a⟩

def get (p : PerTool α) : Tool → α
  | .checkstyle => p.checkstyle
  | .spotbugs => p.spotbugs
  | .jacoco => p.jacoco

def set (p : PerTool α) (tool : Tool) (a : α) : PerTool α :=
  match tool with
  | .checkstyle => { p with checkstyle := a }
  | .spotbugs => { p with spotbugs := a }
  | .jacoco => { p with jacoco := a }

theorem get_set (p : PerTool α) (tool other : Tool) (a : α) :
    (p.set tool a).get other = if other = tool then a else p.get other := by
  cases tool <;> cases other <;> rfl

/-- The tools that have a value, in their order. -/
def present (p : PerTool (Option α)) : List (Tool × α) :=
  Tool.all.filterMap fun tool => (p.get tool).map fun a => (tool, a)

end PerTool
end ModularBuild
