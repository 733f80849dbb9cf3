import ModularBuild.Error
import ModularBuild.Text.Lines

/-! Which classes are left out of a report. -/

namespace ModularBuild

/-- The descriptor that each modular module compiles to under the same name. -/
def moduleDescriptor : String := "module-info.class"

structure ExclusionRules where
  globs : List Glob
  deriving DecidableEq, Repr

namespace ExclusionRules

def excludeNothing : ExclusionRules := ⟨[]⟩

def ofPatterns (patterns : List String) : Except BuildError ExclusionRules := do
  return ⟨← patterns.mapM fun p => (Glob.parse p).mapError .pattern⟩

/-- Leaves out module descriptors. -/
def standard : ExclusionRules :=
  match ofPatterns [Glob.escape moduleDescriptor] with
  | .ok rules => rules
  | .error _ => excludeNothing

def patterns (r : ExclusionRules) : List String := r.globs.map (·.source)

/-- What follows the last slash. -/
def baseName (identity : String) : String :=
  String.ofList (identity.toList.reverse.takeWhile (· != '/')).reverse

/-- A pattern may fit the whole identity or the file name in it. -/
def excludes (r : ExclusionRules) (identity : String) : Bool :=
  r.globs.any fun g => g.accepts identity || g.accepts (baseName identity)

end ExclusionRules
end ModularBuild
