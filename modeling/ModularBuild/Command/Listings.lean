import ModularBuild.Command.Loading
import ModularBuild.Flag.Listing
import ModularBuild.Module.Listing
import ModularBuild.Notice

/-! The commands that only look: the modules, the flags, and the year of a notice. -/

namespace ModularBuild.Command

/-- Lists the modules with the policy applied. -/
def modules (c : Context) (format : ListingFormat) : Command Unit := do
  let p ← loadProject c
  let policy ← check p.propagator
  let registry ← check p.registry
  logAll c (registry.modules.map (Journal.propagated policy))
  print (renderModules format (registry.propagateAll policy).modules)

/-- Lists the resolved flags. Without a project there are still the built-in ones. -/
def flags (c : Context) (format : ListingFormat) : Command Unit := do
  let p ←
    if (← get).tree.pathExists c.settings.project then loadProject c
    else do
      log c (Journal.builtinFlagsOnly c.settings.project)
      pure Project.empty
  print (renderFlags format (c.settings.resolver c.host.environment p).resolveAll)

/-- The file that is named, or else the one that the project declares. -/
def noticePath (c : Context) (file : Option Path) : Command Path := do
  match file with
  | some path => return path
  | none =>
    match (← loadProject c).noticePath with
    | some path => return path
    | none => throw (.noNotice c.settings.project)

/-- Prints the year of the last edit. -/
def notice (c : Context) (file : Option Path) : Command Unit := do
  let path ← noticePath c file
  let year ← inspect fun t => Notice.readLastYear t path
  print (toString year ++ "\n")

end ModularBuild.Command
