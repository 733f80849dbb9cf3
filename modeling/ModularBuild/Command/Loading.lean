import ModularBuild.Command.Journal
import ModularBuild.Command.Session
import ModularBuild.Project.Notation

/-! Loading the project of a command. -/

namespace ModularBuild.Command

def loadProject (c : Context) : Command Project := do
  let path := c.settings.project
  let p ← inspect fun t => Project.load t path
  log c (Journal.loadedProject path p.modules.length)
  return p

end ModularBuild.Command
