import ModularBuild.Policy.Propagation

/-! The ways in which a module can change after it has been made. -/

namespace ModularBuild

inductive Change
  | plugin (name : String)
  | override (key value : String)
  | policy (p : Propagator)
  deriving DecidableEq

namespace Module

def perform (m : Module) : Change → Module
  | .plugin name => m.applyPlugin name
  | .override key value => m.setOverride key value
  | .policy p => p.propagate m

def performAll (m : Module) (changes : List Change) : Module := changes.foldl perform m

/-! ## The name stays -/

@[simp] theorem name_perform (m : Module) (c : Change) : (m.perform c).name = m.name := by
  cases c with
  | plugin name => rfl
  | override key value => rfl
  | policy p => exact p.name_propagate m

@[simp] theorem name_performAll (m : Module) (changes : List Change) :
    (m.performAll changes).name = m.name := by
  induction changes generalizing m with
  | nil => rfl
  | cons c rest ih => exact (ih (m.perform c)).trans (by simp)

end Module
end ModularBuild
