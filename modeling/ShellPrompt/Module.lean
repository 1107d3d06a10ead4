import ShellPrompt.Fragment
import ShellPrompt.Snapshot

/-!
# ShellPrompt.Module

A module derives at most one fragment from a snapshot. What it does while it runs is data: how its
run ends, and whether it tries to cancel the render it runs in.
-/

namespace ShellPrompt

inductive Ending where
  | returns (result : ModuleResult)
  | panics
  /-- It does not answer. -/
  | stalls

structure Run where
  ending : Ending
  /-- The token of the render the module runs in is set before the run ends, if it can be. -/
  cancels : Bool := false

structure Module where
  name : String
  run : Snapshot → Run

namespace Module

/-- A module that answers at once, with a fragment or nothing. -/
def ofFragment (name : String) (render : Snapshot → Option Fragment) : Module where
  name := name
  run := fun s => { ending := .returns (.ok (render s)) }

end Module
end ShellPrompt
