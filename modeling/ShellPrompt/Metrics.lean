import ShellPrompt.Log.Event

/-!
# ShellPrompt.Metrics

Counters over the renders of a prompt. A counter never wraps: it stays at the largest number of 64
bits once it got there.
-/

namespace ShellPrompt

/-- A count of at most 64 bits. -/
structure Counter where
  value : Nat := 0
  value_le : value ≤ 0xFFFFFFFFFFFFFFFF := by omega
deriving DecidableEq

namespace Counter

def zero : Counter := {}

def max : Nat := 0xFFFFFFFFFFFFFFFF

/-- Adds as far as the counter goes. -/
def add (c : Counter) (n : Nat) : Counter where
  value := min (c.value + n) max
  value_le := Nat.min_le_right _ _

@[simp] theorem value_add (c : Counter) (n : Nat) : (c.add n).value = min (c.value + n) max := rfl

end Counter

structure Metrics where
  renders : Counter := .zero
  cancelled : Counter := .zero
  modulesRendered : Counter := .zero
  moduleFailures : Counter := .zero
  moduleTimeouts : Counter := .zero
  fragmentsDropped : Counter := .zero
  overflowLines : Counter := .zero
deriving DecidableEq

namespace Metrics

def recordRender (m : Metrics) : Metrics := { m with renders := m.renders.add 1 }

def recordCancelled (m : Metrics) : Metrics := { m with cancelled := m.cancelled.add 1 }

def recordModules (m : Metrics) (rendered failed timedOut : Nat) : Metrics :=
  { m with
    modulesRendered := m.modulesRendered.add rendered
    moduleFailures := m.moduleFailures.add failed
    moduleTimeouts := m.moduleTimeouts.add timedOut }

def recordLayout (m : Metrics) (dropped : Nat) (overflow : Bool) : Metrics :=
  { m with
    fragmentsDropped := m.fragmentsDropped.add dropped
    overflowLines := if overflow then m.overflowLines.add 1 else m.overflowLines }

def counts (m : Metrics) : List (String × Nat) := [
  ("renders", m.renders.value),
  ("cancelled", m.cancelled.value),
  ("modules_rendered", m.modulesRendered.value),
  ("module_failures", m.moduleFailures.value),
  ("module_timeouts", m.moduleTimeouts.value),
  ("fragments_dropped", m.fragmentsDropped.value),
  ("overflow_lines", m.overflowLines.value)]

def toEvent (m : Metrics) (target : String) : Log.Event :=
  Log.Event.make .info target "render_metrics" (m.counts.map fun c => (c.1, .nat c.2))

end Metrics
end ShellPrompt
