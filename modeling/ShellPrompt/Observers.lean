import ShellPrompt.Log.Sink
import ShellPrompt.Metrics
import ShellPrompt.Snapshot

/-!
# ShellPrompt.Observers

Who watches a render: a logger, an audit trail and counters, each of which may be missing. The
trail holds checkpoints of the render, each with structured details in the order they were given.

`Watch` computations talk to the observers. A `Render` may also end without a value (`Halt`); what
was recorded until then stays recorded.
-/

namespace ShellPrompt

namespace Audit

inductive Stage where
  | renderStarted
  /-- A module yielded a fragment. -/
  | moduleRendered
  /-- A module yielded nothing, was disabled, or is not registered. -/
  | moduleSkipped
  /-- A module failed, panicked, or ran out of time. -/
  | moduleFailed
  | layoutComposed
  | renderCommitted
  | renderCancelled
deriving DecidableEq

structure Event where
  stage : Stage
  details : List (String × Json.Value) := []

def Event.detail? (e : Event) (key : String) : Option Json.Value := e.details.lookup key

end Audit

structure Observers where
  logger : Option Log.Logger := none
  audit : Option (List Audit.Event) := none
  metrics : Option Metrics := none
  clock : Nat := 0

namespace Observers

def log (o : Observers) (e : Log.Event) : Observers :=
  { o with logger := o.logger.map (·.log { e with tsMs := o.clock }) }

def record (o : Observers) (e : Audit.Event) : Observers :=
  { o with audit := o.audit.map (· ++ [e]) }

def count (o : Observers) (f : Metrics → Metrics) : Observers :=
  { o with metrics := o.metrics.map f }

end Observers

abbrev Watch := StateM Observers

abbrev Render := ExceptT Halt Watch

def checked {α : Type} : Except PromptError α → Render α
  | .ok a => return a
  | .error e => throw (.error e)

/-- Goes on after a reported error. A crash is none, and neither is waiting. -/
def recover {α : Type} (render : Render α) (f : PromptError → Render α) : Render α :=
  tryCatch render fun
    | .error e => f e
    | halt => throw halt

def log (e : Log.Event) : Watch Unit := modify (·.log e)

def audit (stage : Audit.Stage) (details : List (String × Json.Value)) : Watch Unit :=
  modify (·.record ⟨stage, details⟩)

def count (f : Metrics → Metrics) : Watch Unit := modify (·.count f)

end ShellPrompt
