import ShellPrompt.Config
import ShellPrompt.Evaluation.Schedule
import ShellPrompt.Module.Builtin
import ShellPrompt.Observers

/-!
# ShellPrompt.Registry

Named modules in the order of their first registration, each with settings, and their evaluation.

`evaluate` gives one outcome for each requested name, in order. Names without a module and disabled
modules need no worker; of the others, what their workers report is settled: a fragment is stamped
with the registered name and takes on the settings of its module.
-/

namespace ShellPrompt

/-- What the configuration imposes on a module's output. -/
structure ModuleSettings where
  enabled : Bool := true
  style : Option String := none
  priority : Option Int32 := none
deriving DecidableEq

namespace ModuleSettings

/-- The settings of a module the configuration does not mention. -/
def standard : ModuleSettings := {}

def ofConfig (c : ModuleConfig) : ModuleSettings where
  enabled := c.enabled
  style := c.style
  priority := c.priority

/-- A fragment of the module of that name under these settings. -/
def stamp (settings : ModuleSettings) (name : String) (f : Fragment) : Fragment where
  text := f.text
  style := settings.style.or f.style
  priority := settings.priority.getD f.priority
  module := name

end ModuleSettings

inductive Outcome where
  | rendered (f : Fragment)
  | empty (module : String)
  | disabled (module : String)
  | unknown (module : String)
  | failed (failure : ModuleFailure)
deriving DecidableEq

namespace Outcome

def module : Outcome → String
  | .rendered f => f.module
  | .empty m => m
  | .disabled m => m
  | .unknown m => m
  | .failed failure => failure.module

def fragment? : Outcome → Option Fragment
  | .rendered f => some f
  | _ => none

def isFailure : Outcome → Bool
  | .failed _ => true
  | _ => false

def isTimeout : Outcome → Bool
  | .failed (.timedOut _ _) => true
  | _ => false

end Outcome

structure Registry where
  entries : List (Module × ModuleSettings) := []

namespace Registry

def empty : Registry := {}

def names (r : Registry) : List String := r.entries.map fun e => e.1.name

def find? (r : Registry) (name : String) : Option (Module × ModuleSettings) :=
  r.entries.find? fun e => e.1.name == name

def contains (r : Registry) (name : String) : Bool := (r.find? name).isSome

def settings? (r : Registry) (name : String) : Option ModuleSettings := (r.find? name).map Prod.snd

def size (r : Registry) : Nat := r.entries.length

def isEmpty (r : Registry) : Bool := r.entries.isEmpty

def modifyFirst (name : String) (f : Module × ModuleSettings → Module × ModuleSettings) :
    List (Module × ModuleSettings) → List (Module × ModuleSettings)
  | [] => []
  | e :: rest => if e.1.name = name then f e :: rest else e :: modifyFirst name f rest

/-- Appends a module, or puts it in place of the one of the same name. -/
def register (r : Registry) (m : Module) : Registry :=
  if r.contains m.name then ⟨modifyFirst m.name (fun e => (m, e.2)) r.entries⟩
  else ⟨r.entries ++ [(m, .standard)]⟩

/-- Takes the settings of a configuration for the modules it names. -/
def configure (r : Registry) (c : Config) : Registry :=
  ⟨r.entries.map fun e =>
    match c.module? e.1.name with
    | some m => (e.1, .ofConfig m)
    | none => e⟩

def setSettings? (r : Registry) (name : String) (settings : ModuleSettings) : Option Registry :=
  if r.contains name then some ⟨modifyFirst name (fun e => (e.1, settings)) r.entries⟩ else none

def withBuiltins (c : Config) : Registry :=
  ((Module.builtin c).foldl register empty).configure c

/-! ## Evaluation -/

inductive Slot where
  | unknown (name : String)
  | disabled (name : String)
  | runnable (module : Module) (settings : ModuleSettings)

def slot (r : Registry) (name : String) : Slot :=
  match r.find? name with
  | none => .unknown name
  | some (m, settings) => if settings.enabled then .runnable m settings else .disabled name

def jobs (s : Snapshot) (slots : List Slot) : List Evaluation.Job :=
  slots.filterMap fun
    | .runnable m _ => some ⟨m.name, m.run s⟩
    | _ => none

def logTarget : String := "prompt::registry"

def unknownEvent (name : String) : Log.Event :=
  Log.Event.make .warn logTarget "module_unknown" [("module", .string name)]

def failedEvent (name : String) (failure : ModuleFailure) : Log.Event :=
  Log.Event.make .warn logTarget "module_failed"
    [("module", .string name), ("error", .string failure.message)]

def logUnknown : List Slot → Watch Unit
  | [] => pure ()
  | .unknown name :: rest => do
    log (unknownEvent name)
    logUnknown rest
  | _ :: rest => logUnknown rest

def settled (name : String) (settings : ModuleSettings) : ModuleResult → Outcome
  | .ok (some f) => if f.text.isEmpty then .empty name else .rendered (settings.stamp name f)
  | .ok none => .empty name
  | .error failure => .failed failure

def settle (name : String) (settings : ModuleSettings) (result : ModuleResult) : Watch Outcome := do
  match result with
  | .error failure => log (failedEvent name failure)
  | .ok _ => pure ()
  return settled name settings result

/-- Outcomes of slots, results going to the runnable ones in order. -/
def outcomes : List Slot → List ModuleResult → Watch (List Outcome)
  | [], _ => return []
  | .unknown name :: rest, results => return .unknown name :: (← outcomes rest results)
  | .disabled name :: rest, results => return .disabled name :: (← outcomes rest results)
  | .runnable _ _ :: rest, [] => outcomes rest []
  | .runnable m settings :: rest, result :: results => do
    let first ← settle m.name settings result
    return first :: (← outcomes rest results)

/-- Evaluates modules by name under a token and a schedule; the token is returned as it stands
afterwards. -/
def evaluate (r : Registry) (scheduler : Evaluation.Scheduler) (names : List String) (s : Snapshot)
    (o : Evaluation.Options) (token : Token) : Render (List Outcome × Token) := do
  let slots := names.map r.slot
  logUnknown slots
  let work := jobs s slots
  match Evaluation.evaluate o work token (scheduler o work) with
  | (none, _) => throw .waits
  | (some .cancelled, _) => throw (.error .cancelled)
  | (some (.crashed c), _) => throw (.crash c)
  | (some (.results results), token) =>
    let found ← outcomes slots results
    return (found, token)

def evaluateAll (r : Registry) (scheduler : Evaluation.Scheduler) (s : Snapshot)
    (o : Evaluation.Options) (token : Token) : Render (List Outcome × Token) :=
  r.evaluate scheduler r.names s o token

/-- The fragments of all modules under default options, none if the evaluation is cancelled. -/
def renderAll (r : Registry) (scheduler : Evaluation.Scheduler) (s : Snapshot) :
    Render (List Fragment) :=
  recover
    (do
      let (found, _) ← r.evaluateAll scheduler s {} .own
      return found.filterMap Outcome.fragment?)
    fun _ => return []

end Registry
end ShellPrompt
