import ShellPrompt.Config
import ShellPrompt.Disk
import ShellPrompt.Json.Expecting
import ShellPrompt.Observers

/-!
# ShellPrompt.Config.Reading

Configurations from JSON text and from files. Every field has a default, unknown keys are passed
over, and options keep whatever value they have.

* `parse`: the configuration a text holds.
* `load`: the configuration in what was found at a path.
* `loadOrDefault`: the configuration at a path, or the standard one. A failure to load is logged and
  goes no further.
-/

namespace ShellPrompt

inductive ConfigError where
  | missingPath (path : Path)
  | read (e : FileError)
  | parse (problem : Json.Problem) (place : Json.Place)

namespace ConfigError

def message : ConfigError → String
  | .missingPath p => s!"config path does not exist: {p.display}"
  | .read e => s!"failed to read config: {e.message}"
  | .parse problem place =>
    s!"failed to parse config: {problem.message} at line {place.line} column {place.column}"

end ConfigError

namespace Config

open Json

/-- A field that is set to what its reader returns. -/
def field {α β : Type} (name : String) (read : Nat → Reader β) (set : α → β → α) :
    RecordField α where
  name := name
  read := fun depth a text => (read depth text).map fun p => (set a p.1, p.2)

def moduleFields : List (RecordField ModuleConfig) := [
  field "enabled" (fun _ => expectBool) fun c v => { c with enabled := v },
  field "style" (fun _ => expectOption expectString) fun c v => { c with style := v },
  field "priority" (fun _ => expectOption expectInt32) fun c v => { c with priority := v },
  field "options" (expectTable Json.value) fun c v => { c with options := v }]

def readModule : Nat → Reader ModuleConfig := expectRecord "ModuleConfig" moduleFields {}

def dialects : List (String × Style.Dialect) := Style.Dialect.all.map fun d => (d.name, d)

def targets : List (String × Target) := Target.all.map fun t => (t.name, t)

def fields : List (RecordField Config) := [
  field "left" expectStrings fun c v => { c with left := v },
  field "right" expectStrings fun c v => { c with right := v },
  field "bottom" expectStrings fun c v => { c with bottom := v },
  field "separator" (fun _ => expectString) fun c v => { c with separator := v },
  field "dialect" (expectName dialects) fun c v => { c with dialect := v },
  field "parallel" (fun _ => expectBool) fun c v => { c with parallel := v },
  field "module_timeout_ms" (fun _ => expectUInt64) fun c v => { c with moduleTimeoutMs := v },
  field "styles" (expectTable fun _ => expectString) fun c v => { c with styles := v },
  field "modules" (expectTable readModule) fun c v => { c with modules := v }]

def readConfig : Reader Config := expectRecord "PromptConfig" fields {} maxDepth

def parse (raw : String) : Except ConfigError Config :=
  match whole readConfig raw.toList with
  | .ok c => .ok c
  | .error e => .error (.parse e.problem (e.place raw.toList))

def parseDialect (raw : String) : Except ReadError Style.Dialect :=
  whole (expectName dialects maxDepth) raw.toList

def parseTarget (raw : String) : Except ReadError Target :=
  whole (expectName targets maxDepth) raw.toList

/-! ## Loading -/

def load (path : Path) : Found → Except ConfigError Config
  | .missing => .error (.missingPath path)
  | .unreadable e => .error (.read e)
  | .content bytes =>
    match Text.Utf8.decode? bytes with
    | none => .error (.read .notText)
    | some chars => parse (String.ofList chars)

def logTarget : String := "prompt::config"

/-- What is logged about a path without a configuration: a missing file is worth a warning, one
that cannot be used is an error. -/
def loadEvent (path : Path) (e : ConfigError) : Log.Event :=
  let fields := [("path", .string path.display), ("error", .string e.message)]
  match e with
  | .missingPath _ => Log.Event.make .warn logTarget "config_path_missing" fields
  | _ => Log.Event.make .error logTarget "config_parse_failed" fields

/-- `read` says what is found at a path. -/
def loadOrDefault (read : Path → Found) : Option Path → Watch Config
  | none => return {}
  | some path => do
    match load path (read path) with
    | .ok c => return c
    | .error e =>
      log (loadEvent path e)
      return {}

end Config
end ShellPrompt
