import ShellPrompt.Pipeline
import ShellPrompt.Template
import ShellPrompt.Text.Quoted

/-!
# ShellPrompt.Fields

Values by name for the prompt templates of a shell.

A value is a computation, run anew at each use. `format` fills the slots of a template and leaves
those without a value to the shell. `bindPipeline` adds one value per target of a pipeline, each
made from a snapshot that is gathered when it is used.
-/

namespace ShellPrompt

structure Fields (m : Type → Type) where
  values : Table (m String) := []

namespace Fields

variable {m : Type → Type}

def insert (fields : Fields m) (name : String) (value : m String) : Fields m :=
  ⟨Table.insert name value fields.values⟩

/-- A value that is the text of a fragment, or nothing. -/
def insertFragment [Monad m] (fields : Fields m) (name : String) (fragment : m (Option Fragment)) :
    Fields m :=
  fields.insert name do
    let f ← fragment
    return (f.map Fragment.text).getD ""

def get? (fields : Fields m) (name : String) : Option (m String) := Table.get? name fields.values

def contains (fields : Fields m) (name : String) : Bool := (fields.get? name).isSome

def names (fields : Fields m) : List String := Table.keys fields.values

def value? [Monad m] (fields : Fields m) (name : String) : m (Option String) :=
  match fields.get? name with
  | none => return none
  | some value => do return some (← value)

/-- Fills slots from left to right. What is filled in is not read again. -/
def expand [Monad m] (fields : Fields m) : List Template.Piece → m (List Char)
  | [] => return []
  | .char c :: rest => do return c :: (← expand fields rest)
  | .slot name :: rest =>
    match fields.get? (String.ofList name) with
    | none => do return Template.slot name ++ (← expand fields rest)
    | some value => do
      let text ← value
      return text.toList ++ (← expand fields rest)

def format [Monad m] (fields : Fields m) (template : String) : m String := do
  return String.ofList (← expand fields (Template.pieces template.toList))

def describe (fields : Fields m) : String :=
  let names := ", ".intercalate (fields.names.map Text.Quoted.quote)
  s!"PromptFields \x7b names: [{names}] \x7d"

/-! ## Lines of a pipeline -/

def nameOf : Target → String
  | .left => "prompt_left"
  | .right => "prompt_right"
  | .bottom => "prompt_bottom"

/-- The left line is always offered, the others where modules are configured for them. -/
def offers (p : Pipeline) (t : Target) : Bool := t == .left || p.isConfigured t

/-- The line of a target, empty where no snapshot can be had. -/
def line [Monad m] [MonadLiftT Render m] (p : Pipeline) (plan : Pipeline.Plan)
    (gather : m (Except PromptError Snapshot)) (t : Target) : m String := do
  match ← gather with
  | .error _ => return ""
  | .ok s => liftM (recover (p.renderLine (plan t) t s) fun _ => return "")

def bindPipeline [Monad m] [MonadLiftT Render m] (fields : Fields m) (p : Pipeline)
    (plan : Pipeline.Plan) (gather : m (Except PromptError Snapshot)) : Fields m :=
  (Target.all.filter (offers p)).foldl
    (fun fields t => fields.insert (nameOf t) (line p plan gather t)) fields

/-- The templates a shell installs. A target without one keeps what the shell has. -/
structure Templates where
  prompt : Option String := none
  rightPrompt : Option String := none
  bottomToolbar : Option String := none
deriving DecidableEq

namespace Templates

def template (t : Target) : String := String.ofList (Template.slot (nameOf t).toList)

/-- The templates for a pipeline, none if the shell keeps its own prompt. -/
def ofPipeline (p : Pipeline) (replace : Bool) : Templates :=
  let template? (t : Target) := if replace && offers p t then some (template t) else none
  { prompt := template? .left
    rightPrompt := template? .right
    bottomToolbar := template? .bottom }

end Templates
end Fields
end ShellPrompt
