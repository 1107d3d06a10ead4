import ShellPrompt.Layout
import ShellPrompt.Registry

/-!
# ShellPrompt.Pipeline

Snapshot to modules to layout to styles, once per target.

A pipeline is fixed when it is built. Rendering reads a snapshot, runs each configured target under
a schedule of its own and hands the token of the render from one target to the next.

* `composeTarget`, `composeLayout`: evaluated and fitted lines, not yet styled.
* `renderWithCancel`: the whole prompt under a token; `render` makes its own.
* `renderOrEmpty`: an error becomes an empty prompt.
* `renderLine`: one target alone.
-/

namespace ShellPrompt

/-- Finished lines. A target for which no module is configured has none. -/
structure Output where
  left : String := ""
  right : Option String := none
  bottom : Option String := none
deriving DecidableEq

namespace Output

def line (o : Output) : Target → String
  | .left => o.left
  | .right => o.right.getD ""
  | .bottom => o.bottom.getD ""

end Output

structure Pipeline where
  config : Config
  registry : Registry
  sheet : Style.Sheet
  digest : String

namespace Pipeline

abbrev Plan := Target → Evaluation.Scheduler

/-- Modules that answer well within their budget or not at all. -/
def eager : Plan := fun _ => Evaluation.eager

def styleEvent (e : Style.StyleError) : Log.Event :=
  Log.Event.make .error "prompt::config" "style_invalid" [("error", .string e.message)]

/-- The pipeline of a configuration over the given modules or the built-in ones. Styles that cannot
be read are logged and left out. -/
def build (config : Config) (registry : Option Registry) : Render Pipeline := do
  match Style.Sheet.withOverrides config.styles with
  | .error c => throw (.crash c)
  | .ok (sheet, errors) =>
    errors.forM fun e => log (styleEvent e)
    return {
      config := config
      registry := (registry.getD (.withBuiltins config)).configure config
      sheet := sheet
      digest := config.digest }

def resolver (p : Pipeline) : Style.Resolver := ⟨p.sheet, p.config.dialect⟩

def options (p : Pipeline) : Evaluation.Options where
  parallel := p.config.parallel
  budget := p.config.budget.map Evaluation.Span.ofMillis

def isConfigured (p : Pipeline) (t : Target) : Bool := !(p.config.modulesFor t).isEmpty

/-! ## What is recorded -/

def event (level : Log.Level) (message : String) (fields : List (String × Json.Value)) :
    Log.Event :=
  Log.Event.make level "prompt::render" message fields

def stageOf : Outcome → Audit.Stage
  | .rendered _ => .moduleRendered
  | .failed _ => .moduleFailed
  | _ => .moduleSkipped

def recordOutcomes (found : List Outcome) : Watch Unit := do
  found.forM fun o => audit (stageOf o) [("module", .string o.module)]
  count (·.recordModules
    (found.countP fun o => o.fragment?.isSome)
    (found.countP fun o => o.isFailure && !o.isTimeout)
    (found.countP Outcome.isTimeout))

def recordLine (t : Target) (line : Layout.Line) : Watch Unit := do
  audit .layoutComposed [
    ("target", .string t.name),
    ("width", .nat line.width),
    ("dropped", .strings line.dropped),
    ("overflow", .bool line.overflow)]
  count (·.recordLayout line.dropped.length line.overflow)
  if line.overflow then
    log (event .warn "width_overflow" [("target", .string t.name), ("width", .nat line.width)])
  if !line.dropped.isEmpty then
    log (event .debug "fragments_dropped"
      [("target", .string t.name), ("modules", .strings line.dropped)])

def recordStart (p : Pipeline) (s : Snapshot) : Watch Unit :=
  audit .renderStarted
    [("config", .string p.digest), ("term_width", .nat s.termWidth.toNat)]

def recordCommit (p : Pipeline) (lines : Layout.Lines) : Watch Unit := do
  count (·.recordRender)
  audit .renderCommitted [("left_width", .nat lines.left.width)]
  log (event .debug "render_committed"
    [("config", .string p.digest), ("left_width", .nat lines.left.width)])

def recordCancel : Watch Unit := do
  audit .renderCancelled []
  count (·.recordCancelled)
  log (event .debug "render_cancelled" [])

/-! ## Rendering -/

/-- The fitted line of a target, if modules are configured for it, and the token as it stands
afterwards. -/
def composeTarget (p : Pipeline) (scheduler : Evaluation.Scheduler) (t : Target) (s : Snapshot)
    (token : Token) : Render (Option Layout.Line × Token) := do
  let names := p.config.modulesFor t
  if names.isEmpty then
    return (none, token)
  else
    let (found, token) ← p.registry.evaluate scheduler names s p.options token
    recordOutcomes found
    let line := Layout.compose p.config.separator (found.filterMap Outcome.fragment?) s.termWidth
    recordLine t line
    return (some line, token)

def composeTargets (p : Pipeline) (plan : Plan) (s : Snapshot) :
    List Target → Layout.Lines → Token → Render Layout.Lines
  | [], lines, _ => return lines
  | t :: rest, lines, token => do
    let (line?, token) ← p.composeTarget (plan t) t s token
    composeTargets p plan s rest ((line?.map (lines.set t)).getD lines) token

/-- The lines of all targets under a token that may be set already. -/
def composeLayout (p : Pipeline) (plan : Plan) (s : Snapshot) (token : Token) :
    Render Layout.Lines :=
  p.composeTargets plan s Target.all {} token

def paint (p : Pipeline) (line : Layout.Line) : String :=
  p.config.separator.intercalate (line.fragments.map fun f => p.resolver.paint f.text f.style)

def output (p : Pipeline) (lines : Layout.Lines) : Output where
  left := p.paint lines.left
  right := if p.isConfigured .right then some (p.paint lines.right) else none
  bottom := if p.isConfigured .bottom then some (p.paint lines.bottom) else none

def renderWithCancel (p : Pipeline) (plan : Plan) (s : Snapshot) (token : Token) :
    Render Output := do
  p.recordStart s
  let lines ← recover (p.composeLayout plan s token) fun e => do
    if e = .cancelled then recordCancel
    throw (.error e)
  p.recordCommit lines
  return p.output lines

def render (p : Pipeline) (plan : Plan) (s : Snapshot) : Render Output :=
  p.renderWithCancel plan s .own

def failedEvent (e : PromptError) : Log.Event :=
  event .error "render_failed" [("error", .string e.message)]

def renderOrEmpty (p : Pipeline) (plan : Plan) (s : Snapshot) : Render Output :=
  recover (p.render plan s) fun e => do
    log (failedEvent e)
    return {}

/-- The line of one target. A target without modules has an empty one. -/
def renderLine (p : Pipeline) (scheduler : Evaluation.Scheduler) (t : Target) (s : Snapshot) :
    Render String := do
  let (line?, _) ← p.composeTarget scheduler t s .own
  return (line?.map p.paint).getD ""

end Pipeline
end ShellPrompt
