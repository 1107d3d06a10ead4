import ShellPrompt.CommandLine.Arguments
import ShellPrompt.Config.Reading
import ShellPrompt.Pipeline

/-!
# ShellPrompt.CommandLine.PromptLine

The line the prompt command prints.

Nothing that goes wrong on the way is shown: a configuration that cannot be had is replaced by the
standard one, and where there is no line the output is empty. The log tells why, if there is one.
-/

namespace ShellPrompt
namespace CommandLine

/-- Facts only the calling process can know. -/
structure Shell where
  cwd : Path
  home : Option Path := none
  detectedWidth : Option UInt16 := none
  configEnv : Option String := none

def fallbackWidth : UInt16 := 80

def logLimit : Nat := 0x100000

/-- Facts of arguments and shell. The checkout is described only by a branch or a commit. -/
def facts (a : Arguments) (shell : Shell) : Facts where
  exitCode := a.status
  durationMs := a.cmdDuration
  jobCount := a.jobs
  termWidth := (a.terminalWidth.or shell.detectedWidth).getD fallbackWidth
  cwd := shell.cwd
  home := shell.home
  vcs :=
    if a.gitBranch.isSome || a.gitCommit.isSome then
      some (.git { branch := a.gitBranch, commit := a.gitCommit, dirty := a.gitDirty })
    else none

def snapshot (a : Arguments) (shell : Shell) : Except PromptError Snapshot :=
  Snapshot.ofFacts (facts a shell)

/-- The path of the configuration. An argument goes before the environment. -/
def configPath (a : Arguments) (shell : Shell) : Option Path :=
  (a.config.or shell.configEnv).map (Path.expandTilde · shell.home)

def loggerOn (sink : Log.Sink) : Log.Logger where
  sink := sink
  minLevel := .info

def failedEvent (e : PromptError) : Log.Event :=
  Log.Event.make .error "prompt::cli" "render_failed" [("error", .string e.message)]

/-- The line, `read` saying what is found at a path. -/
def promptLine (plan : Pipeline.Plan) (read : Path → Found) (a : Arguments) (shell : Shell) :
    Render String := do
  let config ← Config.loadOrDefault read (configPath a shell)
  let pipeline ← Pipeline.build { config with dialect := a.dialect.getD config.dialect } none
  recover
    (do
      let s ← checked (snapshot a shell)
      pipeline.renderLine (plan a.target) a.target s)
    fun e => do
      log (failedEvent e)
      return ""

/-! ## Output -/

inductive Writer where
  | working
  | failing (reason : String)

inductive ProgramError where
  | render (e : PromptError)
  | output (reason : String)
deriving DecidableEq

namespace ProgramError

def message : ProgramError → String
  | .render e => s!"render error: {e.message}"
  | .output reason => s!"io error: {reason}"

end ProgramError

/-- Writes a line. An empty one needs no write. -/
def Writer.put (w : Writer) (line : String) : Except ProgramError String :=
  match w with
  | .working => .ok line
  | .failing reason => if line.isEmpty then .ok line else .error (.output reason)

/-- The prompt command among files: what is written, and the files afterwards. -/
def runPrompt (plan : Pipeline.Plan) (clock : Nat) (disk : Disk) (a : Arguments) (shell : Shell)
    (w : Writer) : Except Halt (Except ProgramError String) × Disk :=
  match a.logFile.map disk.openAppend with
  | some (.ok (target, disk)) =>
    let observers := { logger := some (loggerOn (.onto disk logLimit target)), clock := clock }
    let (line, observers) := (promptLine plan disk.read a shell).run.run observers
    let written := (observers.logger.bind fun l => l.sink.content?).getD []
    (line.map w.put, disk.store written target)
  | _ =>
    let (line, _) := (promptLine plan disk.read a shell).run.run { clock := clock }
    (line.map w.put, disk)

end CommandLine
end ShellPrompt
