import ShellPrompt.CommandLine.Number
import ShellPrompt.Text.Printable

/-!
# ShellPrompt.CommandLine.Usage

What may stand on the command line, and how reading it can end without a command: with help, with
the version, or with a complaint.
-/

namespace ShellPrompt
namespace CommandLine

/-- What can be asked for by name with two dashes. -/
inductive Parameter where
  | status
  | cmdDuration
  | jobs
  | terminalWidth
  | target
  | config
  | dialect
  | logFile
  | gitBranch
  | gitCommit
  | gitDirty
  | help
  | version
deriving DecidableEq

namespace Parameter

def name : Parameter → String
  | .status => "status"
  | .cmdDuration => "cmd-duration"
  | .jobs => "jobs"
  | .terminalWidth => "terminal-width"
  | .target => "target"
  | .config => "config"
  | .dialect => "dialect"
  | .logFile => "log-file"
  | .gitBranch => "git-branch"
  | .gitCommit => "git-commit"
  | .gitDirty => "git-dirty"
  | .help => "help"
  | .version => "version"

def takesValue : Parameter → Bool
  | .gitDirty | .help | .version => false
  | _ => true

/-- Accepts a separate value that begins with a dash, if it is a number. -/
def takesNegative : Parameter → Bool
  | .status => true
  | _ => false

def valueName (p : Parameter) : String :=
  p.name.map fun c => if c = '-' then '_' else c.toUpper

def usage (p : Parameter) : String :=
  if p.takesValue then s!"--{p.name} <{p.valueName}>" else s!"--{p.name}"

def ofPrompt : List Parameter := [.status, .cmdDuration, .jobs, .terminalWidth, .target, .config,
  .dialect, .logFile, .gitBranch, .gitCommit, .gitDirty, .help]

end Parameter

inductive Topic where
  | program
  | prompt
  | session
  | help
deriving DecidableEq

namespace Topic

def about : Topic → String
  | .program => "Compose shell prompt lines from facts gathered by the shell"
  | .prompt => "Print one rendered prompt line"
  | .session => "Print a fresh session key"
  | .help => "Print this message or the help of the given subcommand(s)"

def command? : String → Option Topic
  | "prompt" => some .prompt
  | "session" => some .session
  | "help" => some .help
  | _ => none

end Topic

inductive UsageError where
  | help (topic : Topic)
  | version
  | missingCommand
  | unknownCommand (name : String)
  | unexpectedArgument (argument : String)
  | missingValue (p : Parameter)
  | refusedChoice (p : Parameter) (raw : String)
  | refusedNumber (p : Parameter) (raw : String) (fault : NumberFault)
  | repeated (p : Parameter)
  | surplusValue (p : Parameter) (raw : String)
deriving DecidableEq

namespace UsageError

open Text.Printable (shown firstLine)

def text : UsageError → String
  | .help topic => topic.about
  | .version => "prompt-engine 0.3.0"
  | .missingCommand => Topic.program.about
  | .unknownCommand name => s!"error: unrecognized subcommand '{shown name}'"
  | .unexpectedArgument argument => s!"error: unexpected argument '{shown argument}' found"
  | .missingValue p => s!"error: a value is required for '{p.usage}' but none was supplied"
  | .refusedChoice p raw => s!"error: invalid value '{shown raw}' for '{p.usage}'"
  | .refusedNumber p raw fault =>
    s!"error: invalid value '{shown raw}' for '{p.usage}': {fault.message}"
  | .repeated p => s!"error: the argument '{p.usage}' cannot be used multiple times"
  | .surplusValue p raw =>
    s!"error: unexpected value '{shown raw}' for '{p.usage}' found; no more were expected"

/-- The first line of what is printed. -/
def message (e : UsageError) : String := firstLine e.text

def exitCode : UsageError → Nat
  | .help _ | .version => 0
  | _ => 2

end UsageError
end CommandLine
end ShellPrompt
