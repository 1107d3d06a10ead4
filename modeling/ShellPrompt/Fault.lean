/-!
# ShellPrompt.Fault

How a computation ends without a value: it reports an error, the program stops, or something is
waited for that never comes. The program can stop in three places, the constructors of `Crash`:
where a colour is read, where a worker is named, and where the time to wait until is worked out.
-/

namespace ShellPrompt

/-- Failures a caller of a render sees. Modules never cause one. -/
inductive PromptError where
  | zeroWidth
  | cancelled
deriving DecidableEq

namespace PromptError

def message : PromptError → String
  | .zeroWidth => "invalid snapshot: terminal width must be greater than zero"
  | .cancelled => "render cancelled"

end PromptError

inductive Crash where
  /-- A hexadecimal colour was cut inside a character. -/
  | splitCharacter
  /-- A worker was to be named after a module whose name contains NUL. -/
  | workerName (module : String)
  /-- A time to wait until lay beyond all there are. -/
  | deadline
deriving DecidableEq

inductive Fault (ε : Type) where
  | error (e : ε)
  | crash (c : Crash)
deriving DecidableEq

/-- How a render ends that has no value. -/
inductive Halt where
  | error (e : PromptError)
  | crash (c : Crash)
  /-- A module is waited for that never answers. -/
  | waits
deriving DecidableEq

end ShellPrompt
