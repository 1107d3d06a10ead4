import ShellPrompt.Config
import ShellPrompt.Module
import ShellPrompt.Text.Numeral

/-!
# ShellPrompt.Module.Builtin

The modules every prompt has, with the options a configuration gives them. Each is made from the
settings it reads out of its options and a function from snapshots to fragments.
-/

namespace ShellPrompt
namespace Module

/-! ## Directory

The working directory. Below the home directory it starts with `~`, else at the root with `/`.
Beyond `limit` names only the last ones are shown, without such a start; a limit of zero shows all.
-/

namespace Directory

/-- What the shown names start from. -/
inductive Anchor where
  | home
  | root
  | relative
deriving DecidableEq

namespace Anchor

/-- The start by itself, where no name follows. -/
def alone : Anchor → String
  | .home => "~"
  | .root => "/"
  | .relative => "."

def lead : Anchor → String
  | .home => "~/"
  | .root => "/"
  | .relative => ""

end Anchor

/-- The start and the components that follow it. -/
def anchored (cwd : Path) (home : Option Path) : Anchor × List Path.Component :=
  match home.bind fun h => h.stripBase? cwd with
  | some rest => (.home, rest)
  | none => (if cwd.isAbsolute then .root else .relative, cwd.components)

/-- The names to show, shortened to the last `limit`. -/
def shown (limit : Nat) (anchor : Anchor) (names : List String) : String :=
  if names = [] then anchor.alone
  else if 0 < limit ∧ limit < names.length then
    "/".intercalate (names.drop (names.length - limit))
  else anchor.lead ++ "/".intercalate names

def text (limit : Nat) (cwd : Path) (home : Option Path) : String :=
  let (anchor, rest) := anchored cwd home
  shown limit anchor (Path.names rest)

def defaultLimit : Nat := 3

def limitOf (c : ModuleConfig) : Nat :=
  ((c.optionUInt64? "truncation_length").map UInt64.toNat).getD defaultLimit

def render (limit : Nat) (s : Snapshot) : Option Fragment :=
  some { text := text limit s.cwd s.home, style := some "path", priority := 70 }

end Directory

def directory (c : ModuleConfig) : Module :=
  ofFragment "directory" (Directory.render (Directory.limitOf c))

/-! ## Version control

The branch of the checkout and markers for its state: `*` for changes, then counts of staged and
untracked files and of commits ahead and behind, each behind a sign of its own and left out at
zero.
-/

namespace Vcs

/-- The branch, else the commit, else `HEAD`. -/
def label (g : GitStatus) : String :=
  match g.branch, g.commit with
  | some branch, _ => branch
  | none, some commit => ":" ++ commit
  | none, none => "HEAD"

def count (sign : Char) (n : UInt32) : String :=
  if n = 0 then "" else String.ofList (sign :: Text.Numeral.decimal n.toNat)

def markers (g : GitStatus) : String :=
  (if g.dirty then "*" else "") ++ count '+' g.staged ++ count '?' g.untracked ++
    count '⇡' g.ahead ++ count '⇣' g.behind

def gitText (g : GitStatus) : String := label g ++ markers g

/-- Is there anything that a commit would not hold yet? -/
def changed (g : GitStatus) : Bool := g.dirty || g.staged != 0 || g.untracked != 0

def gitFragment (g : GitStatus) : Fragment where
  text := gitText g
  style := some (if changed g then "git-dirty" else "git-clean")
  priority := 50

def render (s : Snapshot) : Option Fragment :=
  match s.vcs with
  | some (.git g) => some (gitFragment g)
  | some (.mercurial branch) =>
    some { text := branch, style := some "git-clean", priority := 50 }
  | none => none

end Vcs

def vcs : Module := ofFragment "vcs" Vcs.render

/-! ## Exit status

The exit status of the last command, and on request a mark for success.
-/

namespace Status

def render (showSuccess : Bool) (s : Snapshot) : Option Fragment :=
  if ¬ s.succeeded then
    some {
      text := "✘ " ++ String.ofList (Text.Numeral.signed s.exitCode.toInt)
      style := some "error"
      priority := 80 }
  else if showSuccess then some { text := "✔", style := some "success", priority := 80 }
  else none

def showSuccessOf (c : ModuleConfig) : Bool := (c.optionBool? "show_success").getD false

end Status

def status (c : ModuleConfig) : Module :=
  ofFragment "status" (Status.render (Status.showSuccessOf c))

/-! ## Duration

How long the last command took, once it took long enough.

Below a second a duration is written in milliseconds; above, in hours, minutes and whole seconds
from the largest unit that is not zero down to the seconds.
-/

namespace Duration

open Text.Numeral

def format (ms : Nat) : List Char :=
  if ms < 1000 then decimal ms ++ ['m', 's']
  else
    let seconds := ms / 1000
    let h := seconds / 3600
    let m := seconds % 3600 / 60
    let s := seconds % 60
    if 0 < h then decimal h ++ 'h' :: decimal m ++ 'm' :: decimal s ++ ['s']
    else if 0 < m then decimal m ++ 'm' :: decimal s ++ ['s']
    else decimal s ++ ['s']

def defaultMinimum : UInt64 := 2000

def minimumOf (c : ModuleConfig) : UInt64 := (c.optionUInt64? "min_time_ms").getD defaultMinimum

def render (minimum : UInt64) (s : Snapshot) : Option Fragment :=
  if s.durationMs.toNat < minimum.toNat ∨ s.durationMs = 0 then none
  else
    some {
      text := String.ofList (format s.durationMs.toNat)
      style := some "duration"
      priority := 30 }

end Duration

def duration (c : ModuleConfig) : Module :=
  ofFragment "duration" (Duration.render (Duration.minimumOf c))

/-! ## Background jobs

The background jobs: a symbol, and their number where there are several.
-/

namespace Jobs

/-- The least number of jobs that is shown, at least one and at most what 32 bits hold. -/
def thresholdOf (c : ModuleConfig) : Nat :=
  max 1 (((c.optionUInt64? "threshold").map fun n => min n.toNat 0xFFFFFFFF).getD 1)

def symbolOf (c : ModuleConfig) : String := (c.optionString? "symbol").getD "✦"

def render (threshold : Nat) (symbol : String) (s : Snapshot) : Option Fragment :=
  let jobs := s.jobCount.toNat
  if jobs < threshold then none
  else
    some {
      text := if jobs = 1 then symbol else symbol ++ String.ofList (Text.Numeral.decimal jobs)
      style := some "jobs"
      priority := 20 }

end Jobs

def jobs (c : ModuleConfig) : Module :=
  ofFragment "jobs" (Jobs.render (Jobs.thresholdOf c) (Jobs.symbolOf c))

/-! ## Input marker

The input marker, styled by the success of the last command.
-/

namespace Character

def defaultSymbol : String := "❯"

def symbolOf (c : ModuleConfig) : String := (c.optionString? "symbol").getD defaultSymbol

def render (symbol : String) (s : Snapshot) : Option Fragment :=
  some {
    text := symbol
    style := some (if s.succeeded then "success" else "error")
    priority := 100 }

end Character

def character (c : ModuleConfig) : Module :=
  ofFragment "character" (Character.render (Character.symbolOf c))

/-! ## All of them -/

def builtin (config : Config) : List Module :=
  let options (name : String) : ModuleConfig := (config.module? name).getD {}
  [directory (options "directory"), vcs, status (options "status"), duration (options "duration"),
    jobs (options "jobs"), character (options "character")]

end Module
end ShellPrompt
