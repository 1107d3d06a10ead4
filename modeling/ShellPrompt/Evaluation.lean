import ShellPrompt.Fault
import ShellPrompt.Module

/-!
# ShellPrompt.Evaluation

What evaluating modules concurrently is made of.

Workers run modules, the evaluating thread collects their results under a budget of time, and a
token that anyone may set abandons the whole evaluation. An `Action` is one thing that may happen
next: a step of the evaluating thread (`main`), a step of a worker, time going by, or the token
being set from outside. A schedule is a list of actions, and every interleaving is a schedule.

There are two machines, `Parallel` and `Sequential`. They share the program counter of the
evaluating thread (`Control`), the clock, and the two steps of a run: it starts, and cancels the
render if it is going to; later it ends. A `Machine` is what they have in common.
-/

namespace ShellPrompt

/-- The flag a render looks at to see whether it has been abandoned. Whoever holds a shared token
may set it, modules included; a token a render makes for itself is out of everyone's reach. A token
that has been set stays set. -/
inductive Token where
  | own
  | shared (cancelled : Bool)
deriving DecidableEq

namespace Token

def isCancelled : Token → Bool
  | .own => false
  | .shared cancelled => cancelled

/-- What becomes of the token when someone tries to set it. -/
def cancel : Token → Token
  | .own => .own
  | .shared _ => .shared true

def cancelIf (t : Token) (cancels : Bool) : Token := if cancels then t.cancel else t

end Token

namespace Evaluation

/-! ## Time -/

/-- A length of time in nanoseconds: as many seconds as 64 bits count, and part of one. -/
structure Span where
  nanos : Nat
  nanos_lt : nanos < 0x10000000000000000 * 1000000000
deriving DecidableEq

namespace Span

def ofMillis (ms : UInt64) : Span where
  nanos := ms.toNat * 1000000
  nanos_lt := by
    have := ms.toNat_lt
    omega

/-- The whole milliseconds, as far as 64 bits hold their number. -/
def millis (span : Span) : UInt64 := UInt64.ofNat (span.nanos / 1000000)

end Span

/-- The clock counts nanoseconds in 63 bits and stays at the last of them, for which it would have
to run for 292 years. -/
def lastReading : Nat := 0x7FFFFFFFFFFFFFFF

/-- What the clock shows when more nanoseconds have gone by. -/
def later (now ns : Nat) : Nat := min (now + ns) lastReading

/-- A point in time counts its seconds in 63 bits, so it lies before this many nanoseconds. -/
def horizon : Nat := 0x8000000000000000 * 1000000000

/-! ## Jobs -/

structure Job where
  name : String
  run : Run

namespace Job

/-- What the worker of a job has to report, unless the run never ends. -/
def result? (j : Job) : Option ModuleResult :=
  match j.run.ending with
  | .returns result => some result
  | .panics => some (.error (.panicked j.name))
  | .stalls => none

/-- Workers are named after their module, and such a name must not contain NUL. -/
def nameable (j : Job) : Bool := !j.name.toList.contains (Char.ofNat 0)

end Job

/-- What an evaluation is asked for, and what the system it runs on refuses it. -/
structure Options where
  parallel : Bool := true
  /-- How long a module may take; `none` for any time. -/
  budget : Option Span := some (.ofMillis 200)
  /-- Why the system refuses the worker that is to be started at a job, if it does. -/
  refuses : Nat → Option String := fun _ => none

namespace Options

/-- The time an evaluating thread waits until, from a given time on. -/
def deadline (o : Options) (now : Nat) : Option Nat := o.budget.map fun b => now + b.nanos

/-- The time it would have to wait until is none there is. -/
def overreaches (o : Options) (now : Nat) : Bool := (o.deadline now).any fun d => horizon ≤ d

end Options

def expired (deadline : Option Nat) (now : Nat) : Bool :=
  match deadline with
  | some d => d ≤ now
  | none => false

/-- The failure of a job that is waited for no longer. -/
def overdue (o : Options) (j : Job) : ModuleFailure :=
  match o.budget with
  | some b => .timedOut j.name b.millis
  | none => .panicked j.name

/-- The failure of a job without a worker. -/
def unspawned (j : Job) (why : String) : ModuleFailure :=
  .render j.name ("worker spawn failed: " ++ why)

/-! ## Machines -/

inductive Action where
  | main
  | worker (i : Nat)
  /-- So many nanoseconds go by. -/
  | tick (ns : Nat)
  | cancel
deriving DecidableEq

abbrev Schedule := List Action

abbrev Scheduler := Options → List Job → Schedule

inductive Verdict where
  | cancelled
  | crashed (c : Crash)
  /-- One result per job, in order. -/
  | results (rs : List ModuleResult)

/-- The point the evaluating thread has reached. -/
inductive Control where
  /-- It is about to start a worker. -/
  | spawn
  /-- It is about to work out the time it waits until. -/
  | arm
  /-- It is about to look at the token. -/
  | poll
  /-- It is about to look at the clock. -/
  | clock
  /-- It is about to look for a message. -/
  | receive
  /-- It waits no longer and is about to look at the token for the last time. -/
  | finish
  | done (v : Verdict)

def verdict? : Control → Option Verdict
  | .done v => some v
  | _ => none

structure Machine (State : Type) where
  step : State → Action → State
  now : State → Nat
  token : State → Token
  control : State → Control

namespace Machine

variable {State : Type} (m : Machine State)

def run (s : State) (schedule : Schedule) : State := schedule.foldl m.step s

/-- What a run comes to, if it comes to an end, and how the token stands afterwards. -/
def outcome (s : State) (schedule : Schedule) : Option Verdict × Token :=
  (verdict? (m.control (m.run s schedule)), m.token (m.run s schedule))

end Machine

end Evaluation
end ShellPrompt
