import ShellPrompt.Evaluation.Parallel
import ShellPrompt.Evaluation.Sequential

/-!
# ShellPrompt.Evaluation.Schedule

Running an evaluation under a schedule.

* `evaluate`: what an evaluation returns and how the token stands afterwards; nothing is returned
  by a schedule that ends too early.
* `eager`: the schedule of modules that answer well within their budget or not at all. Every
  worker runs as soon as it can, and time goes by only when nothing else is left to happen.
-/

namespace ShellPrompt
namespace Evaluation

/-- Runs jobs under a schedule under a token that may be set already. -/
def evaluate (o : Options) (jobs : List Job) (token : Token) (schedule : Schedule) :
    Option Verdict × Token :=
  if o.parallel then (Parallel.machine o jobs).outcome (Parallel.initial o jobs token) schedule
  else (Sequential.machine o jobs).outcome (Sequential.initial jobs token) schedule

def mains (n : Nat) : Schedule := List.replicate n .main

def timeOut (o : Options) : Schedule :=
  match o.budget with
  | some b => .tick b.nanos :: mains 6
  | none => []

def eagerParallel (o : Options) (jobs : List Job) : Schedule :=
  mains 4 ++ (List.range jobs.length).flatMap (fun i => [.worker i, .worker i]) ++
    mains (3 * jobs.length + 6) ++ timeOut o

/-- The part of the schedule that sees one job through. -/
def eagerJob (o : Options) (j : Job) : Schedule :=
  mains 4 ++ [.worker 0, .worker 0] ++ mains 6 ++
    match j.result? with
    | some _ => []
    | none => timeOut o

def eagerSequential (o : Options) (jobs : List Job) : Schedule :=
  jobs.flatMap (eagerJob o) ++ mains 6

def eager : Scheduler := fun o jobs =>
  if o.parallel then eagerParallel o jobs else eagerSequential o jobs

end Evaluation
end ShellPrompt
