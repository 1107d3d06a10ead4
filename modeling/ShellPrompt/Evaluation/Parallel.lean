import ShellPrompt.Evaluation

/-!
# ShellPrompt.Evaluation.Parallel

One worker for each job, all started at once, and one deadline for all of them.

Nothing is looked at while workers are started, so they are there in the beginning: a job whose
worker the system refuses has its result already, and a job no worker can be named after has
stopped the evaluating thread.
-/

namespace ShellPrompt
namespace Evaluation
namespace Parallel

inductive Worker where
  | idle
  | running
  | answered
  /-- It could not be started. -/
  | absent
deriving DecidableEq

namespace Worker

/-- Nothing is to be expected of it any more. -/
def gone : Worker → Bool
  | .idle => false
  | .running => false
  | .answered => true
  | .absent => true

end Worker

structure State where
  now : Nat
  token : Token
  workers : List Worker
  /-- Messages on their way, each with the index of its job. -/
  channel : List (Nat × ModuleResult)
  results : List (Option ModuleResult)
  pending : Nat
  deadline : Option Nat
  /-- The deadline has been noticed. -/
  expired : Bool
  control : Control

variable (o : Options) (jobs : List Job)

def firstWorkers : List Worker :=
  jobs.mapIdx fun i _ => if (o.refuses i).isSome then .absent else .idle

/-- The results of jobs without a worker. -/
def firstResults : List (Option ModuleResult) :=
  jobs.mapIdx fun i j => (o.refuses i).map fun why => .error (unspawned j why)

def initial (token : Token) : State where
  now := 0
  token := token
  workers := firstWorkers o jobs
  channel := []
  results := firstResults o jobs
  pending := (firstResults o jobs).countP Option.isNone
  deadline := none
  expired := false
  control :=
    match jobs.find? (fun j => !j.nameable) with
    | some j => .done (.crashed (.workerName j.name))
    | none => .arm

def workerStep (s : State) (i : Nat) : State :=
  match jobs[i]?, s.workers[i]? with
  | some j, some .idle =>
    { s with
      workers := s.workers.set i .running
      token := s.token.cancelIf j.run.cancels }
  | some j, some .running =>
    match j.result? with
    | some r =>
      { s with
        workers := s.workers.set i .answered
        channel := s.channel ++ [(i, r)] }
    | none => s
  | _, _ => s

/-- The results at the end, with a failure for each job that did not answer. -/
def collect (s : State) : List ModuleResult :=
  (jobs.zip s.results).map fun p =>
    p.2.getD (.error (if s.expired then overdue o p.1 else .panicked p.1.name))

def mainStep (s : State) : State :=
  match s.control with
  | .spawn => { s with control := .arm }
  | .arm =>
    if o.overreaches s.now then { s with control := .done (.crashed .deadline) }
    else { s with deadline := o.deadline s.now, control := .poll }
  | .poll =>
    if s.pending = 0 then { s with control := .finish }
    else if s.token.isCancelled then { s with control := .done .cancelled }
    else { s with control := .clock }
  | .clock =>
    if Evaluation.expired s.deadline s.now then { s with expired := true, control := .finish }
    else { s with control := .receive }
  | .receive =>
    match s.channel with
    | (i, r) :: rest =>
      { s with
        channel := rest
        results := s.results.set i (some r)
        pending := s.pending - 1
        control := .poll }
    | [] => { s with control := if s.workers.all Worker.gone then .finish else .poll }
  | .finish =>
    let v := if s.token.isCancelled then .cancelled else .results (collect o jobs s)
    { s with control := .done v }
  | .done v => { s with control := .done v }

def step (s : State) : Action → State
  | .main => mainStep o jobs s
  | .worker i => workerStep jobs s i
  | .tick ns => { s with now := later s.now ns }
  | .cancel => { s with token := s.token.cancel }

def machine : Machine State where
  step := step o jobs
  now := State.now
  token := State.token
  control := State.control

end Parallel
end Evaluation
end ShellPrompt
