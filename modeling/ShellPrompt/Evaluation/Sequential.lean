import ShellPrompt.Evaluation

/-!
# ShellPrompt.Evaluation.Sequential

One worker runs the jobs in order, and each job has a deadline of its own. When the evaluating
thread has waited too long for a job it abandons the worker and starts another from the next job
on. An abandoned worker ends with the job it is in, since nobody listens to it. Where the system
refuses a worker, the jobs that are left have none.
-/

namespace ShellPrompt
namespace Evaluation
namespace Sequential

structure Chain where
  /-- The job the worker is at; the number of jobs when it has ended. -/
  position : Nat
  /-- When the run of that job started, if it has. -/
  started : Option Nat := none
  /-- Messages on their way, each with the index of its job. -/
  sent : List (Nat × ModuleResult) := []

structure State where
  now : Nat
  token : Token
  next : Nat
  results : List (Option ModuleResult)
  current : Option Chain
  /-- Workers nobody listens to, the latest first. -/
  abandoned : List Chain
  /-- Why there is no worker for the jobs that are left. -/
  refusal : Option String
  deadline : Option Nat
  control : Control

variable (o : Options) (jobs : List Job)

def initial (token : Token) : State where
  now := 0
  token := token
  next := 0
  results := jobs.map fun _ => none
  current := none
  abandoned := []
  refusal := none
  deadline := none
  control := .spawn

/-- A result that came too late counts as none. -/
def timely (j : Job) (elapsed : Nat) (r : ModuleResult) : ModuleResult :=
  match o.budget with
  | some b => if b.nanos < elapsed then .error (.timedOut j.name b.millis) else r
  | none => r

/-- A step of a worker, with whether it cancels the render. -/
def chainStep (heard : Bool) (now : Nat) (c : Chain) : Chain × Bool :=
  match jobs[c.position]? with
  | none => (c, false)
  | some j =>
    match c.started with
    | none => ({ c with started := some now }, j.run.cancels)
    | some t =>
      match j.result? with
      | none => (c, false)
      | some r =>
        if heard then
          ({ position := c.position + 1
             started := none
             sent := c.sent ++ [(c.position, timely o j (now - t) r)] }, false)
        else ({ c with position := jobs.length, started := none }, false)

/-- Worker 0 is the current one, the others are abandoned. -/
def workerStep (s : State) : Nat → State
  | 0 =>
    match s.current with
    | none => s
    | some c =>
      let r := chainStep o jobs true s.now c
      { s with current := some r.1, token := s.token.cancelIf r.2 }
  | i + 1 =>
    match s.abandoned[i]? with
    | none => s
    | some c =>
      let r := chainStep o jobs false s.now c
      { s with abandoned := s.abandoned.set i r.1, token := s.token.cancelIf r.2 }

/-- The results at the end, with a failure for each job that none was received for. -/
def collect (s : State) : List ModuleResult :=
  (jobs.zip s.results).map fun p =>
    p.2.getD (.error (match s.refusal with
      | some why => unspawned p.1 why
      | none => .panicked p.1.name))

def mainStep (s : State) : State :=
  match s.control with
  | .spawn =>
    match jobs[s.next]? with
    | none => { s with control := .finish }
    | some j =>
      if s.token.isCancelled then { s with control := .done .cancelled }
      else if ¬ j.nameable then { s with control := .done (.crashed (.workerName j.name)) }
      else
        match o.refuses s.next with
        | some why => { s with refusal := some why, control := .finish }
        | none => { s with current := some { position := s.next }, control := .arm }
  | .arm =>
    if o.overreaches s.now then { s with control := .done (.crashed .deadline) }
    else { s with deadline := o.deadline s.now, control := .poll }
  | .poll =>
    if jobs.length ≤ s.next then { s with control := .finish }
    else if s.token.isCancelled then { s with control := .done .cancelled }
    else { s with control := .clock }
  | .clock =>
    match jobs[s.next]? with
    | none => { s with control := .receive }
    | some j =>
      if expired s.deadline s.now then
        { s with
          results := s.results.set s.next (some (.error (overdue o j)))
          next := s.next + 1
          current := none
          abandoned := s.current.toList ++ s.abandoned
          control := .spawn }
      else { s with control := .receive }
  | .receive =>
    match s.current with
    | none => { s with control := .finish }
    | some c =>
      match c.sent with
      | (i, r) :: rest =>
        { s with
          current := some { c with sent := rest }
          results := s.results.set i (some r)
          next := i + 1
          control := .arm }
      | [] => { s with control := if jobs.length ≤ c.position then .finish else .poll }
  | .finish =>
    let v := if s.token.isCancelled then .cancelled else .results (collect jobs s)
    { s with control := .done v }
  | .done v => { s with control := .done v }

def step (s : State) : Action → State
  | .main => mainStep o jobs s
  | .worker i => workerStep o jobs s i
  | .tick ns => { s with now := later s.now ns }
  | .cancel => { s with token := s.token.cancel }

def machine : Machine State where
  step := step o jobs
  now := State.now
  token := State.token
  control := State.control

abbrev run : State → Schedule → State := (machine o jobs).run

end Sequential
end Evaluation
end ShellPrompt
