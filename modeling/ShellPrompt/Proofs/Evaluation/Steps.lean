import ShellPrompt.Proofs.Evaluation.Sequential

/-!
# ShellPrompt.Proofs.Evaluation.Steps

What happens in the steps of a chain.

* `Event`: a worker is started or sends, the evaluating thread receives or gives a worker up.
  `events` reads them off a run.
* `Step`: the steps, by their events, with all they change of workers, channels and slots.
  `step_cases` says that there are no others, so an invariant is preserved if each of these six
  preserves it.

Workers are numbered in the order they are started, so the number of the current one is how many
have been abandoned.
-/

namespace ShellPrompt
namespace Evaluation
namespace Sequential

/-! ## Events -/

/-- The answer about a job, whichever time its run took. -/
def IsAnswer (o : Options) (jobs : List Job) (i : Nat) (r : ModuleResult) : Prop :=
  ∃ j a elapsed, jobs[i]? = some j ∧ j.result? = some a ∧ r = timely o j elapsed a

def IsTimeout (o : Options) (jobs : List Job) (i : Nat) (r : ModuleResult) : Prop :=
  ∃ j b, jobs[i]? = some j ∧ o.budget = some b ∧ r = .error (.timedOut j.name b.millis)

inductive Event where
  /-- A worker is started at a job. -/
  | started (i : Nat)
  /-- A worker sends what it has to say about a job, whether anyone listens or not. -/
  | sent (w i : Nat) (r : ModuleResult)
  /-- The evaluating thread takes a message of a worker about a job. -/
  | received (w i : Nat) (r : ModuleResult)
  /-- The time for a job is up, and the worker is abandoned. -/
  | missed (w i : Nat)

namespace Event

/-- The slot that is filled. -/
def slot? : Event → Option Nat
  | .received _ i _ => some i
  | .missed _ i => some i
  | _ => none

/-- The worker it is about, once that has been started. -/
def worker? : Event → Option Nat
  | .sent w _ _ => some w
  | .received w _ _ => some w
  | .missed w _ => some w
  | .started _ => none

def startedAt? : Event → Option Nat
  | .started i => some i
  | _ => none

def missedAt? : Event → Option Nat
  | .missed _ i => some i
  | _ => none

def sentBy? (w : Nat) : Event → Option (Nat × ModuleResult)
  | .sent v i r => if v = w then some (i, r) else none
  | _ => none

def receivedFrom? (w : Nat) : Event → Option (Nat × ModuleResult)
  | .received v i r => if v = w then some (i, r) else none
  | _ => none

/-- The event fills a slot with a result. -/
def Fills (o : Options) (jobs : List Job) (i : Nat) (r : ModuleResult) : Event → Prop
  | .received _ k x => k = i ∧ x = r
  | .missed _ k => k = i ∧ IsTimeout o jobs i r
  | _ => False

end Event

/-- What a worker sends when it moves on: its answer about the job it is at, once the run of that
has ended. -/
def Chain.message? (o : Options) (jobs : List Job) (now : Nat) (c : Chain) :
    Option (Nat × ModuleResult) :=
  match jobs[c.position]?, c.started with
  | some j, some t => j.result?.map fun a => (c.position, timely o j (now - t) a)
  | _, _ => none

/-- The number of the worker that was abandoned `k` before the latest. -/
def State.number (s : State) (k : Nat) : Nat := s.abandoned.length - 1 - k

def event? (o : Options) (jobs : List Job) (s : State) : Action → Option Event
  | .main =>
    match s.control with
    | .spawn =>
      match jobs[s.next]? with
      | some j =>
        if j.nameable && !s.token.isCancelled && (o.refuses s.next).isNone then
          some (.started s.next)
        else none
      | none => none
    | .clock =>
      if s.next < jobs.length && expired s.deadline s.now then
        some (.missed s.abandoned.length s.next)
      else none
    | .receive =>
      (s.current.bind fun c => c.sent.head?).map fun m => .received s.abandoned.length m.1 m.2
    | _ => none
  | .worker 0 =>
    (s.current.bind (Chain.message? o jobs s.now)).map fun m => .sent s.abandoned.length m.1 m.2
  | .worker (k + 1) =>
    (s.abandoned[k]?.bind (Chain.message? o jobs s.now)).map fun m => .sent (s.number k) m.1 m.2
  | _ => none

def events (o : Options) (jobs : List Job) : State → Schedule → List Event :=
  (machine o jobs).record fun s a => (event? o jobs s a).toList

/-! ## Steps -/

/-- Where a worker is, and its messages on their way. -/
def Chain.place (c : Chain) : Nat × List (Nat × ModuleResult) := (c.position, c.sent)

/-- The steps of a chain, by what happens in them. -/
inductive Step (o : Options) (jobs : List Job) (s : State) : Option Event → State → Prop where
  | quiet {s' : State} : s'.results = s.results → s'.next = s.next →
      s'.current.map Chain.place = s.current.map Chain.place →
      s'.abandoned.map Chain.place = s.abandoned.map Chain.place → Step o jobs s none s'
  | started : s.current = none → s.next < jobs.length →
      Step o jobs s (some (.started s.next))
        { s with current := some { position := s.next }, control := .arm }
  | sent {c : Chain} {i : Nat} {r : ModuleResult} : s.current = some c →
      c.message? o jobs s.now = some (i, r) →
      Step o jobs s (some (.sent s.abandoned.length i r))
        { s with
          current := some { position := i + 1, started := none, sent := c.sent ++ [(i, r)] } }
  /-- Nobody listens any more: the message is lost, and the worker ends. -/
  | lost {k : Nat} {c : Chain} {i : Nat} {r : ModuleResult} : s.abandoned[k]? = some c →
      c.message? o jobs s.now = some (i, r) →
      Step o jobs s (some (.sent (s.number k) i r))
        { s with
          abandoned := s.abandoned.set k { c with position := jobs.length, started := none } }
  | received {c : Chain} {r : ModuleResult} {rest : List (Nat × ModuleResult)} :
      s.current = some c → c.sent = (s.next, r) :: rest → s.results[s.next]? = some none →
      Step o jobs s (some (.received s.abandoned.length s.next r))
        { s with
          current := some { c with sent := rest }
          results := s.results.set s.next (some r)
          next := s.next + 1
          control := .arm }
  | missed {c : Chain} {j : Job} {b : Span} : s.current = some c → jobs[s.next]? = some j →
      o.budget = some b → expired s.deadline s.now = true → s.results[s.next]? = some none →
      Step o jobs s (some (.missed s.abandoned.length s.next))
        { s with
          results := s.results.set s.next (some (.error (.timedOut j.name b.millis)))
          next := s.next + 1
          current := none
          abandoned := c :: s.abandoned
          control := .spawn }

variable {o : Options} {jobs : List Job} {d : Diary} {s s' : State} {now : Nat} {c : Chain}

namespace Chain

theorem message?_eq_some {i : Nat} {r : ModuleResult} (hm : c.message? o jobs now = some (i, r)) :
    i = c.position ∧ ∃ j t a, jobs[i]? = some j ∧ c.started = some t ∧ j.result? = some a ∧
      r = timely o j (now - t) a := by
  unfold message? at hm
  split at hm
  case h_1 j t hj ht =>
    obtain ⟨a, ha, heq⟩ := Option.map_eq_some_iff.1 hm
    cases heq
    exact ⟨rfl, j, t, a, hj, ht, ha, rfl⟩
  case h_2 => cases hm

/-- A worker with nothing to send stays where it is. -/
theorem place_chainStep (hm : c.message? o jobs now = none) (heard : Bool) :
    (chainStep o jobs heard now c).1.place = c.place := by
  cases hj : jobs[c.position]? with
  | none => simp only [chainStep, hj]
  | some j =>
    cases ht : c.started with
    | none => simp only [chainStep, hj, ht, place]
    | some t =>
      have ha : j.result? = none := by simpa [message?, hj, ht] using hm
      simp only [chainStep, hj, ht, ha]

theorem chainStep_heard {i : Nat} {r : ModuleResult} (hm : c.message? o jobs now = some (i, r)) :
    chainStep o jobs true now c =
      ({ position := i + 1, started := none, sent := c.sent ++ [(i, r)] }, false) := by
  obtain ⟨rfl, j, t, a, hj, ht, ha, rfl⟩ := message?_eq_some hm
  simp only [chainStep, hj, ht, ha, if_true]

theorem chainStep_unheard {i : Nat} {r : ModuleResult}
    (hm : c.message? o jobs now = some (i, r)) :
    chainStep o jobs false now c =
      ({ c with position := jobs.length, started := none }, false) := by
  obtain ⟨rfl, j, t, a, hj, ht, ha, rfl⟩ := message?_eq_some hm
  simp only [chainStep, hj, ht, ha, Bool.false_eq_true, if_false]

end Chain

theorem currentStep_cases (o : Options) (jobs : List Job) (s : State) :
    Step o jobs s (event? o jobs s (.worker 0)) (workerStep o jobs s 0) := by
  cases hc : s.current with
  | none =>
    simp only [event?, workerStep, hc, Option.bind_none, Option.map_none]
    exact .quiet rfl rfl rfl rfl
  | some c =>
    simp only [event?, workerStep, hc, Option.bind_some]
    cases hm : c.message? o jobs s.now with
    | none =>
      refine .quiet rfl rfl ?_ rfl
      simp only [hc, Option.map_some, Chain.place_chainStep hm]
    | some m => simpa [Chain.chainStep_heard hm, Token.cancelIf] using Step.sent hc hm

theorem abandonedStep_cases (o : Options) (jobs : List Job) (s : State) (k : Nat) :
    Step o jobs s (event? o jobs s (.worker (k + 1))) (workerStep o jobs s (k + 1)) := by
  cases hc : s.abandoned[k]? with
  | none =>
    simp only [event?, workerStep, hc, Option.bind_none, Option.map_none]
    exact .quiet rfl rfl rfl rfl
  | some c =>
    simp only [event?, workerStep, hc, Option.bind_some]
    cases hm : c.message? o jobs s.now with
    | none =>
      refine .quiet rfl rfl rfl ?_
      obtain ⟨hk, rfl⟩ := List.getElem?_eq_some_iff.1 hc
      simp only [List.map_set, Chain.place_chainStep hm]
      rw [← List.getElem_map Chain.place (h := by simpa using hk), List.set_getElem_self]
    | some m => simpa [Chain.chainStep_unheard hm, Token.cancelIf] using Step.lost hc hm

/-- Where a worker is to be started, there is none. -/
def Vacant (s : State) : Prop := s.control = .spawn → s.current = none

theorem step_vacant (hv : Vacant s) (a : Action) : Vacant (step o jobs s a) := by
  intro hspawn
  cases a with
  | main => grind [step, mainStep, Vacant]
  | worker k => cases k <;> grind [step, workerStep, Vacant]
  | tick ns => exact hv hspawn
  | cancel => exact hv hspawn

theorem mainStep_cases (hs : Sound o jobs d s) (hv : Vacant s) :
    Step o jobs s (event? o jobs s .main) (mainStep o jobs s) := by
  cases hc : s.control with
  | spawn =>
    cases hj : jobs[s.next]? with
    | none =>
      simp only [event?, mainStep, hc, hj]
      exact .quiet rfl rfl rfl rfl
    | some j =>
      have hlt : s.next < jobs.length := (List.getElem?_eq_some_iff.1 hj).1
      cases ht : s.token.isCancelled with
      | true =>
        simp only [event?, mainStep, hc, hj, ht, Bool.not_true, Bool.and_false, Bool.false_and,
          Bool.false_eq_true, if_false, if_true]
        exact .quiet rfl rfl rfl rfl
      | false =>
        cases hname : j.nameable with
        | false =>
          simp only [event?, mainStep, hc, hj, ht, hname]
          exact .quiet rfl rfl rfl rfl
        | true =>
          cases hr : o.refuses s.next with
          | some why =>
            simp only [event?, mainStep, hc, hj, ht, hname, hr]
            exact .quiet rfl rfl rfl rfl
          | none =>
            simp only [event?, mainStep, hc, hj, ht, hname, hr]
            exact .started (hv hc) hlt
  | clock =>
    obtain ⟨c, hcur⟩ := hs.waiting (by simp [Waiting, Control.Looking, hc])
    cases hj : jobs[s.next]? with
    | none =>
      have hn : ¬ s.next < jobs.length := Nat.not_lt.2 (List.getElem?_eq_none_iff.1 hj)
      simp only [event?, mainStep, hc, hj, hn, decide_false, Bool.false_and, Bool.false_eq_true,
        if_false]
      exact .quiet rfl rfl rfl rfl
    | some j =>
      have hn : s.next < jobs.length := (List.getElem?_eq_some_iff.1 hj).1
      cases hx : expired s.deadline s.now with
      | false =>
        simp only [event?, mainStep, hc, hj, hx, Bool.and_false, Bool.false_eq_true, if_false]
        exact .quiet rfl rfl rfl rfl
      | true =>
        obtain ⟨w, -, hdeadline, -⟩ := hs.waits (.inr (.inl hc))
        obtain ⟨b, hb, -⟩ := (expired_iff o w.since s.now).1 (hdeadline ▸ hx)
        simp only [event?, mainStep, hc, hj, hn, hx, hcur, overdue_of_budget hb, decide_true,
          Bool.and_true, if_true]
        exact .missed hcur hj hb hx (hs.filled.empty _ (Nat.le_refl _) hn)
  | receive =>
    obtain ⟨c, hcur⟩ := hs.waiting (by simp [Waiting, Control.Looking, hc])
    have hq := hs.queue c hcur
    cases hsent : c.sent with
    | nil =>
      simp only [event?, mainStep, hc, hcur, hsent, Option.bind_some, List.head?_nil,
        Option.map_none]
      exact .quiet rfl rfl (congrArg _ hcur.symm) rfl
    | cons m rest =>
      obtain ⟨i, r⟩ := m
      obtain ⟨rfl, hlt, -, -⟩ := hq.take hsent
      simp only [event?, mainStep, hc, hcur, hsent, Option.bind_some, List.head?_cons,
        Option.map_some]
      exact .received hcur hsent (hs.filled.empty _ (Nat.le_refl _) hlt)
  | arm | poll =>
    simp only [event?, mainStep, hc]
    repeat' split
    all_goals exact .quiet rfl rfl rfl rfl
  | finish | done v =>
    simp only [event?, mainStep, hc]
    exact .quiet rfl rfl rfl rfl

/-- A step in which nothing happens, or something that may happen there. -/
theorem step_cases (hs : Sound o jobs d s) (hv : Vacant s) (a : Action) :
    Step o jobs s (event? o jobs s a) (step o jobs s a) := by
  cases a with
  | main => exact mainStep_cases hs hv
  | worker k =>
    cases k with
    | zero => exact currentStep_cases o jobs s
    | succ k => exact abandonedStep_cases o jobs s k
  | tick ns => exact .quiet rfl rfl rfl rfl
  | cancel => exact .quiet rfl rfl rfl rfl

end Sequential
end Evaluation
end ShellPrompt
