import ShellPrompt.Proofs.Observers
import ShellPrompt.Registry

/-!
# ShellPrompt.Proofs.Registry.Evaluate

Evaluating names, in one equation.

What is logged and what comes out are functions of the requested slots and the results of their
jobs: `unknownEvents` before the jobs run, `failureEvents` and `settleAll` after.
`watchedBy_evaluate` puts them together, and `evaluate_ends` says it for all observers at once;
nothing else has to look into `evaluate`. The `evaluated_eq_*_iff` are the ways it ends.
-/

namespace ShellPrompt

namespace Registry

def unknownEvents : List Slot → List Log.Event
  | [] => []
  | .unknown name :: rest => unknownEvent name :: unknownEvents rest
  | .disabled _ :: rest => unknownEvents rest
  | .runnable _ _ :: rest => unknownEvents rest

def failureEvents : List Slot → List ModuleResult → List Log.Event
  | [], _ => []
  | .unknown _ :: rest, results => failureEvents rest results
  | .disabled _ :: rest, results => failureEvents rest results
  | .runnable _ _ :: rest, [] => failureEvents rest []
  | .runnable m _ :: rest, .error failure :: results =>
    failedEvent m.name failure :: failureEvents rest results
  | .runnable _ _ :: rest, .ok _ :: results => failureEvents rest results

def settleAll : List Slot → List ModuleResult → List Outcome
  | [], _ => []
  | .unknown name :: rest, results => .unknown name :: settleAll rest results
  | .disabled name :: rest, results => .disabled name :: settleAll rest results
  | .runnable _ _ :: rest, [] => settleAll rest []
  | .runnable m settings :: rest, result :: results =>
    settled m.name settings result :: settleAll rest results

theorem run_logUnknown (slots : List Slot) (w : Observers) :
    (logUnknown slots).run w = ((), w.logAll (unknownEvents slots)) := by
  induction slots generalizing w with
  | nil => rfl
  | cons slot rest ih =>
    cases slot with
    | unknown name => exact ih (w.log (unknownEvent name))
    | disabled name => exact ih w
    | runnable m settings => exact ih w

theorem run_outcomes (slots : List Slot) (results : List ModuleResult) (w : Observers) :
    (outcomes slots results).run w =
      (settleAll slots results, w.logAll (failureEvents slots results)) := by
  induction slots generalizing results w with
  | nil => rfl
  | cons slot rest ih =>
    cases slot with
    | unknown name =>
      simp only [outcomes, StateT.run_bind, ih]
      rfl
    | disabled name =>
      simp only [outcomes, StateT.run_bind, ih]
      rfl
    | runnable m settings =>
      cases results with
      | nil => exact ih [] w
      | cons result results =>
        cases result with
        | ok found =>
          simp only [outcomes, settle, StateT.run_bind, StateT.run_pure, ih]
          rfl
        | error failure =>
          simp only [outcomes, settle, StateT.run_bind, ih]
          rfl

/-- The jobs of requested names. -/
def work (r : Registry) (names : List String) (s : Snapshot) : List Evaluation.Job :=
  jobs s (names.map r.slot)

theorem watchedBy_evaluate (r : Registry) (scheduler : Evaluation.Scheduler)
    (names : List String) (s : Snapshot) (o : Evaluation.Options) (token : Token)
    (w : Observers) :
    (r.evaluate scheduler names s o token).watchedBy w =
      let slots := names.map r.slot
      let started := w.logAll (unknownEvents slots)
      match Evaluation.evaluate o (r.work names s) token (scheduler o (r.work names s)) with
      | (none, _) => (.error .waits, started)
      | (some .cancelled, _) => (.error (.error .cancelled), started)
      | (some (.crashed c), _) => (.error (.crash c), started)
      | (some (.results results), after) =>
        (.ok (settleAll slots results, after), started.logAll (failureEvents slots results)) := by
  rw [evaluate, Render.watchedBy_watch_bind, run_logUnknown]
  simp only [work]
  generalize Evaluation.evaluate o (jobs s _) token _ = outcome
  rcases outcome with ⟨_ | _ | c | results, after⟩
  · rfl
  · rfl
  · rfl
  · rw [Render.watchedBy_watch_bind, run_outcomes]
    rfl

/-- How evaluating names ends, and what it tells. -/
def evaluated (r : Registry) (scheduler : Evaluation.Scheduler) (names : List String)
    (s : Snapshot) (o : Evaluation.Options) (token : Token) :
    Except Halt (List Outcome × Token) × List Note :=
  let slots := names.map r.slot
  let unknown := (unknownEvents slots).map Note.logged
  match Evaluation.evaluate o (r.work names s) token (scheduler o (r.work names s)) with
  | (none, _) => (.error .waits, unknown)
  | (some .cancelled, _) => (.error (.error .cancelled), unknown)
  | (some (.crashed c), _) => (.error (.crash c), unknown)
  | (some (.results results), after) =>
    (.ok (settleAll slots results, after),
      unknown ++ (failureEvents slots results).map Note.logged)

theorem evaluate_ends (r : Registry) (scheduler : Evaluation.Scheduler) (names : List String)
    (s : Snapshot) (o : Evaluation.Options) (token : Token) :
    (r.evaluate scheduler names s o token).Ends (r.evaluated scheduler names s o token).1
      (r.evaluated scheduler names s o token).2 := by
  intro w
  rw [watchedBy_evaluate, evaluated]
  rcases Evaluation.evaluate o (r.work names s) token (scheduler o (r.work names s)) with
    ⟨_ | _ | c | results, after⟩
  · rw [Observers.tellAll_logged]
  · rw [Observers.tellAll_logged]
  · rw [Observers.tellAll_logged]
  · rw [Observers.tellAll_append, Observers.tellAll_logged, Observers.tellAll_logged]

/-! ## Endings -/

section Endings

variable {r : Registry} {scheduler : Evaluation.Scheduler} {names : List String} {s : Snapshot}
  {o : Evaluation.Options} {token after : Token} {found : List Outcome}

theorem evaluated_eq_ok_iff :
    (r.evaluated scheduler names s o token).1 = .ok (found, after) ↔
      ∃ results, Evaluation.evaluate o (r.work names s) token (scheduler o (r.work names s)) =
          (some (.results results), after) ∧
        found = settleAll (names.map r.slot) results := by
  rw [evaluated]
  rcases Evaluation.evaluate o (r.work names s) token (scheduler o (r.work names s)) with
    ⟨_ | _ | c | results, after'⟩
  case some.results =>
    constructor
    · intro h
      cases h
      exact ⟨results, rfl, rfl⟩
    · rintro ⟨_, h, rfl⟩
      cases h
      rfl
  all_goals simp

theorem evaluated_eq_error_iff (e : PromptError) :
    (r.evaluated scheduler names s o token).1 = .error (.error e) ↔
      e = .cancelled ∧
        ∃ after, Evaluation.evaluate o (r.work names s) token (scheduler o (r.work names s)) =
          (some .cancelled, after) := by
  rw [evaluated]
  rcases Evaluation.evaluate o (r.work names s) token (scheduler o (r.work names s)) with
    ⟨_ | _ | c | results, after'⟩ <;> simp [eq_comm]

theorem evaluated_eq_crash_iff (c : Crash) :
    (r.evaluated scheduler names s o token).1 = .error (.crash c) ↔
      (Evaluation.evaluate o (r.work names s) token (scheduler o (r.work names s))).1 =
        some (.crashed c) := by
  rw [evaluated]
  rcases Evaluation.evaluate o (r.work names s) token (scheduler o (r.work names s)) with
    ⟨_ | _ | c' | results, after'⟩ <;> simp

theorem evaluated_eq_waits_iff :
    (r.evaluated scheduler names s o token).1 = .error .waits ↔
      (Evaluation.evaluate o (r.work names s) token (scheduler o (r.work names s))).1 = none := by
  rw [evaluated]
  rcases Evaluation.evaluate o (r.work names s) token (scheduler o (r.work names s)) with
    ⟨_ | _ | c | results, after'⟩ <;> simp

end Endings

end Registry
end ShellPrompt
