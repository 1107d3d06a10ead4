import ShellPrompt.Observers

/-!
# ShellPrompt.Proofs.Observers

Renders as functions of their observers.

* `Note`: one thing observers are told, by a log, an audit trail or counters. `Logger.foldl_log` and
  the `*_tellAll` say what each of them makes of many.
* `Render.watchedBy`: what a render ends with and the observers then; lemmas take it through
  sequencing, errors and recovery.
* `Render.Ends`: how a render ends and what it tells, whoever its observers are. `Render.Gives` is
  how it ends alone.
-/

namespace ShellPrompt

inductive Note where
  | logged (e : Log.Event)
  | audited (e : Audit.Event)
  | counted (f : Metrics → Metrics)

namespace Note

def logged? : Note → Option Log.Event
  | .logged e => some e
  | _ => none

def audited? : Note → Option Audit.Event
  | .audited e => some e
  | _ => none

def change? : Note → Option (Metrics → Metrics)
  | .counted f => some f
  | _ => none

theorem filterMap_map_logged {α : Type} {f : Note → Option α} (h : ∀ e, f (.logged e) = none)
    (events : List Log.Event) : (events.map logged).filterMap f = [] := by
  rw [List.filterMap_map, List.filterMap_eq_nil_iff]
  exact fun e _ => h e

theorem filterMap_logged_map_logged (events : List Log.Event) :
    (events.map logged).filterMap logged? = events := by
  rw [List.filterMap_map]
  exact List.filterMap_some

end Note

namespace Log

/-- An event as it is received. -/
def Event.stamped (clock : Nat) (e : Event) : Event := { e with tsMs := clock }

theorem Sink.foldl_record_memory (before events : List Event) :
    events.foldl Sink.record (.memory before) = .memory (before ++ events) := by
  induction events generalizing before with
  | nil => rw [List.append_nil]; rfl
  | cons e rest ih => exact (ih _).trans (by rw [List.append_assoc]; rfl)

/-- A logger hands on what is enabled. -/
theorem Logger.foldl_log (l : Logger) (events : List Event) :
    events.foldl Logger.log l =
      { l with sink := (events.filter fun e => l.enabled e.level).foldl Sink.record l.sink } := by
  induction events generalizing l with
  | nil => rfl
  | cons e rest ih =>
    rw [List.foldl_cons, ih, Logger.log]
    split
    case isTrue h =>
      rw [List.filter_cons, if_pos h]
      rfl
    case isFalse h => rw [List.filter_cons, if_neg h]

theorem Logger.foldl_log_memory (before events : List Event) (level : Level) :
    events.foldl Logger.log ⟨.memory before, level⟩ =
      ⟨.memory (before ++ events.filter fun e => level.rank ≤ e.level.rank), level⟩ := by
  rw [Logger.foldl_log, Sink.foldl_record_memory]
  rfl

/-- Nothing is below the lowest level. -/
theorem filter_trace (events : List Event) :
    (events.filter fun e => Level.trace.rank ≤ e.level.rank) = events :=
  List.filter_eq_self.2 fun _ _ => decide_eq_true (Nat.zero_le _)

end Log

namespace Observers

def logAll (w : Observers) (events : List Log.Event) : Observers := events.foldl Observers.log w

@[simp] theorem logAll_nil (w : Observers) : w.logAll [] = w := rfl

@[simp] theorem logAll_cons (w : Observers) (e : Log.Event) (rest : List Log.Event) :
    w.logAll (e :: rest) = (w.log e).logAll rest := rfl

def tell (w : Observers) : Note → Observers
  | .logged e => w.log e
  | .audited e => w.record e
  | .counted f => w.count f

def tellAll (w : Observers) (notes : List Note) : Observers := notes.foldl tell w

@[simp] theorem tellAll_nil (w : Observers) : w.tellAll [] = w := rfl

@[simp] theorem tellAll_cons (w : Observers) (n : Note) (rest : List Note) :
    w.tellAll (n :: rest) = (w.tell n).tellAll rest := rfl

theorem tellAll_append (w : Observers) (a b : List Note) :
    w.tellAll (a ++ b) = (w.tellAll a).tellAll b := List.foldl_append ..

theorem tellAll_logged (w : Observers) (events : List Log.Event) :
    w.tellAll (events.map .logged) = w.logAll events := List.foldl_map ..

theorem run_forM {α : Type} (f : α → Watch Unit) (note : α → Note)
    (hf : ∀ a w, (f a).run w = ((), tell w (note a))) (xs : List α) (w : Observers) :
    (xs.forM f).run w = ((), w.tellAll (xs.map note)) := by
  induction xs generalizing w with
  | nil => rfl
  | cons a rest ih =>
    rw [List.forM, StateT.run_bind, hf]
    exact ih _

end Observers

namespace Metrics

def countAll (m : Metrics) (notes : List Note) : Metrics :=
  (notes.filterMap Note.change?).foldl (fun m f => f m) m

@[simp] theorem countAll_nil (m : Metrics) : m.countAll [] = m := rfl

theorem countAll_append (m : Metrics) (a b : List Note) :
    m.countAll (a ++ b) = (m.countAll a).countAll b := by
  rw [countAll, List.filterMap_append, List.foldl_append]
  rfl

theorem countAll_eq_self {notes : List Note} (h : ∀ n ∈ notes, n.change? = none) (m : Metrics) :
    m.countAll notes = m := by
  rw [countAll, List.filterMap_eq_nil_iff.2 h]
  rfl

theorem countAll_map_logged (m : Metrics) (events : List Log.Event) :
    m.countAll (events.map .logged) = m := by
  refine countAll_eq_self (fun n hn => ?_) m
  obtain ⟨e, -, rfl⟩ := List.mem_map.1 hn
  rfl

end Metrics

namespace Observers

theorem audit_tellAll (w : Observers) (notes : List Note) :
    (w.tellAll notes).audit = w.audit.map (· ++ notes.filterMap Note.audited?) := by
  induction notes generalizing w with
  | nil => simp
  | cons n rest ih =>
    rw [tellAll_cons, ih]
    cases n with
    | audited e => cases ha : w.audit <;> simp [tell, record, ha, Note.audited?]
    | logged e => rfl
    | counted f => rfl

theorem logger_logAll (w : Observers) (events : List Log.Event) :
    (w.logAll events).logger = w.logger.map fun l =>
      (events.map (Log.Event.stamped w.clock)).foldl Log.Logger.log l := by
  induction events generalizing w with
  | nil => exact (congrFun Option.map_id w.logger).symm
  | cons e rest ih =>
    rw [logAll_cons, ih]
    exact Option.map_map ..

/-- What a logger gets depends on the other observers only through the time it is told at. -/
theorem logger_logAll_congr {v w : Observers} (hlogger : v.logger = w.logger)
    (hclock : v.clock = w.clock) (events : List Log.Event) :
    (v.logAll events).logger = (w.logAll events).logger := by
  rw [logger_logAll, logger_logAll, hlogger, hclock]

theorem logger_tellAll (w : Observers) (notes : List Note) :
    (w.tellAll notes).logger = (w.logAll (notes.filterMap Note.logged?)).logger := by
  induction notes generalizing w with
  | nil => rfl
  | cons n rest ih =>
    rw [tellAll_cons, ih]
    cases n with
    | logged e => rfl
    | audited e => exact logger_logAll_congr (v := w.record e) (w := w) rfl rfl _
    | counted f => exact logger_logAll_congr (v := w.count f) (w := w) rfl rfl _

theorem metrics_tellAll (w : Observers) (notes : List Note) :
    (w.tellAll notes).metrics = w.metrics.map (·.countAll notes) := by
  induction notes generalizing w with
  | nil => simp
  | cons n rest ih =>
    rw [tellAll_cons, ih]
    cases n with
    | logged e => rfl
    | audited e => rfl
    | counted f => cases hm : w.metrics <;> simp [tell, count, hm, Metrics.countAll, Note.change?]

end Observers

namespace Render

variable {α β : Type}

def watchedBy (x : Render α) (w : Observers) : Except Halt α × Observers := x.run.run w

/-- What only talks to the observers does not end a render. -/
@[simp] theorem watchedBy_watch_bind (x : Watch α) (f : α → Render β) (w : Observers) :
    (liftM x >>= f).watchedBy w = (f (x.run w).1).watchedBy (x.run w).2 := rfl

theorem watchedBy_bind (x : Render α) (f : α → Render β) (w : Observers) :
    (x >>= f).watchedBy w =
      match x.watchedBy w with
      | (.ok a, w') => (f a).watchedBy w'
      | (.error h, w') => (.error h, w') := by
  show (ExceptT.run (x >>= f)).run w = _
  rw [ExceptT.run_bind]
  simp only [watchedBy, StateT.run_bind]
  rcases hx : StateT.run x.run w with ⟨a | a, w'⟩ <;> rfl

theorem watchedBy_recover (x : Render α) (f : PromptError → Render α) (w : Observers) :
    (recover x f).watchedBy w =
      match x.watchedBy w with
      | (.error (.error e), w') => (f e).watchedBy w'
      | r => r := by
  simp only [watchedBy, recover, ExceptT.run_tryCatch, StateT.run_bind]
  rcases StateT.run x.run w with ⟨(e | c | _) | a, w'⟩ <;> rfl

def Ends (x : Render α) (result : Except Halt α) (notes : List Note) : Prop :=
  ∀ w, x.watchedBy w = (result, w.tellAll notes)

namespace Ends

variable {x : Render α} {f : α → Render β} {a : α} {h : Halt} {result : Except Halt α}
  {final : Except Halt β} {notes rest : List Note}

theorem pure (a : α) : (pure a : Render α).Ends (.ok a) [] := fun _ => rfl

theorem bind (hx : x.Ends (.ok a) notes) (hf : (f a).Ends final rest) :
    (x >>= f).Ends final (notes ++ rest) := by
  intro w
  rw [watchedBy_bind, hx w]
  exact (hf _).trans (by rw [Observers.tellAll_append])

theorem bind_error (hx : x.Ends (.error h) notes) (f : α → Render β) :
    (x >>= f).Ends (.error h) notes := by
  intro w
  rw [watchedBy_bind, hx w]

theorem watch {γ : Type} {y : Watch γ} {c : γ} {g : γ → Render β}
    (hy : ∀ w, y.run w = (c, w.tellAll notes)) (hg : (g c).Ends final rest) :
    (liftM y >>= g).Ends final (notes ++ rest) := by
  intro w
  rw [watchedBy_watch_bind, hy w]
  exact (hg _).trans (by rw [Observers.tellAll_append])

theorem forM {γ : Type} (y : γ → Watch Unit) (note : γ → Note)
    (hy : ∀ c w, (y c).run w = ((), Observers.tell w (note c))) (xs : List γ) :
    (xs.forM fun c => (liftM (y c) : Render Unit)).Ends (.ok ()) (xs.map note) := by
  induction xs with
  | nil => exact .pure ()
  | cons c rest ih => exact watch (show ∀ w, (y c).run w = ((), w.tellAll [note c]) from hy c) ih

theorem recover_ok (hx : x.Ends (.ok a) notes) (f : PromptError → Render α) :
    (recover x f).Ends (.ok a) notes := by
  intro w
  rw [watchedBy_recover, hx w]

/-- What is no reported error is not recovered from. -/
theorem recover_halt (hx : x.Ends (.error h) notes) (hh : ∀ e, h ≠ .error e)
    (f : PromptError → Render α) : (recover x f).Ends (.error h) notes := by
  intro w
  rw [watchedBy_recover, hx w]
  cases h with
  | error e => exact absurd rfl (hh e)
  | crash c => rfl
  | waits => rfl

theorem recover_error {e : PromptError} {g : PromptError → Render α}
    (hx : x.Ends (.error (.error e)) notes) (hg : (g e).Ends result rest) :
    (recover x g).Ends result (notes ++ rest) := by
  intro w
  rw [watchedBy_recover, hx w]
  exact (hg _).trans (by rw [Observers.tellAll_append])

theorem result_eq (hx : x.Ends result notes) {w w' : Observers} {other : Except Halt α}
    (h : x.watchedBy w = (other, w')) : other = result ∧ w' = w.tellAll notes := by
  rw [hx w] at h
  cases h
  exact ⟨rfl, rfl⟩

end Ends

def Gives (x : Render α) (result : Except Halt α) : Prop := ∀ w, (x.watchedBy w).1 = result

namespace Gives

variable {x : Render α} {f : α → Render β} {a : α} {final : Except Halt β}

theorem bind (hx : x.Gives (.ok a)) (hf : (f a).Gives final) : (x >>= f).Gives final := by
  intro w
  have hw : x.watchedBy w = (.ok a, (x.watchedBy w).2) := Prod.ext (hx w) rfl
  rw [watchedBy_bind, hw]
  exact hf _

theorem unique {r r' : Except Halt α} (h : x.Gives r) (h' : x.Gives r') : r = r' :=
  (h {}).symm.trans (h' {})

theorem recover_ok (hx : x.Gives (.ok a)) (f : PromptError → Render α) :
    (recover x f).Gives (.ok a) := by
  intro w
  have hw : x.watchedBy w = (.ok a, (x.watchedBy w).2) := Prod.ext (hx w) rfl
  rw [watchedBy_recover, hw]

end Gives

theorem Ends.gives {x : Render α} {result : Except Halt α} {notes : List Note}
    (hx : x.Ends result notes) : x.Gives result := fun w => by rw [hx w]

theorem Ends.gives_iff {x : Render α} {result other : Except Halt α} {notes : List Note}
    (hx : x.Ends result notes) : x.Gives other ↔ result = other :=
  ⟨hx.gives.unique, fun h => h ▸ hx.gives⟩

end Render
end ShellPrompt
