import ShellPrompt.Proofs.Pipeline.Calls
import ShellPrompt.Proofs.Pipeline.Cancellation
import ShellPrompt.Proofs.Pipeline.Trail

/-!
# ShellPrompt.Proofs.Pipeline.Accounts

Counters, audit trail and log of a pipeline tell one story.

* `Totals`: counts without a limit. Counters show them as far as they go (`Totals.shown`).
* `Totals.Accounts`: totals, an audit trail and a log that agree. Accounts add up.
* `Balanced`: notes that keep the three in agreement. All parts of calls are (`balanced_part`).
* `accounts_of_session`: any calls of a pipeline that was built under fresh observers.
-/

namespace ShellPrompt

namespace Counter

/-- A counter of so many things. -/
def upTo (n : Nat) : Counter where
  value := min n max
  value_le := Nat.min_le_right _ _

theorem add_upTo (n k : Nat) : (upTo n).add k = upTo (n + k) := by
  apply eq_of_value_eq
  simp only [value_add, upTo]
  omega

theorem value_upTo {n : Nat} (h : (upTo n).value < max) : (upTo n).value = n := by
  simp only [upTo] at h ⊢
  omega

end Counter

namespace Audit.Event

/-- The modules of fragments that a fitted line went without. -/
def dropped (e : Event) : List Json.Value :=
  match e.stage, e.detail? "dropped" with
  | .layoutComposed, some (.array items) => items
  | _, _ => []

def overflows (e : Event) : Bool :=
  match e.stage, e.detail? "overflow" with
  | .layoutComposed, some (.bool b) => b
  | _, _ => false

end Audit.Event

structure Totals where
  renders : Nat := 0
  cancelled : Nat := 0
  rendered : Nat := 0
  failed : Nat := 0
  timedOut : Nat := 0
  dropped : Nat := 0
  overflow : Nat := 0

namespace Totals

def add (a b : Totals) : Totals where
  renders := a.renders + b.renders
  cancelled := a.cancelled + b.cancelled
  rendered := a.rendered + b.rendered
  failed := a.failed + b.failed
  timedOut := a.timedOut + b.timedOut
  dropped := a.dropped + b.dropped
  overflow := a.overflow + b.overflow

theorem add_assoc (a b c : Totals) : (a.add b).add c = a.add (b.add c) := by
  simp only [add, Nat.add_assoc]

/-- Counters that have counted so much. -/
def shown (t : Totals) : Metrics where
  renders := .upTo t.renders
  cancelled := .upTo t.cancelled
  modulesRendered := .upTo t.rendered
  moduleFailures := .upTo t.failed
  moduleTimeouts := .upTo t.timedOut
  fragmentsDropped := .upTo t.dropped
  overflowLines := .upTo t.overflow

/-- Totals that an audit trail and a log bear out. -/
structure Accounts (t : Totals) (trail : List Audit.Event) (events : List Log.Event) : Prop where
  renders : t.renders = trail.countP fun e => e.stage = .renderCommitted
  cancelled : t.cancelled = trail.countP fun e => e.stage = .renderCancelled
  rendered : t.rendered = trail.countP fun e => e.stage = .moduleRendered
  failures : t.failed + t.timedOut = trail.countP fun e => e.stage = .moduleFailed
  failuresLogged : t.failed + t.timedOut = events.countP fun e => e.message = "module_failed"
  dropped : t.dropped = (trail.flatMap Audit.Event.dropped).length
  overflow : t.overflow = trail.countP Audit.Event.overflows
  overflowLogged : t.overflow = events.countP fun e => e.message = "width_overflow"
  lost : t.dropped + t.overflow ≤ t.rendered

theorem Accounts.nil : Accounts {} [] [] := by
  constructor <;> decide

variable {t u : Totals} {trail trail₂ : List Audit.Event} {events events₂ : List Log.Event}

theorem Accounts.append (h : t.Accounts trail events) (h₂ : u.Accounts trail₂ events₂) :
    (t.add u).Accounts (trail ++ trail₂) (events ++ events₂) := by
  constructor
  case renders => rw [List.countP_append, ← h.renders, ← h₂.renders]; rfl
  case cancelled => rw [List.countP_append, ← h.cancelled, ← h₂.cancelled]; rfl
  case rendered => rw [List.countP_append, ← h.rendered, ← h₂.rendered]; rfl
  case failures =>
    rw [List.countP_append, ← h.failures, ← h₂.failures]
    exact Nat.add_add_add_comm ..
  case failuresLogged =>
    rw [List.countP_append, ← h.failuresLogged, ← h₂.failuresLogged]
    exact Nat.add_add_add_comm ..
  case dropped => rw [List.flatMap_append, List.length_append, ← h.dropped, ← h₂.dropped]; rfl
  case overflow => rw [List.countP_append, ← h.overflow, ← h₂.overflow]; rfl
  case overflowLogged =>
    rw [List.countP_append, ← h.overflowLogged, ← h₂.overflowLogged]
    rfl
  case lost =>
    have hfirst := h.lost
    have hsecond := h₂.lost
    simp only [add]
    omega

/-- The time of an event is of no account. -/
theorem Accounts.stamped (h : t.Accounts trail events) (clock : Nat) :
    t.Accounts trail (events.map (Log.Event.stamped clock)) :=
  { h with
    failuresLogged := by rw [List.countP_map]; exact h.failuresLogged
    overflowLogged := by rw [List.countP_map]; exact h.overflowLogged }

end Totals

/-! ## Notes -/

/-- Notes that tell all observers the same. -/
def Balanced (notes : List Note) : Prop :=
  ∃ t : Totals, (∀ u : Totals, u.shown.countAll notes = (u.add t).shown) ∧
    t.Accounts (notes.filterMap Note.audited?) (notes.filterMap Note.logged?)

namespace Balanced

variable {a b : List Note}

theorem nil : Balanced [] := ⟨{}, fun _ => rfl, .nil⟩

theorem append (ha : Balanced a) (hb : Balanced b) : Balanced (a ++ b) := by
  obtain ⟨t, hcount, hacc⟩ := ha
  obtain ⟨t₂, hcount₂, hacc₂⟩ := hb
  refine ⟨t.add t₂, ?_, ?_⟩
  · intro u
    rw [Metrics.countAll_append, hcount, hcount₂, Totals.add_assoc]
  · rw [List.filterMap_append, List.filterMap_append]
    exact hacc.append hacc₂

theorem flatMap {α : Type} {f : α → List Note} {xs : List α} (h : ∀ x ∈ xs, Balanced (f x)) :
    Balanced (xs.flatMap f) := by
  induction xs with
  | nil => exact .nil
  | cons x rest ih =>
    obtain ⟨hx, hrest⟩ := List.forall_mem_cons.1 h
    rw [List.flatMap_cons]
    exact hx.append (ih hrest)

/-- Events that count for nothing. -/
theorem logged {events : List Log.Event}
    (h : ∀ e ∈ events, e.message ≠ "module_failed" ∧ e.message ≠ "width_overflow") :
    Balanced (events.map .logged) := by
  refine ⟨{}, fun u => Metrics.countAll_map_logged u.shown events, ?_⟩
  rw [Note.filterMap_map_logged fun _ => rfl, Note.filterMap_logged_map_logged]
  exact { Totals.Accounts.nil with
    failuresLogged := Eq.symm <| List.countP_eq_zero.2 fun e he => by simp [(h e he).1]
    overflowLogged := Eq.symm <| List.countP_eq_zero.2 fun e he => by simp [(h e he).2] }

end Balanced

namespace Pipeline

variable {p : Pipeline} {s : Snapshot}

/-! ## Blocks -/

def Block.totals (p : Pipeline) (s : Snapshot) (b : Block) : Totals where
  rendered := b.found.countP fun o => o.fragment?.isSome
  failed := b.found.countP fun o => o.isFailure && !o.isTimeout
  timedOut := b.found.countP Outcome.isTimeout
  dropped := (b.line p s).dropped.length
  overflow := if (b.line p s).overflow then 1 else 0

/-- What is logged of a line. -/
def lineEvents (t : Target) (line : Layout.Line) : List Log.Event :=
  (if line.overflow then [event .warn "width_overflow"
    [("target", .string t.name), ("width", .nat line.width)]] else []) ++
  (if line.dropped.isEmpty then [] else [event .debug "fragments_dropped"
    [("target", .string t.name), ("modules", .strings line.dropped)]])

theorem filterMap_logged_block (b : Block) :
    (b.notes p s).filterMap Note.logged? =
      p.registry.events (p.config.modulesFor b.target) b.found ++
        lineEvents b.target (b.line p s) := by
  have houtcomes : (outcomeNotes b.found).filterMap Note.logged? = [] := by
    rw [outcomeNotes, List.filterMap_append, List.filterMap_map]
    exact List.append_eq_nil_iff.2 ⟨List.filterMap_eq_nil_iff.2 fun _ _ => rfl, rfl⟩
  have hline : (lineNotes b.target (b.line p s)).filterMap Note.logged? =
      lineEvents b.target (b.line p s) := by
    unfold lineNotes lineEvents
    cases (b.line p s).overflow <;> cases (b.line p s).dropped.isEmpty <;> rfl
  rw [Block.notes, targetNotes, List.filterMap_append, List.filterMap_append,
    Note.filterMap_logged_map_logged, houtcomes, List.nil_append]
  exact congrArg (_ ++ ·) hline

theorem countP_isFailure (found : List Outcome) :
    (found.countP fun o => o.isFailure && !o.isTimeout) + found.countP Outcome.isTimeout =
      found.countP Outcome.isFailure := by
  induction found with
  | nil => rfl
  | cons o rest ih =>
    rw [List.countP_cons, List.countP_cons, List.countP_cons, ← ih]
    rcases o with f | name | name | name | failure
    case failed => cases failure <;> simp [Outcome.isFailure, Outcome.isTimeout] <;> omega
    all_goals rfl

theorem countP_fragment (found : List Outcome) :
    (found.countP fun o => o.fragment?.isSome) = (found.filterMap Outcome.fragment?).length :=
  List.length_filterMap_eq_countP.symm

section Trail

variable (stage : Audit.Stage) (counts : Outcome → Bool) (b : Block)

/-- Events of a stage in a block are those of its modules, unless the stage is that of the line. -/
theorem countP_trail (hmodule : ∀ o, decide ((moduleEvent o).stage = stage) = counts o)
    (hline : stage ≠ .layoutComposed) :
    ((b.trail p s).countP fun e => e.stage = stage) = b.found.countP counts := by
  have hlast : ([layoutEvent b.target (b.line p s)].countP fun e => e.stage = stage) = 0 := by
    rw [List.countP_singleton, if_neg]
    exact fun h => hline (of_decide_eq_true h).symm
  rw [Block.trail, List.countP_append, List.countP_map, hlast, Nat.add_zero]
  exact congrArg (b.found.countP ·) (funext hmodule)

end Trail

theorem dropped_trail (b : Block) :
    ((b.trail p s).flatMap Audit.Event.dropped).length = (b.line p s).dropped.length := by
  have hmodules : (b.found.map moduleEvent).flatMap Audit.Event.dropped = [] := by
    rw [List.flatMap_map, List.flatMap_eq_nil_iff]
    intro o _
    cases o <;> rfl
  rw [Block.trail, List.flatMap_append, hmodules, List.nil_append, List.flatMap_singleton]
  exact List.length_map _

theorem overflows_trail (b : Block) :
    (b.trail p s).countP Audit.Event.overflows = if (b.line p s).overflow then 1 else 0 := by
  have hmodules : (b.found.map moduleEvent).countP Audit.Event.overflows = 0 := by
    rw [List.countP_map, List.countP_eq_zero]
    intro o _
    cases o <;> exact Bool.false_ne_true
  rw [Block.trail, List.countP_append, hmodules, Nat.zero_add, List.countP_singleton]
  rfl

/-- Failures are logged as often as there are some, if each name has an outcome. -/
theorem countP_failureEvents {names : List String} {found : List Outcome}
    (h : names.length = found.length) :
    (((names.zip found).filterMap Registry.failureEvent?).countP
      fun e => e.message = "module_failed") = found.countP Outcome.isFailure := by
  induction found generalizing names with
  | nil => rw [List.zip_nil_right]; rfl
  | cons o rest ih =>
    cases names with
    | nil => cases h
    | cons name names =>
      have hrest := ih (Nat.succ.inj h)
      rw [List.zip_cons_cons, List.countP_cons]
      rcases o with f | n | n | n | failure
      case failed =>
        rw [List.filterMap_cons_some (show Registry.failureEvent? (name, .failed failure) =
          some (Registry.failedEvent name failure) from rfl), List.countP_cons, hrest]
        rfl
      all_goals
        rw [List.filterMap_cons_none rfl, hrest]
        rfl

theorem countP_events {r : Registry} {names : List String} {found : List Outcome}
    (h : names.length = found.length) :
    ((r.events names found).countP fun e => e.message = "module_failed") =
        found.countP Outcome.isFailure ∧
      ((r.events names found).countP fun e => e.message = "width_overflow") = 0 := by
  have hunknown : ∀ message : String, "module_unknown" ≠ message →
      (((names.filter fun name => !r.contains name).map Registry.unknownEvent).countP
        fun e => e.message = message) = 0 := by
    intro message hother
    rw [List.countP_map, List.countP_eq_zero]
    exact fun _ _ h => hother (of_decide_eq_true h)
  constructor
  · rw [Registry.events, List.countP_append, hunknown _ (by decide), countP_failureEvents h,
      Nat.zero_add]
  · rw [Registry.events, List.countP_append, hunknown _ (by decide), Nat.zero_add,
      List.countP_eq_zero]
    intro e he
    obtain ⟨⟨name, o⟩, -, ho⟩ := List.mem_filterMap.1 he
    cases o with
    | failed failure =>
      obtain rfl := Option.some.inj ho
      exact fun h => absurd (of_decide_eq_true h)
        (show "module_failed" ≠ "width_overflow" by decide)
    | _ => cases ho

theorem countP_lineEvents (t : Target) (line : Layout.Line) :
    ((lineEvents t line).countP fun e => e.message = "module_failed") = 0 ∧
      ((lineEvents t line).countP fun e => e.message = "width_overflow") =
        if line.overflow then 1 else 0 := by
  unfold lineEvents
  cases line.overflow <;> cases line.dropped.isEmpty <;> exact ⟨rfl, rfl⟩

theorem accounts_block {b : Block} (h : b.Sound p s) :
    (b.totals p s).Accounts (b.trail p s)
      (p.registry.events (p.config.modulesFor b.target) b.found ++
        lineEvents b.target (b.line p s)) := by
  obtain ⟨hfailed, hnone⟩ := countP_events (r := p.registry) h.length_eq
  obtain ⟨hnone', hover⟩ := countP_lineEvents b.target (b.line p s)
  constructor
  case renders =>
    rw [countP_trail _ (fun _ => false) b (by rintro ⟨⟩ <;> rfl) (by decide), List.countP_false]
    rfl
  case cancelled =>
    rw [countP_trail _ (fun _ => false) b (by rintro ⟨⟩ <;> rfl) (by decide), List.countP_false]
    rfl
  case rendered =>
    rw [countP_trail _ (fun o => o.fragment?.isSome) b (by rintro ⟨⟩ <;> rfl) (by decide)]
    rfl
  case failures =>
    rw [countP_trail _ Outcome.isFailure b (by rintro ⟨⟩ <;> rfl) (by decide)]
    exact countP_isFailure b.found
  case failuresLogged =>
    rw [List.countP_append, hfailed, hnone']
    exact countP_isFailure b.found
  case dropped => rw [dropped_trail]; rfl
  case overflow => rw [overflows_trail]; rfl
  case overflowLogged => rw [List.countP_append, hnone, hover, Nat.zero_add]; rfl
  case lost =>
    -- what is dropped or too wide was rendered before
    have hle := Layout.dropped_add_overflow_le p.config.separator
      (b.found.filterMap Outcome.fragment?) s.termWidth
    rwa [← countP_fragment] at hle

theorem countAll_notes (b : Block) (u : Totals) :
    u.shown.countAll (b.notes p s) = (u.add (b.totals p s)).shown := by
  rw [Block.notes, Metrics.countAll_append, Metrics.countAll_map_logged, countAll_targetNotes]
  unfold tally Block.totals Block.line
  simp only [Totals.shown, Totals.add, Metrics.recordModules, Metrics.recordLayout,
    Counter.add_upTo]
  split <;> rfl

theorem balanced_block {b : Block} (h : b.Sound p s) : Balanced (b.notes p s) := by
  refine ⟨b.totals p s, countAll_notes b, ?_⟩
  rw [filterMap_audited_block, filterMap_logged_block]
  exact accounts_block h

/-! ## Calls -/

theorem recordRender_shown (u : Totals) :
    u.shown.recordRender = (u.add { renders := 1 }).shown := by
  simp only [Metrics.recordRender, Totals.shown, Totals.add, Counter.add_upTo, Nat.add_zero]

theorem recordCancelled_shown (u : Totals) :
    u.shown.recordCancelled = (u.add { cancelled := 1 }).shown := by
  simp only [Metrics.recordCancelled, Totals.shown, Totals.add, Counter.add_upTo, Nat.add_zero]

theorem balanced_part {part : Part} (h : part.Sound p s) : Balanced (part.notes p s) := by
  cases part with
  | started => exact ⟨{}, fun _ => rfl, by constructor <;> rfl⟩
  | block b => exact balanced_block h
  | stopped t =>
    refine Balanced.logged fun e he => ?_
    obtain ⟨name, -, rfl⟩ := List.mem_map.1 he
    exact ⟨show "module_unknown" ≠ _ by decide, show "module_unknown" ≠ _ by decide⟩
  | committed lines =>
    exact ⟨{ renders := 1 }, recordRender_shown, by constructor <;> rfl⟩
  | cancelled => exact ⟨{ cancelled := 1 }, recordCancelled_shown, by constructor <;> rfl⟩
  | failed e => exact ⟨{}, fun _ => rfl, by constructor <;> rfl⟩

theorem balanced_call (p : Pipeline) (plan : Plan) (c : Call) :
    ∃ result notes, (c.run p plan).Ends result notes ∧ Balanced notes := by
  obtain ⟨blocks, stop, h⟩ := p.exists_goes plan c.snapshot c.targets c.token
  refine ⟨_, _, Call.ends h, Balanced.flatMap fun part hpart => ?_⟩
  exact balanced_part (Call.sound_parts h.sound part hpart)

theorem balanced_build (config : Config) (registry : Option Registry) :
    ∃ result notes, (build config registry).Ends result notes ∧ Balanced notes := by
  rcases h : Style.Sheet.withOverrides config.styles with c | ⟨sheet, errors⟩
  · exact ⟨_, [], build_crashed h registry, .nil⟩
  · have hends := build_ok h registry
    have hnotes : errors.map (fun e => Note.logged (styleEvent e)) =
        (errors.map styleEvent).map .logged := List.map_map.symm
    rw [hnotes] at hends
    refine ⟨_, _, hends, Balanced.logged fun e he => ?_⟩
    obtain ⟨error, -, rfl⟩ := List.mem_map.1 he
    exact ⟨show "style_invalid" ≠ _ by decide, show "style_invalid" ≠ _ by decide⟩

end Pipeline

namespace Observers

/-- All observers are there, the log takes every event, and they agree. -/
def InAccord (w : Observers) : Prop :=
  ∃ (t : Totals) (trail : List Audit.Event) (events : List Log.Event),
    w.metrics = some t.shown ∧ w.audit = some trail ∧
      w.logger = some ⟨.memory events, .trace⟩ ∧ t.Accounts trail events

theorem InAccord.tellAll {w : Observers} {notes : List Note} (h : w.InAccord)
    (hnotes : Balanced notes) : (w.tellAll notes).InAccord := by
  obtain ⟨t, trail, events, hmetrics, haudit, hlogger, hacc⟩ := h
  obtain ⟨t₂, hcount, hacc₂⟩ := hnotes
  refine ⟨_, _, _, ?metrics, ?audit, ?logger, hacc.append (hacc₂.stamped w.clock)⟩
  case metrics => rw [metrics_tellAll, hmetrics, Option.map_some, hcount]
  case audit => rw [audit_tellAll, haudit, Option.map_some]
  case logger =>
    rw [logger_tellAll, logger_logAll, hlogger, Option.map_some, Log.Logger.foldl_log_memory,
      Log.filter_trace]

/-- Observers that know of nothing yet. -/
def fresh (clock : Nat) : Observers where
  logger := some ⟨.memory [], .trace⟩
  audit := some []
  metrics := some {}
  clock := clock

theorem inAccord_fresh (clock : Nat) : (fresh clock).InAccord :=
  ⟨{}, [], [], rfl, rfl, rfl, .nil⟩

end Observers

namespace Pipeline

/-- Calls one after the other, each at a time and under a plan of its own. -/
def session (p : Pipeline) (w : Observers) (calls : List (Nat × Plan × Call)) : Observers :=
  calls.foldl (fun w c => ((c.2.2.run p c.2.1).watchedBy { w with clock := c.1 }).2) w

theorem inAccord_call {w : Observers} (h : w.InAccord) (p : Pipeline) (plan : Plan) (c : Call) :
    ((c.run p plan).watchedBy w).2.InAccord := by
  obtain ⟨result, notes, hends, hnotes⟩ := balanced_call p plan c
  rw [hends w]
  exact h.tellAll hnotes

theorem inAccord_session {w : Observers} (h : w.InAccord) (p : Pipeline)
    (calls : List (Nat × Plan × Call)) : (p.session w calls).InAccord := by
  induction calls generalizing w with
  | nil => exact h
  | cons c rest ih => exact ih (inAccord_call (w := { w with clock := c.1 }) h p c.2.1 c.2.2)

/-- Counters, audit trail and log of a pipeline agree after any `session`, if they were there and
empty when it was built. Trail and log tell of as many failures and of as many lines that are too
wide, and as long as no counter is full the counters show what they tell of. More fragments than
were rendered are never dropped or too wide. -/
theorem accounts_of_session {config : Config} {registry : Option Registry} {clock : Nat}
    {p : Pipeline} {w : Observers}
    (hbuild : (build config registry).watchedBy (.fresh clock) = (.ok p, w))
    (calls : List (Nat × Plan × Call)) :
    ∃ (m : Metrics) (trail : List Audit.Event) (events : List Log.Event),
      (p.session w calls).metrics = some m ∧
      (p.session w calls).audit = some trail ∧
      (p.session w calls).logger = some ⟨.memory events, .trace⟩ ∧
      (trail.countP fun e => e.stage = .moduleFailed) =
        (events.countP fun e => e.message = "module_failed") ∧
      trail.countP Audit.Event.overflows =
        (events.countP fun e => e.message = "width_overflow") ∧
      ((∀ c ∈ m.counts, c.2 < Counter.max) →
        m.modulesRendered.value = (trail.countP fun e => e.stage = .moduleRendered) ∧
        m.moduleFailures.value + m.moduleTimeouts.value =
          (trail.countP fun e => e.stage = .moduleFailed) ∧
        m.fragmentsDropped.value = (trail.flatMap Audit.Event.dropped).length ∧
        m.overflowLines.value = trail.countP Audit.Event.overflows ∧
        m.renders.value = (trail.countP fun e => e.stage = .renderCommitted) ∧
        m.cancelled.value = (trail.countP fun e => e.stage = .renderCancelled) ∧
        m.fragmentsDropped.value + m.overflowLines.value ≤ m.modulesRendered.value) ∧
      min (m.fragmentsDropped.value + m.overflowLines.value) Counter.max ≤
        m.modulesRendered.value := by
  have hstart : w.InAccord := by
    obtain ⟨result, notes, hends, hnotes⟩ := balanced_build config registry
    obtain ⟨-, rfl⟩ := hends.result_eq hbuild
    exact (Observers.inAccord_fresh clock).tellAll hnotes
  obtain ⟨t, trail, events, hmetrics, haudit, hlogger, hacc⟩ := inAccord_session hstart p calls
  refine ⟨t.shown, trail, events, hmetrics, haudit, hlogger,
    hacc.failures.symm.trans hacc.failuresLogged, hacc.overflow.symm.trans hacc.overflowLogged,
    ?counted, ?lost⟩
  case counted =>
    intro hopen
    simp only [Metrics.counts, List.forall_mem_cons, Totals.shown] at hopen
    obtain ⟨hrenders, hcancelled, hrendered, hfailed, htimedOut, hdropped, hoverflow, -⟩ := hopen
    simp only [Totals.shown, Counter.value_upTo hrenders, Counter.value_upTo hcancelled,
      Counter.value_upTo hrendered, Counter.value_upTo hfailed, Counter.value_upTo htimedOut,
      Counter.value_upTo hdropped, Counter.value_upTo hoverflow]
    exact ⟨hacc.rendered, hacc.failures, hacc.dropped, hacc.overflow, hacc.renders,
      hacc.cancelled, hacc.lost⟩
  case lost =>
    have hle := hacc.lost
    simp only [Totals.shown, Counter.upTo]
    omega

/-- Whatever its styles and its digest are, the pipeline is interrupted behind its left line. -/
theorem metrics_interrupted (sheet : Style.Sheet) (digest : String) {w : Observers}
    (hw : w.metrics = some {}) :
    let p : Pipeline := { interrupted with sheet := sheet, digest := digest }
    (p.session w [(1, eager, .renderWithCancel ⟨{}, by decide⟩ (.shared false))]).metrics =
      some interruptedCounts := by
  intro p
  have hleft : (interrupted.evaluated Evaluation.eager .left ⟨{}, by decide⟩ (.shared false)).1 =
      .ok (interruptedFound, .shared false) := by rfl
  have hright : (interrupted.evaluated Evaluation.eager .right ⟨{}, by decide⟩ (.shared false)).1 =
      .error (.error .cancelled) := by rfl
  have hgoes : p.Goes eager ⟨{}, by decide⟩ Target.all (.shared false)
      [⟨.left, interruptedFound⟩] (some (.right, .error .cancelled)) :=
    .block (List.cons_ne_nil _ _) hleft (.halt (List.cons_ne_nil _ _) hright)
  have hline : p.lineOf ⟨{}, by decide⟩ interruptedFound = _ := lineOf_interrupted
  have hends := p.renderWithCancel_ends eager ⟨{}, by decide⟩ (.shared false)
    { w with clock := 1 }
  have hsession : p.session w [(1, eager, .renderWithCancel ⟨{}, by decide⟩ (.shared false))] =
      _ := congrArg Prod.snd hends
  have hparts : p.promptParts ⟨{}, by decide⟩ [⟨.left, interruptedFound⟩]
      (some (.right, .error .cancelled)) =
      [.started, .block ⟨.left, interruptedFound⟩, .stopped .right, .cancelled] := rfl
  rw [hsession, Observers.metrics_tellAll, hw, hgoes.rendered, hparts]
  simp only [List.flatMap_cons, Part.notes, Block.notes, targetNotes, hline]
  rfl

/-- One render, cancelled behind its first line. -/
theorem accounts_of_interrupted :
    ∃ p w, (build interrupted.config (some interrupted.registry)).watchedBy (.fresh 0) =
        (.ok p, w) ∧
      let after := p.session w [(1, eager, .renderWithCancel ⟨{}, by decide⟩ (.shared false))]
      after.metrics = some interruptedCounts ∧
      ∃ trail, after.audit = some trail ∧
        (trail.countP fun e => e.stage = .moduleRendered) = 1 ∧
        (trail.countP fun e => e.stage = .renderCancelled) = 1 := by
  obtain ⟨sheet, hsheet⟩ : ∃ sheet,
      Style.Sheet.withOverrides interrupted.config.styles = .ok (sheet, []) := ⟨_, rfl⟩
  obtain ⟨digest, hp⟩ : ∃ digest, built interrupted.config (some interrupted.registry) sheet =
      { interrupted with sheet := sheet, digest := digest } := ⟨_, rfl⟩
  have hbuild := build_ok hsheet (some interrupted.registry) (.fresh 0)
  rw [hp] at hbuild
  refine ⟨_, _, hbuild, ?_⟩
  intro after
  have hmetrics : after.metrics = some interruptedCounts := metrics_interrupted sheet digest rfl
  obtain ⟨m, trail, events, hm, htrail, -, -, -, hcounted, -⟩ := accounts_of_session hbuild
    [(1, eager, .renderWithCancel ⟨{}, by decide⟩ (.shared false))]
  obtain rfl : m = interruptedCounts := Option.some.inj (hm.symm.trans hmetrics)
  obtain ⟨hrendered, -, -, -, -, hcancelled, -⟩ := hcounted (by decide)
  exact ⟨hmetrics, trail, htrail, hrendered.symm, hcancelled.symm⟩

end Pipeline
end ShellPrompt
