import Mathlib.Algebra.Ring.Nat
import ShellPrompt.Proofs.Layout
import ShellPrompt.Proofs.Metrics
import ShellPrompt.Proofs.Pipeline.Rendering

/-!
# ShellPrompt.Proofs.Pipeline.Cancellation

What a cancelled render leaves in the counters.

A render goes through its targets one by one and counts each as soon as it is evaluated, so the
token may be found set when some have been counted already.

* `CancelledAfter`: the targets that were, with their outcomes.
* `tally`: what one of them adds. `Silent` says when that is nothing, `tally_eq_self_iff` that it
  says so.
* `metrics_of_cancelled`: the counters after a cancelled render, and when they show only that it
  was cancelled.
-/

namespace ShellPrompt

namespace Metrics

def total (m : Metrics) : Nat := (m.counts.map Prod.snd).sum

theorem recordCancelled_eq_iff {m n : Metrics} (h : m.cancelled = n.cancelled) :
    m.recordCancelled = n.recordCancelled ↔ m = n := by
  cases m
  cases n
  cases h
  simp [recordCancelled]

end Metrics

namespace Pipeline

variable (p : Pipeline) (s : Snapshot)

def tally (m : Metrics) (found : List Outcome) : Metrics :=
  let line := p.lineOf s found
  (m.recordModules
    (found.countP fun o => o.fragment?.isSome)
    (found.countP fun o => o.isFailure && !o.isTimeout)
    (found.countP Outcome.isTimeout)).recordLayout line.dropped.length line.overflow

structure Silent (m : Metrics) (found : List Outcome) : Prop where
  rendered : ∀ o ∈ found, o.fragment?.isSome = true → m.modulesRendered.IsFull
  failed : ∀ o ∈ found, o.isFailure = true → o.isTimeout = false → m.moduleFailures.IsFull
  timedOut : ∀ o ∈ found, o.isTimeout = true → m.moduleTimeouts.IsFull
  dropped : (p.lineOf s found).dropped ≠ [] → m.fragmentsDropped.IsFull
  overflow : (p.lineOf s found).overflow = true → m.overflowLines.IsFull

variable {p s}

theorem tally_eq_self_iff_counters {m : Metrics} {found : List Outcome} :
    p.tally s m found = m ↔
      m.modulesRendered.add (found.countP fun o => o.fragment?.isSome) = m.modulesRendered ∧
      m.moduleFailures.add (found.countP fun o => o.isFailure && !o.isTimeout) =
        m.moduleFailures ∧
      m.moduleTimeouts.add (found.countP Outcome.isTimeout) = m.moduleTimeouts ∧
      m.fragmentsDropped.add (p.lineOf s found).dropped.length = m.fragmentsDropped ∧
      (if (p.lineOf s found).overflow then m.overflowLines.add 1 else m.overflowLines) =
        m.overflowLines := by
  cases m
  simp [tally, Metrics.recordModules, Metrics.recordLayout]

theorem tally_eq_self_iff {m : Metrics} {found : List Outcome} :
    p.tally s m found = m ↔ p.Silent s m found := by
  have hover : (if (p.lineOf s found).overflow then m.overflowLines.add 1 else m.overflowLines) =
      m.overflowLines ↔ ((p.lineOf s found).overflow = true → m.overflowLines.IsFull) := by
    split
    case isTrue h => simp [Counter.add_eq_self_iff, h]
    case isFalse h => simp [h]
  rw [tally_eq_self_iff_counters, hover, Counter.add_countP_eq_self_iff,
    Counter.add_countP_eq_self_iff, Counter.add_countP_eq_self_iff, Counter.add_eq_self_iff,
    List.length_eq_zero_iff]
  constructor
  · rintro ⟨hr, hf, ht, hd, ho⟩
    exact ⟨hr, fun o ho hfail htime => hf o ho (by simp [hfail, htime]), ht,
      hd.resolve_left, ho⟩
  · intro h
    refine ⟨h.rendered, ?_, h.timedOut, ?_, h.overflow⟩
    · intro o ho hfail
      rw [Bool.and_eq_true, Bool.not_eq_true'] at hfail
      exact h.failed o ho hfail.1 hfail.2
    · exact Decidable.or_iff_not_imp_left.2 h.dropped

/-- A tally raises no counter, or it raises their sum. -/
theorem total_lt_tally {m : Metrics} {found : List Outcome} (h : p.tally s m found ≠ m) :
    m.total < (p.tally s m found).total := by
  have hr := m.modulesRendered.le_add (found.countP fun o => o.fragment?.isSome)
  have hf := m.moduleFailures.le_add (found.countP fun o => o.isFailure && !o.isTimeout)
  have ht := m.moduleTimeouts.le_add (found.countP Outcome.isTimeout)
  have hd := m.fragmentsDropped.le_add (p.lineOf s found).dropped.length
  have ho : m.overflowLines.value ≤
      (if (p.lineOf s found).overflow then m.overflowLines.add 1 else m.overflowLines).value := by
    split
    · exact m.overflowLines.le_add 1
    · exact Nat.le_refl _
  refine Nat.lt_of_not_le fun hle => h (tally_eq_self_iff_counters.2 ?_)
  simp only [tally, Metrics.recordModules, Metrics.recordLayout, Metrics.total, Metrics.counts,
    List.map_cons, List.map_nil, List.sum_cons, List.sum_nil] at hle
  refine ⟨?_, ?_, ?_, ?_, ?_⟩
  all_goals
    apply Counter.eq_of_value_eq
    omega

theorem total_le_foldl_tally (all : List (List Outcome)) (m : Metrics) :
    m.total ≤ (all.foldl (p.tally s) m).total := by
  induction all generalizing m with
  | nil => exact Nat.le_refl _
  | cons found rest ih =>
    refine Nat.le_trans ?_ (ih _)
    by_cases h : p.tally s m found = m
    · exact Nat.le_of_eq (congrArg Metrics.total h).symm
    · exact Nat.le_of_lt (total_lt_tally h)

/-- Tallies of several targets leave the counters alone if each does. -/
theorem foldl_tally_eq_self_iff {m : Metrics} {all : List (List Outcome)} :
    all.foldl (p.tally s) m = m ↔ ∀ found ∈ all, p.Silent s m found := by
  induction all with
  | nil => simp
  | cons found rest ih =>
    rw [List.foldl_cons, List.forall_mem_cons, ← tally_eq_self_iff]
    constructor
    · intro h
      have hfirst : p.tally s m found = m := by
        refine Decidable.of_not_not ?_
        intro hne
        have hall := total_le_foldl_tally (p := p) (s := s) rest (p.tally s m found)
        rw [show rest.foldl (p.tally s) (p.tally s m found) = m from h] at hall
        exact absurd (total_lt_tally hne) (Nat.not_lt.2 hall)
      rw [hfirst] at h
      exact ⟨hfirst, ih.1 h⟩
    · rintro ⟨hfirst, hrest⟩
      rw [hfirst]
      exact ih.2 hrest

theorem cancelled_foldl_tally (all : List (List Outcome)) (m : Metrics) :
    (all.foldl (p.tally s) m).cancelled = m.cancelled := by
  induction all generalizing m with
  | nil => rfl
  | cons found rest ih => exact ih _

/-- Where nothing came out, there is nothing to count, unless a module failed. -/
theorem silent_iff {m : Metrics} (hr : ¬ m.modulesRendered.IsFull)
    (hf : ¬ m.moduleFailures.IsFull) (ht : ¬ m.moduleTimeouts.IsFull) {found : List Outcome} :
    p.Silent s m found ↔ ∀ o ∈ found, o.fragment? = none ∧ o.isFailure = false := by
  constructor
  · intro h o ho
    refine ⟨?_, ?_⟩
    · cases hfrag : o.fragment? with
      | none => rfl
      | some f => exact absurd (h.rendered o ho (by rw [hfrag]; rfl)) hr
    · cases hfail : o.isFailure with
      | false => rfl
      | true =>
        cases htime : o.isTimeout with
        | true => exact absurd (h.timedOut o ho htime) ht
        | false => exact absurd (h.failed o ho hfail htime) hf
  · intro h
    have hnone : found.filterMap Outcome.fragment? = [] := by
      rw [List.filterMap_eq_nil_iff]
      exact fun o ho => (h o ho).1
    have hline : p.lineOf s found = {} := by
      rw [lineOf, hnone, Layout.compose_nil]
    refine ⟨?_, ?_, ?_, ?_, ?_⟩
    · intro o ho hsome
      rw [(h o ho).1] at hsome
      cases hsome
    · intro o ho hfail
      rw [(h o ho).2] at hfail
      cases hfail
    · intro o ho htime
      have hfail := (h o ho).2
      cases o with
      | failed failure => cases hfail
      | _ => cases htime
    · rw [hline]
      intro hd
      exact absurd rfl hd
    · rw [hline]
      intro ho
      cases ho

/-! ## Cancelled renders -/

/-- The targets that are evaluated before the one at which a render is cancelled, with their
outcomes. Targets without modules are passed over. -/
inductive CancelledAfter (p : Pipeline) (plan : Plan) (s : Snapshot) :
    List Target → Token → List (Target × List Outcome) → Prop where
  | here {t : Target} {rest : List Target} {token : Token} {notes : List Note} :
      p.config.modulesFor t ≠ [] →
      (p.registry.evaluate (plan t) (p.config.modulesFor t) s p.options token).Ends
        (.error (.error .cancelled)) notes →
      CancelledAfter p plan s (t :: rest) token []
  | unconfigured {t : Target} {rest : List Target} {token : Token}
      {blocks : List (Target × List Outcome)} : p.config.modulesFor t = [] →
      CancelledAfter p plan s rest token blocks → CancelledAfter p plan s (t :: rest) token blocks
  | behind {t : Target} {rest : List Target} {token after : Token} {found : List Outcome}
      {notes : List Note} {blocks : List (Target × List Outcome)} :
      p.config.modulesFor t ≠ [] →
      (p.registry.evaluate (plan t) (p.config.modulesFor t) s p.options token).Ends
        (.ok (found, after)) notes →
      CancelledAfter p plan s rest after blocks →
      CancelledAfter p plan s (t :: rest) token ((t, found) :: blocks)

theorem countAll_evaluated (m : Metrics) (scheduler : Evaluation.Scheduler) (t : Target)
    (token : Token) : m.countAll (p.evaluated scheduler t s token).2 = m := by
  simp only [evaluated, Registry.evaluated]
  split
  case h_4 =>
    rw [Metrics.countAll_append, Metrics.countAll_map_logged, Metrics.countAll_map_logged]
  all_goals exact Metrics.countAll_map_logged ..

theorem countAll_targetNotes (m : Metrics) (t : Target) (found : List Outcome) :
    m.countAll (p.targetNotes s t found) = p.tally s m found := by
  rw [targetNotes, Metrics.countAll_append, countAll_outcomeNotes, lineNotes, tally]
  cases (p.lineOf s found).overflow <;> cases (p.lineOf s found).dropped.isEmpty <;> rfl

/-- Up to the target at which lines are cancelled, what is counted is the tally of each target. -/
theorem cancelledAfter_of_composed {plan : Plan} {targets : List Target} {lines : Layout.Lines}
    {token : Token} {notes : List Note}
    (h : p.composed plan s targets lines token = (.error (.error .cancelled), notes)) :
    ∃ blocks, p.CancelledAfter plan s targets token blocks ∧
      ∀ m, m.countAll notes = (blocks.map Prod.snd).foldl (p.tally s) m := by
  induction targets generalizing lines token notes with
  | nil => cases h
  | cons t rest ih =>
    rw [composed] at h
    split at h
    case isTrue hnone =>
      obtain ⟨blocks, hblocks, hcount⟩ := ih h
      exact ⟨blocks, .unconfigured hnone hblocks, hcount⟩
    case isFalse hsome =>
      have hends := p.registry.evaluate_ends (plan t) (p.config.modulesFor t) s p.options token
      have hquiet := fun m => countAll_evaluated (p := p) (s := s) m (plan t) t token
      rcases he : p.evaluated (plan t) t s token with ⟨halt | ⟨found, after⟩, told⟩
      all_goals
        rw [he] at h hquiet
        rw [show p.registry.evaluated (plan t) _ s p.options token = _ from he] at hends
      · cases h
        exact ⟨[], .here hsome hends, hquiet⟩
      · rw [Prod.mk.injEq] at h
        obtain ⟨blocks, hblocks, hcount⟩ := ih (Prod.ext h.1 rfl)
        refine ⟨(t, found) :: blocks, .behind hsome hends hblocks, ?_⟩
        intro m
        rw [← h.2, Metrics.countAll_append, Metrics.countAll_append, hquiet,
          countAll_targetNotes, hcount]
        rfl

/-- After a cancelled render the counters have gone up by the `tally` of every target that was
evaluated before it was cancelled (`CancelledAfter`). They tell of the cancellation alone just where
all of these targets were `Silent`: as long as the counters can go on, where no module of theirs
yielded a fragment or failed. -/
theorem metrics_of_cancelled {plan : Plan} {token : Token} {w w' : Observers} {m : Metrics}
    (h : (p.renderWithCancel plan s token).watchedBy w = (.error (.error .cancelled), w'))
    (hm : w.metrics = some m) :
    ∃ blocks, p.CancelledAfter plan s Target.all token blocks ∧
      w'.metrics = some ((blocks.map Prod.snd).foldl (p.tally s) m).recordCancelled ∧
      (w'.metrics = some m.recordCancelled ↔ ∀ b ∈ blocks, p.Silent s m b.2) ∧
      (¬ m.modulesRendered.IsFull → ¬ m.moduleFailures.IsFull → ¬ m.moduleTimeouts.IsFull →
        (w'.metrics = some m.recordCancelled ↔
          ∀ b ∈ blocks, ∀ o ∈ b.2, o.fragment? = none ∧ o.isFailure = false)) := by
  obtain ⟨hresult, rfl⟩ := (p.renderWithCancel_ends plan s token).result_eq h
  obtain ⟨notes, hlines⟩ :
      ∃ notes, p.composed plan s Target.all {} token = (.error (.error .cancelled), notes) := by
    rw [rendered] at hresult
    rcases hc : p.composed plan s Target.all {} token with ⟨((_ | _) | c | _) | lines, notes⟩
    case error.error.cancelled => exact ⟨notes, rfl⟩
    all_goals
      rw [hc] at hresult
      cases hresult
  obtain ⟨blocks, hblocks, hcount⟩ := cancelledAfter_of_composed hlines
  have hmetrics : (w.tellAll (p.rendered plan s token).2).metrics =
      some ((blocks.map Prod.snd).foldl (p.tally s) m).recordCancelled := by
    rw [Observers.metrics_tellAll, hm, rendered, hlines, ← hcount m]
    show some (m.countAll (notes ++ cancelNotes)) = _
    rw [Metrics.countAll_append]
    rfl
  have hiff : (w.tellAll (p.rendered plan s token).2).metrics = some m.recordCancelled ↔
      ∀ b ∈ blocks, p.Silent s m b.2 := by
    rw [hmetrics, Option.some.injEq, Metrics.recordCancelled_eq_iff (cancelled_foldl_tally _ m),
      foldl_tally_eq_self_iff, List.forall_mem_map]
  refine ⟨blocks, hblocks, hmetrics, hiff, ?_⟩
  intro hr hf ht
  rw [hiff]
  exact forall₂_congr fun b _ => silent_iff hr hf ht

/-- Two targets, of which the second has a module that cancels the render. -/
def interrupted : Pipeline where
  config := { left := ["branch"], right := ["watch"] }
  registry := {
    entries := [
      (⟨"branch", fun _ => { ending := .returns (.ok (some { text := "main" })) }⟩, {}),
      (⟨"watch", fun _ => { ending := .returns (.ok none), cancels := true }⟩, {})] }
  sheet := {}
  digest := ""

def interruptedCounts : Metrics where
  modulesRendered := { value := 1 }
  cancelled := { value := 1 }

/-- The outcomes to the left, where the render is not cancelled yet. -/
def interruptedFound : List Outcome := [.rendered { text := "main", module := "branch" }]

theorem lineOf_interrupted : interrupted.lineOf ⟨{}, by decide⟩ interruptedFound =
    { fragments := [{ text := "main", module := "branch" }], width := 4 } := by
  have hwidth : displayWidth "main" = 4 := by decide
  simp [lineOf, interruptedFound, Layout.compose, Layout.fit, Layout.lineWidth,
    Outcome.fragment?, Fragment.width, hwidth]

theorem interrupted_ends :
    (interrupted.renderWithCancel eager ⟨{}, by decide⟩ (.shared false)).watchedBy
        { metrics := some {} } =
      (.error (.error .cancelled), { metrics := some interruptedCounts }) := by
  have hcomposed : interrupted.composed eager ⟨{}, by decide⟩ Target.all {} (.shared false) =
      (.error (.error .cancelled),
        interrupted.targetNotes ⟨{}, by decide⟩ .left interruptedFound ++ []) := by
    rfl
  rw [renderWithCancel_ends, rendered, hcomposed, targetNotes, lineOf_interrupted]
  rfl

theorem interrupted_render_is_counted :
    ∃ w, (interrupted.renderWithCancel eager ⟨{}, by decide⟩ (.shared false)).watchedBy
        { metrics := some {} } = (.error (.error .cancelled), w) ∧
      w.metrics ≠ some (Metrics.recordCancelled {}) :=
  ⟨_, interrupted_ends, by decide⟩

theorem metrics_of_interrupted :
    (interrupted.renderWithCancel eager ⟨{}, by decide⟩ (.shared false)).watchedBy
        { metrics := some {} } =
      (.error (.error .cancelled), { metrics := some interruptedCounts }) ∧
    ∃ blocks, interrupted.CancelledAfter eager ⟨{}, by decide⟩ Target.all (.shared false) blocks ∧
      ¬ ∀ b ∈ blocks, ∀ o ∈ b.2, o.fragment? = none ∧ o.isFailure = false := by
  obtain ⟨blocks, hblocks, -, -, hiff⟩ := metrics_of_cancelled interrupted_ends rfl
  refine ⟨interrupted_ends, blocks, hblocks, ?_⟩
  intro hall
  have hsame := (hiff (by decide) (by decide) (by decide)).2 hall
  revert hsame
  decide

end Pipeline
end ShellPrompt
