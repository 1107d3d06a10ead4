import ShellPrompt.Proofs.Pipeline.Calls
import ShellPrompt.Proofs.Pipeline.Pruning

/-!
# ShellPrompt.Proofs.Pipeline.Indifference

Prompts that are the same whoever watches.

* `Render.Indistinct`: two renders that end alike under any two sets of observers, and of which a
  logger gets the same events but for their time and for those below its level.
* `Goes.unique`: targets come to the same blocks under two plans if the same modules answer in time.
* `call_indistinct`: any call of a pipeline built under any observers.
-/

namespace ShellPrompt

/-- An event whenever it was told. -/
def Log.Event.untimed (e : Log.Event) : Log.Event := { e with tsMs := 0 }

namespace Render

variable {α β : Type}

/-- Two renders that observers can neither influence nor, from what one of them gets, tell apart.
Received is what a sink is to record, whether it keeps it, loses it or fails. -/
structure Indistinct (x y : Render α) : Prop where
  result : ∀ v w : Observers, (x.watchedBy v).1 = (y.watchedBy w).1
  log : ∀ (v w : Observers) (sink sink₂ : Log.Sink) (level : Log.Level),
    v.logger = some ⟨sink, level⟩ → w.logger = some ⟨sink₂, .trace⟩ →
    ∃ received received₂ : List Log.Event,
      (x.watchedBy v).2.logger = some ⟨received.foldl Log.Sink.record sink, level⟩ ∧
      (y.watchedBy w).2.logger = some ⟨received₂.foldl Log.Sink.record sink₂, .trace⟩ ∧
      received.map Log.Event.untimed =
        (received₂.filter fun e => level.rank ≤ e.level.rank).map Log.Event.untimed

theorem logger_of_ends {x : Render α} {result : Except Halt α} {notes : List Note}
    (hx : x.Ends result notes) {w : Observers} {sink : Log.Sink} {level : Log.Level}
    (hw : w.logger = some ⟨sink, level⟩) :
    (x.watchedBy w).2.logger = some ⟨(((notes.filterMap Note.logged?).map
      (Log.Event.stamped w.clock)).filter fun e => level.rank ≤ e.level.rank).foldl
        Log.Sink.record sink, level⟩ := by
  rw [hx w, Observers.logger_tellAll, Observers.logger_logAll, hw, Option.map_some,
    Log.Logger.foldl_log]
  rfl

theorem Ends.indistinct {x y : Render α} {result : Except Halt α} {notes : List Note}
    (hx : x.Ends result notes) (hy : y.Ends result notes) : x.Indistinct y := by
  constructor
  case result => exact fun v w => (hx.gives v).trans (hy.gives w).symm
  case log =>
    intro v w sink sink₂ level hv hw
    refine ⟨_, _, logger_of_ends hx hv, logger_of_ends hy hw, ?_⟩
    -- the level of an event does not change when it is stamped
    have huntimed : ∀ clock (events : List Log.Event),
        ((events.map (Log.Event.stamped clock)).filter fun e => level.rank ≤ e.level.rank).map
          Log.Event.untimed =
        (events.filter fun e => level.rank ≤ e.level.rank).map Log.Event.untimed := by
      intro clock events
      rw [List.filter_map, List.map_map]
      rfl
    rw [Log.filter_trace, huntimed, huntimed]

end Render

namespace Pipeline

variable {p : Pipeline} {plan plan₂ : Plan} {s : Snapshot} {answers : String → Prop}
  {targets : List Target} {token token₂ : Token} {blocks blocks₂ : List Block} {stop : Stop}

theorem outcomes_unique {names : List String} {found found₂ : List Outcome}
    (h : List.Forall₂ (p.ComesTo s answers) names found)
    (h₂ : List.Forall₂ (p.ComesTo s answers) names found₂) : found₂ = found := by
  induction h generalizing found₂ with
  | nil =>
    cases h₂
    rfl
  | cons hx _ ih =>
    obtain _ | ⟨hx₂, hrest₂⟩ := h₂
    rw [hx₂.unique hx, ih hrest₂]

theorem Goes.unique (hp : ∀ t, p.Punctual plan s answers t)
    (hp₂ : ∀ t, p.Punctual plan₂ s answers t) (h : p.Goes plan s targets token blocks none)
    (h₂ : p.Goes plan₂ s targets token₂ blocks₂ none) : blocks₂ = blocks := by
  generalize hstop : (none : Stop) = stop at h
  induction h generalizing token₂ blocks₂ with
  | done =>
    cases h₂
    rfl
  | pass hnone _ ih =>
    cases h₂ with
    | pass _ hrest₂ => exact ih hrest₂ hstop
    | block hsome₂ _ _ => exact absurd hnone hsome₂
  | halt _ _ => cases hstop
  | block hsome he _ ih =>
    cases h₂ with
    | pass hnone₂ _ => exact absurd hnone₂ hsome
    | block _ he₂ hrest₂ =>
      rw [ih hrest₂ hstop,
        outcomes_unique (comesTo_of_evaluated (hp _) he) (comesTo_of_evaluated (hp₂ _) he₂)]

theorem eq_none_of_ended {α : Type} {a b : α} (h : ended a stop = .ok b) : stop = none := by
  cases stop with
  | none => rfl
  | some stop => cases h

/-- A call has a value only where no target stops it. -/
theorem Call.eq_none_of_gives {c : Call} {a : c.Value}
    (h : p.Goes plan c.snapshot c.targets c.token blocks stop)
    (hgives : (c.run p plan).Gives (.ok a)) : stop = none := by
  have hresult := (Call.ends h).gives.unique hgives
  cases c with
  | render s => exact eq_none_of_ended hresult
  | renderWithCancel s token => exact eq_none_of_ended hresult
  | renderOrEmpty s =>
    rcases stop with _ | ⟨t, e | c | _⟩
    · rfl
    · exact absurd rfl (h.ne_error_of_own rfl)
    all_goals cases hresult
  | renderLine t s => exact eq_none_of_ended hresult
  | composeLayout s token => exact eq_none_of_ended hresult

theorem build_call_ends (config : Config) (registry : Option Registry) (plan : Plan) (c : Call) :
    ∃ result notes, (build config registry >>= fun p => c.run p plan).Ends result notes := by
  rcases h : Style.Sheet.withOverrides config.styles with crash | ⟨sheet, errors⟩
  · exact ⟨_, _, (build_crashed h registry).bind_error _⟩
  · obtain ⟨blocks, stop, hgoes⟩ := (built config registry sheet).exists_goes plan c.snapshot
      c.targets c.token
    exact ⟨_, _, (build_ok h registry).bind (Call.ends hgoes)⟩

/-- Observers do not influence a prompt (`Indistinct`). A pipeline that is built and called ends in
the same way whatever logger, audit trail and counters are attached, and a logger gets what one that
takes every event gets, but for the time and for what is below its level. Nor does it matter that
observers may take their time: where the same modules answer in time under two plans (`Punctual`),
as modules do that answer well within the budget or not at all, calls that have values have the same
ones and are told of alike. -/
theorem call_indistinct (config : Config) (registry : Option Registry) :
    (∀ (plan : Plan) (c : Call), Render.Indistinct
      (build config registry >>= fun p => c.run p plan)
      (build config registry >>= fun p => c.run p plan)) ∧
    ∀ (p : Pipeline) (c : Call) (plan plan₂ : Plan) (answers : String → Prop),
      (∀ t, p.Punctual plan c.snapshot answers t) →
      (∀ t, p.Punctual plan₂ c.snapshot answers t) →
      ∀ a a₂, (c.run p plan).Gives (.ok a) → (c.run p plan₂).Gives (.ok a₂) →
        Render.Indistinct (c.run p plan) (c.run p plan₂) := by
  constructor
  · intro plan c
    obtain ⟨result, notes, hends⟩ := build_call_ends config registry plan c
    exact hends.indistinct hends
  · intro p c plan plan₂ answers hp hp₂ a a₂ ha ha₂
    obtain ⟨blocks, stop, h⟩ := p.exists_goes plan c.snapshot c.targets c.token
    obtain ⟨blocks₂, stop₂, h₂⟩ := p.exists_goes plan₂ c.snapshot c.targets c.token
    obtain rfl := Call.eq_none_of_gives h ha
    obtain rfl := Call.eq_none_of_gives h₂ ha₂
    obtain rfl := Goes.unique hp hp₂ h h₂
    exact (Call.ends h).indistinct (Call.ends h₂)

/-- A millisecond goes by before every step. -/
def slow : Plan := fun _ o jobs =>
  (Evaluation.eager o jobs).flatMap fun a => [.tick 1000000, a]

/-- One of the modules of this prompt does not answer, and the others are in time under both
plans. -/
theorem call_indistinct_mixed :
    let p := mixed mixedNames true
    let c := Call.render ⟨{}, by decide⟩
    (c.run p eager).Gives (.ok { left := "~" }) ∧ (c.run p slow).Gives (.ok { left := "~" }) ∧
      Render.Indistinct (c.run p eager) (c.run p slow) := by
  intro p c
  have hrun : ∀ plan, plan = eager ∨ plan = slow → ∀ token,
      (p.evaluated (plan .left) .left ⟨{}, by decide⟩ token).1 =
        if token.isCancelled then .error (.error .cancelled)
        else .ok (Registry.medleyFound, token) := by
    rintro plan (rfl | rfl) (_ | _ | _) <;> decide +kernel
  have hpunctual : ∀ plan, plan = eager ∨ plan = slow → ∀ t,
      p.Punctual plan c.snapshot (p.registry.Answers ⟨{}, by decide⟩) t := by
    intro plan hplan t
    cases t with
    | left => exact punctual_mixed plan (hrun plan hplan) (by decide)
    | _ => exact fun _ _ _ _ _ _ _ _ hi => nomatch hi
  have hgives : ∀ plan, plan = eager ∨ plan = slow →
      (c.run p plan).Gives (.ok ({ left := "~" } : Output)) := by
    intro plan hplan
    have hprompt : (p.rendered plan ⟨{}, by decide⟩ .own).1 = .ok { left := "~" } := by
      rcases hplan with rfl | rfl <;> decide +kernel
    exact (p.renderWithCancel_ends plan ⟨{}, by decide⟩ .own).gives_iff.2 hprompt
  have heager := hgives eager (.inl rfl)
  have hslow := hgives slow (.inr rfl)
  exact ⟨heager, hslow, (call_indistinct {} none).2 p c eager slow _ (hpunctual eager (.inl rfl))
    (hpunctual slow (.inr rfl)) _ _ heager hslow⟩

end Pipeline
end ShellPrompt
