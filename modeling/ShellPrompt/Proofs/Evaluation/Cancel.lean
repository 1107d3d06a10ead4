import ShellPrompt.Proofs.Evaluation.Returns

/-!
# ShellPrompt.Proofs.Evaluation.Cancel

What becomes of an evaluation once its token is set.

The evaluating thread looks at the token before it starts a worker for a chain, whenever it has
waited for a message, and once more when it waits no longer. So a token that is set is found set
after a few steps, whatever workers and clock do, and nothing but `finish` leads to results. Only
the deadline is worked out without a look at the token.

* `Heeds`: what a step of the evaluating thread has to do with the token. `Parallel.heeds` and
  `Sequential.heeds` are the step lemmas.
* `Heeds.run_calledOff`, `Heeds.exists_last_look`: the run lemmas.
* `Awaits`: the result of a job has neither been taken, nor has its time been found to be up.
* `evaluate_set`, `exists_last_look`: both machines at once.
-/

namespace ShellPrompt
namespace Evaluation

namespace Control

/-- The most steps the evaluating thread takes from here if it finds the token set. -/
def stepsLeft : Control → Nat
  | .spawn => 4
  | .arm => 3
  | .poll => 2
  | .clock => 5
  | .receive => 4
  | .finish => 1
  | .done _ => 0

theorem stepsLeft_le (c : Control) : c.stepsLeft ≤ 5 := by
  cases c <;> simp [stepsLeft]

def Open (c : Control) : Prop := ∀ v, c ≠ .done v

/-- The ends there are under a set token. -/
def CalledOff (c : Control) : Prop := c = .done .cancelled ∨ c = .done (.crashed .deadline)

theorem calledOff_of_stepsLeft {c : Control} (h : c.stepsLeft = 0) (hc : c.Open ∨ c.CalledOff) :
    c.CalledOff := by
  rcases hc with hopen | hdone
  · cases c with
    | done v => exact absurd rfl (hopen v)
    | _ => cases h
  · exact hdone

end Control

/-! ## Steps and runs under a set token -/

/-- Under a set token each step of the evaluating thread gets it nearer to the end; results are
given at the last look at the token, if that finds it unset. -/
structure Heeds {State : Type} (m : Machine State) : Prop extends m.Lawful where
  main : ∀ s, (m.token s).isCancelled = true → (m.control s).Open →
    ((m.control (m.step s .main)).Open ∨ (m.control (m.step s .main)).CalledOff) ∧
      (m.control (m.step s .main)).stepsLeft < (m.control s).stepsLeft
  results : ∀ s rs, (m.control s).Open → m.control (m.step s .main) = .done (.results rs) →
    m.control s = .finish ∧ (m.token s).isCancelled = false

namespace Heeds

variable {State : Type} {m : Machine State} {s : State}

theorem step_calledOff (h : Heeds m) (ht : (m.token s).isCancelled = true)
    (hc : (m.control s).Open ∨ (m.control s).CalledOff) (a : Action) :
    (m.control (m.step s a)).Open ∨ (m.control (m.step s a)).CalledOff := by
  rcases hc with hopen | hend
  · by_cases ha : a = .main
    · exact ha ▸ (h.main s ht hopen).1
    · exact .inl (h.others s a ha ▸ hopen)
  · exact .inr (hend.imp (h.step_done · a) (h.step_done · a))

/-- Under a set token a run is called off, if it ends; and it does in a bounded number of steps of
the evaluating thread. -/
theorem run_calledOff (h : Heeds m) (ht : (m.token s).isCancelled = true)
    (hc : (m.control s).Open ∨ (m.control s).CalledOff) (schedule : Schedule) :
    (m.control (m.run s schedule)).CalledOff ∨
      (m.control (m.run s schedule)).Open ∧
        schedule.count .main < (m.control s).stepsLeft := by
  induction schedule generalizing s with
  | nil =>
    rcases hc with hopen | hend
    · by_cases hsteps : (m.control s).stepsLeft = 0
      · exact .inl (Control.calledOff_of_stepsLeft hsteps (.inl hopen))
      · exact .inr ⟨hopen, Nat.pos_of_ne_zero hsteps⟩
    · exact .inl hend
  | cons a rest ih =>
    rcases ih (h.step_set ht a) (h.step_calledOff ht hc a) with hend | ⟨hopen, hcount⟩
    · exact .inl hend
    · refine .inr ⟨hopen, ?_⟩
      by_cases ha : a = .main
      · subst ha
        have hstart : (m.control s).Open := by
          refine hc.resolve_right fun hend => ?_
          -- nothing is left to an end
          have hzero : (m.control (m.step s .main)).stepsLeft = 0 := by
            rcases hend with hend | hend <;> rw [h.step_done hend] <;> rfl
          omega
        have := (h.main s ht hstart).2
        rw [List.count_cons_self]
        omega
      · rw [h.others s a ha] at hcount
        rwa [List.count_cons_of_ne ha]

/-- Before there are results the evaluating thread has looked at the token for the last time. -/
theorem exists_last_look (h : Heeds m) {schedule : Schedule} {rs : List ModuleResult}
    (hs : (m.control s).Open) (hrs : m.control (m.run s schedule) = .done (.results rs)) :
    ∃ before rest, schedule = before ++ rest ∧ m.control (m.run s before) = .finish ∧
      (m.token (m.run s before)).isCancelled = false := by
  induction schedule generalizing s with
  | nil => exact absurd hrs (hs _)
  | cons a rest ih =>
    by_cases hopen : (m.control (m.step s a)).Open
    · obtain ⟨before, after, rfl, hlook⟩ := ih hopen hrs
      exact ⟨a :: before, after, rfl, hlook⟩
    · -- this is the step that gives the verdict, so it is one of the evaluating thread
      have ha : a = .main := by
        by_contra ha
        exact hopen (h.others s a ha ▸ hs)
      subst ha
      obtain ⟨v, hv⟩ : ∃ v, m.control (m.step s .main) = .done v := by
        simpa [Control.Open] using hopen
      obtain rfl : v = .results rs := by
        have := (h.run_done hv rest).symm.trans hrs
        simpa using this
      exact ⟨[], _, rfl, h.results s rs hs hv⟩

end Heeds

/-! ## The two machines -/

theorem Parallel.heeds (o : Options) (jobs : List Job) : Heeds (Parallel.machine o jobs) where
  toLawful := Parallel.lawful o jobs
  main := by
    intro s ht hopen
    simp only [machine] at ht hopen ⊢
    cases hc : s.control with
    | done v => exact absurd hc (hopen v)
    | _ => grind [step, mainStep, Control.CalledOff, Control.Open, Control.stepsLeft]
  results := by
    intro s rs hopen hrs
    simp only [machine] at hopen hrs ⊢
    cases hc : s.control with
    | done v => exact absurd hc (hopen v)
    | _ => grind [step, mainStep]

theorem Sequential.heeds (o : Options) (jobs : List Job) : Heeds (Sequential.machine o jobs) where
  toLawful := Sequential.lawful o jobs
  main := by
    intro s ht hopen
    simp only [machine] at ht hopen ⊢
    cases hc : s.control with
    | done v => exact absurd hc (hopen v)
    | _ => grind [step, mainStep, Control.CalledOff, Control.Open, Control.stepsLeft]
  results := by
    intro s rs hopen hrs
    simp only [machine] at hopen hrs ⊢
    cases hc : s.control with
    | done v => exact absurd hc (hopen v)
    | _ => grind [step, mainStep]

/-! ## What is waited for -/

/-- A job has neither been refused a worker, nor has its answer been taken or its time been found
to be up. -/
def Diary.Awaits (o : Options) (jobs : List Job) (d : Diary) (i : Nat) : Prop :=
  i < jobs.length ∧ (∀ why, ¬ d.Refused o i why) ∧ ¬ d.Tells (.took i) ∧ ¬ d.Tells (.gaveUp i)

theorem Parallel.Sound.not_awaits {o : Options} {jobs : List Job} {d : Diary} {s : State}
    (h : Sound o jobs d s) (hp : o.parallel = true) (hclosed : Closed s.expired s.results)
    (i : Nat) : ¬ d.Awaits o jobs i := by
  rintro ⟨hi, hgranted, htook, hgaveUp⟩
  have hlt : i < s.results.length := h.mail.results_length ▸ hi
  have hslot := List.getElem?_eq_getElem hlt
  cases hres : s.results[i] with
  | some r =>
    rw [hres] at hslot
    exact htook (h.noted.taken i r hslot (granted hp hgranted)).tells
  | none =>
    rw [hres] at hslot
    exact hgaveUp ((h.noted.gaveUp i).2 ⟨hclosed.resolve_right fun hall => hall i hslot, hslot⟩)

theorem Sequential.Sound.not_awaits {o : Options} {jobs : List Job} {d : Diary} {s : State}
    (h : Sound o jobs d s) (hp : o.parallel = false)
    (hcrash : ∀ e, s.control ≠ .done (.crashed e)) (hover : Over jobs s) (i : Nat) :
    ¬ d.Awaits o jobs i := by
  rintro ⟨hi, hgranted, htook, hgaveUp⟩
  by_cases hn : i < s.next
  · obtain ⟨r, -, ⟨htaken, -⟩ | ⟨hgiven, -⟩⟩ := h.filled.settled i hn
    · exact htook htaken.tells
    · exact hgaveUp hgiven.tells
  · have hrefusal : s.refusal ≠ none := hover.resolve_left (by omega)
    obtain ⟨why, hwhy⟩ := Option.ne_none_iff_exists'.1 hrefusal
    exact hgranted why (((h.asked hcrash).refused_iff hp i why).2 ⟨Nat.le_of_not_lt hn, hwhy⟩)

/-! ## Evaluations -/

section Evaluations

variable {o : Options} {jobs : List Job} {token : Token} {before rest schedule : Schedule}

/-- After part of a schedule a job is waited for. -/
def Awaits (o : Options) (jobs : List Job) (token : Token) (schedule : Schedule) (i : Nat) :
    Prop := (diary o jobs token schedule).Awaits o jobs i

theorem not_awaits_of_results {rs : List ModuleResult}
    (h : (evaluate o jobs token schedule).1 = some (.results rs)) (i : Nat) :
    ¬ Awaits o jobs token schedule i := by
  unfold Awaits
  cases hp : o.parallel with
  | true =>
    rw [evaluate_of_parallel hp] at h
    rw [diary_of_parallel hp]
    have hs := Parallel.run_sound hp jobs token schedule
    exact hs.not_awaits hp (hs.results rs (eq_done_of_verdict? h)).2 i
  | false =>
    rw [evaluate_of_sequential hp] at h
    rw [diary_of_sequential hp]
    have hs := Sequential.run_sound o jobs token schedule
    have hc := eq_done_of_verdict? h
    refine hs.not_awaits hp (fun e he => ?_) (hs.results rs hc).2 i
    exact nomatch hc.symm.trans he

theorem open_iff (c : Control) : c.Open ↔ verdict? c = none := by
  cases c <;> simp [Control.Open, verdict?]

theorem Heeds.outcome_append {State : Type} {m : Machine State} (h : Heeds m) {s : State}
    (ht : (m.outcome s before).2.isCancelled = true)
    (hc : (m.outcome s before).1 = none ∨ (m.outcome s before).1 = some .cancelled)
    (rest : Schedule) :
    (m.outcome s (before ++ rest)).1 = some .cancelled ∨
      (m.outcome s (before ++ rest)).1 = some (.crashed .deadline) ∨
      rest.count .main < 5 ∧ (m.outcome s (before ++ rest)).1 = none := by
  have hstart : (m.control (m.run s before)).Open ∨ (m.control (m.run s before)).CalledOff :=
    hc.imp (open_iff _).2 fun hdone => .inl (eq_done_of_verdict? hdone)
  simp only [Machine.outcome, Machine.run_append]
  rcases h.run_calledOff ht hstart rest with (hend | hend) | ⟨hopen, hcount⟩
  · exact .inl (by rw [hend, verdict?])
  · exact .inr (.inl (by rw [hend, verdict?]))
  · exact .inr (.inr ⟨Nat.lt_of_lt_of_le hcount (Control.stepsLeft_le _), (open_iff _).1 hopen⟩)

/-- Once the token is set, an evaluation that is not over is cancelled by the time the evaluating
thread has taken five more steps, unless it oversteps first. -/
theorem evaluate_set (hset : (evaluate o jobs token before).2.isCancelled = true)
    (hopen : (evaluate o jobs token before).1 = none ∨
      (evaluate o jobs token before).1 = some .cancelled) (rest : Schedule) :
    (evaluate o jobs token (before ++ rest)).1 = some .cancelled ∨
      (evaluate o jobs token (before ++ rest)).1 = some (.crashed .deadline) ∨
      rest.count .main < 5 ∧ (evaluate o jobs token (before ++ rest)).1 = none := by
  cases hp : o.parallel with
  | true =>
    rw [evaluate_of_parallel hp] at hset hopen ⊢
    exact (Parallel.heeds o jobs).outcome_append hset hopen rest
  | false =>
    rw [evaluate_of_sequential hp] at hset hopen ⊢
    exact (Sequential.heeds o jobs).outcome_append hset hopen rest

theorem evaluate_nil (o : Options) (jobs : List Job) (token : Token) :
    evaluate o jobs token [] = (none, token) ∨
      (o.parallel = true ∧ ∃ c, evaluate o jobs token [] = (some (.crashed c), token)) := by
  cases hp : o.parallel with
  | true =>
    rw [evaluate_of_parallel hp]
    rcases @Parallel.control_initial o jobs token _ rfl with hc | ⟨c, hc⟩
    · exact .inl (Prod.ext (congrArg verdict? hc) rfl)
    · exact .inr ⟨rfl, _, Prod.ext (congrArg verdict? hc) rfl⟩
  | false =>
    rw [evaluate_of_sequential hp]
    exact .inl rfl

/-- An evaluation with results has looked at the token when nothing was waited for any more. -/
theorem exists_last_look {rs : List ModuleResult}
    (h : (evaluate o jobs token schedule).1 = some (.results rs)) :
    ∃ before rest, schedule = before ++ rest ∧ (evaluate o jobs token before).1 = none ∧
      (evaluate o jobs token before).2.isCancelled = false ∧
      ∀ i, ¬ Awaits o jobs token before i := by
  cases hp : o.parallel with
  | true =>
    have hm := Parallel.heeds o jobs
    simp only [evaluate_of_parallel hp, Awaits, diary_of_parallel hp] at h ⊢
    have hinitial : (Parallel.initial o jobs token).control.Open := by
      intro v hv
      have hkept := (hm.run_done (s := Parallel.initial o jobs token) hv schedule).symm.trans
        (eq_done_of_verdict? h)
      cases hkept
      rcases Parallel.control_initial hv with hc | ⟨_, hc⟩ <;> cases hc
    obtain ⟨before, rest, rfl, hfinish, hunset⟩ :=
      hm.exists_last_look (s := Parallel.initial o jobs token) hinitial (eq_done_of_verdict? h)
    have hs := Parallel.run_sound hp jobs token before
    exact ⟨before, rest, rfl, congrArg verdict? hfinish, hunset,
      hs.not_awaits hp (hs.finish hfinish)⟩
  | false =>
    simp only [evaluate_of_sequential hp, Awaits, diary_of_sequential hp] at h ⊢
    obtain ⟨before, rest, rfl, hfinish, hunset⟩ :=
      (Sequential.heeds o jobs).exists_last_look (s := Sequential.initial jobs token) nofun
        (eq_done_of_verdict? h)
    have hs := Sequential.run_sound o jobs token before
    refine ⟨before, rest, rfl, congrArg verdict? hfinish, hunset,
      hs.not_awaits hp (fun e he => ?_) (hs.finish hfinish)⟩
    exact nomatch hfinish.symm.trans he

end Evaluations

end Evaluation
end ShellPrompt
