import ShellPrompt.Proofs.Evaluation.Crash
import ShellPrompt.Proofs.Evaluation.Progress

/-!
# ShellPrompt.Proofs.Evaluation.Returns

How an evaluation returns, and that it does.

* `evaluate_own`: under a token nobody can set, and with a budget that is short enough, jobs with
  proper names have results or are still waited for.
* `evaluate_append`: an evaluation that has returned stays as it is.
* `evaluate_returns`: jobs that answer return along every fair schedule.
-/

namespace ShellPrompt
namespace Evaluation

variable {jobs : List Job}

theorem token_evaluate_own (o : Options) (jobs : List Job) (schedule : Schedule) :
    (evaluate o jobs .own schedule).2 = .own := by
  cases hp : o.parallel with
  | true =>
    rw [evaluate_of_parallel hp]
    exact (Parallel.lawful o jobs).run_own rfl schedule
  | false =>
    rw [evaluate_of_sequential hp]
    exact (Sequential.lawful o jobs).run_own rfl schedule

/-- Proper names and deadlines that are times there are: nothing crashes. -/
theorem not_crashed {o : Options} (hn : Nameable jobs) (ho : o.Attainable) (token : Token)
    (schedule : Schedule) (c : Crash) :
    (evaluate o jobs token schedule).1 ≠ some (.crashed c) := by
  intro h
  rcases (evaluate_crashed_iff c).1 h with ⟨i, j, -, hj, hname, -⟩ | ⟨-, hover⟩
  · rw [hn j (List.mem_of_getElem? hj)] at hname
    cases hname
  · exact not_oversteps ho hover

theorem evaluate_own {o : Options} (hn : Nameable jobs) (ho : o.Attainable)
    (schedule : Schedule) :
    evaluate o jobs .own schedule = (none, .own) ∨
      ∃ results, evaluate o jobs .own schedule = (some (.results results), .own) := by
  have htoken := token_evaluate_own o jobs schedule
  have hcrash := not_crashed hn ho .own schedule
  rcases hv : evaluate o jobs .own schedule with ⟨_ | _ | e | results, token⟩
  all_goals
    rw [hv] at htoken hcrash
    obtain rfl : token = .own := htoken
  · exact .inl rfl
  · exact absurd (isCancelled_of_cancelled hv) (by simp [Token.isCancelled])
  · exact absurd rfl (hcrash e)
  · exact .inr ⟨results, rfl⟩

theorem Machine.Lawful.outcome_append {State : Type} {m : Machine State} (hm : m.Lawful)
    {s : State} {schedule : Schedule} {v : Verdict} (h : (m.outcome s schedule).1 = some v)
    (rest : Schedule) : (m.outcome s (schedule ++ rest)).1 = some v := by
  have hdone := hm.run_done (eq_done_of_verdict? h) rest
  simp only [Machine.outcome, Machine.run_append, hdone, verdict?]

theorem evaluate_append {o : Options} {token : Token} {schedule : Schedule} {v : Verdict}
    (h : (evaluate o jobs token schedule).1 = some v) (rest : Schedule) :
    (evaluate o jobs token (schedule ++ rest)).1 = some v := by
  cases hp : o.parallel with
  | true =>
    rw [evaluate_of_parallel hp] at h ⊢
    exact (Parallel.lawful o jobs).outcome_append h rest
  | false =>
    rw [evaluate_of_sequential hp] at h ⊢
    exact (Sequential.lawful o jobs).outcome_append h rest

theorem upTo_of_le (actions : Nat → Action) {n m : Nat} (h : n ≤ m) :
    ∃ rest, upTo actions m = upTo actions n ++ rest := by
  induction h with
  | refl => exact ⟨[], (List.append_nil _).symm⟩
  | step _ ih =>
    obtain ⟨rest, hrest⟩ := ih
    exact ⟨rest ++ [actions _], by rw [upTo_succ, hrest, List.append_assoc]⟩

theorem evaluate_returns (ha : Answering jobs) (o : Options) (token : Token)
    {actions : Nat → Action} (hfair : Fair actions) :
    ∃ n v, ∀ m, n ≤ m → (evaluate o jobs token (upTo actions m)).1 = some v := by
  have done : ∃ n v, (evaluate o jobs token (upTo actions n)).1 = some v := by
    cases hp : o.parallel with
    | true =>
      obtain ⟨n, hn⟩ := (Parallel.descends hp ha).exists_zero
        ⟨[], Parallel.initial_sound o jobs token⟩ hfair
      obtain ⟨v, hv⟩ := Control.done_of_rank hn
      refine ⟨n, v, ?_⟩
      simp only [evaluate_of_parallel hp, Machine.outcome, Parallel.machine] at hv ⊢
      rw [hv, verdict?]
    | false =>
      obtain ⟨n, hn⟩ := (Sequential.descends o ha).exists_zero
        ⟨[], Sequential.initial_sound o jobs token⟩ hfair
      obtain ⟨v, hv⟩ := Control.done_of_rank hn
      refine ⟨n, v, ?_⟩
      simp only [evaluate_of_sequential hp, Machine.outcome, Sequential.machine] at hv ⊢
      rw [hv, verdict?]
  obtain ⟨n, v, hv⟩ := done
  refine ⟨n, v, ?_⟩
  intro m hm
  obtain ⟨rest, hrest⟩ := upTo_of_le actions hm
  rw [hrest]
  exact evaluate_append hv rest

end Evaluation
end ShellPrompt
