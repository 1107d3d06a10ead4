import ShellPrompt.Evaluation.Schedule
import ShellPrompt.Proofs.Evaluation.Parallel
import ShellPrompt.Proofs.Evaluation.Sequential

/-!
# ShellPrompt.Proofs.Evaluation.InTime

Both machines meet one specification.

* `diary`: what went on in the run of a schedule, by the clock. `InTime`, `Overdue` and `Refused`
  are what it says of a job. `InTime.counted`, `Overdue.counted`: the time a job was given, counted
  anew for each job of a chain, and the time its run took.
* `decided_of_results`: when there are results, one of these holds of every job, and no two.
* `reports_of_results`: the results are what the jobs answered in time.
-/

namespace ShellPrompt
namespace Evaluation

variable {o : Options} {jobs : List Job} {token after : Token} {schedule : Schedule}

def diary (o : Options) (jobs : List Job) (token : Token) (schedule : Schedule) : Diary :=
  if o.parallel then Parallel.diary o jobs (Parallel.initial o jobs token) schedule
  else Sequential.diary o jobs (Sequential.initial jobs token) schedule

def InTime (o : Options) (jobs : List Job) (token : Token) (schedule : Schedule) (i : Nat) :
    Prop := (diary o jobs token schedule).InTime o i

def Overdue (o : Options) (jobs : List Job) (token : Token) (schedule : Schedule) (i : Nat) :
    Prop := (diary o jobs token schedule).Overdue o i

def Refused (o : Options) (jobs : List Job) (token : Token) (schedule : Schedule) (i : Nat)
    (why : String) : Prop := (diary o jobs token schedule).Refused o i why

theorem evaluate_of_parallel (hp : o.parallel = true) :
    evaluate o jobs token schedule =
      (Parallel.machine o jobs).outcome (Parallel.initial o jobs token) schedule := if_pos hp

theorem evaluate_of_sequential (hp : o.parallel = false) :
    evaluate o jobs token schedule =
      (Sequential.machine o jobs).outcome (Sequential.initial jobs token) schedule :=
  if_neg (by rw [hp]; exact Bool.false_ne_true)

theorem diary_of_parallel (hp : o.parallel = true) :
    diary o jobs token schedule =
      Parallel.diary o jobs (Parallel.initial o jobs token) schedule := if_pos hp

theorem diary_of_sequential (hp : o.parallel = false) :
    diary o jobs token schedule =
      Sequential.diary o jobs (Sequential.initial jobs token) schedule :=
  if_neg (by rw [hp]; exact Bool.false_ne_true)

namespace Machine

theorem control_of_outcome {State : Type} {m : Machine State} {s : State} {v : Verdict}
    (h : m.outcome s schedule = (some v, after)) : m.control (m.run s schedule) = .done v :=
  eq_done_of_verdict? (congrArg Prod.fst h)

theorem token_of_outcome {State : Type} {m : Machine State} {s : State} {v? : Option Verdict}
    (h : m.outcome s schedule = (v?, after)) : m.token (m.run s schedule) = after :=
  congrArg Prod.snd h

end Machine

/-- The diary of a schedule ends before the time it lets go by, and at some reading of the clock. -/
theorem exists_past (o : Options) (jobs : List Job) (token : Token) (schedule : Schedule) :
    ∃ now, (diary o jobs token schedule).Past now ∧ now ≤ duration schedule ∧
      now ≤ lastReading := by
  cases hp : o.parallel with
  | true =>
    have hm := Parallel.lawful o jobs
    have hnow := hm.run_now_le (Parallel.initial o jobs token) schedule
    rw [diary_of_parallel hp]
    exact ⟨_, Diary.past_diary hm _ (Nat.zero_le _) schedule, Nat.zero_add (duration _) ▸ hnow,
      hm.run_now_le_lastReading (Nat.zero_le _) schedule⟩
  | false =>
    have hm := Sequential.lawful o jobs
    have hnow := hm.run_now_le (Sequential.initial jobs token) schedule
    rw [diary_of_sequential hp]
    exact ⟨_, Diary.past_diary hm _ (Nat.zero_le _) schedule, Nat.zero_add (duration _) ▸ hnow,
      hm.run_now_le_lastReading (Nat.zero_le _) schedule⟩

/-- No job is overdue in less than the budget. -/
theorem Overdue.le_duration {i : Nat} (h : Overdue o jobs token schedule i) :
    ∃ b, o.budget = some b ∧ b.nanos ≤ duration schedule := by
  obtain ⟨now, hpast, hle, -⟩ := exists_past o jobs token schedule
  obtain ⟨b, hb, hused⟩ := Diary.Overdue.usedUp h hpast
  exact ⟨b, hb, Nat.le_trans hused hle⟩

/-- The answer of a job in time was taken while the budget, as it is counted for this job, was not
used up, and in a chain its run took no longer. -/
theorem InTime.counted {i : Nat} (h : InTime o jobs token schedule i) :
    ∃ since seen ran, (diary o jobs token schedule).Counted o (.took i) since seen ∧
      (diary o jobs token schedule).runTime? i = some ran ∧ ∀ b, o.budget = some b →
        seen < since + b.nanos ∧ (o.parallel = false → ran ≤ b.nanos) := by
  obtain ⟨⟨w, hw, hopen⟩, ran, hran, hshort⟩ := h
  exact ⟨w.since, w.seen, ran, hw.counted, hran, fun b hb => ⟨hopen b hb, (hshort · b hb)⟩⟩

/-- A job that is overdue was given up when the budget, as it is counted for this job, was used up,
or in a chain its run took longer. -/
theorem Overdue.counted {i : Nat} (h : Overdue o jobs token schedule i) :
    ∃ b, o.budget = some b ∧
      ((∃ since seen, (diary o jobs token schedule).Counted o (.gaveUp i) since seen ∧
        since + b.nanos ≤ seen) ∨
      o.parallel = false ∧ ∃ ran, (diary o jobs token schedule).runTime? i = some ran ∧
        b.nanos < ran) := by
  rcases h with ⟨w, b, hw, hb, hused⟩ | ⟨-, hp, ran, b, hran, hb, hlong⟩
  · exact ⟨b, hb, .inl ⟨w.since, w.seen, hw.counted, hused⟩⟩
  · exact ⟨b, hb, .inr ⟨hp, ran, hran, hlong⟩⟩

theorem decided_of_results {rs : List ModuleResult}
    (h : evaluate o jobs token schedule = (some (.results rs), after)) :
    (diary o jobs token schedule).Decided o jobs := by
  cases hp : o.parallel with
  | true =>
    rw [evaluate_of_parallel hp] at h
    rw [diary_of_parallel hp]
    exact (Parallel.run_sound hp jobs token schedule).decided hp (Machine.control_of_outcome h)
  | false =>
    rw [evaluate_of_sequential hp] at h
    rw [diary_of_sequential hp]
    exact (Sequential.run_sound o jobs token schedule).decided hp (Machine.control_of_outcome h)

theorem reports_of_results {rs : List ModuleResult}
    (h : evaluate o jobs token schedule = (some (.results rs), after)) :
    Reports o jobs (InTime o jobs token schedule) (Refused o jobs token schedule) rs := by
  unfold InTime Refused
  cases hp : o.parallel with
  | true =>
    rw [evaluate_of_parallel hp] at h
    rw [diary_of_parallel hp]
    exact (Parallel.run_sound hp jobs token schedule).reports hp (Machine.control_of_outcome h)
  | false =>
    rw [evaluate_of_sequential hp] at h
    rw [diary_of_sequential hp]
    exact (Sequential.run_sound o jobs token schedule).reports hp (Machine.control_of_outcome h)

theorem isCancelled_of_cancelled
    (h : evaluate o jobs token schedule = (some .cancelled, after)) :
    after.isCancelled = true := by
  cases hp : o.parallel with
  | true =>
    rw [evaluate_of_parallel hp] at h
    exact Machine.token_of_outcome h ▸
      (Parallel.run_sound hp jobs token schedule).cancelled (Machine.control_of_outcome h)
  | false =>
    rw [evaluate_of_sequential hp] at h
    exact Machine.token_of_outcome h ▸
      (Sequential.run_sound o jobs token schedule).cancelled (Machine.control_of_outcome h)

end Evaluation
end ShellPrompt
