import ShellPrompt.Proofs.Evaluation.InTime

/-!
# ShellPrompt.Proofs.Evaluation.Crash

Where an evaluation crashes.

A worker takes the name of its module, and with a name no worker can have the evaluating thread
stops the whole program. So it does when the time it has to wait until is beyond all there are.

* `Mark.crash?`: the crash a mark of the diary stands for. `Machine.run_crashed_iff` is the run
  lemma: a run crashes just where its diary has such a mark, or has crashed to begin with.
* `Starts`: the evaluating thread comes to start a worker at a job. With one worker per job it
  comes to all of them in order; a chain is started at the first job and behind a job that was
  given up (`Starts.cases`).
* `Oversteps`: it comes to work out a deadline beyond all times. A budget may be so short that this
  never happens (`not_oversteps`), or so long that it always does (`oversteps_of_horizon`).
* `evaluate_crashed_iff`: these two are how an evaluation crashes.
-/

namespace ShellPrompt
namespace Evaluation

def Nameable (jobs : List Job) : Prop := ∀ j ∈ jobs, j.nameable = true

/-- The crash that a mark at some time stands for. -/
def Mark.crash? (o : Options) (jobs : List Job) (now : Nat) : Mark → Option Crash
  | .started i =>
    match jobs[i]? with
    | some j => if j.nameable then none else some (.workerName j.name)
    | none => none
  | .armed => if o.overreaches now then some .deadline else none
  | _ => none

namespace Mark

variable {o : Options} {jobs : List Job} {now : Nat} {c : Crash}

theorem crash?_started {i : Nat} : (started i).crash? o jobs now = some c ↔
    ∃ j, jobs[i]? = some j ∧ j.nameable = false ∧ c = .workerName j.name := by
  cases hj : jobs[i]? with
  | none => simp [crash?, hj]
  | some j => cases hn : j.nameable <;> simp [crash?, hj, hn, eq_comm (a := c)]

theorem crash?_armed : armed.crash? o jobs now = some c ↔
    o.overreaches now = true ∧ c = .deadline := by
  cases h : o.overreaches now <;> simp [crash?, h, eq_comm (a := c)]

@[simp] theorem crash?_looked : looked.crash? o jobs now = none := rfl

@[simp] theorem crash?_took (i : Nat) : (took i).crash? o jobs now = none := rfl

@[simp] theorem crash?_gaveUp (i : Nat) : (gaveUp i).crash? o jobs now = none := rfl

end Mark

/-- It is the evaluating thread that crashes: whoever else takes a step moves nothing on and marks
nothing that could. -/
theorem Machine.Lawful.step_crashed_iff {State : Type} {m : Machine State} (hm : m.Lawful)
    {marks : State → Action → List Mark} {o : Options} {jobs : List Job}
    (hmain : ∀ s c, m.control (m.step s .main) = .done (.crashed c) ↔
      m.control s = .done (.crashed c) ∨
        ∃ mark ∈ marks s .main, mark.crash? o jobs (m.now s) = some c)
    (hothers : ∀ s a, a ≠ .main → ∀ mark ∈ marks s a, ∃ i, mark = .began i ∨ mark = .answered i)
    (s : State) (a : Action) (c : Crash) :
    m.control (m.step s a) = .done (.crashed c) ↔
      m.control s = .done (.crashed c) ∨
        ∃ mark ∈ marks s a, mark.crash? o jobs (m.now s) = some c := by
  by_cases ha : a = .main
  · exact ha ▸ hmain s c
  · rw [hm.others s a ha]
    refine (or_iff_left ?_).symm
    rintro ⟨mark, hmark, hsome⟩
    obtain ⟨i, rfl | rfl⟩ := hothers s a ha mark hmark <;> cases hsome

/-- A run has crashed if its diary says so, or if it had in the beginning. -/
theorem Machine.run_crashed_iff {State : Type} {m : Machine State}
    {marks : State → Action → List Mark} {o : Options} {jobs : List Job}
    (hstep : ∀ s a c, m.control (m.step s a) = .done (.crashed c) ↔
      m.control s = .done (.crashed c) ∨ ∃ mark ∈ marks s a, mark.crash? o jobs (m.now s) = some c)
    (s : State) (schedule : Schedule) (c : Crash) :
    m.control (m.run s schedule) = .done (.crashed c) ↔
      m.control s = .done (.crashed c) ∨
        ∃ entry ∈ m.diary marks s schedule, entry.2.crash? o jobs entry.1 = some c := by
  induction schedule generalizing s with
  | nil => simp [diary, record]
  | cons a rest ih =>
    rw [run_cons, ih, hstep, or_assoc]
    have hhead : (∃ entry ∈ (marks s a).map (Prod.mk (m.now s)),
        entry.2.crash? o jobs entry.1 = some c) ↔
        ∃ mark ∈ marks s a, mark.crash? o jobs (m.now s) = some c := by
      constructor
      · rintro ⟨entry, hentry, hc⟩
        obtain ⟨mark, hmark, rfl⟩ := List.mem_map.1 hentry
        exact ⟨mark, hmark, hc⟩
      · rintro ⟨mark, hmark, hc⟩
        exact ⟨_, List.mem_map_of_mem hmark, hc⟩
    simp only [diary, record, List.mem_append, or_and_right, exists_or, hhead]

namespace Parallel

variable {o : Options} {jobs : List Job} {s : State}

theorem mainStep_crashed_iff (s : State) (c : Crash) :
    (mainStep o jobs s).control = .done (.crashed c) ↔
      s.control = .done (.crashed c) ∨
        ∃ mark ∈ marks jobs s .main, mark.crash? o jobs s.now = some c := by
  cases hc : s.control with
  | arm =>
    simp only [mainStep, marks, hc, List.mem_singleton, exists_eq_left, Mark.crash?_armed]
    cases o.overreaches s.now <;> simp [eq_comm (a := c)]
  | clock =>
    simp only [mainStep, marks, hc]
    split
    case isTrue =>
      refine iff_of_false (by simp) ?_
      rintro (hdone | ⟨mark, hmark, hsome⟩)
      · cases hdone
      · rcases List.mem_cons.1 hmark with rfl | hmark
        · cases hsome
        · obtain ⟨k, -, rfl⟩ := List.mem_map.1 hmark
          cases hsome
    case isFalse => simp
  | receive =>
    simp only [mainStep, marks, hc]
    cases s.channel with
    | nil => simp only [List.head?_nil]; split <;> simp
    | cons m rest => simp
  | poll =>
    simp only [mainStep, marks, hc]
    repeat' split
    all_goals simp
  | finish =>
    simp only [mainStep, marks, hc]
    split <;> simp
  | spawn | done v => simp [mainStep, marks, hc]

theorem began_or_answered (s : State) (a : Action) (ha : a ≠ .main) (mark : Mark)
    (hmark : mark ∈ marks jobs s a) : ∃ i, mark = .began i ∨ mark = .answered i := by
  cases a with
  | main => exact absurd rfl ha
  | worker i =>
    simp only [marks] at hmark
    repeat' split at hmark
    all_goals simp_all
  | tick ns => cases hmark
  | cancel => cases hmark

def Starts (jobs : List Job) (i : Nat) : Prop :=
  ∀ k j, k < i → jobs[k]? = some j → j.nameable = true

/-- The workers are started before anything else happens. -/
theorem initial_crashed_iff (o : Options) (token : Token) (c : Crash) :
    (initial o jobs token).control = .done (.crashed c) ↔
      ∃ i j, Starts jobs i ∧ jobs[i]? = some j ∧ j.nameable = false ∧ c = .workerName j.name := by
  have hfind : (initial o jobs token).control = .done (.crashed c) ↔
      ∃ j, jobs.find? (fun j => !j.nameable) = some j ∧ c = .workerName j.name := by
    cases hj : jobs.find? (fun j => !j.nameable) <;> simp [initial, hj, eq_comm (a := c)]
  rw [hfind]
  constructor
  · rintro ⟨j, hj, rfl⟩
    obtain ⟨hname, i, hi, hget, hbefore⟩ := List.find?_eq_some_iff_getElem.1 hj
    refine ⟨i, j, ?_, ?_, by simpa using hname, rfl⟩
    · intro k j' hk hj'
      obtain ⟨hlt, rfl⟩ := List.getElem?_eq_some_iff.1 hj'
      simpa using hbefore k hk
    · rw [List.getElem?_eq_getElem hi, hget]
  · rintro ⟨i, j, hstarts, hj, hname, rfl⟩
    obtain ⟨hi, rfl⟩ := List.getElem?_eq_some_iff.1 hj
    refine ⟨jobs[i], List.find?_eq_some_iff_getElem.2 ⟨by simp [hname], i, hi, rfl, ?_⟩, rfl⟩
    intro k hk
    simp [hstarts k jobs[k] hk (List.getElem?_eq_getElem _)]

theorem started_notMem_marks (s : State) (a : Action) (i : Nat) :
    .started i ∉ marks jobs s a := by
  intro hmark
  unfold marks at hmark
  repeat' split at hmark
  all_goals simp at hmark

theorem not_tells_started (o : Options) (jobs : List Job) (s : State) (schedule : Schedule)
    (i : Nat) : ¬ (diary o jobs s schedule).Tells (.started i) := by
  rintro ⟨t, ht⟩
  obtain ⟨before, a, -, -, hmark⟩ := Machine.mem_record.1 ht
  obtain ⟨mark, hmark, heq⟩ := List.mem_map.1 hmark
  cases heq
  exact started_notMem_marks _ a i hmark

/-- With nothing wrong about names, the first thing the evaluating thread does is to work out its
deadline. -/
theorem armed_of_main (o : Options) (token : Token) (hn : Nameable jobs)
    {schedule : Schedule} (hmain : .main ∈ schedule) :
    (diary o jobs (initial o jobs token) schedule).Tells .armed := by
  obtain ⟨before, rest, rfl, hbefore⟩ := List.eq_append_cons_of_mem hmain
  have hstart : (initial o jobs token).control = .arm := by
    have hfind : jobs.find? (fun j => !j.nameable) = none :=
      List.find?_eq_none.2 fun j hj => by simp [hn j hj]
    simp only [initial, hfind]
  have hcontrol := (lawful o jobs).control_of_notMem (initial o jobs token) hbefore
  have hmarks : marks jobs ((machine o jobs).run (initial o jobs token) before) .main =
      [.armed] := by
    have hc : ((machine o jobs).run (initial o jobs token) before).control = .arm :=
      hcontrol.trans hstart
    simp only [marks, hc]
  exact Diary.tells_of_step (hmarks ▸ List.mem_singleton_self _) rest

end Parallel

namespace Sequential

variable {o : Options} {jobs : List Job} {d : Diary} {s : State}

theorem spawn_crashed_iff (hc : s.control = .spawn) (c : Crash) :
    (mainStep o jobs s).control = .done (.crashed c) ↔
      ∃ mark ∈ marks jobs s .main, mark.crash? o jobs s.now = some c := by
  simp only [mainStep, marks, hc]
  cases hj : jobs[s.next]? with
  | none =>
    have hn : ¬ s.next < jobs.length := Nat.not_lt.2 (List.getElem?_eq_none_iff.1 hj)
    simp [hn]
  | some j =>
    have hn : s.next < jobs.length := (List.getElem?_eq_some_iff.1 hj).1
    cases ht : s.token.isCancelled with
    | true => simp
    | false =>
      simp only [hn, decide_true, Bool.not_false, Bool.and_true, if_true, List.mem_singleton,
        exists_eq_left, Mark.crash?_started, hj, Option.some.injEq, exists_eq_left']
      cases hname : j.nameable with
      | true => cases o.refuses s.next <;> simp
      | false => simp [eq_comm (a := c)]

theorem mainStep_crashed_iff (s : State) (c : Crash) :
    (mainStep o jobs s).control = .done (.crashed c) ↔
      s.control = .done (.crashed c) ∨
        ∃ mark ∈ marks jobs s .main, mark.crash? o jobs s.now = some c := by
  cases hc : s.control with
  | spawn =>
    rw [spawn_crashed_iff hc]
    exact (or_iff_right nofun).symm
  | arm =>
    simp only [mainStep, marks, hc, List.mem_singleton, exists_eq_left, Mark.crash?_armed]
    cases o.overreaches s.now <;> simp [eq_comm (a := c)]
  | poll =>
    simp only [mainStep, marks, hc]
    repeat' split
    all_goals simp
  | clock =>
    simp only [mainStep, marks, hc]
    cases hj : jobs[s.next]? with
    | none =>
      have hn : ¬ s.next < jobs.length := Nat.not_lt.2 (List.getElem?_eq_none_iff.1 hj)
      simp [hn]
    | some j =>
      have hn : s.next < jobs.length := (List.getElem?_eq_some_iff.1 hj).1
      cases expired s.deadline s.now <;> simp [hn]
  | receive =>
    simp only [mainStep, marks, hc]
    cases s.current with
    | none => simp
    | some w =>
      cases hsent : w.sent with
      | nil => simp only [Option.bind_some, hsent, List.head?_nil]; split <;> simp
      | cons m rest => simp [hsent]
  | finish =>
    simp only [mainStep, marks, hc]
    split <;> simp
  | done v => simp [mainStep, marks, hc]

theorem began_or_answered (s : State) (a : Action) (ha : a ≠ .main) (mark : Mark)
    (hmark : mark ∈ marks jobs s a) : ∃ i, mark = .began i ∨ mark = .answered i := by
  cases a with
  | main => exact absurd rfl ha
  | worker i =>
    cases i with
    | zero =>
      cases hcur : s.current with
      | none => simp [marks, hcur] at hmark
      | some w =>
        simp only [marks, hcur, Option.map_some, Option.getD_some] at hmark
        exact ⟨w.position, Chain.began_or_answered hmark⟩
    | succ i => cases hmark
  | tick ns => cases hmark
  | cancel => cases hmark

/-! ## Where chains are started -/

def Begins (d : Diary) (next : Nat) : Prop := next = 0 ∨ ∃ k, next = k + 1 ∧ d.Tells (.gaveUp k)

theorem Begins.note {next : Nat} (h : Begins d next) (t : Nat) (marks : List Mark) :
    Begins (d.note t marks) next :=
  h.imp_right fun ⟨k, hk, hgaveUp⟩ => ⟨k, hk, (Diary.tells_note ..).2 (.inl hgaveUp)⟩

/-- The evaluating thread has come to start workers only in the beginning, and when it has given up
a job. -/
structure Begun (d : Diary) (s : State) : Prop where
  started : ∀ i, d.Tells (.started i) → Begins d i
  spawn : s.control = .spawn → Begins d s.next

theorem started_mem_marks {a : Action} {i : Nat} (h : .started i ∈ marks jobs s a) :
    a = .main ∧ s.control = .spawn ∧ i = s.next := by
  cases a with
  | main =>
    cases hc : s.control with
    | spawn =>
      simp only [marks, hc] at h
      split at h <;> simp_all
    | clock =>
      simp only [marks, hc] at h
      split at h <;> simp at h
    | receive =>
      simp only [marks, hc, Option.mem_toList] at h
      obtain ⟨m, -, hm⟩ := Option.map_eq_some_iff.1 h
      cases hm
    | _ => simp [marks, hc] at h
  | worker k =>
    cases k with
    | zero =>
      cases hcur : s.current with
      | none => simp [marks, hcur] at h
      | some w =>
        simp only [marks, hcur, Option.map_some, Option.getD_some, Chain.marks] at h
        repeat' split at h
        all_goals simp at h
    | succ k => cases h
  | tick ns => cases h
  | cancel => cases h

theorem armed_mem_marks {a : Action} (h : .armed ∈ marks jobs s a) : s.control = .arm := by
  cases a with
  | main =>
    cases hc : s.control with
    | arm => rfl
    | spawn | clock =>
      simp only [marks, hc] at h
      split at h <;> simp at h
    | receive =>
      simp only [marks, hc, Option.mem_toList] at h
      obtain ⟨m, -, hm⟩ := Option.map_eq_some_iff.1 h
      cases hm
    | _ => simp [marks, hc] at h
  | worker k =>
    cases k with
    | zero =>
      cases hcur : s.current with
      | none => simp [marks, hcur] at h
      | some w =>
        simp only [marks, hcur, Option.map_some, Option.getD_some, Chain.marks] at h
        repeat' split at h
        all_goals simp at h
    | succ k => cases h
  | tick ns => cases h
  | cancel => cases h

/-- Under a set token a chain gets no worker, and so no deadline is worked out. -/
theorem not_armed_of_set (o : Options) (jobs : List Job) {token : Token}
    (hset : token.isCancelled = true) (schedule : Schedule) :
    ¬ (diary o jobs (initial jobs token) schedule).Tells .armed := by
  rintro ⟨t, ht⟩
  obtain ⟨before, a, -, -, hmark⟩ := Machine.mem_record.1 ht
  obtain ⟨mark, hmark, heq⟩ := List.mem_map.1 hmark
  cases heq
  have hidle := Machine.run_invariant (m := machine o jobs) (s := initial jobs token)
    (fun s => s.token.isCancelled = true ∧
      (s.control = .spawn ∨ s.control = .finish ∨ ∃ v, s.control = .done v))
    (fun s a h => ⟨(lawful o jobs).step_set h.1 a, ?_⟩) ⟨hset, .inl rfl⟩ before
  · have hc := armed_mem_marks hmark
    rcases hidle.2 with h | h | ⟨v, h⟩ <;> exact nomatch hc.symm.trans h
  · by_cases ha : a = .main
    · subst ha
      simp only [machine]
      grind [step, mainStep]
    · rw [show ((machine o jobs).step s a).control = s.control from (lawful o jobs).others s a ha]
      exact h.2

theorem step_begun (h : Begun d s) (a : Action) :
    Begun (d.note s.now (marks jobs s a)) (step o jobs s a) := by
  refine ⟨fun i hi => ?_, fun hc => ?_⟩
  · rcases (Diary.tells_note ..).1 hi with hi | hi
    · exact (h.started i hi).note _ _
    · obtain ⟨-, hspawn, rfl⟩ := started_mem_marks hi
      exact (h.spawn hspawn).note _ _
  · -- only where a job is given up does the thread come to start another worker
    have hcases : s.control = .spawn ∧ (step o jobs s a).next = s.next ∨
        (step o jobs s a).next = s.next + 1 ∧ .gaveUp s.next ∈ marks jobs s a := by
      cases a with
      | main => grind [step, mainStep, marks]
      | worker k => cases k <;> grind [step, workerStep]
      | tick ns => exact .inl ⟨hc, rfl⟩
      | cancel => exact .inl ⟨hc, rfl⟩
    rcases hcases with ⟨hspawn, hnext⟩ | ⟨hnext, hmark⟩
    · exact hnext ▸ (h.spawn hspawn).note _ _
    · exact hnext ▸ .inr ⟨s.next, rfl, (Diary.tells_note ..).2 (.inr hmark)⟩

theorem initial_begun (jobs : List Job) (token : Token) : Begun [] (initial jobs token) where
  started := by simp [Diary.Tells]
  spawn := fun _ => .inl rfl

theorem run_begun (o : Options) (jobs : List Job) (token : Token) (schedule : Schedule) :
    Begun (diary o jobs (initial jobs token) schedule)
      (run o jobs (initial jobs token) schedule) :=
  Machine.run_record Begun (fun _ _ a hs => step_begun hs a) (initial_begun jobs token) schedule

/-- A job is given up when its budget is used up, and is not in time then. -/
theorem Sound.givenUp (h : Sound o jobs d s) {k : Nat} (hk : d.Tells (.gaveUp k)) :
    d.GivenUp o k ∧ ¬ d.InTime o k := by
  have hlt : k < s.next := Nat.lt_of_not_le fun hle => (h.filled.ahead k hle).2 hk
  obtain ⟨r, -, ⟨-, hnot, -⟩ | ⟨hgiven, hnot, -⟩⟩ := h.filled.settled k hlt
  · exact absurd hk hnot
  · exact ⟨hgiven, fun hin => hnot hin.1.tells⟩

theorem next_of_notMem (o : Options) (jobs : List Job) (s : State) {schedule : Schedule}
    (hmain : .main ∉ schedule) : (run o jobs s schedule).next = s.next := by
  induction schedule generalizing s with
  | nil => rfl
  | cons a rest ih =>
    rw [List.mem_cons, not_or] at hmain
    refine (ih (step o jobs s a) hmain.2).trans ?_
    cases a with
    | main => exact absurd rfl hmain.1
    | worker k => cases k <;> grind [step, workerStep]
    | tick ns => rfl
    | cancel => rfl

/-- Where the token cannot be set, the first thing the evaluating thread does is to start a worker
at the first job. -/
theorem started_zero (o : Options) (hjobs : jobs ≠ []) {schedule : Schedule}
    (hmain : .main ∈ schedule) :
    (diary o jobs (initial jobs .own) schedule).Tells (.started 0) := by
  obtain ⟨before, rest, rfl, hbefore⟩ := List.eq_append_cons_of_mem hmain
  have hcontrol : (run o jobs (initial jobs .own) before).control = .spawn :=
    (lawful o jobs).control_of_notMem (initial jobs .own) hbefore
  have hnext : (run o jobs (initial jobs .own) before).next = 0 :=
    next_of_notMem o jobs (initial jobs .own) hbefore
  have htoken : (run o jobs (initial jobs .own) before).token = .own :=
    (lawful o jobs).run_own rfl before
  have hmarks : marks jobs (run o jobs (initial jobs .own) before) .main = [.started 0] := by
    simp [marks, hcontrol, hnext, htoken, Token.isCancelled, List.length_pos_iff.2 hjobs]
  exact Diary.tells_of_step (hmarks ▸ List.mem_singleton_self _) rest

end Sequential

/-! ## Evaluations -/

variable {o : Options} {jobs : List Job} {token : Token} {schedule : Schedule}

/-- The evaluating thread comes to start a worker at a job. -/
def Starts (o : Options) (jobs : List Job) (token : Token) (schedule : Schedule) (i : Nat) :
    Prop :=
  if o.parallel then Parallel.Starts jobs i
  else (diary o jobs token schedule).Tells (.started i)

/-- It comes to work out a time to wait until, and that is beyond all there are. -/
def Oversteps (o : Options) (jobs : List Job) (token : Token) (schedule : Schedule) : Prop :=
  ∃ t, (t, .armed) ∈ diary o jobs token schedule ∧ o.overreaches t = true

theorem evaluate_crashed_iff (c : Crash) :
    (evaluate o jobs token schedule).1 = some (.crashed c) ↔
      (∃ i j, Starts o jobs token schedule i ∧ jobs[i]? = some j ∧ j.nameable = false ∧
        c = .workerName j.name) ∨
      (c = .deadline ∧ Oversteps o jobs token schedule) := by
  have hverdict : ∀ control : Control,
      verdict? control = some (.crashed c) ↔ control = .done (.crashed c) :=
    fun control => ⟨eq_done_of_verdict?, fun h => by rw [h, verdict?]⟩
  cases hp : o.parallel with
  | true =>
    simp only [evaluate_of_parallel hp, Oversteps, diary_of_parallel hp, Starts, hp, if_true,
      Machine.outcome, hverdict]
    rw [Machine.run_crashed_iff ((Parallel.lawful o jobs).step_crashed_iff
      Parallel.mainStep_crashed_iff Parallel.began_or_answered)]
    refine or_congr (Parallel.initial_crashed_iff o token c) ?_
    constructor
    · rintro ⟨⟨t, mark⟩, hentry, hcrash⟩
      cases mark with
      | started i => exact absurd ⟨t, hentry⟩ (Parallel.not_tells_started _ _ _ _ i)
      | armed =>
        obtain ⟨hover, rfl⟩ := Mark.crash?_armed.1 hcrash
        exact ⟨rfl, t, hentry, hover⟩
      | _ => cases hcrash
    · rintro ⟨rfl, t, hentry, hover⟩
      exact ⟨_, hentry, Mark.crash?_armed.2 ⟨hover, rfl⟩⟩
  | false =>
    simp only [evaluate_of_sequential hp, Oversteps, diary_of_sequential hp, Starts, hp,
      Bool.false_eq_true, if_false, Machine.outcome, hverdict]
    rw [Machine.run_crashed_iff ((Sequential.lawful o jobs).step_crashed_iff
      Sequential.mainStep_crashed_iff Sequential.began_or_answered)]
    refine (or_iff_right nofun).trans ?_
    constructor
    · rintro ⟨⟨t, mark⟩, hentry, hcrash⟩
      cases mark with
      | started i =>
        obtain ⟨j, hj, hname, rfl⟩ := Mark.crash?_started.1 hcrash
        exact .inl ⟨i, j, ⟨t, hentry⟩, hj, hname, rfl⟩
      | armed =>
        obtain ⟨hover, rfl⟩ := Mark.crash?_armed.1 hcrash
        exact .inr ⟨rfl, t, hentry, hover⟩
      | _ => cases hcrash
    · rintro (⟨i, j, ⟨t, hentry⟩, hj, hname, rfl⟩ | ⟨rfl, t, hentry, hover⟩)
      · exact ⟨_, hentry, Mark.crash?_started.2 ⟨j, hj, hname, rfl⟩⟩
      · exact ⟨_, hentry, Mark.crash?_armed.2 ⟨hover, rfl⟩⟩

theorem starts_zero (hp : o.parallel = false) (hjobs : jobs ≠ []) (hmain : .main ∈ schedule) :
    Starts o jobs .own schedule 0 := by
  simp only [Starts, hp, Bool.false_eq_true, if_false, diary_of_sequential hp]
  exact Sequential.started_zero o hjobs hmain

/-- In a chain a worker is started at the first job, or behind one that is overdue. -/
theorem Starts.cases (hp : o.parallel = false) {i : Nat} (h : Starts o jobs token schedule i) :
    i = 0 ∨ ∃ k, i = k + 1 ∧ Overdue o jobs token schedule k ∧
      ¬ InTime o jobs token schedule k := by
  simp only [Starts, hp, Bool.false_eq_true, if_false] at h
  unfold Overdue InTime
  rw [diary_of_sequential hp] at h ⊢
  rcases (Sequential.run_begun o jobs token schedule).started i h with h | ⟨k, rfl, hk⟩
  · exact .inl h
  · obtain ⟨hgiven, hout⟩ := (Sequential.run_sound o jobs token schedule).givenUp hk
    exact .inr ⟨k, rfl, .inl hgiven, hout⟩

/-! ### Deadlines -/

theorem attainable_iff (o : Options) :
    o.Attainable ↔ ∀ b, o.budget = some b → lastReading + b.nanos < horizon := by
  have hreaches : ∀ now, o.overreaches now = false ↔
      ∀ b, o.budget = some b → now + b.nanos < horizon := by
    intro now
    rw [← Bool.not_eq_true, overreaches_iff]
    simp
  constructor
  · exact fun h => (hreaches _).1 (h _ (Nat.le_refl _))
  · intro h now hnow
    refine (hreaches now).2 fun b hb => ?_
    have := h b hb
    omega

/-- With a budget that is short enough every deadline is a time there is. -/
theorem not_oversteps (ho : o.Attainable) : ¬ Oversteps o jobs token schedule := by
  rintro ⟨t, ht, hover⟩
  obtain ⟨now, hpast, -, hlast⟩ := exists_past o jobs token schedule
  rw [ho t (Nat.le_trans (hpast _ ht) hlast)] at hover
  cases hover

/-- A chain looks at the token before it works out a deadline. -/
theorem not_oversteps_of_set (hp : o.parallel = false) (hset : token.isCancelled = true) :
    ¬ Oversteps o jobs token schedule := by
  rintro ⟨t, ht, -⟩
  rw [diary_of_sequential hp] at ht
  exact Sequential.not_armed_of_set o jobs hset schedule ⟨t, ht⟩

/-- With one worker for each job, a budget as long as all times there are is overstepped by the
first step of the evaluating thread. -/
theorem oversteps_of_horizon (hp : o.parallel = true) {b : Span} (hb : o.budget = some b)
    (hfar : horizon ≤ b.nanos) (hn : Nameable jobs) (token : Token) (hmain : .main ∈ schedule) :
    Oversteps o jobs token schedule := by
  obtain ⟨t, ht⟩ := Parallel.armed_of_main o token hn hmain
  exact ⟨t, (diary_of_parallel hp).symm ▸ ht,
    (overreaches_iff o t).2 ⟨b, hb, Nat.le_trans hfar (Nat.le_add_left ..)⟩⟩

end Evaluation
end ShellPrompt
