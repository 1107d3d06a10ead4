import Mathlib.Data.List.Induction
import ShellPrompt.Proofs.Evaluation.Run

/-!
# ShellPrompt.Proofs.Evaluation.Diary

What goes on in an evaluation, by the clock.

A `Diary` has a mark, with its time, for everything that makes an answer come in time or not: runs
begin and end, the evaluating thread sets its deadline, looks at the clock, takes an answer or gives
a job up. Nothing in it is about deadlines the machines keep.

* `wait?`: the wait that is going on, from when it is counted and when the clock was last looked at.
  With one worker for each job there is one wait for all of them. In a chain each job is waited for
  by itself, so that every answer that is taken needs a wait of its own.
* `InTime`: the answer was taken in a wait that was shorter than the budget by the last look at the
  clock; in a chain, moreover, the run of the job took no longer than the budget.
* `Overdue`: a look at the clock found the budget used up, or the run took longer.
* `Counted`: the time a wait is counted from and the last look at the clock, as entries of the diary
  and without `wait?`.
* `Reports`: one result per job, the job's own answer if it came in time.
-/

namespace ShellPrompt
namespace Evaluation

inductive Mark where
  /-- The evaluating thread comes to start a worker at a job. -/
  | started (i : Nat)
  /-- It works out the time it waits until. -/
  | armed
  /-- It looks at the clock. -/
  | looked
  /-- The run of a job begins in a worker that is listened to. -/
  | began (i : Nat)
  /-- That run has ended, and its answer is sent. -/
  | answered (i : Nat)
  /-- The evaluating thread takes the answer of a job. -/
  | took (i : Nat)
  /-- It waits for a job no longer. -/
  | gaveUp (i : Nat)
deriving DecidableEq

abbrev Diary := List (Nat × Mark)

/-- The system refuses no worker. -/
def Options.Grants (o : Options) : Prop := ∀ i, o.refuses i = none

/-- The marks of a run, with their times. -/
def Machine.diary {State : Type} (m : Machine State) (marks : State → Action → List Mark) :
    State → Schedule → Diary :=
  m.record fun s a => (marks s a).map (Prod.mk (m.now s))

namespace Diary

/-- A diary with the marks of one more step. -/
def note (d : Diary) (t : Nat) (marks : List Mark) : Diary := d ++ marks.map (Prod.mk t)

def Tells (d : Diary) (mark : Mark) : Prop := ∃ t, (t, mark) ∈ d

def times (d : Diary) (mark : Mark) : List Nat :=
  d.filterMap fun entry => if entry.2 = mark then some entry.1 else none

/-- The last time of a mark. -/
def last? (d : Diary) (mark : Mark) : Option Nat := (d.times mark).getLast?

/-- How long the run of a job took. -/
def runTime? (d : Diary) (i : Nat) : Option Nat :=
  match d.last? (.began i), d.last? (.answered i) with
  | some began, some answered => some (answered - began)
  | _, _ => none

/-- A wait of the evaluating thread. -/
structure Wait where
  /-- The time the budget is counted from. -/
  since : Nat
  /-- The time the clock has shown last. -/
  seen : Nat

/-- How a mark goes on with the wait there is. -/
def proceed (o : Options) (wait? : Option Wait) : Nat × Mark → Option Wait
  | (t, .armed) => some ⟨t, t⟩
  | (t, .looked) => wait?.map fun w => { w with seen := t }
  | (_, .took _) => if o.parallel then wait? else none
  | (_, .gaveUp _) => if o.parallel then wait? else none
  | _ => wait?

/-- The wait that is going on. -/
def wait? (o : Options) (d : Diary) : Option Wait := d.foldl (proceed o) none

/-- Something was noted during a wait. -/
def During (o : Options) (d : Diary) (mark : Mark) (w : Wait) : Prop :=
  ∃ before t rest, d = before ++ (t, mark) :: rest ∧ wait? o before = some w

/-- The answer of a job was taken before the budget was used up. -/
def Taken (o : Options) (d : Diary) (i : Nat) : Prop :=
  ∃ w, During o d (.took i) w ∧ ∀ b, o.budget = some b → w.seen < w.since + b.nanos

/-- A job was given up when the budget was used up. -/
def GivenUp (o : Options) (d : Diary) (i : Nat) : Prop :=
  ∃ w b, During o d (.gaveUp i) w ∧ o.budget = some b ∧ w.since + b.nanos ≤ w.seen

def InTime (o : Options) (d : Diary) (i : Nat) : Prop :=
  Taken o d i ∧ ∃ e, d.runTime? i = some e ∧
    (o.parallel = false → ∀ b, o.budget = some b → e ≤ b.nanos)

def Overdue (o : Options) (d : Diary) (i : Nat) : Prop :=
  GivenUp o d i ∨ Taken o d i ∧ o.parallel = false ∧
    ∃ e b, d.runTime? i = some e ∧ o.budget = some b ∧ b.nanos < e

/-- What is noted from when the evaluating thread works out, at `since`, the time it waits until. It
does not do so again, in a chain it sees to no job, and by its last look at the clock it is `seen`.
-/
structure Waits (o : Options) (since seen : Nat) (between : Diary) : Prop where
  once : ∀ entry ∈ between, entry.2 ≠ .armed
  alone : o.parallel = false → ∀ entry ∈ between, ∀ k, entry.2 ≠ .took k ∧ entry.2 ≠ .gaveUp k
  seen : seen = (between.last? .looked).getD since

/-- The budget of what is noted is counted from `since`, and the clock showed `seen` last. -/
def Counted (o : Options) (d : Diary) (mark : Mark) (since seen : Nat) : Prop :=
  ∃ before between t after, d = before ++ (since, .armed) :: between ++ (t, mark) :: after ∧
    Waits o since seen between

/-- The system refuses the worker of a job: its own, or in a chain the one it would have run in. -/
def Refused (o : Options) (d : Diary) (i : Nat) (why : String) : Prop :=
  if o.parallel then o.refuses i = some why
  else ∃ k, k ≤ i ∧ d.Tells (.started k) ∧ o.refuses k = some why

/-! ## Longer diaries -/

variable {o : Options} {d : Diary} {mark : Mark} {marks : List Mark} {i now : Nat}

@[simp] theorem note_nil (d : Diary) (t : Nat) : d.note t [] = d := List.append_nil d

theorem note_cons (d : Diary) (t : Nat) (mark : Mark) (marks : List Mark) :
    d.note t (mark :: marks) = (d.note t [mark]).note t marks := by
  simp [note]

theorem tells_note (d : Diary) (t : Nat) (marks : List Mark) (mark : Mark) :
    (d.note t marks).Tells mark ↔ d.Tells mark ∨ mark ∈ marks := by
  simp [Tells, note, exists_or]

/-- What a step marks, the diary tells. -/
theorem tells_of_step {State : Type} {m : Machine State} {marks : State → Action → List Mark}
    {s : State} {before : Schedule} {a : Action}
    (h : mark ∈ marks (m.run s before) a) (rest : Schedule) :
    (m.diary marks s (before ++ a :: rest)).Tells mark :=
  ⟨_, Machine.mem_record.2 ⟨before, a, rest, rfl, List.mem_map_of_mem h⟩⟩

theorem times_note (d : Diary) (t : Nat) (marks : List Mark) (mark : Mark) :
    (d.note t marks).times mark = d.times mark ++ times (marks.map (Prod.mk t)) mark :=
  List.filterMap_append

theorem mem_of_last? {t : Nat} (h : d.last? mark = some t) : (t, mark) ∈ d := by
  obtain ⟨entry, hentry, heq⟩ := List.mem_filterMap.1 (List.mem_of_getLast? h)
  split at heq
  case isTrue hmark =>
    cases heq
    exact hmark ▸ hentry
  case isFalse => cases heq

theorem last?_note_of_notMem (t : Nat) (h : mark ∉ marks) :
    (d.note t marks).last? mark = d.last? mark := by
  have hnone : times (marks.map (Prod.mk t)) mark = [] := by
    refine List.filterMap_eq_nil_iff.2 fun entry hentry => if_neg ?_
    obtain ⟨mark', hmark', rfl⟩ := List.mem_map.1 hentry
    exact fun heq => h (heq ▸ hmark')
  rw [last?, times_note, hnone, List.append_nil]
  rfl

theorem last?_note_self (d : Diary) (t : Nat) (mark : Mark) :
    (d.note t [mark]).last? mark = some t := by
  rw [last?, times_note]
  simp [times]

/-- Runs of other jobs do not matter. -/
theorem runTime?_note_of_notMem (t : Nat) (hbegan : .began i ∉ marks)
    (hanswered : .answered i ∉ marks) : (d.note t marks).runTime? i = d.runTime? i := by
  rw [runTime?, runTime?, last?_note_of_notMem t hbegan, last?_note_of_notMem t hanswered]

theorem runTime?_answered {began : Nat} (h : d.last? (.began i) = some began) (t : Nat) :
    (d.note t [.answered i]).runTime? i = some (t - began) := by
  rw [runTime?, last?_note_of_notMem t (by simp), h, last?_note_self]

theorem During.note {w : Wait} (h : During o d mark w) (t : Nat) (marks : List Mark) :
    During o (d.note t marks) mark w := by
  obtain ⟨before, t', rest, rfl, hw⟩ := h
  exact ⟨before, t', rest ++ marks.map (Prod.mk t), by simp [Diary.note], hw⟩

theorem During.tells {w : Wait} (h : During o d mark w) : d.Tells mark := by
  obtain ⟨before, t, rest, rfl, -⟩ := h
  exact ⟨t, by simp⟩

theorem during_note {w : Wait} (h : wait? o d = some w) (t : Nat) (mark : Mark) :
    During o (d.note t [mark]) mark w := ⟨d, t, [], rfl, h⟩

theorem Taken.note (h : Taken o d i) (t : Nat) (marks : List Mark) :
    Taken o (d.note t marks) i := h.imp fun _ hw => ⟨hw.1.note t marks, hw.2⟩

theorem Taken.tells (h : Taken o d i) : d.Tells (.took i) := h.elim fun _ hw => hw.1.tells

theorem GivenUp.note (h : GivenUp o d i) (t : Nat) (marks : List Mark) :
    GivenUp o (d.note t marks) i := by
  obtain ⟨w, b, hw, hrest⟩ := h
  exact ⟨w, b, hw.note t marks, hrest⟩

theorem GivenUp.tells (h : GivenUp o d i) : d.Tells (.gaveUp i) :=
  h.elim fun _ hw => hw.elim fun _ hb => hb.1.tells

/-! ## Waits -/

theorem wait?_note (o : Options) (d : Diary) (t : Nat) (marks : List Mark) :
    wait? o (d.note t marks) = (marks.map (Prod.mk t)).foldl (proceed o) (wait? o d) :=
  List.foldl_append

theorem wait?_armed (o : Options) (d : Diary) (t : Nat) :
    wait? o (d.note t [.armed]) = some ⟨t, t⟩ := by
  rw [wait?_note]
  rfl

theorem wait?_looked {w : Wait} (h : wait? o d = some w) (t : Nat) :
    wait? o (d.note t [.looked]) = some { w with seen := t } := by
  rw [wait?_note, h]
  rfl

/-- Nothing that workers do has to do with waits. -/
theorem wait?_worker (t : Nat) (h : ∀ mark ∈ marks, ∃ k, mark = .began k ∨ mark = .answered k) :
    wait? o (d.note t marks) = wait? o d := by
  rw [wait?_note]
  induction marks with
  | nil => rfl
  | cons mark rest ih =>
    obtain ⟨hmark, hrest⟩ := List.forall_mem_cons.1 h
    obtain ⟨k, rfl | rfl⟩ := hmark
    · exact ih hrest
    · exact ih hrest

/-- One wait for all jobs: it goes on when one of them has been seen to. -/
theorem wait?_shared (hp : o.parallel = true) (t : Nat)
    (h : ∀ mark ∈ marks, ∃ k, mark = .took k ∨ mark = .gaveUp k) :
    wait? o (d.note t marks) = wait? o d := by
  rw [wait?_note]
  induction marks with
  | nil => rfl
  | cons mark rest ih =>
    obtain ⟨hmark, hrest⟩ := List.forall_mem_cons.1 h
    have hsame : proceed o (wait? o d) (t, mark) = wait? o d := by
      obtain ⟨k, rfl | rfl⟩ := hmark <;> exact if_pos hp
    rw [List.map_cons, List.foldl_cons, hsame]
    exact ih hrest

theorem Waits.note {since seen : Nat} {between : Diary} (h : Waits o since seen between) (t : Nat)
    (honce : mark ≠ .armed) (hlooked : mark ≠ .looked)
    (halone : o.parallel = false → ∀ k, mark ≠ .took k ∧ mark ≠ .gaveUp k) :
    Waits o since seen (between.note t [mark]) where
  once := List.forall_mem_append.2 ⟨h.once, by simpa using honce⟩
  alone hp := List.forall_mem_append.2 ⟨h.alone hp, by simpa using halone hp⟩
  seen := by
    rw [last?_note_of_notMem t (by simpa using Ne.symm hlooked)]
    exact h.seen

theorem Waits.look {since seen : Nat} {between : Diary} (h : Waits o since seen between) (t : Nat) :
    Waits o since t (between.note t [.looked]) where
  once := List.forall_mem_append.2 ⟨h.once, by simp⟩
  alone hp := List.forall_mem_append.2 ⟨h.alone hp, by simp⟩
  seen := by rw [last?_note_self, Option.getD_some]

/-- A wait goes on from the last time its end was worked out. -/
theorem waits_of_wait? {w : Wait} (h : wait? o d = some w) :
    ∃ before between, d = before ++ (w.since, .armed) :: between ∧
      Waits o w.since w.seen between := by
  induction d using List.reverseRecOn generalizing w with
  | nil => cases h
  | append_singleton d entry ih =>
    obtain ⟨t, mark⟩ := entry
    rw [show d ++ [(t, mark)] = note d t [mark] from rfl, wait?_note] at h
    have hgoes : wait? o d = some w → mark ≠ .armed → mark ≠ .looked →
        (o.parallel = false → ∀ k, mark ≠ .took k ∧ mark ≠ .gaveUp k) →
        ∃ before between, d ++ [(t, mark)] = before ++ (w.since, .armed) :: between ∧
          Waits o w.since w.seen between := by
      intro hw honce hlooked halone
      obtain ⟨before, between, rfl, hwaits⟩ := ih hw
      exact ⟨before, note between t [mark], by simp [Diary.note],
        hwaits.note t honce hlooked halone⟩
    cases mark with
    | armed =>
      cases h
      exact ⟨d, [], rfl, ⟨List.forall_mem_nil _, fun _ => List.forall_mem_nil _, rfl⟩⟩
    | looked =>
      obtain ⟨w', hw', rfl⟩ := Option.map_eq_some_iff.1 h
      obtain ⟨before, between, rfl, hwaits⟩ := ih hw'
      exact ⟨before, note between t [.looked], by simp [Diary.note], hwaits.look t⟩
    | took k | gaveUp k =>
      cases hp : o.parallel with
      | true =>
        rw [← wait?_note, wait?_shared hp t (by simp)] at h
        exact hgoes h (by simp) (by simp) (by simp [hp])
      | false => simp [proceed, hp] at h
    | started k | began k | answered k => exact hgoes h (by simp) (by simp) (by simp)

theorem During.counted {w : Wait} (h : During o d mark w) :
    Counted o d mark w.since w.seen := by
  obtain ⟨before, t, after, rfl, hw⟩ := h
  obtain ⟨front, between, rfl, hwaits⟩ := waits_of_wait? hw
  exact ⟨front, between, t, after, rfl, hwaits⟩

/-! ## Times -/

/-- Nothing in the diary is yet to come. -/
def Past (d : Diary) (now : Nat) : Prop := ∀ entry ∈ d, entry.1 ≤ now

theorem Past.wait?_le (h : d.Past now) {w : Wait} (hw : wait? o d = some w) : w.seen ≤ now := by
  have hgo : ∀ (d : Diary), d.Past now → ∀ start : Option Wait,
      (∀ w, start = some w → w.seen ≤ now) →
      ∀ w, d.foldl (proceed o) start = some w → w.seen ≤ now := by
    intro d hd
    induction d with
    | nil => exact fun _ hstart => hstart
    | cons entry rest ih =>
      obtain ⟨hentry, hrest⟩ := List.forall_mem_cons.1 hd
      intro start hstart
      refine ih hrest _ fun w hw => ?_
      obtain ⟨t, mark⟩ := entry
      cases mark with
      | armed =>
        cases hw
        exact hentry
      | looked =>
        obtain ⟨w', -, rfl⟩ := Option.map_eq_some_iff.1 hw
        exact hentry
      | took k => exact hstart w (by simp only [proceed] at hw; split at hw <;> simp_all)
      | gaveUp k => exact hstart w (by simp only [proceed] at hw; split at hw <;> simp_all)
      | _ => exact hstart w hw
  exact hgo d h none nofun w hw

theorem Past.during_le (h : d.Past now) {w : Wait} (hw : During o d mark w) : w.seen ≤ now := by
  obtain ⟨before, t, rest, rfl, hwait⟩ := hw
  have hbefore : Past before now := fun entry hentry => h entry (List.mem_append_left _ hentry)
  exact hbefore.wait?_le hwait

theorem Past.runTime?_le (h : d.Past now) {e : Nat} (he : d.runTime? i = some e) : e ≤ now := by
  unfold runTime? at he
  split at he
  case h_1 began answered _ hanswered =>
    cases he
    exact Nat.le_trans (Nat.sub_le ..) (h _ (mem_of_last? hanswered))
  case h_2 => cases he

theorem past_diary {State : Type} {m : Machine State} (hm : m.Lawful)
    (marks : State → Action → List Mark) {s : State} (hs : m.now s ≤ lastReading)
    (schedule : Schedule) : (m.diary marks s schedule).Past (m.now (m.run s schedule)) := by
  have hstep : ∀ (told : Diary) (s : State) (a : Action),
      told.Past (m.now s) ∧ m.now s ≤ lastReading →
      (told ++ (marks s a).map (Prod.mk (m.now s))).Past (m.now (m.step s a)) ∧
        m.now (m.step s a) ≤ lastReading := by
    rintro told s a ⟨hpast, hlast⟩
    rw [hm.now]
    refine ⟨?_, a.passed_le_lastReading hlast⟩
    have hle := a.le_passed hlast
    refine List.forall_mem_append.2 ⟨fun entry h => Nat.le_trans (hpast entry h) hle, ?_⟩
    intro entry hentry
    obtain ⟨mark, -, rfl⟩ := List.mem_map.1 hentry
    exact hle
  have hstart : Past [] (m.now s) ∧ m.now s ≤ lastReading := ⟨List.forall_mem_nil _, hs⟩
  exact (Machine.run_record (fun told s => Past told (m.now s) ∧ m.now s ≤ lastReading) hstep
    hstart schedule).1

/-- What is overdue has had its budget. -/
theorem Overdue.usedUp (h : Overdue o d i) (hpast : d.Past now) :
    ∃ b, o.budget = some b ∧ b.nanos ≤ now := by
  rcases h with ⟨w, b, hw, hb, hle⟩ | ⟨-, -, e, b, he, hb, hlt⟩
  · have := hpast.during_le hw
    exact ⟨b, hb, by omega⟩
  · have := hpast.runTime?_le he
    exact ⟨b, hb, by omega⟩

/-- No job is in time and overdue, unless it has been taken and given up. -/
theorem InTime.not_overdue (h : InTime o d i)
    (honce : ¬ (d.Tells (.took i) ∧ d.Tells (.gaveUp i))) : ¬ Overdue o d i := by
  obtain ⟨htaken, e, he, hle⟩ := h
  rintro (hgiven | ⟨-, hp, e', b, he', hb, hlt⟩)
  · exact honce ⟨htaken.tells, hgiven.tells⟩
  · obtain rfl := Option.some.inj (he.symm.trans he')
    exact absurd (hle hp b hb) (Nat.not_le_of_lt hlt)

theorem not_refused (h : o.Grants) (d : Diary) (i : Nat) (why : String) :
    ¬ Refused o d i why := by
  unfold Refused
  split
  · rw [h]
    exact nofun
  · rintro ⟨k, -, -, hk⟩
    rw [h] at hk
    cases hk

/-- In the end every job has been refused, was in time or is overdue, and no two of these. -/
structure Decided (o : Options) (jobs : List Job) (d : Diary) : Prop where
  all : ∀ i, i < jobs.length → (∃ why, d.Refused o i why) ∨ d.InTime o i ∨ d.Overdue o i
  refused : ∀ i why, d.Refused o i why → ¬ d.InTime o i ∧ ¬ d.Overdue o i
  inTime : ∀ i, d.InTime o i → ¬ d.Overdue o i

end Diary

/-! ## Deadlines -/

theorem expired_iff (o : Options) (since now : Nat) :
    expired (o.deadline since) now = true ↔ ∃ b, o.budget = some b ∧ since + b.nanos ≤ now := by
  cases hb : o.budget <;> simp [expired, Options.deadline, hb]

theorem not_expired_iff (o : Options) (since now : Nat) :
    expired (o.deadline since) now = false ↔
      ∀ b, o.budget = some b → now < since + b.nanos := by
  cases hb : o.budget <;> simp [expired, Options.deadline, hb]

/-- A budget with which no deadline lies beyond all times there are. -/
def Options.Attainable (o : Options) : Prop := ∀ now, now ≤ lastReading → o.overreaches now = false

theorem overreaches_iff (o : Options) (now : Nat) :
    o.overreaches now = true ↔ ∃ b, o.budget = some b ∧ horizon ≤ now + b.nanos := by
  cases hb : o.budget <;> simp [Options.overreaches, Options.deadline, hb]

theorem Span.nanos_ofMillis_le (ms : UInt64) :
    (Span.ofMillis ms).nanos ≤ 0x10000000000000000 * 1000000 := by
  have := ms.toNat_lt
  simp only [Span.ofMillis]
  omega

/-- Whole milliseconds, as many as 64 bits count, are never too far away. -/
theorem attainable_ofMillis {o : Options} (h : ∀ b, o.budget = some b → ∃ ms, b = .ofMillis ms) :
    o.Attainable := by
  intro now hnow
  refine Bool.eq_false_iff.2 fun hover => ?_
  obtain ⟨b, hb, hle⟩ := (overreaches_iff o now).1 hover
  obtain ⟨ms, rfl⟩ := h b hb
  have := Span.nanos_ofMillis_le ms
  simp only [horizon, lastReading] at hle hnow
  omega

@[simp] theorem Span.millis_ofMillis (ms : UInt64) : (Span.ofMillis ms).millis = ms := by
  simp [Span.millis, Span.ofMillis]

theorem overdue_of_budget {o : Options} {b : Span} (h : o.budget = some b) (j : Job) :
    overdue o j = .timedOut j.name b.millis := by
  simp [overdue, h]

/-! ## Reports -/

/-- One result per job: why it has no worker, or its own answer if that came in time, or else that
it took too long. -/
structure Reports (o : Options) (jobs : List Job) (inTime : Nat → Prop)
    (denied : Nat → String → Prop) (results : List ModuleResult) : Prop where
  length : results.length = jobs.length
  refused : ∀ i j why, jobs[i]? = some j → denied i why →
    results[i]? = some (.error (unspawned j why))
  answer : ∀ i j, jobs[i]? = some j → (∀ why, ¬ denied i why) → inTime i →
    ∃ r, j.result? = some r ∧ results[i]? = some r
  overdue : ∀ i j, jobs[i]? = some j → (∀ why, ¬ denied i why) → ¬ inTime i →
    ∃ b, o.budget = some b ∧ results[i]? = some (.error (.timedOut j.name b.millis))

end Evaluation
end ShellPrompt
