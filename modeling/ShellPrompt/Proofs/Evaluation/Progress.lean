import Mathlib.Algebra.Ring.Nat
import Mathlib.Data.Nat.Pairing
import ShellPrompt.Proofs.Evaluation.InTime

/-!
# ShellPrompt.Proofs.Evaluation.Progress

Evaluations of jobs that answer come to an end.

* `Fair`: an endless schedule in which the evaluating thread and every worker move again and again.
* `Descends`: a rank that no step raises, and a move that is due until it has been lowered. Along a
  fair schedule the rank comes down to zero (`Descends.exists_zero`).
* `Parallel.descends`, `Sequential.descends`: the ranks of the two machines, zero when they are
  done.
-/

namespace ShellPrompt
namespace Evaluation

/-! ## Endless schedules -/

def Fair (actions : Nat → Action) : Prop :=
  ∀ n, (∃ k, n ≤ k ∧ actions k = .main) ∧ ∀ i, ∃ k, n ≤ k ∧ actions k = .worker i

/-- A fair schedule: the pairs of numbers, one after the other, name who moves. -/
def dovetail (k : Nat) : Action :=
  match k.unpair.1 with
  | 0 => .main
  | i + 1 => .worker i

theorem fair_dovetail : Fair dovetail := by
  intro n
  refine ⟨⟨Nat.pair 0 n, Nat.right_le_pair 0 n, ?_⟩, fun i =>
    ⟨Nat.pair (i + 1) n, Nat.right_le_pair (i + 1) n, ?_⟩⟩
  all_goals simp [dovetail, Nat.unpair_pair]

def upTo (actions : Nat → Action) (n : Nat) : Schedule := (List.range n).map actions

theorem upTo_succ (actions : Nat → Action) (n : Nat) :
    upTo actions (n + 1) = upTo actions n ++ [actions n] := by
  rw [upTo, upTo, List.range_succ, List.map_append, List.map_singleton]

/-- No time goes by while they move in turns. -/
theorem duration_dovetail (n : Nat) : duration (upTo dovetail n) = 0 := by
  induction n with
  | zero => rfl
  | succ n ih =>
    rw [upTo_succ, duration_append, ih, dovetail]
    split <;> rfl

/-- Someone who moves: time and tokens are not waited for. -/
def Action.isMove : Action → Bool
  | .main => true
  | .worker _ => true
  | .tick _ => false
  | .cancel => false

theorem Fair.exists_move {actions : Nat → Action} (hfair : Fair actions) {a : Action}
    (ha : a.isMove = true) (n : Nat) : ∃ k, n ≤ k ∧ actions k = a := by
  cases a with
  | main => exact (hfair n).1
  | worker i => exact (hfair n).2 i
  | tick ns => cases ha
  | cancel => cases ha

/-- An action lowers the rank, or leaves it and the move that is due as they are. The move that is
due itself lowers any rank but zero. -/
def Lowers {State : Type} (rank : State → Nat) (due : State → Action) (a : Action)
    (s s' : State) : Prop :=
  rank s' < rank s ∨ (rank s' = rank s ∧ due s' = due s ∧ (due s = a → rank s = 0))

structure Descends {State : Type} (m : Machine State) (Good : State → Prop)
    (rank : State → Nat) (due : State → Action) : Prop where
  keeps : ∀ s a, Good s → Good (m.step s a)
  move : ∀ s, (due s).isMove = true
  lowers : ∀ s a, Good s → Lowers rank due a s (m.step s a)

namespace Descends

variable {State : Type} {m : Machine State} {Good : State → Prop} {rank : State → Nat}
  {due : State → Action} {s : State}

/-- The move that is due at some point is made `wait` actions later; by then the rank is lower. -/
theorem exists_lower (d : Descends m Good rank due) (hs : Good s) {actions : Nat → Action}
    (wait n : Nat) (hpos : rank (m.run s (upTo actions n)) ≠ 0)
    (hdue : actions (n + wait) = due (m.run s (upTo actions n))) :
    ∃ k, rank (m.run s (upTo actions k)) < rank (m.run s (upTo actions n)) := by
  have hnext : ∀ n, m.run s (upTo actions (n + 1)) =
      m.step (m.run s (upTo actions n)) (actions n) := fun n => by
    rw [upTo_succ, Machine.run_append]
    rfl
  have hgood : ∀ n, Good (m.run s (upTo actions n)) := fun n =>
    Machine.run_invariant Good d.keeps hs (upTo actions n)
  induction wait generalizing n with
  | zero =>
    refine ⟨n + 1, ?_⟩
    rw [hnext]
    rcases d.lowers _ (actions n) (hgood n) with hlt | ⟨-, -, hzero⟩
    · exact hlt
    · exact absurd (hzero hdue.symm) hpos
  | succ wait ih =>
    rcases d.lowers _ (actions n) (hgood n) with hlt | ⟨hrank, hsame, -⟩
    · exact ⟨n + 1, hnext n ▸ hlt⟩
    · rw [← hnext] at hrank hsame
      obtain ⟨k, hk⟩ := ih (n + 1) (hrank ▸ hpos) (by rw [hsame, ← hdue]; congr 1; omega)
      exact ⟨k, hrank ▸ hk⟩

theorem exists_zero (d : Descends m Good rank due) (hs : Good s) {actions : Nat → Action}
    (hfair : Fair actions) : ∃ n, rank (m.run s (upTo actions n)) = 0 := by
  have hdown : ∀ r n, rank (m.run s (upTo actions n)) ≤ r →
      ∃ k, rank (m.run s (upTo actions k)) = 0 := by
    intro r
    induction r with
    | zero => exact fun n hn => ⟨n, Nat.le_zero.1 hn⟩
    | succ r ih =>
      intro n hn
      by_cases hpos : rank (m.run s (upTo actions n)) = 0
      · exact ⟨n, hpos⟩
      · obtain ⟨k, hk, hdue⟩ := hfair.exists_move (d.move (m.run s (upTo actions n))) n
        obtain ⟨l, hl⟩ := d.exists_lower hs (k - n) n hpos (by rw [← hdue]; congr 1; omega)
        exact ih l (by omega)
  exact hdown _ 0 (Nat.le_refl _)

end Descends

/-! ## The evaluating thread -/

def Answering (jobs : List Job) : Prop := ∀ j ∈ jobs, j.result? ≠ none

namespace Control

/-- The rank of a point, given the work that is left and the worker that is awaited, if there is
no message to take. The thread gets nearer to a message only while none is awaited; else it goes
around in a circle. -/
def rank (left : Nat) (awaited : Option Nat) : Control → Nat
  | .spawn => left + 7
  | .arm => left + 6
  | .poll => left + if awaited.isSome then 5 else 4
  | .clock => left + if awaited.isSome then 5 else 3
  | .receive => left + if awaited.isSome then 5 else 2
  | .finish => 1
  | .done _ => 0

def due (awaited : Option Nat) : Control → Action
  | .poll => awaited.elim .main .worker
  | .clock => awaited.elim .main .worker
  | .receive => awaited.elim .main .worker
  | _ => .main

theorem isMove_due (awaited : Option Nat) (c : Control) : (c.due awaited).isMove = true := by
  cases awaited <;> cases c <;> rfl

theorem due_ne {a : Action} (ha : a.isMove = false) (awaited : Option Nat) (c : Control) :
    c.due awaited ≠ a := by
  rintro rfl
  rw [isMove_due] at ha
  cases ha

theorem awaited_of_due {awaited : Option Nat} {c : Control} {i : Nat}
    (h : c.due awaited = .worker i) : awaited = some i := by
  cases awaited with
  | none => cases c <;> cases h
  | some k => cases c <;> cases h <;> rfl

theorem done_of_rank {left : Nat} {awaited : Option Nat} {c : Control}
    (h : c.rank left awaited = 0) : ∃ v, c = .done v := by
  cases c with
  | done v => exact ⟨v, rfl⟩
  | finish => cases h
  | _ =>
    simp only [rank] at h
    try split at h
    all_goals omega

theorem Looking.rank_bounds {c : Control} (h : Looking c) (left : Nat) (awaited : Option Nat) :
    left + 2 ≤ c.rank left awaited ∧ c.rank left awaited ≤ left + 5 := by
  rcases h with rfl | rfl | rfl
  all_goals
    simp only [rank]
    split <;> omega

theorem Looking.one_lt_rank {c : Control} (h : Looking c) (left : Nat) (awaited : Option Nat) :
    1 < c.rank left awaited :=
  Nat.lt_of_lt_of_le (Nat.lt_add_left _ (Nat.lt_succ_self 1)) (h.rank_bounds left awaited).1

/-- Work that is done lowers the rank, unless nothing is waited for any more. -/
theorem rank_work {left left' : Nat} (h : left' + 4 ≤ left) (awaited awaited' : Option Nat)
    (c : Control) :
    c.rank left' awaited' < c.rank left awaited ∨
      (c.rank left' awaited' = c.rank left awaited ∧ c.due awaited' = c.due awaited ∧
        ∀ i, c.due awaited ≠ .worker i) := by
  cases c with
  | finish => exact .inr ⟨rfl, rfl, nofun⟩
  | done v => exact .inr ⟨rfl, rfl, nofun⟩
  | _ =>
    left
    simp only [rank]
    repeat' split
    all_goals omega

theorem rank_turn (left : Nat) (awaited : Option Nat) {c c' : Control}
    (h : (c = .poll ∧ c' = .clock) ∨ (c = .clock ∧ c' = .receive) ∨
      (c = .receive ∧ c' = .poll ∧ awaited.isSome = true)) :
    c'.rank left awaited < c.rank left awaited ∨
      (c'.rank left awaited = c.rank left awaited ∧ c'.due awaited = c.due awaited ∧
        c.due awaited ≠ .main) := by
  cases awaited with
  | none =>
    rcases h with ⟨rfl, rfl⟩ | ⟨rfl, rfl⟩ | ⟨rfl, rfl, h⟩
    · exact .inl (Nat.lt_succ_self _)
    · exact .inl (Nat.lt_succ_self _)
    · cases h
  | some i =>
    rcases h with ⟨rfl, rfl⟩ | ⟨rfl, rfl⟩ | ⟨rfl, rfl, -⟩
    all_goals exact .inr ⟨rfl, rfl, nofun⟩

end Control

/-! ## One worker for each job -/

namespace Parallel

def Worker.load : Worker → Nat
  | .idle => 2
  | .running => 1
  | .answered => 0
  | .absent => 0

theorem load_set {workers : List Worker} {i : Nat} {old : Worker} (h : workers[i]? = some old)
    (new : Worker) :
    ((workers.set i new).map Worker.load).sum + old.load =
      (workers.map Worker.load).sum + new.load := by
  induction workers generalizing i with
  | nil => cases h
  | cons w rest ih =>
    cases i with
    | zero =>
      cases h
      simp only [List.set_cons_zero, List.map_cons, List.sum_cons]
      omega
    | succ i =>
      have := ih (i := i) h
      simp only [List.set_cons_succ, List.map_cons, List.sum_cons]
      omega

/-- Work left to the workers, and messages left to take. -/
def workLeft (s : State) : Nat := 8 * (s.workers.map Worker.load).sum + 4 * s.channel.length

def awaited (s : State) : Option Nat :=
  match s.channel with
  | [] => s.workers.findIdx? (!·.gone)
  | _ :: _ => none

def rank (s : State) : Nat := s.control.rank (workLeft s) (awaited s)

def due (s : State) : Action := s.control.due (awaited s)

variable {o : Options} {jobs : List Job} {d : Diary} {s : State}

theorem awaited_eq_some {i : Nat} (h : awaited s = some i) :
    s.channel = [] ∧ ∃ w, s.workers[i]? = some w ∧ w.gone = false := by
  cases hch : s.channel with
  | cons m rest => simp [awaited, hch] at h
  | nil =>
    simp only [awaited, hch] at h
    obtain ⟨hi, hne, -⟩ := List.findIdx?_eq_some_iff_getElem.1 h
    exact ⟨rfl, s.workers[i], List.getElem?_eq_getElem hi, by simpa using hne⟩

theorem workerStep_lowers (ha : Answering jobs) (hs : Sound o jobs d s) (i : Nat) :
    Lowers rank due (.worker i) s (workerStep jobs s i) := by
  -- a worker that takes a step leaves less to do, whatever the evaluating thread is at
  have less : ∀ s' : State, s'.control = s.control → workLeft s' + 4 ≤ workLeft s →
      Lowers rank due (.worker i) s s' := by
    intro s' hc hle
    unfold Lowers
    rw [rank, due, hc]
    rcases s.control.rank_work hle (awaited s) (awaited s') with h | ⟨hrank, hdue, hne⟩
    · exact .inl h
    · exact .inr ⟨hrank, hdue, fun h => absurd h (hne i)⟩
  unfold workerStep
  split
  case h_1 j hj hw =>
    have hload := load_set hw .running
    refine less _ rfl ?_
    simp only [workLeft, Worker.load] at hload ⊢
    omega
  case h_2 j hj hw =>
    cases hr : j.result? with
    | none => exact absurd hr (ha j (List.mem_of_getElem? hj))
    | some r =>
      have hload := load_set hw .answered
      refine less _ rfl ?_
      simp only [workLeft, Worker.load, List.length_append, List.length_singleton] at hload ⊢
      omega
  case h_3 hidle hrunning =>
    refine .inr ⟨rfl, rfl, ?_⟩
    intro hdue
    obtain ⟨-, w, hw, hgone⟩ := awaited_eq_some (Control.awaited_of_due hdue)
    obtain ⟨j, hj⟩ : ∃ j, jobs[i]? = some j := by
      have hi : i < jobs.length := hs.mail.workers_length ▸ (List.getElem?_eq_some_iff.1 hw).1
      exact ⟨_, List.getElem?_eq_getElem hi⟩
    cases w with
    | idle => exact absurd hw (hidle j hj)
    | running => exact absurd hw (hrunning j hj)
    | answered | absent => cases hgone

/-- Steps that look for a message leave the work as it is. -/
theorem turn_lowers {c' : Control} (h : (s.control = .poll ∧ c' = .clock) ∨
      (s.control = .clock ∧ c' = .receive) ∨
      (s.control = .receive ∧ c' = .poll ∧ (awaited s).isSome = true)) :
    Lowers rank due .main s { s with control := c' } := by
  rcases Control.rank_turn (workLeft s) (awaited s) h with h | ⟨hrank, hdue, hmain⟩
  · exact .inl h
  · exact .inr ⟨hrank, hdue, fun h => absurd h hmain⟩

theorem Looking.one_lt_rank (h : s.control.Looking) : 1 < rank s :=
  Control.Looking.one_lt_rank h _ _

theorem receive_lowers (o : Options) (jobs : List Job) (hc : s.control = .receive) :
    Lowers rank due .main s (mainStep o jobs s) := by
  have hlooking : s.control.Looking := .inr (.inr hc)
  cases hch : s.channel with
  | cons m rest =>
    simp only [mainStep, hc, hch]
    have hlow := (hlooking.rank_bounds (workLeft s) (awaited s)).1
    refine .inl (Nat.lt_of_le_of_lt (Control.Looking.rank_bounds (.inl rfl) _ _).2 ?_)
    refine Nat.lt_of_lt_of_le ?_ hlow
    simp only [workLeft, hch, List.length_cons]
    omega
  | nil =>
    simp only [mainStep, hc, hch]
    split
    case isTrue => exact .inl (hch ▸ Looking.one_lt_rank hlooking)
    case isFalse hall =>
      rw [← hch]
      refine turn_lowers (.inr (.inr ⟨hc, rfl, ?_⟩))
      simpa [awaited, hch, List.findIdx?_isSome] using hall

theorem mainStep_lowers (o : Options) (jobs : List Job) (s : State) :
    Lowers rank due .main s (mainStep o jobs s) := by
  cases hc : s.control with
  | spawn =>
    left
    simp only [mainStep, rank, Control.rank, hc]
    exact Nat.lt_succ_self _
  | arm =>
    left
    simp only [mainStep, hc]
    split
    case isTrue =>
      simp only [rank, Control.rank, hc]
      omega
    case isFalse =>
      simp only [rank, Control.rank, hc, workLeft]
      split <;> omega
  | poll =>
    have hlooking : s.control.Looking := .inl hc
    simp only [mainStep, hc]
    split
    case isTrue => exact .inl (Looking.one_lt_rank hlooking)
    case isFalse =>
      split
      case isTrue => exact .inl (Nat.lt_of_succ_lt (Looking.one_lt_rank hlooking))
      case isFalse => exact turn_lowers (.inl ⟨hc, rfl⟩)
  | clock =>
    simp only [mainStep, hc]
    split
    case isTrue => exact .inl (Looking.one_lt_rank (.inr (.inl hc)))
    case isFalse => exact turn_lowers (.inr (.inl ⟨hc, rfl⟩))
  | receive => exact receive_lowers o jobs hc
  | finish =>
    left
    simp only [mainStep, rank, Control.rank, hc]
    exact Nat.one_pos
  | done v =>
    have hsame : mainStep o jobs s = s := by
      simp only [mainStep, hc]
      rw [← hc]
    rw [hsame]
    exact .inr ⟨rfl, rfl, fun _ => by rw [rank, hc, Control.rank]⟩

def Reached (o : Options) (jobs : List Job) (s : State) : Prop := ∃ d, Sound o jobs d s

theorem descends (hp : o.parallel = true) (ha : Answering jobs) :
    Descends (machine o jobs) (Reached o jobs) rank due where
  keeps := fun _ a ⟨_, hs⟩ => ⟨_, step_sound hp hs a⟩
  move := fun s => s.control.isMove_due _
  lowers := fun s a ⟨_, hs⟩ => by
    cases a with
    | main => exact mainStep_lowers o jobs s
    | worker i => exact workerStep_lowers ha hs i
    | tick ns => exact .inr ⟨rfl, rfl, fun h => absurd h (s.control.due_ne rfl _)⟩
    | cancel => exact .inr ⟨rfl, rfl, fun h => absurd h (s.control.due_ne rfl _)⟩

end Parallel

/-! ## A chain of workers -/

namespace Sequential

/-- Work left to a worker, and its messages left to take. -/
def Chain.load (n : Nat) (c : Chain) : Nat :=
  16 * (n - c.position) - 8 * c.started.toList.length + 4 * c.sent.length

/-- Work left to the current worker; one that is about to be started may have all of it. -/
def held (jobs : List Job) (current : Option Chain) : Control → Nat
  | .spawn => 16 * jobs.length
  | _ => current.elim 0 (Chain.load jobs.length)

/-- Jobs that are left count for more than all that one worker can do. -/
def workLeft (jobs : List Job) (s : State) : Nat :=
  (jobs.length - s.next) * (16 * jobs.length + 8) + held jobs s.current s.control

/-- The current worker, if it has sent all its messages and there are more to come. -/
def awaited (jobs : List Job) (s : State) : Option Nat :=
  match s.current with
  | some c => if c.sent = [] ∧ c.position < jobs.length then some 0 else none
  | none => none

def rank (jobs : List Job) (s : State) : Nat := s.control.rank (workLeft jobs s) (awaited jobs s)

def due (jobs : List Job) (s : State) : Action := s.control.due (awaited jobs s)

variable {o : Options} {jobs : List Job} {d : Diary} {s : State}

theorem workLeft_of_current {c : Chain} (hc : s.control ≠ .spawn) (hcur : s.current = some c) :
    workLeft jobs s =
      (jobs.length - s.next) * (16 * jobs.length + 8) + c.load jobs.length := by
  rw [workLeft, hcur]
  cases hcontrol : s.control with
  | spawn => exact absurd hcontrol hc
  | _ => rfl

theorem chainStep_lowers (o : Options) (ha : Answering jobs) (now : Nat) (c : Chain) :
    (jobs.length ≤ c.position ∧ (chainStep o jobs true now c).1 = c) ∨
      (chainStep o jobs true now c).1.load jobs.length + 4 ≤ c.load jobs.length := by
  cases hj : jobs[c.position]? with
  | none => exact .inl ⟨List.getElem?_eq_none_iff.1 hj, by simp [chainStep, hj]⟩
  | some j =>
    have hlt : c.position < jobs.length := (List.getElem?_eq_some_iff.1 hj).1
    right
    cases ht : c.started with
    | none =>
      simp only [chainStep, hj, ht, Chain.load, Option.toList_none, Option.toList_some,
        List.length_nil, List.length_singleton]
      omega
    | some t =>
      cases hr : j.result? with
      | none => exact absurd hr (ha j (List.mem_of_getElem? hj))
      | some r =>
        simp only [chainStep, hj, ht, hr, if_true, Chain.load, Option.toList_none,
          Option.toList_some, List.length_append, List.length_nil, List.length_singleton]
        omega

theorem currentStep_lowers (ha : Answering jobs) (s : State) :
    Lowers (rank jobs) (due jobs) (.worker 0) s (workerStep o jobs s 0) := by
  cases hcur : s.current with
  | none =>
    have hsame : workerStep o jobs s 0 = s := by simp [workerStep, hcur]
    rw [hsame]
    refine .inr ⟨rfl, rfl, ?_⟩
    intro hdue
    have := Control.awaited_of_due hdue
    simp [awaited, hcur] at this
  | some c =>
    have hcontrol : (workerStep o jobs s 0).control = s.control := by rw [workerStep, hcur]
    have hnext : (workerStep o jobs s 0).next = s.next := by rw [workerStep, hcur]
    have hcurrent : (workerStep o jobs s 0).current = some (chainStep o jobs true s.now c).1 := by
      rw [workerStep, hcur]
    rcases chainStep_lowers o ha s.now c with ⟨hend, hsame⟩ | hload
    · rw [hsame, ← hcur] at hcurrent
      refine .inr ⟨by rw [rank, rank, workLeft, workLeft, awaited, awaited, hcontrol, hnext,
        hcurrent], by rw [due, due, awaited, awaited, hcontrol, hcurrent], ?_⟩
      intro hdue
      have := Control.awaited_of_due hdue
      simp [awaited, hcur, Nat.not_lt.2 hend] at this
    · by_cases hc : s.control = .spawn
      · refine .inr ⟨?_, ?_, ?_⟩
        · simp only [rank, workLeft, hcontrol, hnext, hc, Control.rank, held]
        · simp only [due, hcontrol, hc, Control.due]
        · intro hdue
          rw [due, hc] at hdue
          cases hdue
      · have hless : workLeft jobs (workerStep o jobs s 0) + 4 ≤ workLeft jobs s := by
          rw [workLeft_of_current hc hcur, workLeft_of_current (hcontrol ▸ hc) hcurrent, hnext]
          exact Nat.add_le_add_left hload _
        unfold Lowers
        rw [rank, due, hcontrol]
        rcases s.control.rank_work hless (awaited jobs s) (awaited jobs (workerStep o jobs s 0))
          with hlt | ⟨hrank, hdue, hne⟩
        · exact .inl hlt
        · exact .inr ⟨hrank, hdue, fun h => absurd h (hne 0)⟩

theorem abandonedStep_lowers (o : Options) (jobs : List Job) (s : State) (i : Nat) :
    Lowers (rank jobs) (due jobs) (.worker (i + 1)) s (workerStep o jobs s (i + 1)) := by
  have hne : due jobs s ≠ .worker (i + 1) := by
    intro hdue
    have := Control.awaited_of_due hdue
    simp only [awaited] at this
    split at this <;> simp at this
  simp only [workerStep]
  split
  · exact .inr ⟨rfl, rfl, fun h => absurd h hne⟩
  · exact .inr ⟨rfl, rfl, fun h => absurd h hne⟩

/-- Steps that look for a message leave the work as it is. -/
theorem turn_lowers {c' : Control} (h : (s.control = .poll ∧ c' = .clock) ∨
      (s.control = .clock ∧ c' = .receive) ∨
      (s.control = .receive ∧ c' = .poll ∧ (awaited jobs s).isSome = true)) :
    Lowers (rank jobs) (due jobs) .main s { s with control := c' } := by
  have hleft : workLeft jobs { s with control := c' } = workLeft jobs s := by
    rcases h with ⟨hc, rfl⟩ | ⟨hc, rfl⟩ | ⟨hc, rfl, -⟩ <;> simp only [workLeft, hc, held]
  rcases Control.rank_turn (workLeft jobs s) (awaited jobs s) h with h | ⟨hrank, hdue, hmain⟩
  · exact .inl (by rw [rank, hleft]; exact h)
  · exact .inr ⟨by rw [rank, hleft]; exact hrank, hdue, fun h => absurd h hmain⟩

theorem Looking.one_lt_rank (h : s.control.Looking) : 1 < rank jobs s :=
  Control.Looking.one_lt_rank h _ _

/-- Where a job has been seen to, what is left counts for less than one worker could do. -/
theorem workLeft_succ (hlt : s.next < jobs.length) :
    (jobs.length - s.next) * (16 * jobs.length + 8) =
      (jobs.length - (s.next + 1)) * (16 * jobs.length + 8) + (16 * jobs.length + 8) := by
  rw [show jobs.length - s.next = (jobs.length - (s.next + 1)) + 1 by omega, Nat.succ_mul]

theorem spawn_lowers (o : Options) (hc : s.control = .spawn) :
    rank jobs (mainStep o jobs s) < rank jobs s := by
  rw [show rank jobs s = workLeft jobs s + 7 by simp only [rank, Control.rank, hc]]
  simp only [mainStep, hc]
  repeat' split
  case h_2 =>
    simp only [rank, Control.rank, hc, workLeft, held, Option.elim_some, Chain.load,
      Option.toList_none, List.length_nil]
    omega
  all_goals
    simp only [rank, Control.rank]
    omega

theorem arm_lowers (o : Options) (hc : s.control = .arm) :
    rank jobs (mainStep o jobs s) < rank jobs s := by
  simp only [mainStep, hc]
  split
  case isTrue =>
    simp only [rank, Control.rank, hc]
    omega
  case isFalse =>
    simp only [rank, Control.rank, hc, workLeft, held]
    split <;> omega

theorem clock_lowers (o : Options) (hc : s.control = .clock) :
    Lowers (rank jobs) (due jobs) .main s (mainStep o jobs s) := by
  have hlooking : s.control.Looking := .inr (.inl hc)
  simp only [mainStep, hc]
  split
  case h_1 => exact turn_lowers (.inr (.inl ⟨hc, rfl⟩))
  case h_2 j hj =>
    split
    case isTrue =>
      left
      have hlow := (hlooking.rank_bounds (workLeft jobs s) (awaited jobs s)).1
      refine Nat.lt_of_lt_of_le ?_ hlow
      simp only [rank, Control.rank, workLeft, held, hc,
        workLeft_succ (List.getElem?_eq_some_iff.1 hj).1]
      omega
    case isFalse => exact turn_lowers (.inr (.inl ⟨hc, rfl⟩))

theorem receive_lowers (hs : Sound o jobs d s) (hc : s.control = .receive) :
    Lowers (rank jobs) (due jobs) .main s (mainStep o jobs s) := by
  have hlooking : s.control.Looking := .inr (.inr hc)
  obtain ⟨c, hcur⟩ := hs.waiting (.inr hlooking)
  cases hsent : c.sent with
  | cons m rest =>
    obtain ⟨i, r⟩ := m
    obtain ⟨rfl, hlt, -, -⟩ := (hs.queue c hcur).take hsent
    simp only [mainStep, hc, hcur, hsent]
    left
    have hlow := (hlooking.rank_bounds (workLeft jobs s) (awaited jobs s)).1
    refine Nat.lt_of_lt_of_le ?_ hlow
    simp only [rank, Control.rank, workLeft, held, hc, hcur, workLeft_succ hlt,
      Option.elim_some, Chain.load, hsent, List.length_cons]
    omega
  | nil =>
    simp only [mainStep, hc, hcur, hsent]
    split
    case isTrue => exact .inl (hcur ▸ Looking.one_lt_rank hlooking)
    case isFalse hpos =>
      rw [← hcur]
      refine turn_lowers (.inr (.inr ⟨hc, rfl, ?_⟩))
      simp [awaited, hcur, hsent, Nat.lt_of_not_le hpos]

theorem mainStep_lowers (hs : Sound o jobs d s) :
    Lowers (rank jobs) (due jobs) .main s (mainStep o jobs s) := by
  cases hc : s.control with
  | spawn => exact .inl (spawn_lowers o hc)
  | arm => exact .inl (arm_lowers o hc)
  | poll =>
    have hlooking : s.control.Looking := .inl hc
    simp only [mainStep, hc]
    split
    case isTrue => exact .inl (Looking.one_lt_rank hlooking)
    case isFalse =>
      split
      case isTrue => exact .inl (Nat.lt_of_succ_lt (Looking.one_lt_rank hlooking))
      case isFalse => exact turn_lowers (.inl ⟨hc, rfl⟩)
  | clock => exact clock_lowers o hc
  | receive => exact receive_lowers hs hc
  | finish =>
    left
    simp only [mainStep, rank, Control.rank, hc]
    exact Nat.one_pos
  | done v =>
    have hsame : mainStep o jobs s = s := by
      simp only [mainStep, hc]
      rw [← hc]
    rw [hsame]
    exact .inr ⟨rfl, rfl, fun _ => by rw [rank, hc, Control.rank]⟩

/-- Whether the state can be reached, under whatever schedule. -/
def Reached (o : Options) (jobs : List Job) (s : State) : Prop := ∃ d, Sound o jobs d s

theorem descends (o : Options) (ha : Answering jobs) :
    Descends (machine o jobs) (Reached o jobs) (rank jobs) (due jobs) where
  keeps := fun _ a ⟨_, hs⟩ => ⟨_, step_sound hs a⟩
  move := fun s => s.control.isMove_due _
  lowers := fun s a ⟨_, hs⟩ => by
    cases a with
    | main => exact mainStep_lowers hs
    | worker i =>
      cases i with
      | zero => exact currentStep_lowers ha s
      | succ i => exact abandonedStep_lowers o jobs s i
    | tick ns => exact .inr ⟨rfl, rfl, fun h => absurd h (s.control.due_ne rfl _)⟩
    | cancel => exact .inr ⟨rfl, rfl, fun h => absurd h (s.control.due_ne rfl _)⟩

end Sequential

end Evaluation
end ShellPrompt
