import ShellPrompt.Evaluation

/-!
# ShellPrompt.Proofs.Evaluation.Run

Runs of any machine.

* `Machine.record`: what is told of the steps of a run, in their order.
* `Machine.run_record`: what each step preserves together with what has been told, runs preserve.
* `Machine.Lawful`: what the two machines have in common. Nobody but the evaluating thread moves on,
  and nothing moves past the end; the clock goes by itself; a token may be set, and that is all.
  `run_done`, `run_own` and `run_now_le` are what follows for runs.
-/

namespace ShellPrompt

namespace Token

theorem isCancelled_cancel_of_isCancelled {t : Token} (h : t.isCancelled = true) :
    t.cancel.isCancelled = true := by
  cases t with
  | own => exact h
  | shared _ => rfl

theorem isCancelled_cancelIf {t : Token} (cancels : Bool) (h : t.isCancelled = true) :
    (t.cancelIf cancels).isCancelled = true := by
  cases cancels with
  | false => exact h
  | true => exact isCancelled_cancel_of_isCancelled h

@[simp] theorem cancelIf_own (cancels : Bool) : Token.own.cancelIf cancels = .own := by
  cases cancels <;> rfl

end Token

namespace Evaluation

/-! ## The clock -/

/-- What the clock shows after an action. -/
def Action.passed (now : Nat) : Action → Nat
  | .tick ns => later now ns
  | _ => now

/-- The time that a schedule lets go by. -/
def duration : Schedule → Nat
  | [] => 0
  | .tick ns :: rest => ns + duration rest
  | _ :: rest => duration rest

theorem Action.passed_le (now : Nat) (a : Action) : a.passed now ≤ now + duration [a] := by
  cases a with
  | tick ns => exact Nat.min_le_left ..
  | _ => exact Nat.le_refl _

theorem Action.passed_le_lastReading {now : Nat} (h : now ≤ lastReading) (a : Action) :
    a.passed now ≤ lastReading := by
  cases a with
  | tick ns => exact Nat.min_le_right ..
  | _ => exact h

theorem Action.le_passed {now : Nat} (h : now ≤ lastReading) (a : Action) :
    now ≤ a.passed now := by
  cases a with
  | tick ns => exact Nat.le_min.2 ⟨Nat.le_add_right .., h⟩
  | _ => exact Nat.le_refl _

theorem duration_cons (a : Action) (rest : Schedule) :
    duration (a :: rest) = duration [a] + duration rest := by
  cases a <;> simp [duration]

theorem duration_append (before rest : Schedule) :
    duration (before ++ rest) = duration before + duration rest := by
  induction before with
  | nil => simp [duration]
  | cons a before ih =>
    rw [List.cons_append, duration_cons, ih, duration_cons a before, Nat.add_assoc]

/-! ## Runs -/

/-- The evaluating thread waits for a message. -/
def Control.Looking (c : Control) : Prop := c = .poll ∨ c = .clock ∨ c = .receive

theorem eq_done_of_verdict? {c : Control} {v : Verdict} (h : verdict? c = some v) :
    c = .done v := by
  cases c with
  | done v' => rw [Option.some.inj h]
  | _ => cases h

namespace Machine

variable {State α : Type} (m : Machine State)

@[simp] theorem run_nil (s : State) : m.run s [] = s := rfl

@[simp] theorem run_cons (s : State) (a : Action) (rest : Schedule) :
    m.run s (a :: rest) = m.run (m.step s a) rest := rfl

theorem run_append (s : State) (before rest : Schedule) :
    m.run s (before ++ rest) = m.run (m.run s before) rest := List.foldl_append

/-- What is told of the steps of a run. -/
def record (see : State → Action → List α) (s : State) : Schedule → List α
  | [] => []
  | a :: rest => see s a ++ record see (m.step s a) rest

theorem record_append (see : State → Action → List α) (s : State) (before rest : Schedule) :
    m.record see s (before ++ rest) =
      m.record see s before ++ m.record see (m.run s before) rest := by
  induction before generalizing s with
  | nil => rfl
  | cons a before ih => simp only [List.cons_append, record, run_cons, ih, List.append_assoc]

variable {m}

/-- What is told is told by one of the steps. -/
theorem mem_record {see : State → Action → List α} {x : α} {s : State} {schedule : Schedule} :
    x ∈ m.record see s schedule ↔
      ∃ before a rest, schedule = before ++ a :: rest ∧ x ∈ see (m.run s before) a := by
  constructor
  · intro hx
    induction schedule generalizing s with
    | nil => cases hx
    | cons a rest ih =>
      rcases List.mem_append.1 hx with hx | hx
      · exact ⟨[], a, rest, rfl, hx⟩
      · obtain ⟨before, a', rest', rfl, hx'⟩ := ih hx
        exact ⟨a :: before, a', rest', rfl, hx'⟩
  · rintro ⟨before, a, rest, rfl, hx⟩
    rw [record_append]
    exact List.mem_append_right _ (List.mem_append_left _ hx)

theorem run_record {see : State → Action → List α} (Inv : List α → State → Prop)
    (hstep : ∀ told s a, Inv told s → Inv (told ++ see s a) (m.step s a)) {told : List α}
    {s : State} (h : Inv told s) (schedule : Schedule) :
    Inv (told ++ m.record see s schedule) (m.run s schedule) := by
  induction schedule generalizing told s with
  | nil => rwa [record, List.append_nil]
  | cons a rest ih =>
    rw [record, ← List.append_assoc]
    exact ih (hstep told s a h)

theorem run_invariant (Inv : State → Prop) (hstep : ∀ s a, Inv s → Inv (m.step s a)) {s : State}
    (h : Inv s) (schedule : Schedule) : Inv (m.run s schedule) := by
  induction schedule generalizing s with
  | nil => exact h
  | cons a rest ih => exact ih (hstep s a h)

structure Lawful (m : Machine State) : Prop where
  /-- Only the evaluating thread moves on. -/
  others : ∀ s a, a ≠ .main → m.control (m.step s a) = m.control s
  ended : ∀ s v, m.control s = .done v → m.control (m.step s .main) = .done v
  now : ∀ s a, m.now (m.step s a) = a.passed (m.now s)
  token : ∀ s a, ∃ cancels, m.token (m.step s a) = (m.token s).cancelIf cancels

namespace Lawful

variable {s : State}

theorem step_done (h : m.Lawful) {v : Verdict} (hv : m.control s = .done v) (a : Action) :
    m.control (m.step s a) = .done v := by
  by_cases ha : a = .main
  · exact ha ▸ h.ended s v hv
  · exact (h.others s a ha).trans hv

/-- Once an evaluation is over, nothing changes what it came to. -/
theorem run_done (h : m.Lawful) {v : Verdict} (hv : m.control s = .done v) (schedule : Schedule) :
    m.control (m.run s schedule) = .done v :=
  run_invariant (fun s => m.control s = .done v) (fun _ a hs => h.step_done hs a) hv schedule

/-- Up to its first step the evaluating thread is where it started. -/
theorem control_of_notMem (h : m.Lawful) (s : State) {schedule : Schedule}
    (hmain : .main ∉ schedule) : m.control (m.run s schedule) = m.control s := by
  induction schedule generalizing s with
  | nil => rfl
  | cons a rest ih =>
    rw [List.mem_cons, not_or] at hmain
    exact (ih (m.step s a) hmain.2).trans (h.others s a (Ne.symm hmain.1))

theorem step_own (h : m.Lawful) (ht : m.token s = .own) (a : Action) :
    m.token (m.step s a) = .own := by
  obtain ⟨cancels, htoken⟩ := h.token s a
  rw [htoken, ht, Token.cancelIf_own]

theorem run_own (h : m.Lawful) (ht : m.token s = .own) (schedule : Schedule) :
    m.token (m.run s schedule) = .own :=
  run_invariant (fun s => m.token s = .own) (fun _ a hs => h.step_own hs a) ht schedule

/-- A token that has been set stays set. -/
theorem step_set (h : m.Lawful) (ht : (m.token s).isCancelled = true) (a : Action) :
    (m.token (m.step s a)).isCancelled = true := by
  obtain ⟨cancels, htoken⟩ := h.token s a
  rw [htoken]
  exact Token.isCancelled_cancelIf cancels ht

theorem run_now_le (h : m.Lawful) (s : State) (schedule : Schedule) :
    m.now (m.run s schedule) ≤ m.now s + duration schedule := by
  induction schedule generalizing s with
  | nil => exact Nat.le_refl _
  | cons a rest ih =>
    have hstep := a.passed_le (m.now s)
    have hrest := ih (m.step s a)
    rw [h.now] at hrest
    rw [run_cons, duration_cons]
    omega

theorem run_now_le_lastReading (h : m.Lawful) (hs : m.now s ≤ lastReading)
    (schedule : Schedule) : m.now (m.run s schedule) ≤ lastReading :=
  run_invariant (fun s => m.now s ≤ lastReading)
    (fun s a hs => h.now s a ▸ a.passed_le_lastReading hs) hs schedule

end Lawful

end Machine
end Evaluation
end ShellPrompt
