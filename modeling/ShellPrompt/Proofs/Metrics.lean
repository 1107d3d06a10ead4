import Mathlib.Algebra.BigOperators.Group.List.Basic
import Mathlib.Algebra.Ring.Nat
import ShellPrompt.Metrics

/-!
# ShellPrompt.Proofs.Metrics

Counting in any order.

* `Counter.add_add`: to add twice is to add the sum, with or without a limit in between.
* `Metrics.Record`: what may be recorded, with its `amount` for each of the counters
  (`Metrics.Count`).
* `counter_recordAll`: many records add the sum of their amounts. A counter depends on nothing
  else, so their order does not matter (`recordAll_perm`).
-/

namespace ShellPrompt

namespace Counter

def IsFull (c : Counter) : Prop := c.value = max

instance (c : Counter) : Decidable c.IsFull := inferInstanceAs (Decidable (c.value = max))

theorem eq_of_value_eq {c d : Counter} (h : c.value = d.value) : c = d := by
  cases c
  cases d
  cases h
  rfl

theorem add_eq_self_iff (c : Counter) (n : Nat) : c.add n = c ↔ n = 0 ∨ c.IsFull := by
  have hle : c.value ≤ max := c.value_le
  have hval : c.add n = c ↔ min (c.value + n) max = c.value :=
    ⟨congrArg Counter.value, fun h => eq_of_value_eq (show (c.add n).value = c.value from h)⟩
  rw [hval, IsFull]
  omega

/-- Counting leaves a counter alone if it is full wherever there is something to count. -/
theorem add_countP_eq_self_iff {α : Type} (c : Counter) (q : α → Bool) (xs : List α) :
    c.add (xs.countP q) = c ↔ ∀ x ∈ xs, q x = true → c.IsFull := by
  rw [add_eq_self_iff, List.countP_eq_zero]
  constructor
  · rintro (hnone | hfull) x hx hq
    · exact absurd hq (hnone x hx)
    · exact hfull
  · intro h
    by_cases hfull : c.IsFull
    · exact .inr hfull
    · exact .inl fun x hx hq => hfull (h x hx hq)

theorem le_add (c : Counter) (n : Nat) : c.value ≤ (c.add n).value := by
  have hle : c.value ≤ max := c.value_le
  rw [value_add]
  omega

theorem add_zero (c : Counter) : c.add 0 = c := (add_eq_self_iff c 0).2 (.inl rfl)

/-- What is cut off at the limit the first time would be cut off the second time. -/
theorem add_add (c : Counter) (a b : Nat) : (c.add a).add b = c.add (a + b) := by
  apply eq_of_value_eq
  simp only [value_add]
  omega

theorem IsFull.add {c : Counter} (h : c.IsFull) (n : Nat) : c.add n = c :=
  (add_eq_self_iff c n).2 (.inr h)

end Counter

namespace Metrics

/-- The things that are counted. -/
inductive Count where
  | renders
  | cancelled
  | rendered
  | failed
  | timedOut
  | dropped
  | overflow
deriving DecidableEq

namespace Count

def all : List Count := [.renders, .cancelled, .rendered, .failed, .timedOut, .dropped, .overflow]

def name : Count → String
  | .renders => "renders"
  | .cancelled => "cancelled"
  | .rendered => "modules_rendered"
  | .failed => "module_failures"
  | .timedOut => "module_timeouts"
  | .dropped => "fragments_dropped"
  | .overflow => "overflow_lines"

end Count

def counter (m : Metrics) : Count → Counter
  | .renders => m.renders
  | .cancelled => m.cancelled
  | .rendered => m.modulesRendered
  | .failed => m.moduleFailures
  | .timedOut => m.moduleTimeouts
  | .dropped => m.fragmentsDropped
  | .overflow => m.overflowLines

theorem counts_eq (m : Metrics) :
    m.counts = Count.all.map fun k => (k.name, (m.counter k).value) := rfl

theorem eq_of_counter_eq {m n : Metrics} (h : ∀ k, m.counter k = n.counter k) : m = n := by
  cases m
  cases n
  rw [mk.injEq]
  exact ⟨h .renders, h .cancelled, h .rendered, h .failed, h .timedOut, h .dropped, h .overflow⟩

inductive Record where
  | render
  | cancelled
  | modules (rendered failed timedOut : Nat)
  | layout (dropped : Nat) (overflow : Bool)

namespace Record

def apply : Record → Metrics → Metrics
  | .render => recordRender
  | .cancelled => recordCancelled
  | .modules rendered failed timedOut => (·.recordModules rendered failed timedOut)
  | .layout dropped overflow => (·.recordLayout dropped overflow)

/-- How much it adds to a counter. -/
def amount : Record → Count → Nat
  | .render, .renders => 1
  | .cancelled, .cancelled => 1
  | .modules rendered _ _, .rendered => rendered
  | .modules _ failed _, .failed => failed
  | .modules _ _ timedOut, .timedOut => timedOut
  | .layout dropped _, .dropped => dropped
  | .layout _ overflow, .overflow => overflow.toNat
  | _, _ => 0

theorem counter_apply (r : Record) (m : Metrics) (k : Count) :
    (r.apply m).counter k = (m.counter k).add (r.amount k) := by
  -- a counter it has nothing for stays as it is
  cases r with
  | layout dropped overflow =>
    cases overflow <;> cases k <;> first | rfl | exact (Counter.add_zero _).symm
  | _ => cases k <;> first | rfl | exact (Counter.add_zero _).symm

end Record

def recordAll (m : Metrics) (rs : List Record) : Metrics := rs.foldl (fun m r => r.apply m) m

/-- What records add to a counter in all. -/
def recorded (rs : List Record) (k : Count) : Nat := (rs.map (·.amount k)).sum

theorem counter_recordAll (m : Metrics) (rs : List Record) (k : Count) :
    (m.recordAll rs).counter k = (m.counter k).add (recorded rs k) := by
  induction rs generalizing m with
  | nil => exact (Counter.add_zero _).symm
  | cons r rest ih =>
    calc ((r.apply m).recordAll rest).counter k
      _ = ((r.apply m).counter k).add (recorded rest k) := ih _
      _ = ((m.counter k).add (r.amount k)).add (recorded rest k) := by rw [r.counter_apply]
      _ = (m.counter k).add (r.amount k + recorded rest k) := Counter.add_add ..

theorem recorded_perm {rs rs' : List Record} (h : rs.Perm rs') (k : Count) :
    recorded rs k = recorded rs' k := (h.map _).sum_eq

theorem recordAll_perm {rs rs' : List Record} (h : rs.Perm rs') (m : Metrics) :
    m.recordAll rs = m.recordAll rs' := by
  apply eq_of_counter_eq
  intro k
  rw [counter_recordAll, counter_recordAll, recorded_perm h]

end Metrics
end ShellPrompt
