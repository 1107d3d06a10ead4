import ShellPrompt.Proofs.Json.Values

/-!
# ShellPrompt.Proofs.Json.Nesting

How deep a value nests, and what is read back of it under a bound.

* `Value.Proper`: what values are made of, tables in order and integers of 64 bits.
* `value?_deep`: below its nesting nothing is found of a value.
-/

namespace ShellPrompt
namespace Json

mutual

/-- How many lists and objects stand around what is innermost. -/
def Value.nesting : Value → Nat
  | .array items => nestingItems items + 1
  | .object members => nestingMembers members + 1
  | _ => 0

def nestingItems : List Value → Nat
  | [] => 0
  | v :: rest => max v.nesting (nestingItems rest)

def nestingMembers : List (String × Value) → Nat
  | [] => 0
  | m :: rest => max (nestingEntry m) (nestingMembers rest)

def nestingEntry : String × Value → Nat
  | (_, v) => v.nesting

end

theorem nestingItems_le_iff {items : List Value} {n : Nat} :
    nestingItems items ≤ n ↔ ∀ v ∈ items, v.nesting ≤ n := by
  induction items with
  | nil => simp [nestingItems]
  | cons v items ih => rw [nestingItems, Nat.max_le, ih, List.forall_mem_cons]

theorem nestingMembers_le_iff {members : List (String × Value)} {n : Nat} :
    nestingMembers members ≤ n ↔ ∀ e ∈ members, e.2.nesting ≤ n := by
  induction members with
  | nil => simp [nestingMembers]
  | cons e members ih =>
    obtain ⟨key, v⟩ := e
    rw [nestingMembers, nestingEntry, Nat.max_le, ih, List.forall_mem_cons]

/-- Integers lie within 64 bits, and objects hold their members in order. -/
inductive Value.Proper : Value → Prop where
  | scalar {v : Value} : (v = .null ∨ (∃ b, v = .bool b) ∨ ∃ s, v = .string s) → Proper v
  | number {n : Number} : Fits n → Proper (.number n)
  | array {items : List Value} : (∀ v ∈ items, Proper v) → Proper (.array items)
  | object {members : Table Value} : Table.Sorted members → (∀ e ∈ members, Proper e.2) →
      Proper (.object members)

theorem Value.Proper.returns {v : Value} (h : v.Proper) {depth : Nat} (hdepth : v.nesting ≤ depth) :
    v.Returns depth := by
  induction h generalizing depth with
  | scalar hv => exact Value.returns_scalar hv depth
  | number hn => exact Value.returns_number hn depth
  | array _ ih =>
    obtain ⟨depth, rfl⟩ := Nat.exists_eq_add_one.2 (Nat.lt_of_lt_of_le (Nat.succ_pos _) hdepth)
    have hitems := nestingItems_le_iff.1 (Nat.le_of_succ_le_succ hdepth)
    exact Value.returns_array fun v hv => ih v hv (hitems v hv)
  | object hsorted _ ih =>
    obtain ⟨depth, rfl⟩ := Nat.exists_eq_add_one.2 (Nat.lt_of_lt_of_le (Nat.succ_pos _) hdepth)
    have hmembers := nestingMembers_le_iff.1 (Nat.le_of_succ_le_succ hdepth)
    exact Value.returns_object hsorted fun e he => ih e he (hmembers e he)

/-! ## Values that nest too deep -/

theorem mapM_eq_none {α β : Type} {f : α → Option β} {a : α} {items : List α} (ha : a ∈ items)
    (h : f a = none) : items.mapM f = none := by
  obtain ⟨before, after, rfl⟩ := List.append_of_mem ha
  rw [mapM_split, h]
  cases before.mapM f <;> rfl

theorem table?_eq_none {α : Type} {view : Doc → Option α} {m : Member} {ms : List Member}
    (hm : m ∈ ms) (h : view m.2 = none) : table? view ms = none := by
  obtain ⟨before, after, rfl⟩ := List.append_of_mem hm
  rw [Option.eq_none_iff_forall_ne_some]
  intro table htable
  obtain ⟨a, ha⟩ := exists_view_of_table? htable
  rw [h] at ha
  cases ha

theorem value?_deep {v : Value} {depth : Nat} (h : depth < v.nesting) :
    value? depth v.doc = none := by
  induction depth generalizing v with
  | zero =>
    cases v with
    | array items => rfl
    | object members => rfl
    | _ => cases h
  | succ depth ih =>
    cases v with
    | array items =>
      have hitem : ¬ ∀ v ∈ items, v.nesting ≤ depth := fun hall =>
        absurd h (Nat.not_lt.2 (Nat.succ_le_succ (nestingItems_le_iff.2 hall)))
      simp only [Classical.not_forall, Nat.not_le] at hitem
      obtain ⟨v, hv, hdeep⟩ := hitem
      rw [Value.doc_array, value?, mapM_eq_none (List.mem_map_of_mem hv) (ih hdeep)]
      rfl
    | object members =>
      have hmember : ¬ ∀ e ∈ members, e.2.nesting ≤ depth := fun hall =>
        absurd h (Nat.not_lt.2 (Nat.succ_le_succ (nestingMembers_le_iff.2 hall)))
      simp only [Classical.not_forall, Nat.not_le] at hmember
      obtain ⟨e, he, hdeep⟩ := hmember
      have hmem := List.mem_map_of_mem (f := fun e : String × Value => (units e.1, e.2.doc)) he
      rw [Value.doc_object, value?, table?_eq_none hmem (ih hdeep)]
      rfl
    | _ => cases h

end Json
end ShellPrompt
