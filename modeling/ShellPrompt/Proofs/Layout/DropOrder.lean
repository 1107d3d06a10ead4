import Mathlib.Data.List.FinRange
import Mathlib.Data.List.Sort
import Mathlib.Order.Bounds.Defs
import ShellPrompt.Proofs.Layout

/-!
# ShellPrompt.Proofs.Layout.DropOrder

One order for all terminals.

A line gives up its fragments one by one, each time searching what is left for the least important.
The order they go in does not depend on how many have to go: it is that of all places of the line
by ascending priority, and from right to left among equals.

* `GivesWay`: the order of two places; `dropOrder` sorts all places by it.
* `takeLeast_places`, `fit_of_wide`: a round of the loop takes the first place in that order.
* `fit_places`: so the loop takes a prefix of the order, and the shortest that will do.
* `compose_drops_in_order`: the line in these terms. `remaining` are the places it keeps, and
  `mem_remaining_of_last` says that the last place in the order is always one of them.
-/

namespace ShellPrompt
namespace Layout

section Order

variable {fs : List Fragment}

/-- The fragment at the first place goes before that at the second: it has the lower priority, or
it has the same and stands further right. -/
def GivesWay (i j : Fin fs.length) : Prop :=
  fs[i].priority.toInt < fs[j].priority.toInt ∨
    fs[i].priority.toInt = fs[j].priority.toInt ∧ j ≤ i

instance : DecidableRel (@GivesWay fs) := fun i j =>
  inferInstanceAs (Decidable (_ < _ ∨ _ = _ ∧ j ≤ i))

instance : Std.Total (@GivesWay fs) where
  total i j := by
    unfold GivesWay
    omega

instance : IsTrans (Fin fs.length) GivesWay where
  trans i j k := by
    unfold GivesWay
    omega

instance : Std.Antisymm (@GivesWay fs) where
  antisymm i j hij hji := by
    unfold GivesWay at hij hji
    omega

theorem GivesWay.refl (i : Fin fs.length) : GivesWay i i := .inr ⟨rfl, Nat.le_refl _⟩

variable (fs) in
/-- All places of a line in the order their fragments go in. -/
def dropOrder : List (Fin fs.length) := (List.finRange fs.length).insertionSort GivesWay

variable (fs) in
theorem dropOrder_perm : (dropOrder fs).Perm (List.finRange fs.length) :=
  List.perm_insertionSort _ _

variable (fs) in
theorem dropOrder_pairwise : (dropOrder fs).Pairwise GivesWay := List.pairwise_insertionSort _ _

variable (fs) in
theorem dropOrder_nodup : (dropOrder fs).Nodup :=
  (dropOrder_perm fs).nodup_iff.2 (List.nodup_finRange _)

example : (dropOrder [{ text := "a", priority := 1 }, { text := "b", priority := 0 },
    { text := "c", priority := 1 }, { text := "d", priority := 0 }]).map Fin.val =
      [3, 1, 2, 0] := by decide

end Order

/-! ## The loop -/

section Loop

variable {fs : List Fragment}

/-- One round takes out, of some places of a line, the first to give way. -/
theorem takeLeast_places {p : Fin fs.length} {ps : List (Fin fs.length)}
    (h : (p :: ps).Pairwise (· < ·)) :
    ∃ least ∈ p :: ps, (∀ q ∈ p :: ps, GivesWay least q) ∧
      takeLeast (fs.get p) (ps.map fs.get) =
        (fs.get least, ((p :: ps).erase least).map fs.get) := by
  induction ps generalizing p with
  | nil =>
    refine ⟨p, List.mem_cons_self, ?_, by rw [List.erase_cons_head]; rfl⟩
    intro q hq
    rw [List.mem_singleton.1 hq]
    exact .refl p
  | cons q ps ih =>
    obtain ⟨hp, hps⟩ := List.pairwise_cons.1 h
    obtain ⟨least, hmem, hleast, htake⟩ := ih hps
    have hlt : p < least := hp least hmem
    rw [List.map_cons, takeLeast, htake]
    by_cases hless : (fs.get p).priority.toInt < (fs.get least).priority.toInt
    · refine ⟨p, List.mem_cons_self, ?_, by rw [if_pos hless, List.erase_cons_head]; rfl⟩
      have hp : GivesWay p least := .inl hless
      rw [List.forall_mem_cons]
      exact ⟨.refl p, fun r hr => Trans.trans hp (hleast r hr)⟩
    · have hne : ¬ (p == least) = true := by simpa using hlt.ne
      refine ⟨least, List.mem_cons_of_mem p hmem, ?_, ?_⟩
      · rw [List.forall_mem_cons]
        refine ⟨?_, hleast⟩
        rcases Int.lt_or_eq_of_le (Int.not_lt.1 hless) with hlower | hsame
        · exact .inl hlower
        · exact .inr ⟨hsame, hlt.le⟩
      · rw [if_neg hless, List.erase_cons_tail hne]
        rfl

def without (ps gone : List (Fin fs.length)) : List (Fin fs.length) := ps.filter (· ∉ gone)

theorem without_nil (ps : List (Fin fs.length)) : without ps [] = ps := by
  simp [without]

theorem without_cons {ps : List (Fin fs.length)} (h : ps.Nodup) (p : Fin fs.length)
    (gone : List (Fin fs.length)) : without ps (p :: gone) = without (ps.erase p) gone := by
  rw [without, without, h.erase_eq_filter, List.filter_filter]
  refine List.filter_congr fun q _ => ?_
  by_cases hq : q = p <;> simp [hq]

/-- A line is short enough: it fits, or there is nothing to choose from. -/
def Fits (gap budget : Nat) (line : List Fragment) : Prop :=
  lineWidth gap line ≤ budget ∨ line.length ≤ 1

theorem fit_of_fits {gap budget : Nat} {line : List Fragment} (h : Fits gap budget line) :
    fit gap budget line = (line, []) := by
  match line, h with
  | [], _ => rw [fit]
  | [f], _ => rw [fit]
  | f :: g :: rest, h =>
    have hwidth : lineWidth gap (f :: g :: rest) ≤ budget := h.resolve_right (by simp)
    rw [fit, if_neg (Nat.not_lt.2 hwidth)]

variable {gap budget : Nat} {ps order : List (Fin fs.length)} {p : Fin fs.length}

/-- The search finds the head of the order, as both come before everything else. -/
theorem fit_of_wide (hps : ps.Pairwise (· < ·)) (hperm : (p :: order).Perm ps)
    (horder : (p :: order).Pairwise GivesWay) (hwide : ¬ Fits gap budget (ps.map fs.get)) :
    fit gap budget (ps.map fs.get) =
      ((fit gap budget ((ps.erase p).map fs.get)).1,
        fs.get p :: (fit gap budget ((ps.erase p).map fs.get)).2) := by
  match ps, hps, hperm, hwide with
  | [], _, _, hwide => exact absurd (.inr (Nat.zero_le 1)) hwide
  | [q], _, _, hwide => exact absurd (.inr (Nat.le_refl 1)) hwide
  | q :: r :: ps, hps, hperm, hwide =>
    have hlt : budget < lineWidth gap ((q :: r :: ps).map fs.get) :=
      Nat.lt_of_not_le fun hle => hwide (.inl hle)
    obtain ⟨least, hmem, hleast, htake⟩ := takeLeast_places hps
    obtain rfl : p = least := by
      rcases List.mem_cons.1 (hperm.mem_iff.2 hmem) with rfl | hlater
      · rfl
      · have hp : p ∈ q :: r :: ps := hperm.mem_iff.1 List.mem_cons_self
        exact antisymm ((List.pairwise_cons.1 horder).1 least hlater) (hleast p hp)
    rw [List.map_cons, List.map_cons] at hlt ⊢
    rw [List.map_cons] at htake
    rw [fit, if_pos hlt, htake]

/-- The loop drops a prefix of the order, the shortest that leaves a line short enough. -/
theorem fit_places (gap budget : Nat) (hps : ps.Pairwise (· < ·)) (hperm : order.Perm ps)
    (horder : order.Pairwise GivesWay) :
    ∃ k ≤ order.length,
      fit gap budget (ps.map fs.get) =
        ((without ps (order.take k)).map fs.get, (order.take k).map fs.get) ∧
      Fits gap budget ((without ps (order.take k)).map fs.get) ∧
      ∀ j < k, ¬ Fits gap budget ((without ps (order.take j)).map fs.get) := by
  induction order generalizing ps with
  | nil =>
    obtain rfl := hperm.nil_eq
    refine ⟨0, Nat.le_refl 0, ?_, .inr (Nat.zero_le 1), fun j hj => absurd hj j.not_lt_zero⟩
    rw [List.map_nil, fit]
    rfl
  | cons p order ih =>
    by_cases hfits : Fits gap budget (ps.map fs.get)
    · refine ⟨0, Nat.zero_le _, ?_, ?_, fun j hj => absurd hj j.not_lt_zero⟩
      · rw [fit_of_fits hfits, List.take_zero, without_nil]
        rfl
      · rwa [List.take_zero, without_nil]
    · have herase := (List.cons_perm_iff_perm_erase.1 hperm).2
      have hnodup : ps.Nodup := hps.imp fun h => h.ne
      obtain ⟨k, hk, hfit, hshort, hmin⟩ :=
        ih (hps.erase p) herase (List.pairwise_cons.1 horder).2
      refine ⟨k + 1, Nat.succ_le_succ hk, ?_, ?_, ?_⟩
      · rw [fit_of_wide hps hperm horder hfits, hfit, List.take_succ_cons, without_cons hnodup]
        rfl
      · rwa [List.take_succ_cons, without_cons hnodup]
      · intro j hj
        cases j with
        | zero => rwa [List.take_zero, without_nil]
        | succ j =>
          rw [List.take_succ_cons, without_cons hnodup]
          exact hmin j (Nat.lt_of_succ_lt_succ hj)

end Loop

/-! ## Lines -/

/-- The places a line still has when so many fragments are gone. -/
def remaining (fs : List Fragment) (k : Nat) : List (Fin fs.length) :=
  without (List.finRange fs.length) ((dropOrder fs).take k)

theorem mem_remaining {fs : List Fragment} {k : Nat} {i : Fin fs.length} :
    i ∈ remaining fs k ↔ i ∉ (dropOrder fs).take k := by
  simp [remaining, without]

/-- The dropped places come before the kept ones. -/
theorem givesWay_of_dropped {fs : List Fragment} {k : Nat} {i j : Fin fs.length}
    (hi : i ∈ remaining fs k) (hj : j ∈ (dropOrder fs).take k) : GivesWay j i := by
  have hpairwise := dropOrder_pairwise fs
  rw [← List.take_append_drop k (dropOrder fs), List.pairwise_append] at hpairwise
  have hmem : i ∈ dropOrder fs := (dropOrder_perm fs).mem_iff.2 (List.mem_finRange i)
  rw [← List.take_append_drop k (dropOrder fs), List.mem_append] at hmem
  exact hpairwise.2.2 j hj i (hmem.resolve_left (mem_remaining.1 hi))

/-- The line a terminal has room for, in places of the fragments. -/
theorem compose_places (separator : String) (fs : List Fragment) (termWidth : UInt16) :
    let line := compose separator fs termWidth
    IsLeast {k | Fits (displayWidth separator) termWidth.toNat ((remaining fs k).map fs.get)}
      line.dropped.length ∧
    line.fragments = (remaining fs line.dropped.length).map fs.get ∧
    line.dropped = ((dropOrder fs).take line.dropped.length).map fun i => (fs.get i).module := by
  obtain ⟨k, hk, hfit, hfits, hmin⟩ := fit_places (displayWidth separator) termWidth.toNat
    (List.pairwise_lt_finRange fs.length) (dropOrder_perm fs) (dropOrder_pairwise fs)
  rw [List.map_get_finRange] at hfit
  rw [compose_of_fit hfit, List.map_map]
  have hlength : (((dropOrder fs).take k).map (Fragment.module ∘ fs.get)).length = k := by
    rw [List.length_map, List.length_take]
    exact Nat.min_eq_left hk
  intro line
  rw [show line.dropped.length = k from hlength]
  exact ⟨⟨hfits, fun j hj => Nat.le_of_not_lt fun hlt => hmin j hlt hj⟩, rfl, rfl⟩

/-- The place that comes last in the order keeps its fragment, whatever the terminal. -/
theorem mem_remaining_of_last {fs : List Fragment} {i : Fin fs.length} (h : ∀ j, GivesWay j i)
    (separator : String) (termWidth : UInt16) :
    i ∈ remaining fs (compose separator fs termWidth).dropped.length := by
  by_contra hi
  obtain ⟨-, hkept, -⟩ := compose_places separator fs termWidth
  have hsome : remaining fs (compose separator fs termWidth).dropped.length ≠ [] := by
    intro hnil
    rw [hnil] at hkept
    exact List.ne_nil_of_length_pos i.pos ((fit_eq_nil_iff _ _ _).1 hkept)
  obtain ⟨j, hj⟩ := List.exists_mem_of_ne_nil _ hsome
  have hdropped : i ∈ (dropOrder fs).take (compose separator fs termWidth).dropped.length :=
    not_not.1 fun hnot => hi (mem_remaining.2 hnot)
  obtain rfl : i = j := antisymm (givesWay_of_dropped hj hdropped) (h j)
  exact hi hj

/-- The order in which `compose` drops fragments is `dropOrder`, that of all places by ascending
priority, from right to left among equals. The terminal decides only how many are: the fewest
without which those `remaining` fit or are at most one. What is kept is as important as what is
dropped, and stands to the left of it where it is no more important; with the last dropped fragment
back the line would be too wide. -/
theorem compose_drops_in_order (separator : String) (fs : List Fragment) (termWidth : UInt16) :
    let line := compose separator fs termWidth
    let gap := displayWidth separator
    let budget := termWidth.toNat
    let order := dropOrder fs
    let rest (k : Nat) := (remaining fs k).map fs.get
    let n := line.dropped.length
    order.Perm (List.finRange fs.length) ∧
    order.Pairwise (fun i j => (fs.get i).priority.toInt < (fs.get j).priority.toInt ∨
      (fs.get i).priority.toInt = (fs.get j).priority.toInt ∧ j < i) ∧
    IsLeast {k | lineWidth gap (rest k) ≤ budget ∨ (rest k).length ≤ 1} n ∧
    line.dropped = (order.take n).map (fun i => (fs.get i).module) ∧
    line.fragments = rest n ∧
    (∀ i, i ∈ remaining fs n ↔ i ∉ order.take n) ∧
    (∀ i ∈ remaining fs n, ∀ j ∈ order.take n,
      (fs.get j).priority.toInt ≤ (fs.get i).priority.toInt ∧
      ((fs.get j).priority.toInt = (fs.get i).priority.toInt → i < j)) ∧
    (∀ k, n = k + 1 → budget < lineWidth gap (rest k)) := by
  intro line gap budget order rest n
  obtain ⟨hleast, hkept, hdropped⟩ := compose_places separator fs termWidth
  refine ⟨dropOrder_perm fs, ?strict, hleast, hdropped, hkept, fun i => mem_remaining, ?lower,
    ?back⟩
  case strict =>
    refine (dropOrder_pairwise fs).imp₂ (fun i j hij hne => ?_) (dropOrder_nodup fs)
    exact hij.imp_right fun hsame => ⟨hsame.1, lt_of_le_of_ne hsame.2 hne.symm⟩
  case lower =>
    intro i hi j hj
    have hne : i ≠ j := by
      rintro rfl
      exact mem_remaining.1 hi hj
    rcases givesWay_of_dropped hi hj with hless | ⟨hsame, hle⟩
    · exact ⟨hless.le, fun hsame => absurd hsame hless.ne⟩
    · exact ⟨hsame.le, fun _ => lt_of_le_of_ne hle hne⟩
  case back =>
    intro k hk
    by_contra hfits
    have hle : n ≤ k := hleast.2 (.inl (Nat.le_of_not_lt hfits))
    omega

end Layout
end ShellPrompt
