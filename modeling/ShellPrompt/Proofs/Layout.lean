import Mathlib.Algebra.Ring.Nat
import ShellPrompt.Layout

/-!
# ShellPrompt.Proofs.Layout

What fitting a line keeps and drops:

  * `takeLeast_perm`, `takeLeast_sublist` — one round takes out one fragment and moves no other;
  * `fit_perm`, `fit_sublist` — so the whole loop splits the fragments and keeps their order;
  * `fit_done` — it stops at a line that fits, or at one fragment;
  * `compose_splits` — the line of a target;
  * `fit_fit`, `compose_compose` — fitting a line twice is fitting it to the narrower terminal.
-/

namespace ShellPrompt
namespace Layout

theorem lineWidth_eq (gap : Nat) (fragments : List Fragment) :
    lineWidth gap fragments =
      (fragments.map Fragment.width).sum + (fragments.length - 1) * gap := by
  have h : fragments.foldr (fun f n => f.width + n) 0 = (fragments.map Fragment.width).sum := by
    induction fragments with
    | nil => rfl
    | cons f rest ih => simp [ih]
  rw [lineWidth, h, Nat.mul_comm]

theorem takeLeast_perm (f : Fragment) (rest : List Fragment) :
    ((takeLeast f rest).1 :: (takeLeast f rest).2).Perm (f :: rest) := by
  induction rest generalizing f with
  | nil => exact .refl _
  | cons g rest ih =>
    rw [takeLeast]
    split
    · exact .refl _
    · exact (List.Perm.swap f _ _).trans ((ih g).cons f)

theorem takeLeast_sublist (f : Fragment) (rest : List Fragment) :
    (takeLeast f rest).2.Sublist (f :: rest) := by
  induction rest generalizing f with
  | nil => exact List.nil_sublist _
  | cons g rest ih =>
    rw [takeLeast]
    split
    · exact List.sublist_cons_self f (g :: rest)
    · exact (ih g).cons_cons f

theorem fit_perm (gap budget : Nat) (fragments : List Fragment) :
    ((fit gap budget fragments).1 ++ (fit gap budget fragments).2).Perm fragments := by
  fun_induction fit gap budget fragments with
  | case1 => exact .refl _
  | case2 f => exact .refl _
  | case3 f g rest _ r _ ih =>
    exact List.perm_middle.trans ((ih.cons r.1).trans (takeLeast_perm f (g :: rest)))
  | case4 f g rest _ => rw [List.append_nil]

theorem fit_sublist (gap budget : Nat) (fragments : List Fragment) :
    (fit gap budget fragments).1.Sublist fragments := by
  fun_induction fit gap budget fragments with
  | case1 => exact .refl _
  | case2 f => exact .refl _
  | case3 f g rest _ r _ ih => exact ih.trans (takeLeast_sublist f (g :: rest))
  | case4 f g rest _ => exact .refl _

theorem fit_done (gap budget : Nat) (fragments : List Fragment) :
    lineWidth gap (fit gap budget fragments).1 ≤ budget ∨
      (fit gap budget fragments).1.length = 1 := by
  fun_induction fit gap budget fragments with
  | case1 => exact .inl (Nat.zero_le _)
  | case2 f => exact .inr rfl
  | case3 f g rest _ r _ ih => exact ih
  | case4 f g rest fits => exact .inl (Nat.le_of_not_lt fits)

theorem fit_eq_nil_iff (gap budget : Nat) (fragments : List Fragment) :
    (fit gap budget fragments).1 = [] ↔ fragments = [] := by
  fun_induction fit gap budget fragments with
  | case1 => exact iff_of_true rfl rfl
  | case2 f => exact iff_of_false (List.cons_ne_nil _ _) (List.cons_ne_nil _ _)
  | case3 f g rest _ r _ ih =>
    refine iff_of_false ?_ (List.cons_ne_nil _ _)
    intro h
    have hlen := length_takeLeast f (g :: rest)
    rw [ih.1 h] at hlen
    exact absurd hlen (by simp)
  | case4 f g rest _ => exact iff_of_false (List.cons_ne_nil _ _) (List.cons_ne_nil _ _)

theorem compose_of_fit {separator : String} {fragments kept dropped : List Fragment}
    {termWidth : UInt16}
    (h : fit (displayWidth separator) termWidth.toNat fragments = (kept, dropped)) :
    compose separator fragments termWidth = {
      fragments := kept
      dropped := dropped.map Fragment.module
      width := lineWidth (displayWidth separator) kept
      overflow := termWidth.toNat < lineWidth (displayWidth separator) kept } := by
  simp only [compose, h]

theorem compose_nil (separator : String) (termWidth : UInt16) :
    compose separator [] termWidth = {} := by
  rw [compose, fit]
  simp [lineWidth]

/-- Dropped fragments and a lone one that is too wide are fragments of the line. -/
theorem dropped_add_overflow_le (separator : String) (fragments : List Fragment)
    (termWidth : UInt16) :
    let line := compose separator fragments termWidth
    line.dropped.length + (if line.overflow then 1 else 0) ≤ fragments.length := by
  intro line
  have hlength : line.fragments.length + line.dropped.length = fragments.length := by
    have hperm := (fit_perm (displayWidth separator) termWidth.toNat fragments).length_eq
    rw [List.length_append] at hperm
    rw [← hperm, show line.dropped.length = _ from List.length_map _]
    rfl
  have hdone : line.width ≤ termWidth.toNat ∨ line.fragments.length = 1 :=
    fit_done (displayWidth separator) termWidth.toNat fragments
  split
  case isTrue hover =>
    have hwide : termWidth.toNat < line.width := of_decide_eq_true hover
    omega
  case isFalse => omega

/-- A line of `compose` keeps some of its fragments as they stand and names the others in `dropped`.
It is as wide as what it keeps, and has `overflow` only when a lone fragment is too wide. -/
theorem compose_splits (separator : String) (fragments : List Fragment) (termWidth : UInt16) :
    let line := compose separator fragments termWidth
    line.fragments.Sublist fragments ∧
    (line.fragments.map Fragment.module ++ line.dropped).Perm (fragments.map Fragment.module) ∧
    line.width = (line.fragments.map Fragment.width).sum +
      (line.fragments.length - 1) * displayWidth separator ∧
    (line.fragments = [] → line.width = 0) ∧
    (line.overflow = true ↔ termWidth.toNat < line.width) ∧
    (line.overflow = true → line.fragments.length = 1) ∧
    (2 ≤ line.fragments.length → line.width ≤ termWidth.toNat) ∧
    (line.fragments = [] → fragments = []) := by
  intro line
  have hdone : line.width ≤ termWidth.toNat ∨ line.fragments.length = 1 :=
    fit_done (displayWidth separator) termWidth.toNat fragments
  have hover : line.overflow = true ↔ termWidth.toNat < line.width := decide_eq_true_iff
  refine ⟨fit_sublist _ _ _, ?_, lineWidth_eq _ _, ?_, hover, ?_, ?_, (fit_eq_nil_iff _ _ _).1⟩
  · have hnames := (fit_perm (displayWidth separator) termWidth.toNat fragments).map Fragment.module
    rwa [List.map_append] at hnames
  · intro hnil
    have hwidth : line.width = lineWidth (displayWidth separator) line.fragments := rfl
    rw [hwidth, hnil, lineWidth_eq]
    simp
  · intro ho
    have := hover.1 ho
    exact hdone.resolve_left (by omega)
  · intro htwo
    exact hdone.resolve_right (by omega)

/-! ## Fitting in steps -/

/-- A narrow line drops first what a wider one drops as well. -/
theorem fit_fit {narrow wide : Nat} (h : narrow ≤ wide) (gap : Nat) (fragments : List Fragment) :
    fit gap narrow fragments =
      ((fit gap narrow (fit gap wide fragments).1).1,
        (fit gap wide fragments).2 ++ (fit gap narrow (fit gap wide fragments).1).2) := by
  fun_induction fit gap wide fragments with
  | case1 => rfl
  | case2 f => rfl
  | case3 f g rest hwide r _ ih =>
    rw [fit, if_pos (Nat.lt_of_le_of_lt h hwide)]
    exact congrArg (fun kept : List Fragment × List Fragment => (kept.1, r.1 :: kept.2)) ih
  | case4 f g rest _ => rfl

theorem fit_kept (gap budget : Nat) (fragments : List Fragment) :
    fit gap budget (fit gap budget fragments).1 = ((fit gap budget fragments).1, []) := by
  have hstep := fit_fit (Nat.le_refl budget) gap fragments
  have hdropped := congrArg Prod.snd hstep
  exact Prod.ext (congrArg Prod.fst hstep).symm (List.self_eq_append_right.1 hdropped)

/-- To `compose` a line in steps is to compose it at once. So a narrower terminal keeps some of what
a wider one keeps and drops more behind what that one drops, and a line that was fitted fits. -/
theorem compose_compose {narrow wide : UInt16} (h : narrow ≤ wide) (separator : String)
    (fragments : List Fragment) :
    let a := compose separator fragments wide
    let b := compose separator a.fragments narrow
    let c := compose separator fragments narrow
    b.fragments = c.fragments ∧ b.width = c.width ∧ b.overflow = c.overflow ∧
    a.dropped ++ b.dropped = c.dropped ∧
    c.fragments.Sublist a.fragments ∧ a.dropped <+: c.dropped ∧
    compose separator a.fragments wide = { a with dropped := [] } := by
  intro a b c
  let gap := displayWidth separator
  have hstep : fit gap narrow.toNat fragments =
      ((fit gap narrow.toNat a.fragments).1,
        (fit gap wide.toNat fragments).2 ++ (fit gap narrow.toNat a.fragments).2) :=
    fit_fit h gap fragments
  have hkept : b.fragments = c.fragments := (congrArg Prod.fst hstep).symm
  have hwidth : b.width = c.width := congrArg (lineWidth gap) hkept
  have hdropped : a.dropped ++ b.dropped = c.dropped := by
    have hmodules := congrArg (fun r => r.2.map Fragment.module) hstep
    rw [List.map_append] at hmodules
    exact hmodules.symm
  refine ⟨hkept, hwidth, ?overflow, hdropped, ?sublist, ?dropped, ?again⟩
  case overflow => exact congrArg (fun width => decide (narrow.toNat < width)) hwidth
  case sublist =>
    rw [← hkept]
    exact fit_sublist gap narrow.toNat a.fragments
  case dropped =>
    rw [← hdropped]
    exact List.prefix_append a.dropped b.dropped
  case again =>
    exact compose_of_fit (fit_kept gap wide.toNat fragments)

def letters (text : String) (priority : Int32) : Fragment :=
  { text := text, priority := priority, module := text }

/-- Four fragments of eight columns, of which the second goes first and then the last. -/
theorem compose_compose_letters :
    let line := [letters "aa" 3, letters "bb" 0, letters "cc" 2, letters "dd" 1]
    let a := compose "" line 7
    let c := compose "" line 5
    (5 : UInt16) ≤ 7 ∧ (compose "" a.fragments 5).fragments = c.fragments ∧
      a.dropped ++ ["dd"] = c.dropped := by
  intro line a c
  have hdropped : (compose "" a.fragments 5).dropped = ["dd"] := by decide +kernel
  obtain ⟨hkept, -, -, hall, -⟩ := compose_compose (show (5 : UInt16) ≤ 7 by decide) "" line
  rw [hdropped] at hall
  exact ⟨by decide, hkept, hall⟩

end Layout
end ShellPrompt
