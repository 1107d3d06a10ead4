import Mathlib.Algebra.Ring.Int.Defs
import Mathlib.Algebra.BigOperators.Group.List.Basic
import ShellPrompt.Text.Width

/-!
# ShellPrompt.Proofs.Text.Width

Columns of texts side by side.

A text is read from the left to tell escape sequences from what is shown, and what is shown is read
from the right to count its columns. Between two texts either reader may be in the middle of
something, so together they may take other columns than alone.

* `measureFrom`: columns of a text in front of something; `measureFrom_append` splits them.
* `measure_nonneg`: no more columns are taken back than have been counted.
* `drift`: the columns that texts take where they stand, less those they take alone.
  `width_flatten` says that this is all there is to the width of a line.
* `Closed`, `Seamless`: texts without drift (`drift_eq_zero`). Texts that end their sequences are
  such whenever something `Inert` stands between them (`seamless_intersperse`), and without that if
  all of them are `Steady`.
-/

namespace ShellPrompt
namespace Text

namespace EscapeSequence

/-- A text that ends the sequences it begins. -/
def Closed (text : List Char) : Prop := after .ground text = .ground

theorem Closed.strip_append {a : List Char} (h : Closed a) (b : List Char) :
    strip (a ++ b) = strip a ++ strip b := by
  rw [EscapeSequence.strip_append, h]
  rfl

end EscapeSequence

namespace Width

open EscapeSequence (State Closed after strip stripFrom)

/-- Columns of a text in front of something, of which its characters see `next`, and what stands to
its left sees. -/
def measureFrom (next : Following) (text : List Char) : Int × Following :=
  text.foldr (fun c acc => (acc.1 + (step c acc.2).1, (step c acc.2).2)) (0, next)

theorem measureFrom_none (text : List Char) : measureFrom .none text = measure text := rfl

@[simp] theorem measureFrom_nil (next : Following) : measureFrom next [] = (0, next) := rfl

theorem measureFrom_cons (next : Following) (c : Char) (rest : List Char) :
    measureFrom next (c :: rest) =
      ((measureFrom next rest).1 + (step c (measureFrom next rest).2).1,
        (step c (measureFrom next rest).2).2) := rfl

theorem measureFrom_append (next : Following) (a b : List Char) :
    measureFrom next (a ++ b) =
      ((measureFrom (measureFrom next b).2 a).1 + (measureFrom next b).1,
        (measureFrom (measureFrom next b).2 a).2) := by
  induction a with
  | nil => simp
  | cons c rest ih =>
    rw [List.cons_append, measureFrom_cons, measureFrom_cons, ih]
    simp only [Prod.mk.injEq, and_true]
    omega

theorem measure_append (a b : List Char) :
    measure (a ++ b) = ((measureFrom (measure b).2 a).1 + (measure b).1,
      (measureFrom (measure b).2 a).2) := measureFrom_append .none a b

/-! ## No width below zero -/

/-- The columns that the character to the left may take back. -/
def owed : Following → Int
  | .joinedIndicator => 1
  | .oddRun => 1
  | .ligature .coengLetter _ _ => 1
  | .ligature .boundConsonant _ _ => 1
  | _ => 0

theorem owed_nonneg (next : Following) : 0 ≤ owed next := by
  unfold owed
  split <;> decide

theorem owed_withEmoji (next : Following) : owed next.withEmoji ≤ owed next := by
  cases next with
  | ligature part asEmoji asText => cases part <;> exact Int.le_refl _
  | tagLetters n => exact Int.le_refl _
  | tagDigits n => exact Int.le_refl _
  | _ => decide

theorem owed_withText (next : Following) : owed next.withText ≤ owed next := by
  cases next with
  | ligature part asEmoji asText => cases part <;> exact Int.le_refl _
  | tagLetters n => exact Int.le_refl _
  | tagDigits n => exact Int.le_refl _
  | _ => decide

theorem owed_withoutEmoji (next : Following) : owed next.withoutEmoji ≤ owed next := by
  cases next with
  | ligature part asEmoji asText => cases part <;> exact Int.le_refl _
  | tagLetters n => exact Int.le_refl _
  | tagDigits n => exact Int.le_refl _
  | _ => decide

theorem owed_withoutText (next : Following) : owed next.withoutText ≤ owed next := by
  cases next with
  | ligature part asEmoji asText => cases part <;> exact Int.le_refl _
  | tagLetters n => exact Int.le_refl _
  | tagDigits n => exact Int.le_refl _
  | _ => decide

theorem owed_alone (c : Char) : owed (alone c).2 ≤ (alone c).1 := by
  unfold alone
  split
  case h_1 part _ => cases part <;> decide
  case h_2 => split_ifs <;> decide

theorem owed_ligated {c : Char} {part : Part} {r : Int × Following} (h : ligated c part = some r) :
    owed r.2 ≤ owed (.ligature part false false) + r.1 := by
  unfold ligated at h
  cases part <;> simp only [reduceCtorEq] at h <;> split_ifs at h <;>
    · cases h
      decide

theorem owed_joined (part : Part) :
    owed (.ligature part.joined false false) = owed (.ligature part false false) := by
  cases part <;> rfl

theorem owed_ligature (part : Part) (asEmoji asText : Bool) :
    owed (.ligature part asEmoji asText) = owed (.ligature part false false) := by
  cases part <;> rfl

theorem owed_combined {c : Char} {next : Following} {r : Int × Following}
    (h : combined c next = some r) : owed r.2 ≤ owed next + r.1 := by
  cases next with
  | ligature part asEmoji asText =>
    rw [owed_ligature]
    simp only [combined] at h
    split_ifs at h
    · cases h
      simp [owed_joined]
    · cases h
      simp
    · exact owed_ligated h
  | tagLetters n =>
    simp only [combined] at h
    split_ifs at h <;>
      · cases h
        exact Int.le_refl 0
  | tagDigits n =>
    simp only [combined] at h
    split_ifs at h <;>
      · cases h
        exact Int.le_refl 0
  | _ =>
    simp only [combined, reduceCtorEq] at h <;> split_ifs at h <;>
      · cases h
        decide

theorem owed_unselected (c : Char) (next : Following) :
    owed (unselected c next).2 ≤ owed next + (unselected c next).1 := by
  have hnext := owed_nonneg next
  unfold unselected
  split_ifs
  case pos => exact Int.add_nonneg hnext (by decide)
  case neg => exact Int.add_nonneg hnext (by decide)
  case pos => simpa using owed_withEmoji next
  case pos => simpa using owed_withText next
  case pos => exact Int.add_nonneg hnext (by decide)
  case neg =>
    cases h : combined c next.withoutText with
    | none =>
      have := owed_alone c
      rw [Option.getD_none]
      omega
    | some r =>
      have := owed_combined h
      have := owed_withoutText next
      rw [Option.getD_some]
      omega

theorem owed_step (c : Char) (next : Following) :
    owed (step c next).2 ≤ owed next + (step c next).1 := by
  unfold step
  split
  case isTrue =>
    refine Int.add_nonneg (owed_nonneg next) ?_
    dsimp only
    split <;> decide
  case isFalse =>
    have := owed_unselected c next.withoutEmoji
    have := owed_withoutEmoji next
    omega

/-- Counting from the right, what the next character may take back has been counted. -/
theorem owed_le_measure (text : List Char) : owed (measure text).2 ≤ (measure text).1 := by
  rw [← measureFrom_none]
  induction text with
  | nil => decide
  | cons c rest ih =>
    rw [measureFrom_cons]
    have := owed_step c (measureFrom .none rest).2
    dsimp only
    omega

theorem measure_nonneg (text : List Char) : 0 ≤ (measure text).1 :=
  Int.le_trans (owed_nonneg _) (owed_le_measure text)

theorem width_eq (text : List Char) : (width text : Int) = (measure (strip text)).1 :=
  Int.toNat_of_nonneg (measure_nonneg _)

/-! ## Side by side -/

/-- The columns that texts take where they stand, less the columns they take alone. The first of
them is read in the given state. -/
def drift (s : State) : List (List Char) → Int
  | [] => 0
  | text :: rest =>
    let behind := (measure (stripFrom (after s text) rest.flatten)).2
    (measureFrom behind (stripFrom s text)).1 - width text + drift (after s text) rest

theorem measure_flatten (s : State) (texts : List (List Char)) :
    (measure (stripFrom s texts.flatten)).1 =
      (texts.map fun text => (width text : Int)).sum + drift s texts := by
  induction texts generalizing s with
  | nil => rfl
  | cons text rest ih =>
    rw [List.flatten_cons, EscapeSequence.stripFrom_append, measure_append, drift, List.map_cons,
      List.sum_cons, ih]
    dsimp only
    omega

theorem width_flatten (texts : List (List Char)) :
    (width texts.flatten : Int) =
      (texts.map fun text => (width text : Int)).sum + drift .ground texts := by
  rw [width_eq]
  exact measure_flatten .ground texts

/-- A lam and the alef of the next text share a column, and a cup that the next text asks to be
shown as text takes one column less. -/
example : drift .ground ["\u0644".toList, "\u0627".toList] = -1 ∧
    drift .ground ["\u2615".toList, "\ufe0e".toList] = -1 := by decide +kernel

theorem drift_singleton (text : List Char) : drift .ground [text] = 0 := by
  have hwidth := width_flatten [text]
  rw [List.flatten_singleton, List.map_singleton, List.sum_singleton] at hwidth
  omega

/-- Every text shows the columns in front of the others that it shows alone. -/
def Seamless : List (List Char) → Prop
  | [] => True
  | text :: rest =>
    (measureFrom (measure (strip rest.flatten)).2 (strip text)).1 = (measure (strip text)).1 ∧
      Seamless rest

theorem drift_eq_zero {texts : List (List Char)} (hclosed : ∀ text ∈ texts, Closed text)
    (h : Seamless texts) : drift .ground texts = 0 := by
  induction texts with
  | nil => rfl
  | cons text rest ih =>
    obtain ⟨htext, hrest⟩ := List.forall_mem_cons.1 hclosed
    have hseam : (measureFrom (measure (stripFrom .ground rest.flatten)).2
        (stripFrom .ground text)).1 = (measure (strip text)).1 := h.1
    rw [drift, htext, ih hrest h.2, width_eq, hseam]
    omega

/-- A text that takes the same columns whatever follows it. -/
def Steady (text : List Char) : Prop := ∀ next, (measureFrom next text).1 = (measure text).1

/-- A steady text from which what stands before it cannot be told to stand before anything. -/
def Inert (text : List Char) : Prop := ∀ next, measureFrom next text = ((measure text).1, .none)

theorem Inert.steady {text : List Char} (h : Inert text) : Steady text := fun next => by rw [h]

theorem seamless_of_steady {texts : List (List Char)}
    (h : ∀ text ∈ texts, Steady (strip text)) : Seamless texts := by
  induction texts with
  | nil => trivial
  | cons text rest ih =>
    obtain ⟨htext, hrest⟩ := List.forall_mem_cons.1 h
    exact ⟨htext _, ih hrest⟩

theorem seamless_intersperse {gap : List Char} (hclosed : Closed gap) (hgap : Inert (strip gap))
    (texts : List (List Char)) : Seamless (texts.intersperse gap) := by
  induction texts with
  | nil => trivial
  | cons text rest ih =>
    cases rest with
    | nil => exact ⟨rfl, trivial⟩
    | cons other rest =>
      rw [List.intersperse_cons_cons]
      refine ⟨?_, hgap.steady _, ih⟩
      rw [List.flatten_cons, hclosed.strip_append, measure_append, hgap]
      rfl

/-! ## Steady characters -/

/-- A character of one column, or a line feed, that takes part in nothing. -/
def Plain (c : Char) : Prop :=
  c.toNat ≤ 0xA0 ∧ WidthTable.contains WidthTable.emojiSequence c = false

theorem step_plain {c : Char} (h : Plain c) (next : Following) :
    step c next = (if c.toNat == 0x0A then 0 else 1, .none) := by
  obtain ⟨hc, hseq⟩ := h
  simp [step, hseq, unselected, hc]

theorem measureFrom_of_getLast? {text : List Char} {c : Char} (hlast : text.getLast? = some c)
    (hc : Plain c) (next : Following) : measureFrom next text = measure text := by
  obtain ⟨init, rfl⟩ := List.getLast?_eq_some_iff.1 hlast
  rw [← measureFrom_none, measureFrom_append, measureFrom_append, measureFrom_cons,
    measureFrom_cons, measureFrom_nil, measureFrom_nil, step_plain hc, step_plain hc]

theorem inert_of_plain {text : List Char} {first last : Char} (hfirst : text.head? = some first)
    (hplain : Plain first) (hlast : text.getLast? = some last) (hplain' : Plain last) :
    Inert text := by
  intro next
  rw [measureFrom_of_getLast? hlast hplain' next]
  cases text with
  | nil => cases hfirst
  | cons c rest =>
    obtain rfl : c = first := Option.some.inj hfirst
    rw [← measureFrom_none, measureFrom_cons, step_plain hplain]

end Width
end Text
end ShellPrompt
