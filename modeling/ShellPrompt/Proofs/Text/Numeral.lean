import Mathlib.Data.List.TakeDrop
import ShellPrompt.Text.Numeral

/-!
# ShellPrompt.Proofs.Text.Numeral

Written numbers in front of other text. What follows a number does not blur it, unless it begins
with a digit itself (`span_decimal`).
-/

namespace ShellPrompt
namespace Text
namespace Numeral

theorem isDigit_of_mem_decimal {n : Nat} {c : Char} (h : c ∈ decimal n) : c.isDigit = true :=
  Nat.isDigit_of_mem_toDigits (by omega) (by omega) h

theorem decimal_ne_nil (n : Nat) : decimal n ≠ [] := Nat.toDigits_ne_nil

theorem ofDigitChars_decimal (n : Nat) : Nat.ofDigitChars 10 (decimal n) 0 = n :=
  Nat.ofDigitChars_ten_toDigits

theorem span_append {p : Char → Bool} {text rest : List Char} (h : ∀ c ∈ text, p c = true)
    (hrest : ∀ c ∈ rest.head?, p c = false) : (text ++ rest).span p = (text, rest) := by
  rw [List.span_eq_takeWhile_dropWhile, List.takeWhile_append_of_pos h,
    List.dropWhile_append_of_pos h]
  cases rest with
  | nil => simp
  | cons c rest =>
    have hc := hrest c (by simp)
    simp [hc]

theorem span_decimal (n : Nat) {rest : List Char} (h : ∀ c ∈ rest.head?, c.isDigit = false) :
    (decimal n ++ rest).span Char.isDigit = (decimal n, rest) :=
  span_append (fun _ hc => isDigit_of_mem_decimal hc) h

end Numeral
end Text
end ShellPrompt
