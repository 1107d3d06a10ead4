/-!
# ShellPrompt.Text.Numeral

Numbers as digits, written and read.

* `decimal`, `signed`: decimal digits without leading zeros, with a sign for negative numbers.
* `decimal?`, `hexadecimal?`: the value of a nonempty run of digits.
* `unsigned?`: a decimal number that may carry one plus sign.
-/

namespace ShellPrompt
namespace Text
namespace Numeral

def decimal (n : Nat) : List Char := Nat.toDigits 10 n

def signed (z : Int) : List Char :=
  if z < 0 then '-' :: decimal z.natAbs else decimal z.natAbs

def decimal? (digits : List Char) : Option Nat :=
  if digits ≠ [] ∧ digits.all Char.isDigit then some (Nat.ofDigitChars 10 digits 0) else none

def hexDigit? (c : Char) : Option Nat :=
  let n := c.toNat
  if 0x30 ≤ n ∧ n ≤ 0x39 then some (n - 0x30)
  else if 0x61 ≤ n ∧ n ≤ 0x66 then some (n - 0x61 + 10)
  else if 0x41 ≤ n ∧ n ≤ 0x46 then some (n - 0x41 + 10)
  else none

def hexadecimal? : List Char → Option Nat
  | [] => none
  | digits =>
    digits.foldl (fun acc c => acc.bind fun n => (hexDigit? c).map fun d => 16 * n + d) (some 0)

def dropPlus : List Char → List Char
  | '+' :: rest => rest
  | text => text

def unsigned? (text : List Char) : Option Nat := decimal? (dropPlus text)

/-- The digit of a value below 16. -/
def hexChar (d : Nat) : Char := Nat.digitChar d

def hexByte (b : UInt8) : List Char := [hexChar (b.toNat / 16), hexChar (b.toNat % 16)]

theorem decimal?_decimal (n : Nat) : decimal? (decimal n) = some n := by
  have h : (Nat.toDigits 10 n).all Char.isDigit = true := by
    rw [List.all_eq_true]
    exact fun c hc => Nat.isDigit_of_mem_toDigits (by decide) (by decide) hc
  simp [decimal?, decimal, h, Nat.toDigits_ne_nil, Nat.ofDigitChars_ten_toDigits]

end Numeral
end Text
end ShellPrompt
