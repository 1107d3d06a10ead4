import ShellPrompt.Text.Numeral

/-!
# ShellPrompt.CommandLine.Number

Numbers among arguments. Digits are read from the left, so of a wrong digit and a value that grew
too large the one met first is reported. One sign may stand in front.
-/

namespace ShellPrompt
namespace CommandLine

inductive NumberFault where
  | empty
  | wrongDigit
  | tooLarge
  | tooSmall
  | outside (value low high : Int)
deriving DecidableEq

namespace NumberFault

def message : NumberFault → String
  | .empty => "cannot parse integer from empty string"
  | .wrongDigit => "invalid digit found in string"
  | .tooLarge => "number too large to fit in target type"
  | .tooSmall => "number too small to fit in target type"
  | .outside value low high => s!"{value} is not in {low}..={high}"

end NumberFault

/-- Continues a number from the value read so far. -/
def digitsWithin (limit : Nat) (excess : NumberFault) : Nat → List Char → Except NumberFault Nat
  | n, [] => .ok n
  | n, c :: rest =>
    if c.isDigit then
      let next := 10 * n + (c.toNat - 0x30)
      if next ≤ limit then digitsWithin limit excess next rest else .error excess
    else .error .wrongDigit

def naturalWithin (limit : Nat) (excess : NumberFault) : List Char → Except NumberFault Nat
  | [] => .error .wrongDigit
  | digits => digitsWithin limit excess 0 digits

def readUInt64 (raw : String) : Except NumberFault UInt64 :=
  match raw.toList with
  | [] => .error .empty
  | '+' :: digits => (naturalWithin 0xFFFFFFFFFFFFFFFF .tooLarge digits).map UInt64.ofNat
  | digits => (naturalWithin 0xFFFFFFFFFFFFFFFF .tooLarge digits).map UInt64.ofNat

def readInt64 (raw : String) : Except NumberFault Int :=
  match raw.toList with
  | [] => .error .empty
  | '-' :: digits =>
    (naturalWithin 0x8000000000000000 .tooSmall digits).map fun n => -(n : Int)
  | '+' :: digits => (naturalWithin 0x7FFFFFFFFFFFFFFF .tooLarge digits).map Int.ofNat
  | digits => (naturalWithin 0x7FFFFFFFFFFFFFFF .tooLarge digits).map Int.ofNat

def readBetween (low high : Int) (raw : String) : Except NumberFault Int := do
  let z ← readInt64 raw
  if low ≤ z ∧ z ≤ high then return z else throw (.outside z low high)

def isExponentMark (c : Char) : Bool := c == 'e' || c == 'E'

/-- Does a text look like the digits of a number, with at most one point behind the first of them
and at most one exponent behind that? -/
def isNumberLike (digits : List Char) : Bool :=
  let (whole, exponent) :=
    (digits.takeWhile (!isExponentMark ·), digits.dropWhile (!isExponentMark ·))
  let (units, places) := (whole.takeWhile Char.isDigit, whole.dropWhile Char.isDigit)
  let pointed :=
    match places with
    | [] => true
    | '.' :: rest => units != [] && rest.all Char.isDigit
    | _ => false
  pointed &&
    match exponent with
    | [] => true
    | _ :: rest => whole != [] && rest != [] && rest.all Char.isDigit

end CommandLine
end ShellPrompt
