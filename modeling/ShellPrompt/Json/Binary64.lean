import ShellPrompt.Text.Numeral

/-!
# ShellPrompt.Json.Binary64

Finite binary floating point numbers of 64 bits, in exact arithmetic on natural numbers.

* `ofRatio?`: the number nearest to a ratio, a tie going to the even mantissa.
* `mul`, `div`: products and quotients, rounded once.
* `shortest`: the fewest digits that read back as the number, and of those the nearest.
* `text`: those digits positionally for exponents from -5 to 15, else with an exponent mark.
-/

namespace ShellPrompt
namespace Json

structure Binary64 where
  bits : UInt64
deriving DecidableEq

namespace Binary64

def isNegative (x : Binary64) : Bool := 0x8000000000000000 ≤ x.bits.toNat

def exponentField (x : Binary64) : Nat := x.bits.toNat / 0x10000000000000 % 2048

def fractionField (x : Binary64) : Nat := x.bits.toNat % 0x10000000000000

/-- The magnitude is `mantissa * 2 ^ (scale - 1074)`. -/
def mantissa (x : Binary64) : Nat :=
  if x.exponentField = 0 then x.fractionField else 0x10000000000000 + x.fractionField

def scale (x : Binary64) : Nat := x.exponentField - 1

def isZero (x : Binary64) : Bool := x.mantissa == 0

def zero : Binary64 := ⟨0⟩

def neg (x : Binary64) : Binary64 := ⟨x.bits + 0x8000000000000000⟩

def ratio (x : Binary64) : Nat × Nat := (x.mantissa * Nat.pow 2 x.scale, Nat.pow 2 1074)

/-- The quotient, a tie going to the even neighbour. -/
def roundDiv (num den : Nat) : Nat :=
  let q := num / den
  let r := num % den
  if 2 * r < den then q else if den < 2 * r then q + 1 else q + q % 2

/-- The scale at which a ratio has a mantissa of 53 bits, as far as the format goes. -/
def scaleOf (num den : Nat) : Nat :=
  let q := num * Nat.pow 2 1074 / den
  Nat.log2 q - 52

/-- The nonnegative number nearest to a ratio; `none` when it is too large. -/
def ofRatio? (num den : Nat) : Option Binary64 :=
  let s := scaleOf num den
  let m := roundDiv (num * Nat.pow 2 1074) (den * Nat.pow 2 s)
  let (m, s) := if m = 0x20000000000000 then (0x10000000000000, s + 1) else (m, s)
  if m < 0x10000000000000 then some ⟨UInt64.ofNat m⟩
  else if s + 1 < 2047 then
    some ⟨UInt64.ofNat ((s + 1) * 0x10000000000000 + (m - 0x10000000000000))⟩
  else none

def mul? (x y : Binary64) : Option Binary64 :=
  ofRatio? (x.ratio.1 * y.ratio.1) (x.ratio.2 * y.ratio.2)

def div? (x y : Binary64) : Option Binary64 :=
  ofRatio? (x.ratio.1 * y.ratio.2) (x.ratio.2 * y.ratio.1)

/-- The number nearest to a power of ten; above `10 ^ 308` there is none. -/
def powerOfTen (n : Nat) : Binary64 := (ofRatio? (Nat.pow 10 n) 1).getD zero

/-- Divides by a power of ten in steps of at most `10 ^ 308`. -/
def scaleDown (x : Binary64) (n : Nat) : Binary64 :=
  if n ≤ 308 then (x.div? (powerOfTen n)).getD zero
  else if x.isZero then x
  else scaleDown ((x.div? (powerOfTen 308)).getD zero) (n - 308)
termination_by n

/-- A significand times a power of ten, each rounded by itself; `none` when it is too large. -/
def ofParts? (negative : Bool) (significand : Nat) (exponent : Int) : Option Binary64 :=
  let signed (x : Binary64) : Binary64 := if negative then x.neg else x
  let x := (ofRatio? significand 1).getD zero
  if exponent < 0 then some (signed (scaleDown x exponent.natAbs))
  else if x.isZero then some (signed x)
  else if exponent ≤ 308 then (x.mul? (powerOfTen exponent.natAbs)).map signed
  else none

/-! ## Digits -/

/-- The numbers that round to `x`: ends of the interval around it over a common denominator, the
value itself, and whether the ends belong to it. -/
structure Interval where
  low : Nat
  value : Nat
  high : Nat
  den : Nat
  closed : Bool

def interval (x : Binary64) : Interval :=
  let m := x.mantissa
  let narrow := x.fractionField = 0 ∧ 1 < x.exponentField
  let unit := Nat.pow 2 x.scale
  { low := (4 * m - if narrow then 1 else 2) * unit
    value := 4 * m * unit
    high := (4 * m + 2) * unit
    den := 4 * Nat.pow 2 1074
    closed := m % 2 == 0 }

namespace Interval

def contains (i : Interval) (digits : Nat) (exponent : Int) : Bool :=
  let up := Nat.pow 10 exponent.toNat
  let down := Nat.pow 10 (-exponent).toNat
  let d := digits * up * i.den
  if i.closed then i.low * down ≤ d && d ≤ i.high * down
  else i.low * down < d && d < i.high * down

/-- The digits on the grid of multiples of `10 ^ exponent`, if a neighbour of the value is in the
interval; of two the nearer, the even one in a tie. -/
def onGrid? (i : Interval) (exponent : Int) : Option Nat :=
  let num := i.value * Nat.pow 10 (-exponent).toNat
  let den := i.den * Nat.pow 10 exponent.toNat
  let floor := num / den
  let nearest := roundDiv num den
  if i.contains nearest exponent then some nearest
  else if i.contains floor exponent then some floor
  else if i.contains (floor + 1) exponent then some (floor + 1)
  else none

end Interval

def leading (num den : Nat) : Int :=
  if den ≤ num then ((Nat.toDigits 10 (num / den)).length : Int) - 1
  else
    let k := (Nat.toDigits 10 (den / num)).length
    if den ≤ num * Nat.pow 10 (k - 1) then -((k - 1 : Nat) : Int) else -(k : Int)

/-- Tries 1, 2, … digits. -/
def search (i : Interval) (lead : Int) : Nat → Nat → Nat × Int
  | _, 0 => (0, 0)
  | n, more + 1 =>
    let exponent := lead - n
    match i.onGrid? exponent with
    | some digits => (digits, exponent)
    | none => search i lead (n + 1) more

/-- The fewest decimal digits that read back, with the exponent of the last. -/
def shortest (x : Binary64) : Nat × Int :=
  let i := x.interval
  search i (leading i.value i.den) 0 17

def stripZeros (digits : List Char) : List Char :=
  (digits.reverse.dropWhile (· == '0')).reverse

/-- Digits and the position of the decimal point relative to their start. -/
def layout (digits : List Char) (point : Int) : List Char :=
  let n : Int := digits.length
  if n ≤ point ∧ point ≤ 16 then
    digits ++ List.replicate (point - n).toNat '0' ++ ['.', '0']
  else if 0 < point ∧ point ≤ 16 then
    digits.take point.toNat ++ '.' :: digits.drop point.toNat
  else if -5 < point ∧ point ≤ 0 then
    '0' :: '.' :: List.replicate (-point).toNat '0' ++ digits
  else
    let exponent := point - 1
    let tail := 'e' :: (if exponent < 0 then '-' else '+') :: Text.Numeral.decimal exponent.natAbs
    match digits with
    | [d] => d :: tail
    | d :: ds => d :: '.' :: ds ++ tail
    | [] => tail

def text (x : Binary64) : List Char :=
  let body :=
    if x.isZero then ['0', '.', '0']
    else
      let (digits, exponent) := x.shortest
      let written := Text.Numeral.decimal digits
      layout (stripZeros written) (written.length + exponent)
  if x.isNegative then '-' :: body else body

end Binary64
end Json
end ShellPrompt
