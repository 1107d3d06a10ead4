import Mathlib.Algebra.Ring.Nat
import ShellPrompt.Proofs.Json.Numbers

/-!
# ShellPrompt.Proofs.Json.LongIntegers

Integers beyond 64 bits.

They are read as floating numbers, from the digits that fit into 64 bits and the number of those
left over. `exists_ofRatio?` bounds what a ratio is rounded to, so that a product of two such
numbers is again within the format, and `exists_number?` says that no integer of 128 bits is
refused.
-/

namespace ShellPrompt
namespace Json
namespace Binary64

/-! ## Rounding -/

theorem roundDiv_le (num den : Nat) : roundDiv num den ≤ num / den + 1 := by
  have hparity : num / den % 2 ≤ 1 := by omega
  unfold roundDiv
  dsimp only
  split
  · omega
  split <;> omega

theorem log2_sub_lt {q k : Nat} (h : q < 2 ^ k) (hk : 52 < k) : Nat.log2 q - 52 < k - 52 := by
  by_cases hzero : q = 0
  · rw [hzero, Nat.log2_zero]
    omega
  · have hlog := (Nat.log2_lt hzero).2 h
    omega

/-- A mantissa has 53 bits, or one more after it was rounded up. -/
theorem roundDiv_log2_le (num den : Nat) :
    roundDiv num (den * Nat.pow 2 (Nat.log2 (num / den) - 52)) ≤ 0x20000000000000 := by
  refine Nat.le_trans (roundDiv_le _ _) ?_
  rw [← Nat.div_div_eq_div_mul]
  generalize num / den = q
  have hq : q < 2 ^ (53 + (Nat.log2 q - 52)) :=
    Nat.lt_of_lt_of_le Nat.lt_log2_self (Nat.pow_le_pow_right (by omega) (by omega))
  rw [Nat.pow_add] at hq
  exact Nat.succ_le_of_lt ((Nat.div_lt_iff_lt_mul (Nat.two_pow_pos _)).2 hq)

theorem shifted_lt {num den k : Nat} (hden : 0 < den) (h : num < 2 ^ k * den) (p : Nat) :
    num * Nat.pow 2 p / den < 2 ^ (k + p) := by
  have hdef : Nat.pow 2 p = 2 ^ p := rfl
  rw [Nat.div_lt_iff_lt_mul hden, hdef, Nat.pow_add, Nat.mul_right_comm]
  exact Nat.mul_lt_mul_of_pos_right h (Nat.two_pow_pos p)

/-! ## Fields -/

/-- A number with that exponent field and fraction. -/
theorem scale_ofNat_le (field : Nat) {fraction : Nat} (h : fraction < 0x10000000000000) :
    scale ⟨UInt64.ofNat (field * 0x10000000000000 + fraction)⟩ ≤ field - 1 := by
  simp only [scale, exponentField, UInt64.toNat_ofNat']
  omega

theorem ratio_eq (x : Binary64) :
    ∃ p, p = 1074 ∧ x.ratio = (x.mantissa * Nat.pow 2 x.scale, Nat.pow 2 p) := ⟨1074, rfl, rfl⟩

theorem ratio_pos (x : Binary64) : 0 < x.ratio.2 := by
  obtain ⟨p, -, hratio⟩ := ratio_eq x
  rw [hratio]
  exact Nat.two_pow_pos p

theorem ratio_lt {x : Binary64} {k : Nat} (h : x.scale < k + 1022) :
    x.ratio.1 < 2 ^ k * x.ratio.2 := by
  obtain ⟨p, hp, hratio⟩ := ratio_eq x
  have hmantissa : x.mantissa < 2 ^ 53 := by
    unfold mantissa fractionField
    split <;> omega
  have hlt : x.mantissa * 2 ^ x.scale < 2 ^ (53 + x.scale) := by
    rw [Nat.pow_add]
    exact Nat.mul_lt_mul_of_pos_right hmantissa (Nat.two_pow_pos _)
  have hle : 2 ^ (53 + x.scale) ≤ 2 ^ (k + p) := Nat.pow_le_pow_right (by omega) (by omega)
  rw [hratio]
  have hsplit : 2 ^ (k + p) = 2 ^ k * Nat.pow 2 p := Nat.pow_add 2 k p
  exact Nat.lt_of_lt_of_le hlt (hsplit ▸ hle)

/-- The number of that mantissa and scale. A mantissa that was rounded up to 54 bits is halved. -/
def packed? (mantissa scale : Nat) : Option Binary64 :=
  let (m, s) :=
    if mantissa = 0x20000000000000 then (0x10000000000000, scale + 1) else (mantissa, scale)
  if m < 0x10000000000000 then some ⟨UInt64.ofNat m⟩
  else if s + 1 < 2047 then
    some ⟨UInt64.ofNat ((s + 1) * 0x10000000000000 + (m - 0x10000000000000))⟩
  else none

theorem ofRatio?_eq (num den : Nat) : ∃ p s, p = 1074 ∧
    s = Nat.log2 (num * Nat.pow 2 p / den) - 52 ∧
      ofRatio? num den = packed? (roundDiv (num * Nat.pow 2 p) (den * Nat.pow 2 s)) s :=
  ⟨1074, scaleOf num den, rfl, rfl, rfl⟩

theorem exists_packed? {m s : Nat} (hm : m ≤ 0x20000000000000) (hs : s + 2 < 2047) :
    ∃ x, packed? m s = some x ∧ x.scale ≤ s + 1 := by
  have hpacked : ∀ m s', m < 0x20000000000000 → s' ≤ s + 1 → ∃ x,
      (if m < 0x10000000000000 then some (⟨UInt64.ofNat m⟩ : Binary64)
      else if s' + 1 < 2047 then
        some ⟨UInt64.ofNat ((s' + 1) * 0x10000000000000 + (m - 0x10000000000000))⟩
      else none) = some x ∧ x.scale ≤ s + 1 := by
    intro m s' hm hs'
    split
    case isTrue hsmall =>
      have hscale := scale_ofNat_le 0 hsmall
      rw [Nat.zero_mul, Nat.zero_add] at hscale
      exact ⟨_, rfl, by omega⟩
    case isFalse hlarge =>
      have hscale := scale_ofNat_le (s' + 1) (show m - 0x10000000000000 < _ by omega)
      rw [if_pos (by omega)]
      exact ⟨_, rfl, by omega⟩
  unfold packed?
  by_cases hup : m = 0x20000000000000
  · rw [if_pos hup]
    exact hpacked _ _ (by omega) (Nat.le_refl _)
  · rw [if_neg hup]
    exact hpacked _ _ (by omega) (Nat.le_succ _)

/-- A ratio below a power of two is rounded to a number that is not far above. -/
theorem exists_ofRatio? {num den k : Nat} (hden : 0 < den) (h : num < 2 ^ k * den) (hk : k < 900) :
    ∃ x, ofRatio? num den = some x ∧ x.ratio.1 < 2 ^ (k + 1) * x.ratio.2 := by
  obtain ⟨p, s, hp, hs, heq⟩ := ofRatio?_eq num den
  have hscale := log2_sub_lt (shifted_lt hden h p) (by omega)
  have hmantissa := roundDiv_log2_le (num * Nat.pow 2 p) den
  rw [← hs] at hscale hmantissa
  obtain ⟨x, hx, hle⟩ := exists_packed? (s := s) hmantissa (by omega)
  exact ⟨x, heq.trans hx, ratio_lt (by omega)⟩

theorem exists_mul? {x y : Binary64} {j k : Nat} (hx : x.ratio.1 < 2 ^ j * x.ratio.2)
    (hy : y.ratio.1 < 2 ^ k * y.ratio.2) (hsmall : j + k < 900) : ∃ z, x.mul? y = some z := by
  have hproduct : x.ratio.1 * y.ratio.1 < 2 ^ (j + k) * (x.ratio.2 * y.ratio.2) := by
    rw [Nat.pow_add, Nat.mul_mul_mul_comm]
    exact Nat.mul_lt_mul_of_lt_of_lt hx hy
  obtain ⟨z, hz, -⟩ :=
    exists_ofRatio? (Nat.mul_pos (ratio_pos x) (ratio_pos y)) hproduct hsmall
  exact ⟨z, hz⟩

/-- Sixty-four bits and twenty digits more are within the format. -/
theorem exists_ofParts? {n more : Nat} (hn : n ≤ maxWord) (hmore : more ≤ 20) :
    ∃ x, ofParts? false n more = some x := by
  have hword : n < 2 ^ 64 * 1 := Nat.lt_of_le_of_lt hn (by decide)
  have hten : Nat.pow 10 more < 2 ^ 67 * 1 :=
    Nat.lt_of_le_of_lt (Nat.pow_le_pow_right (by omega) hmore) (by decide)
  obtain ⟨x, hx, hxlt⟩ := exists_ofRatio? (by omega) hword (by omega)
  obtain ⟨y, hy, hylt⟩ := exists_ofRatio? (by omega) hten (by omega)
  have hpower : powerOfTen more = y := by
    rw [powerOfTen, hy]
    rfl
  obtain ⟨z, hz⟩ := exists_mul? hxlt hylt (by omega)
  have hneg : ¬ ((more : Int) < 0) := by omega
  have hlarge : (more : Int) ≤ 308 := by omega
  unfold ofParts?
  simp only [hx, Option.getD_some, hneg, if_false, hlarge, if_true, Int.natAbs_natCast, hpower, hz,
    Bool.false_eq_true, Option.map_some]
  split
  · exact ⟨_, rfl⟩
  · exact ⟨_, rfl⟩

end Binary64

/-! ## Reading -/

theorem mul_pow_le_ofDigitChars (ds : List Char) (n : Nat) :
    n * 10 ^ ds.length ≤ Nat.ofDigitChars 10 ds n := by
  induction ds generalizing n with
  | nil => simp [Nat.ofDigitChars]
  | cons c ds ih =>
    rw [ofDigitChars_cons, List.length_cons, Nat.pow_succ, Nat.mul_comm (10 ^ _), ← Nat.mul_assoc]
    refine Nat.le_trans (Nat.mul_le_mul_right _ ?_) (ih (10 * n + digitValue c))
    omega

/-- Digits are left over only where one more would not fit. -/
theorem digitsOnto_cases {ds : List Char} (h : AllDigits ds) {n : Nat} (hn : n ≤ maxWord)
    (count : Nat) :
    ∃ n' count' more, digitsOnto n count ds = (n', count', more) ∧ AllDigits more ∧
      n' ≤ maxWord ∧ n' * 10 ^ more.length ≤ Nat.ofDigitChars 10 ds n ∧
      (more ≠ [] → maxWord < 10 * n' + 10) := by
  induction ds generalizing n count with
  | nil => exact ⟨n, count, [], rfl, h, hn, by simp [Nat.ofDigitChars], fun hne => absurd rfl hne⟩
  | cons c ds ih =>
    obtain ⟨hc, hds⟩ := List.forall_mem_cons.1 h
    by_cases hfits : 10 * n + digitValue c ≤ maxWord
    · rw [digitsOnto, if_pos (by simp [hc, hfits]), ofDigitChars_cons]
      exact ih hds hfits (count + 1)
    · have hdigit := digitValue_lt hc
      rw [digitsOnto, if_neg (by simp [hfits])]
      exact ⟨n, count, c :: ds, rfl, h, hn, mul_pow_le_ofDigitChars _ _, fun _ => by omega⟩

/-- What is read of digits alone, some of them left over. -/
theorem number_digits {c : Char} {ds more : List Char} {n count : Nat} (hleading : c ≠ '0')
    (hdigit : c.isDigit = true) (hread : digitsOnto (digitValue c) 0 ds = (n, count, more))
    (hmore : AllDigits more) :
    number false (c :: ds) =
      if more = [] then .ok (integral false n, []) else longFraction false n more.length [] := by
  rw [number, if_neg hleading, if_pos hdigit, hread]
  by_cases hnil : more = []
  · rw [if_pos hnil, hnil]
    rfl
  · have hend : startsWithDigit [] = false := rfl
    have hstart : startsWithDigit (more ++ []) = true := startsWithDigit_append hmore hnil
    have htake := takeWhile_digits hmore hend
    have hskip := skipDigits_append hmore hend
    rw [List.append_nil] at hstart htake hskip
    simp only [hstart, if_true, htake, hskip, if_neg hnil]

theorem longFraction_nil (n more : Nat) (x : Binary64)
    (h : Binary64.ofParts? false n more = some x) :
    longFraction false n more [] = .ok (.float x, []) := by
  have hfloating : longFraction false n more [] = floating false n more [] := rfl
  rw [hfloating, floating, h]

/-- Whatever becomes of it, an integer of 128 bits is read. -/
theorem exists_number? {n : Nat} (hn : n < 2 ^ 128) :
    ∃ x, number? false (Text.Numeral.decimal n) = some x := by
  have hvalue : Nat.ofDigitChars 10 (Text.Numeral.decimal n) 0 = n := Nat.ofDigitChars_ten_toDigits
  have hwhole := whole_decimal n
  generalize Text.Numeral.decimal n = digits at hwhole hvalue
  cases hwhole with
  | zero => exact ⟨_, rfl⟩
  | @digits c ds hdigit hleading hds =>
    obtain ⟨n', count, more, hread, hmore, hn', hle, hstop⟩ :=
      digitsOnto_cases hds (digitValue_le_maxWord hdigit) 0
    rw [ofDigitChars_cons, Nat.mul_zero, Nat.zero_add] at hvalue
    rw [hvalue] at hle
    rw [number?, number_digits hleading hdigit hread hmore]
    split
    case isTrue => exact ⟨integral false n', rfl⟩
    case isFalse hnil =>
      -- one digit more passes 64 bits, so twenty more pass 128
      have hcount : more.length ≤ 20 := by
        have hlarge := hstop hnil
        have hmax : maxWord = 0xFFFFFFFFFFFFFFFF := rfl
        refine Nat.le_of_not_lt fun hmany => ?_
        have hpow : 10 ^ 21 ≤ 10 ^ more.length := Nat.pow_le_pow_right (by omega) hmany
        have hproduct := Nat.mul_le_mul_left n' hpow
        omega
      obtain ⟨x, hx⟩ := Binary64.exists_ofParts? hn' hcount
      rw [longFraction_nil _ _ x hx]
      exact ⟨.float x, rfl⟩

end Json
end ShellPrompt
