import ShellPrompt.Proofs.Json.Strings

/-!
# ShellPrompt.Proofs.Json.Numbers

Reading and skipping the number of a document.

A number is read to its end, and what it is depends on its own characters alone: `Settled` states
that of a reader, `toOption_number` proves it for numbers, digit run by digit run. An integer of 64
bits is read as itself (`number?_int`), and no other is ever found (`yields_number`).
-/

namespace ShellPrompt
namespace Json

/-- The reader takes this text off the front of whatever it stands before, and what it makes of it
does not depend on the rest. -/
def Settled {α : Type} (r : Reader α) (t : List Char) : Prop :=
  ∃ x : Option α, ∀ rest, Fenced rest → (r (t ++ rest)).toOption = x.map (·, rest)

theorem Settled.toOption_eq {α : Type} {r : Reader α} {t : List Char} (h : Settled r t)
    {rest : List Char} (hrest : Fenced rest) :
    (r (t ++ rest)).toOption = ((r t).toOption.map Prod.fst).map (·, rest) := by
  obtain ⟨x, hx⟩ := h
  have hnil := hx [] .nil
  rw [List.append_nil] at hnil
  rw [hx rest hrest, hnil]
  simp [Function.comp_def]

/-! ## Runs of digits -/

section Runs

variable {ds rest : List Char}

theorem skipDigits_append (h : AllDigits ds) (hrest : startsWithDigit rest = false) :
    skipDigits (ds ++ rest) = rest := by
  rw [skipDigits, List.dropWhile_append_of_pos h]
  cases rest with
  | nil => rfl
  | cons c rest => exact List.dropWhile_cons_of_neg (by simpa [startsWithDigit] using hrest)

theorem startsWithDigit_append (h : AllDigits ds) (hne : ds ≠ []) :
    startsWithDigit (ds ++ rest) = true := by
  cases ds with
  | nil => exact absurd rfl hne
  | cons c ds => exact h c (by simp)

/-- What the digits of a run add up to within 64 bits, how many of them that are, and the others. -/
theorem digitsOnto_append (h : AllDigits ds) (n count : Nat) :
    ∃ n' count' more, AllDigits more ∧ (more = [] → count' = count + ds.length) ∧
      ∀ rest, startsWithDigit rest = false →
        digitsOnto n count (ds ++ rest) = (n', count', more ++ rest) := by
  induction ds generalizing n count with
  | nil =>
    refine ⟨n, count, [], h, fun _ => rfl, ?_⟩
    intro rest hrest
    cases rest with
    | nil => rfl
    | cons c rest =>
      have hc : c.isDigit = false := hrest
      simp [digitsOnto, hc]
  | cons c ds ih =>
    obtain ⟨hc, hds⟩ := List.forall_mem_cons.1 h
    by_cases hfits : 10 * n + digitValue c ≤ maxWord
    · obtain ⟨n', count', more, hmore, hcount, heq⟩ :=
        ih hds (10 * n + digitValue c) (count + 1)
      refine ⟨n', count', more, hmore, ?_, ?_⟩
      · intro hnil
        rw [hcount hnil, List.length_cons]
        omega
      · intro rest hrest
        rw [List.cons_append, digitsOnto, if_pos (by simp [hc, hfits]), heq rest hrest]
    · refine ⟨n, count, c :: ds, h, fun hnil => absurd hnil (List.cons_ne_nil _ _), ?_⟩
      intro rest _
      rw [List.cons_append, digitsOnto, if_neg (by simp [hfits])]

/-- An exponent that stays within 31 bits is read to its end. -/
theorem exponentDigits_append (h : AllDigits ds) (n : Nat) :
    ∃ e more, AllDigits more ∧ (e ≠ none → more = []) ∧
      ∀ rest, startsWithDigit rest = false →
        exponentDigits n (ds ++ rest) = (e, more ++ rest) := by
  induction ds generalizing n with
  | nil =>
    refine ⟨some n, [], h, fun _ => rfl, ?_⟩
    intro rest hrest
    cases rest with
    | nil => rfl
    | cons c rest =>
      have hc : c.isDigit = false := hrest
      simp [exponentDigits, hc]
  | cons c ds ih =>
    obtain ⟨hc, hds⟩ := List.forall_mem_cons.1 h
    by_cases hfits : 10 * n + digitValue c ≤ 0x7FFFFFFF
    · obtain ⟨e, more, hmore, hend, heq⟩ := ih hds (10 * n + digitValue c)
      refine ⟨e, more, hmore, hend, ?_⟩
      intro rest hrest
      rw [List.cons_append, exponentDigits, if_pos hc, if_pos hfits, heq rest hrest]
    · refine ⟨none, ds, hds, fun hne => absurd rfl hne, ?_⟩
      intro rest _
      rw [List.cons_append, exponentDigits, if_pos hc, if_neg hfits]

end Runs

/-! ## Reading -/

section Reading

variable {negative : Bool} {significand : Nat} {start : Int} {power fraction : List Char}

theorem exponentSign_append {sign : List Char} (h : Sign sign) {c : Char}
    (hc : c.isDigit = true) (rest : List Char) :
    (exponentSign (sign ++ c :: rest)).2 = c :: rest ∧
      (exponentSign (sign ++ c :: rest)).1 = (exponentSign (sign ++ [c])).1 := by
  cases h with
  | plus => exact ⟨rfl, rfl⟩
  | minus => exact ⟨rfl, rfl⟩
  | none =>
    have hplus : c ≠ '+' := by rintro rfl; cases hc
    have hminus : c ≠ '-' := by rintro rfl; cases hc
    simp [exponentSign, hplus, hminus]

theorem settled_exponent {sign ds : List Char} {c : Char} (hsign : Sign sign)
    (hc : c.isDigit = true) (hds : AllDigits ds) :
    Settled (exponent negative significand start) (sign ++ c :: ds) := by
  obtain ⟨e, more, hmore, hend, heq⟩ := exponentDigits_append hds (digitValue c)
  have htext : ∀ rest, sign ++ c :: ds ++ rest = sign ++ c :: (ds ++ rest) := by simp
  cases e with
  | some e =>
    obtain rfl := hend (by simp)
    refine ⟨(Binary64.ofParts? negative significand
      (if (exponentSign (sign ++ [c])).1 then start - e else start + e)).map .float, ?_⟩
    intro rest hrest
    obtain ⟨hafter, hdown⟩ := exponentSign_append hsign hc (ds ++ rest)
    simp only [htext, exponent, hafter, hdown, hc, if_true, heq rest hrest.startsWithDigit,
      floating, List.nil_append]
    split <;> simp_all
  | none =>
    refine ⟨if significand ≠ 0 ∧ ¬ (exponentSign (sign ++ [c])).1 then none
      else some (signedZero negative), ?_⟩
    intro rest hrest
    obtain ⟨hafter, hdown⟩ := exponentSign_append hsign hc (ds ++ rest)
    simp only [htext, exponent, hafter, hdown, hc, if_true, heq rest hrest.startsWithDigit,
      skipDigits_append hmore hrest.startsWithDigit]
    split <;> simp

theorem settled_scaled (hpower : Power power) :
    Settled (scaled negative significand start) power := by
  cases hpower with
  | none =>
    refine ⟨(Binary64.ofParts? negative significand start).map .float, ?_⟩
    intro rest hrest
    have hscaled : scaled negative significand start rest =
        floating negative significand start rest := by
      unfold scaled
      split
      · exact absurd rfl (hrest 'e' rfl).2.2.1
      · exact absurd rfl (hrest 'E' rfl).2.2.2
      · rfl
    rw [List.nil_append, hscaled, floating]
    split <;> simp_all
  | power marked hsign hc hds =>
    rcases marked with rfl | rfl
    · exact settled_exponent hsign hc hds
    · exact settled_exponent hsign hc hds

theorem Power.startsWithDigit (h : Power power) {rest : List Char} (hrest : Fenced rest) :
    startsWithDigit (power ++ rest) = false := by
  cases h with
  | none => exact hrest.startsWithDigit
  | power marked _ _ _ => rcases marked with rfl | rfl <;> rfl

theorem settled_decimals {c : Char} {ds : List Char} (hc : c.isDigit = true)
    (hds : AllDigits ds) (hpower : Power power) :
    Settled (decimals negative significand start) (c :: ds ++ power) := by
  have hall : AllDigits (c :: ds) := List.forall_mem_cons.2 ⟨hc, hds⟩
  obtain ⟨n, count, more, hmore, hcount, heq⟩ := digitsOnto_append hall significand 0
  have hsettled : Settled (scaled negative n (start - count)) power := settled_scaled hpower
  obtain ⟨x, hx⟩ := hsettled
  refine ⟨x, ?_⟩
  intro rest hrest
  have hend := hpower.startsWithDigit hrest
  rw [List.append_assoc, decimals, heq _ hend, ← hx rest hrest]
  by_cases hnil : more = []
  · have hpos : count ≠ 0 := by
      rw [hcount hnil, List.length_cons]
      omega
    simp [hnil, hend, hpos]
  · simp [startsWithDigit_append hmore hnil, skipDigits_append hmore hend]

theorem settled_fraction (hfraction : Fraction fraction) (hpower : Power power) :
    Settled (Json.fraction negative significand) (fraction ++ power) := by
  cases hfraction with
  | places hc hds => exact settled_decimals hc hds hpower
  | none =>
    cases hpower with
    | none =>
      refine ⟨some (integral negative significand), ?_⟩
      intro rest hrest
      rw [List.append_nil, List.nil_append]
      unfold Json.fraction
      split
      · exact absurd rfl (hrest '.' rfl).2.1
      · exact absurd rfl (hrest 'e' rfl).2.2.1
      · exact absurd rfl (hrest 'E' rfl).2.2.2
      · rfl
    | power marked hsign hc hds =>
      rcases marked with rfl | rfl
      · exact settled_exponent hsign hc hds
      · exact settled_exponent hsign hc hds

theorem settled_longFraction (more : Nat) (hfraction : Fraction fraction)
    (hpower : Power power) :
    Settled (longFraction negative significand more) (fraction ++ power) := by
  cases hfraction with
  | places hc hds => exact settled_decimals hc hds hpower
  | none =>
    have hsettled : Settled (scaled negative significand more) power := settled_scaled hpower
    obtain ⟨x, hx⟩ := hsettled
    refine ⟨x, ?_⟩
    intro rest hrest
    rw [List.nil_append, ← hx rest hrest]
    cases hpower with
    | none =>
      rw [List.nil_append]
      unfold longFraction
      split
      · exact absurd rfl (hrest '.' rfl).2.1
      · rfl
    | power marked _ _ _ => rcases marked with rfl | rfl <;> rfl

theorem Fraction.startsWithDigit (hfraction : Fraction fraction) (hpower : Power power)
    {rest : List Char} (hrest : Fenced rest) :
    Json.startsWithDigit (fraction ++ power ++ rest) = false := by
  cases hfraction with
  | none => exact hpower.startsWithDigit hrest
  | places _ _ => rfl

theorem takeWhile_digits {ds rest : List Char} (h : AllDigits ds)
    (hrest : startsWithDigit rest = false) : (ds ++ rest).takeWhile Char.isDigit = ds := by
  rw [List.takeWhile_append_of_pos h]
  cases rest with
  | nil => simp
  | cons c rest =>
    rw [List.takeWhile_cons_of_neg (by simpa [startsWithDigit] using hrest), List.append_nil]

theorem settled_number {digits : List Char} (h : Unsigned digits) :
    Settled (number negative) digits := by
  obtain ⟨hwhole, hfraction, hpower⟩ := h
  cases hwhole with
  | zero =>
    have hsettled : Settled (Json.fraction negative 0) _ := settled_fraction hfraction hpower
    obtain ⟨x, hx⟩ := hsettled
    refine ⟨x, ?_⟩
    intro rest hrest
    have hend := hfraction.startsWithDigit hpower hrest
    rw [← hx rest hrest, List.append_assoc, List.singleton_append, number, if_pos rfl]
    simp only [hend, Bool.false_eq_true, if_false]
  | @digits c ds hc hleading hds =>
    obtain ⟨n, count, more, hmore, -, heq⟩ := digitsOnto_append hds (digitValue c) 0
    have hread : ∀ rest, Fenced rest → ∀ fraction power, Fraction fraction → Power power →
        number negative (c :: ds ++ (fraction ++ power) ++ rest) =
          if more = [] then Json.fraction negative n (fraction ++ power ++ rest)
          else longFraction negative n more.length (fraction ++ power ++ rest) := by
      intro rest hrest fraction power hfraction hpower
      have hend := hfraction.startsWithDigit hpower hrest
      rw [List.append_assoc, List.cons_append, number, if_neg hleading, if_pos hc]
      simp only [heq _ hend]
      by_cases hnil : more = []
      · simp only [hnil, List.nil_append, hend, Bool.false_eq_true, if_false, if_true]
      · rw [if_neg hnil, if_pos (startsWithDigit_append hmore hnil), takeWhile_digits hmore hend,
          skipDigits_append hmore hend]
    by_cases hnil : more = []
    · have hsettled : Settled (Json.fraction negative n) _ := settled_fraction hfraction hpower
      obtain ⟨x, hx⟩ := hsettled
      refine ⟨x, fun rest hrest => ?_⟩
      rw [hread rest hrest _ _ hfraction hpower, if_pos hnil, hx rest hrest]
    · have hsettled : Settled (longFraction negative n more.length) _ :=
        settled_longFraction more.length hfraction hpower
      obtain ⟨x, hx⟩ := hsettled
      refine ⟨x, fun rest hrest => ?_⟩
      rw [hread rest hrest _ _ hfraction hpower, if_neg hnil, hx rest hrest]

/-- The number that digits stand for, if it is not too large. -/
def number? (negative : Bool) (digits : List Char) : Option Number :=
  (number negative digits).toOption.map Prod.fst

theorem toOption_number {digits : List Char} (h : Unsigned digits) {rest : List Char}
    (hrest : Fenced rest) :
    (number negative (digits ++ rest)).toOption = (number? negative digits).map (·, rest) :=
  (settled_number h).toOption_eq hrest

end Reading

/-! ## Skipping -/

section Skipping

variable {fraction power rest : List Char}

theorem skipScale_power (hpower : Power power) (hrest : Fenced rest) :
    skipScale (power ++ rest) = .ok rest := by
  cases hpower with
  | none =>
    rw [List.nil_append]
    unfold skipScale
    split
    · exact absurd rfl (hrest 'e' rfl).2.2.1
    · exact absurd rfl (hrest 'E' rfl).2.2.2
    · rfl
  | @power mark c sign ds marked hsign hc hds =>
    have hexponent : skipExponent (sign ++ c :: ds ++ rest) = .ok rest := by
      rw [List.append_assoc, List.cons_append, skipExponent,
        (exponentSign_append hsign hc (ds ++ rest)).1]
      simp [hc, skipDigits_append hds hrest.startsWithDigit]
    rcases marked with rfl | rfl <;> exact hexponent

theorem skipFraction_spells (hfraction : Fraction fraction) (hpower : Power power)
    (hrest : Fenced rest) : skipFraction (fraction ++ power ++ rest) = .ok rest := by
  have hscale := skipScale_power hpower hrest
  cases hfraction with
  | none =>
    rw [List.nil_append]
    unfold skipFraction
    split
    case h_1 tail htail =>
      cases hpower with
      | none =>
        obtain rfl : rest = '.' :: tail := htail
        exact absurd rfl (hrest '.' rfl).2.1
      | power marked _ _ _ => rcases marked with rfl | rfl <;> cases htail
    case h_2 => exact hscale
  | @places c ds hc hds =>
    have hall : AllDigits (c :: ds) := List.forall_mem_cons.2 ⟨hc, hds⟩
    have hskip := skipDigits_append hall (hpower.startsWithDigit hrest)
    have htext : '.' :: c :: ds ++ power ++ rest = '.' :: (c :: ds ++ (power ++ rest)) := by simp
    rw [htext, skipFraction, hskip, if_pos (startsWithDigit_append hall (by simp)), hscale]

theorem skipNumber_spells {digits : List Char} (h : Unsigned digits) (hrest : Fenced rest) :
    skipNumber (digits ++ rest) = .ok rest := by
  obtain ⟨hwhole, hfraction, hpower⟩ := h
  have hend := hfraction.startsWithDigit hpower hrest
  have hskip := skipFraction_spells hfraction hpower hrest
  cases hwhole with
  | zero =>
    rw [List.append_assoc, List.singleton_append, skipNumber, if_pos rfl, hend]
    exact hskip
  | digits hc hleading hds =>
    rw [List.append_assoc, List.cons_append, skipNumber, if_neg hleading, if_pos hc,
      skipDigits_append hds hend]
    exact hskip

end Skipping

/-! ## Integers -/

theorem whole_decimal (n : Nat) : Whole (Text.Numeral.decimal n) := by
  induction n using Nat.strongRecOn with
  | ind n ih =>
    unfold Text.Numeral.decimal at ih ⊢
    by_cases hsmall : n < 10
    · rw [Nat.toDigits_of_lt_base hsmall]
      have hall : ∀ n < 10, n = 0 ∨ (n.digitChar.isDigit = true ∧ n.digitChar ≠ '0') := by decide
      rcases hall n hsmall with rfl | ⟨hdigit, hleading⟩
      · exact .zero
      · exact .digits hdigit hleading (by simp [AllDigits])
    · rw [Nat.toDigits_of_base_le (by decide) (by omega)]
      have hlast : AllDigits [(n % 10).digitChar] := by
        have hall : ∀ d < 10, d.digitChar.isDigit = true := by decide
        simpa [AllDigits] using hall (n % 10) (by omega)
      have hpos : n / 10 ≠ 0 := by omega
      have hfront := ih (n / 10) (by omega)
      generalize hdigits : Nat.toDigits 10 (n / 10) = front at hfront
      cases hfront with
      | zero =>
        have := congrArg (Nat.ofDigitChars 10 · 0) hdigits
        simp only [Nat.ofDigitChars_ten_toDigits] at this
        exact absurd this hpos
      | digits hdigit hleading hds =>
        exact .digits hdigit hleading (List.forall_mem_append.2 ⟨hds, hlast⟩)

theorem unsigned_decimal (n : Nat) : Unsigned (Text.Numeral.decimal n) := by
  have := Unsigned.parts (whole_decimal n) .none .none
  rwa [List.append_nil, List.append_nil] at this

theorem digitValue_lt {c : Char} (h : c.isDigit = true) : digitValue c < 10 := by
  have hhigh : c.toNat ≤ 0x39 := (Char.isDigit_iff_toNat.1 h).2
  have hzero : '0'.toNat = 0x30 := rfl
  unfold digitValue
  omega

/-- One digit fits into a word. -/
theorem digitValue_le_maxWord {c : Char} (h : c.isDigit = true) : digitValue c ≤ maxWord := by
  have hdigit := digitValue_lt h
  have hmax : maxWord = 0xFFFFFFFFFFFFFFFF := rfl
  omega

theorem ofDigitChars_cons (c : Char) (ds : List Char) (n : Nat) :
    Nat.ofDigitChars 10 (c :: ds) n = Nat.ofDigitChars 10 ds (10 * n + digitValue c) := by
  simp [Nat.ofDigitChars, digitValue]

theorem le_ofDigitChars (ds : List Char) (n : Nat) : n ≤ Nat.ofDigitChars 10 ds n := by
  induction ds generalizing n with
  | nil => exact Nat.le_refl n
  | cons c ds ih =>
    rw [ofDigitChars_cons]
    have := ih (10 * n + digitValue c)
    omega

theorem digitsOnto_fitting {ds : List Char} (h : AllDigits ds) {n : Nat} (count : Nat)
    (hfits : Nat.ofDigitChars 10 ds n ≤ maxWord) :
    digitsOnto n count ds = (Nat.ofDigitChars 10 ds n, count + ds.length, []) := by
  induction ds generalizing n count with
  | nil => rfl
  | cons c ds ih =>
    obtain ⟨hc, hds⟩ := List.forall_mem_cons.1 h
    rw [ofDigitChars_cons] at hfits ⊢
    have hle := le_ofDigitChars ds (10 * n + digitValue c)
    have hstep : 10 * n + digitValue c ≤ maxWord := Nat.le_trans hle hfits
    rw [digitsOnto, if_pos (by simp [hc, hstep]), ih hds _ hfits, List.length_cons,
      Nat.add_assoc, Nat.add_comm 1]

theorem number_decimal {n : Nat} (hn : n ≤ maxWord) (negative : Bool) :
    number negative (Text.Numeral.decimal n) = .ok (integral negative n, []) := by
  have hvalue : Nat.ofDigitChars 10 (Text.Numeral.decimal n) 0 = n := Nat.ofDigitChars_ten_toDigits
  cases h : Text.Numeral.decimal n with
  | nil => exact absurd h Nat.toDigits_ne_nil
  | cons c ds =>
    have hwhole := whole_decimal n
    rw [h] at hwhole hvalue
    cases hwhole with
    | zero =>
      obtain rfl : 0 = n := hvalue
      rfl
    | digits hdigit hleading hds =>
      rw [ofDigitChars_cons, Nat.mul_zero, Nat.zero_add] at hvalue
      rw [number, if_neg hleading, if_pos hdigit, digitsOnto_fitting hds 0 (by omega), hvalue]
      rfl

/-- The integers that are read as such. -/
def InWord (z : Int) : Prop := -0x8000000000000000 ≤ z ∧ z ≤ maxWord

theorem number?_int {z : Int} (h : InWord z) :
    number? (decide (z < 0)) (Text.Numeral.decimal z.natAbs) = some (.int z) := by
  obtain ⟨hlow, hhigh⟩ := h
  have hmax : maxWord = 0xFFFFFFFFFFFFFFFF := rfl
  rw [number?, number_decimal (by omega), integral]
  by_cases hneg : z < 0
  · have habs : -(z.natAbs : Int) = z := by omega
    rw [if_pos (decide_eq_true hneg), if_neg (by omega), if_pos (by omega), habs]
    rfl
  · have habs : (z.natAbs : Int) = z := by omega
    rw [if_neg (by simpa using hneg), habs]
    rfl

/-! ### What is read as an integer -/

/-- Whatever the reader returns satisfies `P`. -/
def Yields {α : Type} (r : Reader α) (P : α → Prop) : Prop :=
  ∀ text a rest, r text = .ok (a, rest) → P a

def IsFloat (n : Number) : Prop := ∃ x, n = .float x

theorem yields_floating (negative : Bool) (significand : Nat) (e : Int) :
    Yields (floating negative significand e) IsFloat := by
  intro text n rest h
  unfold floating at h
  split at h
  · cases h
    exact ⟨_, rfl⟩
  · cases h

theorem yields_exponent (negative : Bool) (significand : Nat) (start : Int) :
    Yields (exponent negative significand start) IsFloat := by
  intro text n rest h
  unfold exponent at h
  simp only at h
  split at h
  · cases h
  split at h
  · split at h
    · exact yields_floating _ _ _ _ _ _ h
    · split at h
      · cases h
      · cases h
        exact ⟨_, rfl⟩
  · cases h

theorem yields_scaled (negative : Bool) (significand : Nat) (start : Int) :
    Yields (scaled negative significand start) IsFloat := by
  intro text n rest h
  unfold scaled at h
  split at h
  · exact yields_exponent _ _ _ _ _ _ h
  · exact yields_exponent _ _ _ _ _ _ h
  · exact yields_floating _ _ _ _ _ _ h

theorem yields_decimals (negative : Bool) (significand : Nat) (start : Int) :
    Yields (decimals negative significand start) IsFloat := by
  intro text n rest h
  unfold decimals at h
  simp only at h
  split at h
  · exact yields_scaled _ _ _ _ _ _ h
  split at h
  · split at h <;> cases h
  · exact yields_scaled _ _ _ _ _ _ h

theorem yields_longFraction (negative : Bool) (significand more : Nat) :
    Yields (longFraction negative significand more) IsFloat := by
  intro text n rest h
  unfold longFraction at h
  split at h
  · exact yields_decimals _ _ _ _ _ _ h
  · exact yields_scaled _ _ _ _ _ _ h

/-- An integer among these lies within 64 bits. -/
def Fits (n : Number) : Prop := ∀ z, n = .int z → InWord z

theorem IsFloat.fits {n : Number} (h : IsFloat n) : Fits n := by
  obtain ⟨x, rfl⟩ := h
  intro z hz
  cases hz

theorem fits_integral (negative : Bool) {n : Nat} (hn : n ≤ maxWord) :
    Fits (integral negative n) := by
  have hmax : maxWord = 0xFFFFFFFFFFFFFFFF := rfl
  intro z hz
  unfold integral signedZero at hz
  split at hz
  · split at hz
    · cases hz
    split at hz
    · cases hz
      exact ⟨by omega, by omega⟩
    · cases hz
  · cases hz
    exact ⟨by omega, by omega⟩

theorem yields_fraction (negative : Bool) {n : Nat} (hn : n ≤ maxWord) :
    Yields (fraction negative n) Fits := by
  intro text x rest h
  unfold fraction at h
  split at h
  · exact (yields_decimals _ _ _ _ _ _ h).fits
  · exact (yields_exponent _ _ _ _ _ _ h).fits
  · exact (yields_exponent _ _ _ _ _ _ h).fits
  · cases h
    exact fits_integral negative hn

theorem digitsOnto_le {n : Nat} (hn : n ≤ maxWord) (count : Nat) (text : List Char) :
    (digitsOnto n count text).1 ≤ maxWord := by
  fun_induction digitsOnto n count text with
  | case1 => exact hn
  | case2 n count c rest h ih =>
    simp only [Bool.and_eq_true, decide_eq_true_eq] at h
    exact ih h.2
  | case3 => exact hn

theorem yields_number (negative : Bool) : Yields (number negative) Fits := by
  intro text x rest h
  unfold number at h
  split at h
  · cases h
  case h_2 c tail =>
    split at h
    · split at h
      · cases h
      · exact yields_fraction negative (Nat.zero_le _) _ _ _ h
    split at h
    case isTrue hdigit =>
      have hle := digitsOnto_le (digitValue_le_maxWord hdigit) 0 tail
      simp only at h
      split at h
      · exact (yields_longFraction _ _ _ _ _ _ h).fits
      · exact yields_fraction negative hle _ _ _ h
    case isFalse => cases h

end Json
end ShellPrompt
