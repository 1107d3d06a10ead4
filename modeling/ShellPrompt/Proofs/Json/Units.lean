import ShellPrompt.Json.Reading

/-!
# ShellPrompt.Proofs.Json.Units

Text as 16-bit code units, which is what the escapes of a JSON string spell. Characters above
U+FFFF take two, a high and a low surrogate. `text?_eq_some_iff` says that `text?` reads the units
of a text back and accepts nothing else: a surrogate that stands alone belongs to no text.
-/

namespace ShellPrompt
namespace Json

abbrev Units := List UInt16

def unitsOf (c : Char) : Units :=
  if c.toNat < 0x10000 then [UInt16.ofNat c.toNat]
  else
    [UInt16.ofNat (0xD800 + (c.toNat - 0x10000) / 0x400),
      UInt16.ofNat (0xDC00 + (c.toNat - 0x10000) % 0x400)]

def charUnits (chars : List Char) : Units := chars.flatMap unitsOf

def units (text : String) : Units := charUnits text.toList

def chars? : Units → Option (List Char)
  | [] => some []
  | u :: rest =>
    if isLow u.toNat then none
    else if isHigh u.toNat then
      match rest with
      | [] => none
      | v :: rest =>
        if isLow v.toNat then (chars? rest).map (ofPair u.toNat v.toNat :: ·) else none
    else (chars? rest).map (Char.ofNat u.toNat :: ·)

def text? (us : Units) : Option String := (chars? us).map String.ofList

/-! ## Characters and surrogates -/

theorem toNat_lt (c : Char) : c.toNat < 0x110000 := by
  have h := c.valid
  simp only [UInt32.isValidChar, Nat.isValidChar] at h
  have heq : c.toNat = c.val.toNat := rfl
  omega

theorem not_surrogate (c : Char) : isHigh c.toNat = false ∧ isLow c.toNat = false := by
  have h := c.valid
  simp only [UInt32.isValidChar, Nat.isValidChar] at h
  have heq : c.toNat = c.val.toNat := rfl
  simp [isHigh, isLow]
  omega

theorem toNat_ofNat_unit {n : Nat} (h : n < 0x10000) : (UInt16.ofNat n).toNat = n := by
  simp only [UInt16.toNat_ofNat']
  omega

theorem isHigh_iff {u : Nat} : isHigh u = true ↔ 0xD800 ≤ u ∧ u < 0xDC00 := by
  simp [isHigh]

theorem isLow_iff {u : Nat} : isLow u = true ↔ 0xDC00 ≤ u ∧ u < 0xE000 := by
  simp [isLow]

theorem not_isLow_of_isHigh {u : Nat} (h : isHigh u = true) : isLow u = false := by
  have := isHigh_iff.1 h
  simp [isLow]
  omega

theorem unitsOf_small {c : Char} (h : c.toNat < 0x10000) :
    unitsOf c = [UInt16.ofNat c.toNat] := by
  rw [unitsOf, if_pos h]

/-- A character above U+FFFF is a pair of surrogates. -/
theorem unitsOf_large {c : Char} (h : ¬ c.toNat < 0x10000) :
    ∃ u v, unitsOf c = [u, v] ∧ isHigh u.toNat = true ∧ isLow v.toNat = true ∧
      ofPair u.toNat v.toNat = c := by
  have hlt := toNat_lt c
  have hu := toNat_ofNat_unit (n := 0xD800 + (c.toNat - 0x10000) / 0x400) (by omega)
  have hv := toNat_ofNat_unit (n := 0xDC00 + (c.toNat - 0x10000) % 0x400) (by omega)
  refine ⟨_, _, by rw [unitsOf, if_neg h], ?_, ?_, ?_⟩
  · rw [hu, isHigh_iff]
    omega
  · rw [hv, isLow_iff]
    omega
  · rw [hu, hv, ofPair]
    have hsum : (0xD800 + (c.toNat - 0x10000) / 0x400 - 0xD800) * 0x400 +
        (0xDC00 + (c.toNat - 0x10000) % 0x400 - 0xDC00) + 0x10000 = c.toNat := by
      omega
    rw [hsum, Char.ofNat_toNat]

theorem toNat_ofNat {n : Nat} (h : n.isValidChar) : (Char.ofNat n).toNat = n := by
  rw [Char.ofNat, dif_pos h]
  rfl

theorem unitsOf_ofNat {u : UInt16} (hhigh : isHigh u.toNat = false)
    (hlow : isLow u.toNat = false) : unitsOf (Char.ofNat u.toNat) = [u] := by
  have hlt := u.toNat_lt
  have hvalid : u.toNat.isValidChar := by
    simp [isHigh, isLow] at hhigh hlow
    unfold Nat.isValidChar
    omega
  rw [unitsOf_small (by rw [toNat_ofNat hvalid]; omega), toNat_ofNat hvalid]
  simp

theorem unitsOf_ofPair {u v : UInt16} (hu : isHigh u.toNat = true) (hv : isLow v.toNat = true) :
    unitsOf (ofPair u.toNat v.toNat) = [u, v] := by
  obtain ⟨hu₁, hu₂⟩ := isHigh_iff.1 hu
  obtain ⟨hv₁, hv₂⟩ := isLow_iff.1 hv
  have hvalid : ((u.toNat - 0xD800) * 0x400 + (v.toNat - 0xDC00) + 0x10000).isValidChar := by
    unfold Nat.isValidChar
    omega
  have hhigh : 0xD800 + ((u.toNat - 0xD800) * 0x400 + (v.toNat - 0xDC00)) / 0x400 = u.toNat := by
    omega
  have hlow : 0xDC00 + ((u.toNat - 0xD800) * 0x400 + (v.toNat - 0xDC00)) % 0x400 = v.toNat := by
    omega
  rw [ofPair, unitsOf, toNat_ofNat hvalid, if_neg (by omega), Nat.add_sub_cancel, hhigh, hlow]
  simp

/-! ## Texts -/

@[simp] theorem charUnits_nil : charUnits [] = [] := rfl

@[simp] theorem charUnits_cons (c : Char) (rest : List Char) :
    charUnits (c :: rest) = unitsOf c ++ charUnits rest := rfl

theorem chars?_plain {u : UInt16} (hhigh : isHigh u.toNat = false)
    (hlow : isLow u.toNat = false) (us : Units) :
    chars? (u :: us) = (chars? us).map (Char.ofNat u.toNat :: ·) := by
  rw [chars?.eq_def]
  simp [hhigh, hlow]

theorem chars?_pair {u v : UInt16} (hu : isHigh u.toNat = true) (hv : isLow v.toNat = true)
    (us : Units) : chars? (u :: v :: us) = (chars? us).map (ofPair u.toNat v.toNat :: ·) := by
  rw [chars?.eq_def]
  simp [hu, hv, not_isLow_of_isHigh hu]

theorem chars?_char (c : Char) (us : Units) :
    chars? (unitsOf c ++ us) = (chars? us).map (c :: ·) := by
  by_cases h : c.toNat < 0x10000
  · have hunit := toNat_ofNat_unit h
    obtain ⟨hhigh, hlow⟩ := not_surrogate c
    rw [← hunit] at hhigh hlow
    rw [unitsOf_small h, List.singleton_append, chars?_plain hhigh hlow, hunit, Char.ofNat_toNat]
  · obtain ⟨u, v, hunits, hu, hv, hpair⟩ := unitsOf_large h
    rw [hunits, List.cons_append, List.singleton_append, chars?_pair hu hv, hpair]

@[simp] theorem chars?_charUnits (chars : List Char) : chars? (charUnits chars) = some chars := by
  induction chars with
  | nil => rfl
  | cons c rest ih => rw [charUnits_cons, chars?_char, ih, Option.map_some]

@[simp] theorem text?_units (text : String) : text? (units text) = some text := by
  simp [text?, units]

theorem eq_charUnits {us : Units} {chars : List Char} (h : chars? us = some chars) :
    us = charUnits chars := by
  fun_induction chars? us generalizing chars with
  | case1 =>
    cases h
    rfl
  | case2 u rest hlow => cases h
  | case3 u hlow hhigh => cases h
  | case4 u hlow hhigh v rest hv ih =>
    obtain ⟨found, hfound, rfl⟩ := Option.map_eq_some_iff.1 h
    rw [charUnits_cons, unitsOf_ofPair hhigh hv, ← ih hfound]
    rfl
  | case5 u hlow hhigh v rest hv => cases h
  | case6 u rest hlow hhigh ih =>
    obtain ⟨found, hfound, rfl⟩ := Option.map_eq_some_iff.1 h
    rw [charUnits_cons, unitsOf_ofNat (by simpa using hhigh) (by simpa using hlow), ← ih hfound]
    rfl

/-- A text has one row of code units. -/
theorem text?_eq_some_iff {us : Units} {text : String} :
    text? us = some text ↔ us = units text := by
  constructor
  · intro h
    obtain ⟨chars, hchars, rfl⟩ := Option.map_eq_some_iff.1 h
    rw [units, String.toList_ofList]
    exact eq_charUnits hchars
  · rintro rfl
    exact text?_units text

end Json
end ShellPrompt
