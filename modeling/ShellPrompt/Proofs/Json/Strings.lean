import ShellPrompt.Json.Skipping
import ShellPrompt.Proofs.Json.Document

/-!
# ShellPrompt.Proofs.Json.Strings

Reading and skipping the string of a document.

What a reader makes of a text is compared with what the document says through `Except.toOption`:
which problem a refused text has is left aside. `toOption_stringBody` says that a string is read
to its closing quote and taken exactly if its code units are a text. `skipString_spells` says that
skipping asks nothing of them.
-/

namespace ShellPrompt
namespace Json

section Outcomes

variable {ε α β : Type}

@[simp] theorem toOption_ok (a : α) : (Except.ok a : Except ε α).toOption = some a := rfl

@[simp] theorem toOption_error (e : ε) : (Except.error e : Except ε α).toOption = none := rfl

@[simp] theorem toOption_pure (a : α) : (pure a : Except ε α).toOption = some a := rfl

@[simp] theorem toOption_map (f : α → β) (x : Except ε α) :
    (x.map f).toOption = x.toOption.map f := by
  cases x <;> rfl

@[simp] theorem toOption_bind (x : Except ε α) (f : α → Except ε β) :
    (x >>= f).toOption = x.toOption.bind fun a => (f a).toOption := by
  cases x <;> rfl

theorem toOption_eq_some_iff {x : Except ε α} {a : α} : x.toOption = some a ↔ x = .ok a := by
  cases x <;> simp [Except.toOption]

@[simp] theorem toOption_here (p : Problem) (text : List Char) :
    (here p text : Except ReadError α).toOption = none := rfl

@[simp] theorem toOption_behind (p : Problem) (text : List Char) :
    (behind p text : Except ReadError α).toOption = none := rfl

@[simp] theorem toOption_atPeek (p : Problem) (text : List Char) :
    (atPeek p text : Except ReadError α).toOption = none := rfl

@[simp] theorem toOption_consTo (c : Char) (r : Except ReadError (List Char × List Char)) :
    (consTo c r).toOption = r.toOption.map fun p => (c :: p.1, p.2) := by
  rw [consTo, toOption_map]

end Outcomes

/-! ## Reading -/

section Body

attribute [local simp] stringBody

theorem stringBody_quote (rest : List Char) : stringBody ('"' :: rest) = .ok ([], rest) := rfl

theorem stringBody_plain {c : Char} (graphic : 0x20 ≤ c.toNat) (quote : c ≠ '"')
    (backslash : c ≠ '\\') (rest : List Char) :
    stringBody (c :: rest) = consTo c (stringBody rest) := by
  rw [stringBody]
  · rw [if_neg (by omega)]
  all_goals simp_all

theorem not_escaped_u : escaped? 'u' = none := by decide

theorem stringBody_short {e c : Char} (escape : escaped? e = some c) (rest : List Char) :
    stringBody ('\\' :: e :: rest) = consTo c (stringBody rest) := by
  have hu : e ≠ 'u' := by
    rintro rfl
    cases not_escaped_u.symm.trans escape
  rw [stringBody]
  · rw [escape]
  · simpa using hu

theorem stringBody_unit {a b c d : Char} {u : UInt16} (digits : unit? a b c d = some u.toNat)
    (hhigh : isHigh u.toNat = false) (hlow : isLow u.toNat = false) (rest : List Char) :
    stringBody ('\\' :: 'u' :: a :: b :: c :: d :: rest) =
      consTo (Char.ofNat u.toNat) (stringBody rest) := by
  simp [digits, hhigh, hlow]

theorem stringBody_pair {a b c d e f g h : Char} {u v : UInt16}
    (high : unit? a b c d = some u.toNat) (low : unit? e f g h = some v.toNat)
    (hu : isHigh u.toNat = true) (hv : isLow v.toNat = true) (rest : List Char) :
    stringBody ('\\' :: 'u' :: a :: b :: c :: d :: '\\' :: 'u' :: e :: f :: g :: h :: rest) =
      consTo (ofPair u.toNat v.toNat) (stringBody rest) := by
  simp [high, low, hu, hv, not_isLow_of_isHigh hu]

theorem stringBody_low {a b c d : Char} {u : UInt16} (digits : unit? a b c d = some u.toNat)
    (hlow : isLow u.toNat = true) (rest : List Char) :
    (stringBody ('\\' :: 'u' :: a :: b :: c :: d :: rest)).toOption = none := by
  simp [digits, hlow]

end Body

/-- The first code unit of what is spelled next is no low surrogate. -/
def Unpaired (us : Units) : Prop := ∀ v ∈ us.head?, isLow v.toNat = false

theorem chars?_unpaired {u : UInt16} (hu : isHigh u.toNat = true) {us : Units}
    (h : Unpaired us) : chars? (u :: us) = none := by
  cases us with
  | nil => simp [chars?, hu]
  | cons v rest =>
    rw [chars?.eq_def]
    simp [hu, h v rfl]

theorem unpaired_char (c : Char) (us : Units) : Unpaired (unitsOf c ++ us) := by
  intro v hv
  by_cases h : c.toNat < 0x10000
  · rw [unitsOf_small h] at hv
    obtain rfl : UInt16.ofNat c.toNat = v := by simpa using hv
    rw [toNat_ofNat_unit h]
    exact (not_surrogate c).2
  · obtain ⟨u, w, hunits, hu, -⟩ := unitsOf_large h
    rw [hunits] at hv
    obtain rfl : u = v := by simpa using hv
    exact not_isLow_of_isHigh hu

/-- A high surrogate that nothing follows is refused, as its units are no text. -/
theorem toOption_stringBody_high {a b c d : Char} {u : UInt16}
    (digits : unit? a b c d = some u.toNat) (hu : isHigh u.toNat = true) {us : Units}
    {raw : List Char} (h : SpellsUnits us raw) (hnext : Unpaired us) (rest : List Char) :
    (stringBody ('\\' :: 'u' :: a :: b :: c :: d :: (raw ++ '"' :: rest))).toOption = none := by
  have hnot := not_isLow_of_isHigh hu
  rw [stringBody.eq_def]
  simp only [digits, hnot, hu, Bool.false_eq_true, if_false, if_true]
  cases h with
  | nil => rfl
  | plain graphic quote backslash _ =>
    simp only [List.cons_append]
    split <;> simp_all
  | short escape _ =>
    simp only [List.cons_append]
    split
    all_goals first | rfl | simp_all [not_escaped_u]
  | hex low _ =>
    have hlow := hnext _ rfl
    simp [low, hlow]

theorem toOption_stringBody {us : Units} {raw : List Char} (h : SpellsUnits us raw)
    (rest : List Char) :
    (stringBody (raw ++ '"' :: rest)).toOption = (chars? us).map (·, rest) := by
  -- a pair takes two escapes at once, so the induction is on the length of what is left
  induction hn : raw.length using Nat.strongRecOn generalizing us raw with
  | ind n ih =>
    subst hn
    cases h with
    | nil => simp [stringBody_quote, chars?]
    | plain graphic quote backslash h =>
      rw [List.cons_append, stringBody_plain graphic quote backslash, toOption_consTo,
        ih _ (by simp) h rfl, chars?_char]
      simp [Function.comp_def]
    | short escape h =>
      rw [List.cons_append, List.cons_append, stringBody_short escape, toOption_consTo,
        ih _ (by simp only [List.length_cons]; omega) h rfl, chars?_char]
      simp [Function.comp_def]
    | @hex a b c d u us raw digits h =>
      simp only [List.cons_append]
      cases hlow : isLow u.toNat with
      | true =>
        rw [stringBody_low digits hlow, chars?.eq_def]
        simp [hlow]
      | false =>
        cases hhigh : isHigh u.toNat with
        | false =>
          have hshorter : raw.length < ('\\' :: 'u' :: a :: b :: c :: d :: raw).length := by
            simp only [List.length_cons]
            omega
          rw [stringBody_unit digits hhigh hlow, toOption_consTo, ih _ hshorter h rfl,
            chars?_plain hhigh hlow]
          simp [Function.comp_def]
        | true =>
          by_cases hnext : Unpaired us
          · rw [toOption_stringBody_high digits hhigh h hnext, chars?_unpaired hhigh hnext]
            rfl
          · cases h with
            | nil => exact absurd (by simp [Unpaired]) hnext
            | plain _ _ _ _ => exact absurd (unpaired_char _ _) hnext
            | short _ _ => exact absurd (unpaired_char _ _) hnext
            | @hex e f g i v us raw low h =>
              have hv : isLow v.toNat = true := by simpa [Unpaired] using hnext
              have hshorter : raw.length < ('\\' :: 'u' :: a :: b :: c :: d :: '\\' :: 'u' ::
                  e :: f :: g :: i :: raw).length := by
                simp only [List.length_cons]
                omega
              simp only [List.cons_append]
              rw [stringBody_pair digits low hhigh hv, toOption_consTo, ih _ hshorter h rfl,
                chars?_pair hhigh hv]
              simp [Function.comp_def]

theorem toOption_string {us : Units} {raw : List Char} (h : SpellsUnits us raw)
    (rest : List Char) : (string (raw ++ '"' :: rest)).toOption = (text? us).map (·, rest) := by
  rw [string, toOption_map, toOption_stringBody h, text?]
  simp [Function.comp_def]

/-! ## Skipping -/

theorem skipString_spells {us : Units} {raw : List Char} (h : SpellsUnits us raw)
    (rest : List Char) : skipString (raw ++ '"' :: rest) = .ok rest := by
  induction h with
  | nil => rfl
  | plain graphic quote backslash _ ih =>
    rw [List.cons_append, skipString]
    · rw [if_neg (by omega), ih]
    all_goals simp_all
  | @short e c _ _ escape _ ih =>
    have hu : e ≠ 'u' := by
      rintro rfl
      cases not_escaped_u.symm.trans escape
    rw [List.cons_append, List.cons_append, skipString]
    · simp only [escape, ih]
    · simpa using hu
  | hex digits _ ih =>
    simp only [List.cons_append]
    rw [skipString]
    simp [digits, ih]

end Json
end ShellPrompt
