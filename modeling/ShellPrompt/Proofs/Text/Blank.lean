import ShellPrompt.Text.Blank

/-!
# ShellPrompt.Proofs.Text.Blank

Words laid out in a text.

* `words_append_blanks`: blanks between two texts keep their words apart.
* `Spaced`: words with blanks around them and between any two of them. These are the words that are
  found again (`words_spaced`).
-/

namespace ShellPrompt
namespace Text

/-- No graphic character of ASCII is a blank. -/
theorem isBlank_graphic {c : Char} (hlow : 0x21 ≤ c.toNat) (hhigh : c.toNat ≤ 0x7E) :
    isBlank c = false := by
  simp only [isBlank, Bool.or_eq_false_iff, Bool.and_eq_false_iff, beq_eq_false_iff_ne,
    decide_eq_false_iff_not]
  omega

theorem toNat_toLower (c : Char) : c.toLower.toNat =
    if 0x41 ≤ c.toNat ∧ c.toNat ≤ 0x5A then c.toNat + 0x20 else c.toNat := by
  have hupper : c.val ≥ 'A'.val ∧ c.val ≤ 'Z'.val ↔ 0x41 ≤ c.toNat ∧ c.toNat ≤ 0x5A := Iff.rfl
  unfold Char.toLower
  split
  case isTrue h =>
    rw [hupper] at h
    have hadd : (c.val + 0x20).toNat = (c.toNat + 0x20) % 2 ^ 32 := UInt32.toNat_add ..
    rw [if_pos h]
    exact hadd.trans (Nat.mod_eq_of_lt (by omega))
  case isFalse h => rw [if_neg (mt hupper.2 h)]

theorem isBlank_toLower (c : Char) : isBlank c.toLower = isBlank c := by
  have h := toNat_toLower c
  split at h
  case isTrue hupper =>
    rw [isBlank_graphic (by omega) (by omega), isBlank_graphic (by omega) (by omega)]
  case isFalse => simp only [isBlank, h]

/-- A run of blanks, perhaps empty. -/
def Blanks (gap : List Char) : Prop := ∀ c ∈ gap, isBlank c = true

def Unbroken (text : List Char) : Prop := ∀ c ∈ text, isBlank c = false

/-- A run of other characters that is not empty. -/
def IsWord (word : List Char) : Prop := word ≠ [] ∧ Unbroken word

-- A quantifier over characters would be decided by going through them all.
instance (gap : List Char) : Decidable (Blanks gap) :=
  decidable_of_iff (gap.all isBlank = true) List.all_eq_true

instance (text : List Char) : Decidable (Unbroken text) :=
  decidable_of_iff (text.any isBlank = false) (by simp [Unbroken])

instance (word : List Char) : Decidable (IsWord word) := inferInstanceAs (Decidable (_ ∧ _))

theorem words_cons {c : Char} (h : isBlank c = true) (text : List Char) :
    words (c :: text) = words text := words_append h [] text

theorem words_blanks_append {gap : List Char} (h : Blanks gap) (text : List Char) :
    words (gap ++ text) = words text := by
  induction gap with
  | nil => rfl
  | cons c gap ih =>
    obtain ⟨hc, hgap⟩ := List.forall_mem_cons.1 h
    rw [List.cons_append, words_cons hc, ih hgap]

theorem words_blanks {gap : List Char} (h : Blanks gap) : words gap = [] := by
  rw [← List.append_nil gap, words_blanks_append h]
  rfl

theorem words_append_blanks {gap : List Char} (hne : gap ≠ []) (h : Blanks gap)
    (a b : List Char) : words (a ++ gap ++ b) = words a ++ words b := by
  obtain ⟨c, gap, rfl⟩ := List.exists_cons_of_ne_nil hne
  obtain ⟨hc, hgap⟩ := List.forall_mem_cons.1 h
  rw [List.append_assoc, List.cons_append, words_append hc, words_blanks_append hgap]

theorem pieces_append_of_unbroken {word : List Char} (h : Unbroken word)
    (text : List Char) : pieces (word ++ text) = (pieces text).modifyHead (word ++ ·) := by
  induction word with
  | nil => exact (congrFun List.modifyHead_id _).symm
  | cons c word ih =>
    obtain ⟨hc, hword⟩ := List.forall_mem_cons.1 h
    obtain ⟨p, ps, hpieces⟩ := List.exists_cons_of_ne_nil (pieces_ne_nil text)
    rw [List.cons_append, pieces, hc, ih hword, hpieces]
    rfl

/-- What stands behind a word has to keep it apart. -/
def Apart (text : List Char) : Prop := text.head?.all isBlank = true

instance (text : List Char) : Decidable (Apart text) := inferInstanceAs (Decidable (_ = true))

theorem words_word_append {word text : List Char} (h : IsWord word) (happart : Apart text) :
    words (word ++ text) = word :: words text := by
  obtain ⟨c, rest, hword⟩ := List.exists_cons_of_ne_nil h.1
  rw [words, words, pieces_append_of_unbroken h.2]
  cases text with
  | nil => simp [pieces, hword]
  | cons b text =>
    have hb : isBlank b = true := happart
    simp [pieces, hb, hword]

theorem words_word {word : List Char} (h : IsWord word) : words word = [word] := by
  rw [← List.append_nil word, words_word_append h (by simp [Apart]), List.append_nil]
  rfl

/-- Words in their order, with blanks around them and between any two of them. -/
inductive Spaced : List (List Char) → List Char → Prop
  | blanks {gap : List Char} (h : Blanks gap) : Spaced [] gap
  | word {gap word text : List Char} {ws : List (List Char)} (hgap : Blanks gap)
      (htext : Spaced ws text) (happart : Apart text) : Spaced (word :: ws) (gap ++ word ++ text)

theorem words_spaced {ws : List (List Char)} {text : List Char} (h : Spaced ws text)
    (hws : ∀ word ∈ ws, IsWord word) : words text = ws := by
  induction h with
  | blanks hgap => exact words_blanks hgap
  | word hgap htext happart ih =>
    obtain ⟨hword, hws⟩ := List.forall_mem_cons.1 hws
    rw [List.append_assoc, words_blanks_append hgap, words_word_append hword happart, ih hws]

end Text
end ShellPrompt
