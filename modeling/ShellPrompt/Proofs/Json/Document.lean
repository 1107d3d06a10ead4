import ShellPrompt.Proofs.Json.Units

/-!
# ShellPrompt.Proofs.Json.Document

JSON documents and the texts that spell them.

A document is what a text says before anybody reads it for a purpose: numbers are still digits,
strings are code units, objects are lists of members in which keys may recur. `Spells` is the
grammar of JSON, with every choice of blanks and escapes and no bound on depth or size, so two
texts of one document differ in layout alone.

`Fenced` texts do not go on with a number that ends in front of them.
-/

namespace ShellPrompt
namespace Json

inductive Doc where
  | null
  | bool (b : Bool)
  | number (negative : Bool) (digits : List Char)
  | string (s : Units)
  | array (items : List Doc)
  | object (members : List (Units × Doc))

abbrev Member := Units × Doc

def Blanks (w : List Char) : Prop := ∀ c ∈ w, isBlank c = true

/-! ## Numbers -/

def AllDigits (ds : List Char) : Prop := ∀ c ∈ ds, c.isDigit = true

/-- Digits without a leading zero. -/
inductive Whole : List Char → Prop where
  | zero : Whole ['0']
  | digits {c : Char} {rest : List Char} (digit : c.isDigit = true) (leading : c ≠ '0')
      (more : AllDigits rest) : Whole (c :: rest)

inductive Fraction : List Char → Prop where
  | none : Fraction []
  | places {c : Char} {rest : List Char} (digit : c.isDigit = true) (more : AllDigits rest) :
      Fraction ('.' :: c :: rest)

inductive Sign : List Char → Prop where
  | none : Sign []
  | plus : Sign ['+']
  | minus : Sign ['-']

inductive Power : List Char → Prop where
  | none : Power []
  | power {mark c : Char} {sign rest : List Char} (marked : mark = 'e' ∨ mark = 'E')
      (signed : Sign sign) (digit : c.isDigit = true) (more : AllDigits rest) :
      Power (mark :: (sign ++ c :: rest))

/-- A number without its sign. -/
inductive Unsigned : List Char → Prop where
  | parts {whole fraction power : List Char} :
      Whole whole → Fraction fraction → Power power → Unsigned (whole ++ (fraction ++ power))

/-! ## Strings -/

/-- What stands between the quotes of a string. -/
inductive SpellsUnits : Units → List Char → Prop where
  | nil : SpellsUnits [] []
  | plain {c : Char} {us : Units} {raw : List Char} (graphic : 0x20 ≤ c.toNat) (quote : c ≠ '"')
      (backslash : c ≠ '\\') : SpellsUnits us raw → SpellsUnits (unitsOf c ++ us) (c :: raw)
  | short {e c : Char} {us : Units} {raw : List Char} (escape : escaped? e = some c) :
      SpellsUnits us raw → SpellsUnits (unitsOf c ++ us) ('\\' :: e :: raw)
  | hex {a b c d : Char} {u : UInt16} {us : Units} {raw : List Char}
      (digits : unit? a b c d = some u.toNat) :
      SpellsUnits us raw → SpellsUnits (u :: us) ('\\' :: 'u' :: a :: b :: c :: d :: raw)

/-! ## Documents -/

mutual

inductive Spells : Doc → List Char → Prop where
  | null : Spells .null ['n', 'u', 'l', 'l']
  | true : Spells (.bool true) ['t', 'r', 'u', 'e']
  | false : Spells (.bool false) ['f', 'a', 'l', 's', 'e']
  | positive {digits : List Char} : Unsigned digits → Spells (.number false digits) digits
  | negative {digits : List Char} : Unsigned digits → Spells (.number true digits) ('-' :: digits)
  | string {s : Units} {raw : List Char} :
      SpellsUnits s raw → Spells (.string s) ('"' :: (raw ++ ['"']))
  | array {items : List Doc} {t : List Char} :
      SpellsItems items t → Spells (.array items) ('[' :: (t ++ [']']))
  | object {members : List Member} {t : List Char} :
      SpellsMembers members t → Spells (.object members) ('\x7b' :: (t ++ ['\x7d']))

/-- What stands between the brackets of a list. -/
inductive SpellsItems : List Doc → List Char → Prop where
  | nil {w : List Char} : Blanks w → SpellsItems [] w
  | cons {d : Doc} {rest : List Doc} {w t u : List Char} :
      Blanks w → Spells d t → SpellsMoreItems rest u → SpellsItems (d :: rest) (w ++ (t ++ u))

/-- What follows an item up to the closing bracket. -/
inductive SpellsMoreItems : List Doc → List Char → Prop where
  | nil {w : List Char} : Blanks w → SpellsMoreItems [] w
  | cons {d : Doc} {rest : List Doc} {w w' t u : List Char} :
      Blanks w → Blanks w' → Spells d t → SpellsMoreItems rest u →
      SpellsMoreItems (d :: rest) (w ++ ',' :: (w' ++ (t ++ u)))

/-- What stands between the braces of an object. -/
inductive SpellsMembers : List Member → List Char → Prop where
  | nil {w : List Char} : Blanks w → SpellsMembers [] w
  | cons {m : Member} {rest : List Member} {w t u : List Char} :
      Blanks w → SpellsMember m t → SpellsMoreMembers rest u →
      SpellsMembers (m :: rest) (w ++ '"' :: (t ++ u))

/-- What follows a member up to the closing brace. -/
inductive SpellsMoreMembers : List Member → List Char → Prop where
  | nil {w : List Char} : Blanks w → SpellsMoreMembers [] w
  | cons {m : Member} {rest : List Member} {w w' t u : List Char} :
      Blanks w → Blanks w' → SpellsMember m t → SpellsMoreMembers rest u →
      SpellsMoreMembers (m :: rest) (w ++ ',' :: (w' ++ '"' :: (t ++ u)))

/-- A member behind the opening quote of its key. -/
inductive SpellsMember : Member → List Char → Prop where
  | intro {key : Units} {d : Doc} {raw w w' t : List Char} :
      SpellsUnits key raw → Blanks w → Blanks w' → Spells d t →
      SpellsMember (key, d) (raw ++ '"' :: (w ++ ':' :: (w' ++ t)))

end

/-- A whole text, blanks around the document included. -/
def SpellsText (d : Doc) (text : String) : Prop :=
  ∃ w t w', Blanks w ∧ Spells d t ∧ Blanks w' ∧ text.toList = w ++ (t ++ w')

/-! ## Blanks and first characters -/

theorem blanks_nil : Blanks [] := by simp [Blanks]

theorem skipBlank_append {w : List Char} (h : Blanks w) (rest : List Char) :
    skipBlank (w ++ rest) = skipBlank rest := by
  induction w with
  | nil => rfl
  | cons c w ih =>
    obtain ⟨hc, hw⟩ := List.forall_mem_cons.1 h
    rw [List.cons_append, skipBlank, List.dropWhile_cons_of_pos hc]
    exact ih hw

theorem skipBlank_cons {c : Char} (h : isBlank c = false) (rest : List Char) :
    skipBlank (c :: rest) = c :: rest := by
  rw [skipBlank, List.dropWhile_cons_of_neg (by simp [h])]

theorem skipBlank_blanks {w : List Char} (h : Blanks w) : skipBlank w = [] := by
  have := skipBlank_append h []
  rwa [List.append_nil] at this

/-- The characters a document can start with. -/
def Opens (c : Char) : Prop :=
  c ∈ ['n', 't', 'f', '-', '"', '[', '\x7b'] ∨ c.isDigit = true

theorem isDigit_cases {c : Char} (h : c.isDigit = true) :
    c ∈ ['0', '1', '2', '3', '4', '5', '6', '7', '8', '9'] := by
  obtain ⟨hlow, hhigh⟩ := Char.isDigit_iff_toNat.1 h
  have hall : ∀ n < 0x3A, 0x30 ≤ n →
      Char.ofNat n ∈ ['0', '1', '2', '3', '4', '5', '6', '7', '8', '9'] := by decide
  have := hall c.toNat (Nat.lt_succ_of_le hhigh) hlow
  rwa [Char.ofNat_toNat] at this

theorem Opens.plain {c : Char} (h : Opens c) :
    isBlank c = false ∧ c ≠ ']' ∧ c ≠ '\x7d' ∧ c ≠ ',' ∧ c ≠ ':' := by
  rcases h with h | h
  · simp only [List.mem_cons, List.not_mem_nil, or_false] at h
    rcases h with rfl | rfl | rfl | rfl | rfl | rfl | rfl <;> decide
  · have hcases := isDigit_cases h
    simp only [List.mem_cons, List.not_mem_nil, or_false] at hcases
    rcases hcases with rfl | rfl | rfl | rfl | rfl | rfl | rfl | rfl | rfl | rfl <;> decide

theorem Unsigned.exists_cons {digits : List Char} (h : Unsigned digits) :
    ∃ c rest, digits = c :: rest ∧ c.isDigit = true := by
  obtain ⟨hwhole, -, -⟩ := h
  cases hwhole with
  | zero => exact ⟨_, _, rfl, rfl⟩
  | digits digit _ _ => exact ⟨_, _, rfl, digit⟩

theorem Spells.exists_cons {d : Doc} {t : List Char} (h : Spells d t) :
    ∃ c rest, t = c :: rest ∧ Opens c := by
  cases h with
  | positive h =>
    obtain ⟨c, rest, hcons, hc⟩ := h.exists_cons
    exact ⟨c, rest, hcons, .inr hc⟩
  | null | true | false | negative | string | array | object =>
    exact ⟨_, _, rfl, .inl (by simp)⟩

theorem Spells.skipBlank {d : Doc} {t : List Char} (h : Spells d t) {w : List Char}
    (hw : Blanks w) (rest : List Char) : skipBlank (w ++ (t ++ rest)) = t ++ rest := by
  obtain ⟨c, tail, rfl, hc⟩ := h.exists_cons
  rw [skipBlank_append hw, List.cons_append, skipBlank_cons hc.plain.1]

theorem Spells.skipBlank_self {d : Doc} {t : List Char} (h : Spells d t) (rest : List Char) :
    Json.skipBlank (t ++ rest) = t ++ rest := by
  have := h.skipBlank blanks_nil rest
  rwa [List.nil_append] at this

/-! ## What may follow a value -/

/-- The text does not go on with a number that ends in front of it. -/
def Fenced (text : List Char) : Prop :=
  ∀ c ∈ text.head?, c.isDigit = false ∧ c ≠ '.' ∧ c ≠ 'e' ∧ c ≠ 'E'

namespace Fenced

theorem nil : Fenced [] := by simp [Fenced]

theorem cons {c : Char} (h : c ∈ [' ', '\t', '\n', '\r', ',', ']', '\x7d']) (rest : List Char) :
    Fenced (c :: rest) := by
  have hplain : c.isDigit = false ∧ c ≠ '.' ∧ c ≠ 'e' ∧ c ≠ 'E' := by
    simp only [List.mem_cons, List.not_mem_nil, or_false] at h
    rcases h with rfl | rfl | rfl | rfl | rfl | rfl | rfl <;> decide
  simpa [Fenced] using hplain

theorem blanks {w : List Char} (hw : Blanks w) {rest : List Char} (h : Fenced rest) :
    Fenced (w ++ rest) := by
  cases w with
  | nil => exact h
  | cons c w =>
    have hc := hw c (by simp)
    refine cons ?_ (w ++ rest)
    simp only [isBlank, Bool.or_eq_true, beq_iff_eq] at hc
    rcases hc with ((hc | hc) | hc) | hc <;> simp [hc]

theorem startsWithDigit {text : List Char} (h : Fenced text) : startsWithDigit text = false := by
  cases text with
  | nil => rfl
  | cons c rest => exact (h c rfl).1

end Fenced

theorem SpellsMoreItems.fenced {ds : List Doc} {t : List Char} (h : SpellsMoreItems ds t)
    (rest : List Char) : Fenced (t ++ ']' :: rest) := by
  cases h with
  | nil hw => exact .blanks hw (.cons (by simp) _)
  | cons hw =>
    rw [List.append_assoc]
    exact .blanks hw (.cons (by simp) _)

theorem SpellsMoreMembers.fenced {ms : List Member} {t : List Char} (h : SpellsMoreMembers ms t)
    (rest : List Char) : Fenced (t ++ '\x7d' :: rest) := by
  cases h with
  | nil hw => exact .blanks hw (.cons (by simp) _)
  | cons hw =>
    rw [List.append_assoc]
    exact .blanks hw (.cons (by simp) _)

end Json
end ShellPrompt
