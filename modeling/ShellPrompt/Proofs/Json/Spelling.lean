import ShellPrompt.Proofs.Json.Numbers

/-!
# ShellPrompt.Proofs.Json.Spelling

Printed JSON spells what was printed: strings their code units, integers their digits, and lists
and objects whatever their parts spell (`spells_printList`, `spells_printObject`).
-/

namespace ShellPrompt
namespace Json

/-! ## Strings -/

theorem unit?_control : ∀ n < 0x20,
    unit? '0' '0' (Text.Numeral.hexChar (n / 16)) (Text.Numeral.hexChar (n % 16)) = some n := by
  decide

theorem spellsUnits_escape (c : Char) {us : Units} {raw : List Char} (h : SpellsUnits us raw) :
    SpellsUnits (unitsOf c ++ us) (escape c ++ raw) := by
  have hshort : ∀ e, escaped? e = some c → SpellsUnits (unitsOf c ++ us) ('\\' :: e :: raw) :=
    fun e he => .short he h
  have hchar : ∀ n, c.toNat = n → c = Char.ofNat n := by
    rintro n rfl
    exact (Char.ofNat_toNat c).symm
  unfold escape
  split
  case isTrue heq => exact hshort '"' (by rw [beq_iff_eq.1 heq]; rfl)
  split
  case isTrue heq => exact hshort '\\' (by rw [beq_iff_eq.1 heq]; rfl)
  split
  case isTrue heq => exact hshort 'b' (by rw [hchar _ (beq_iff_eq.1 heq)]; rfl)
  split
  case isTrue heq => exact hshort 'f' (by rw [hchar _ (beq_iff_eq.1 heq)]; rfl)
  split
  case isTrue heq => exact hshort 'n' (by rw [beq_iff_eq.1 heq]; rfl)
  split
  case isTrue heq => exact hshort 'r' (by rw [beq_iff_eq.1 heq]; rfl)
  split
  case isTrue heq => exact hshort 't' (by rw [beq_iff_eq.1 heq]; rfl)
  split
  case isTrue hcontrol =>
    have hunit : (UInt16.ofNat c.toNat).toNat = c.toNat := toNat_ofNat_unit (by omega)
    rw [unitsOf_small (by omega)]
    refine .hex ?_ h
    rw [hunit]
    exact unit?_control c.toNat hcontrol
  case isFalse hquote hbackslash _ _ _ _ _ hgraphic =>
    exact .plain (by omega) (by simpa using hquote) (by simpa using hbackslash) h

theorem spellsUnits_units (s : String) : SpellsUnits (units s) (s.toList.flatMap escape) := by
  rw [units]
  induction s.toList with
  | nil => exact .nil
  | cons c rest ih => exact spellsUnits_escape c ih

theorem spells_printString (s : String) : Spells (.string (units s)) (printString s) :=
  .string (spellsUnits_units s)

/-! ## Integers -/

theorem spells_signed (z : Int) :
    Spells (.number (decide (z < 0)) (Text.Numeral.decimal z.natAbs)) (Text.Numeral.signed z) := by
  have hdigits := unsigned_decimal z.natAbs
  unfold Text.Numeral.signed
  split
  case isTrue hneg =>
    rw [decide_eq_true hneg]
    exact .negative hdigits
  case isFalse hneg =>
    rw [decide_eq_false hneg]
    exact .positive hdigits

/-! ## Lists and objects -/

theorem intercalate_cons (p : List Char) (ps : List (List Char)) :
    [','].intercalate (p :: ps) = p ++ ps.flatMap (',' :: ·) := by
  induction ps generalizing p with
  | nil => simp
  | cons q ps ih => simp [List.intercalate_cons_cons, ih]

section Lists

universe u

variable {α : Type u} {write : α → Doc} {print : α → List Char}

theorem spellsMoreItems_print {items : List α} (h : ∀ a ∈ items, Spells (write a) (print a)) :
    SpellsMoreItems (items.map write) ((items.map print).flatMap (',' :: ·)) := by
  induction items with
  | nil => exact .nil blanks_nil
  | cons a items ih =>
    obtain ⟨hfirst, hrest⟩ := List.forall_mem_cons.1 h
    exact .cons blanks_nil blanks_nil hfirst (ih hrest)

theorem spells_printList {items : List α} (h : ∀ a ∈ items, Spells (write a) (print a)) :
    Spells (.array (items.map write)) (printList (items.map print)) := by
  refine .array (t := [','].intercalate (items.map print)) ?_
  cases items with
  | nil => exact .nil blanks_nil
  | cons a items =>
    obtain ⟨hfirst, hrest⟩ := List.forall_mem_cons.1 h
    rw [List.map_cons, List.map_cons, intercalate_cons]
    exact .cons blanks_nil hfirst (spellsMoreItems_print hrest)

/-- A printed member, its opening quote apart. -/
theorem printMember_cons {key : String} {d : Doc} {text : List Char} (h : Spells d text) :
    ∃ t, printMember key text = '"' :: t ∧ SpellsMember (units key, d) t := by
  refine ⟨_, ?_, .intro (spellsUnits_units key) blanks_nil blanks_nil h⟩
  simp [printMember, printString]

theorem spellsMoreMembers_print (key : α → String) {items : List α}
    (h : ∀ a ∈ items, Spells (write a) (print a)) :
    SpellsMoreMembers (items.map fun a => (units (key a), write a))
      ((items.map fun a => printMember (key a) (print a)).flatMap (',' :: ·)) := by
  induction items with
  | nil => exact .nil blanks_nil
  | cons a items ih =>
    obtain ⟨hfirst, hrest⟩ := List.forall_mem_cons.1 h
    obtain ⟨t, ht, hmember⟩ := printMember_cons hfirst
    rw [List.map_cons, List.map_cons, List.flatMap_cons, ht]
    exact .cons blanks_nil blanks_nil hmember (ih hrest)

theorem spells_printObject (key : α → String) {items : List α}
    (h : ∀ a ∈ items, Spells (write a) (print a)) :
    Spells (.object (items.map fun a => (units (key a), write a)))
      (printObject (items.map fun a => (key a, print a))) := by
  have htext : printObject (items.map fun a => (key a, print a)) =
      '\x7b' :: ([','].intercalate (items.map fun a => printMember (key a) (print a)) ++
        ['\x7d']) := by
    simp [printObject, bracket, Function.comp_def]
  rw [htext]
  refine .object ?_
  cases items with
  | nil => exact .nil blanks_nil
  | cons a items =>
    obtain ⟨hfirst, hrest⟩ := List.forall_mem_cons.1 h
    obtain ⟨t, ht, hmember⟩ := printMember_cons hfirst
    rw [List.map_cons, List.map_cons, intercalate_cons, ht]
    exact .cons blanks_nil hmember (spellsMoreMembers_print key hrest)

end Lists

end Json
end ShellPrompt
