import ShellPrompt.Fields

/-!
# ShellPrompt.Proofs.Fields.Format

Filling a template undoes writing it.

* `Template.Part`: what templates are written from, and `write`, the template of a list of parts.
* `pieces_write`: the scanner finds the parts again, whichever of them stand side by side.
* `format_write`: filling a written template runs the value of each slot once, from left to right,
  and puts what comes out where the slot stood.
-/

namespace ShellPrompt
namespace Template

inductive Part where
  | literal (text : String) (braceless : ∀ c ∈ text.toList, c ≠ '\x7b' ∧ c ≠ '\x7d')
  | openBrace
  | closeBrace
  | slot (name : String) (unclosed : '\x7d' ∉ name.toList)
      (unopened : name.toList.head? ≠ some '\x7b')

namespace Part

def chars : Part → List Char
  | .literal text _ => text.toList
  | .openBrace => ['\x7b', '\x7b']
  | .closeBrace => ['\x7d', '\x7d']
  | .slot name _ _ => Template.slot name.toList

def pieces : Part → List Piece
  | .literal text _ => text.toList.map .char
  | .openBrace => [.char '\x7b']
  | .closeBrace => [.char '\x7d']
  | .slot name _ _ => [.slot name.toList]

end Part

def write (parts : List Part) : String := String.ofList (parts.flatMap Part.chars)

theorem untilClosing_append {name : List Char} (h : '\x7d' ∉ name) (rest : List Char) :
    untilClosing (name ++ '\x7d' :: rest) = some (name, rest) := by
  induction name with
  | nil => simp [untilClosing]
  | cons c name ih =>
    rw [List.mem_cons, not_or] at h
    simp [untilClosing, Ne.symm h.1, ih h.2]

theorem pieces_literal {text : List Char} (h : ∀ c ∈ text, c ≠ '\x7b' ∧ c ≠ '\x7d')
    (rest : List Char) : pieces (text ++ rest) = text.map .char ++ pieces rest := by
  induction text with
  | nil => rfl
  | cons c text ih =>
    obtain ⟨⟨hopen, hclose⟩, htext⟩ := List.forall_mem_cons.1 h
    rw [List.cons_append, pieces, ih htext]
    · rfl
    · exact fun _ hc _ => hopen hc
    · exact fun _ hc _ => hclose hc
    · exact hopen

theorem pieces_slot {name : List Char} (hclosed : '\x7d' ∉ name)
    (hopen : name.head? ≠ some '\x7b') (rest : List Char) :
    pieces (slot name ++ rest) = .slot name :: pieces rest := by
  have htext : slot name ++ rest = '\x7b' :: (name ++ '\x7d' :: rest) := by simp [slot]
  -- what follows the opening brace is the name or, where that is empty, the closing brace
  have hnext : ∀ tail, name ++ '\x7d' :: rest ≠ '\x7b' :: tail := by
    intro tail h
    cases name with
    | nil => cases h
    | cons c name => exact hopen (by rw [List.head?_cons, (List.cons.inj h).1])
  rw [htext, pieces]
  · split
    case h_1 found behind hfound =>
      rw [untilClosing_append hclosed, Option.some.injEq, Prod.mk.injEq] at hfound
      rw [hfound.1, hfound.2]
    case h_2 hnone =>
      rw [untilClosing_append hclosed] at hnone
      cases hnone
  · exact hnext

theorem pieces_part (t : Part) (rest : List Char) :
    pieces (t.chars ++ rest) = t.pieces ++ pieces rest := by
  cases t with
  | literal text braceless => exact pieces_literal braceless rest
  | openBrace =>
    show pieces ('\x7b' :: '\x7b' :: rest) = _
    rw [pieces]
    rfl
  | closeBrace =>
    show pieces ('\x7d' :: '\x7d' :: rest) = _
    rw [pieces]
    rfl
  | slot name unclosed unopened => exact pieces_slot unclosed unopened rest

theorem pieces_write (parts : List Part) :
    pieces (write parts).toList = parts.flatMap Part.pieces := by
  rw [write, String.toList_ofList]
  induction parts with
  | nil => simp [pieces]
  | cons t rest ih => rw [List.flatMap_cons, pieces_part, ih, List.flatMap_cons]

/-! ## Doubled braces -/

/-- The part of one character of a text that is to stand as it is. -/
def Part.ofChar (c : Char) : Part :=
  if hopen : c = '\x7b' then .openBrace
  else if hclose : c = '\x7d' then .closeBrace
  else .literal (String.singleton c) (by simp [hopen, hclose])

def doubled (text : String) : String :=
  String.ofList (text.toList.flatMap fun c => if c = '\x7b' ∨ c = '\x7d' then [c, c] else [c])

theorem doubled_eq_write (text : String) :
    doubled text = write (text.toList.map Part.ofChar) := by
  have hchar : ∀ c, (Part.ofChar c).chars = if c = '\x7b' ∨ c = '\x7d' then [c, c] else [c] := by
    intro c
    by_cases hopen : c = '\x7b'
    · simp [Part.ofChar, Part.chars, hopen]
    · by_cases hclose : c = '\x7d'
      · simp [Part.ofChar, Part.chars, hclose]
      · simp [Part.ofChar, Part.chars, hopen, hclose]
  rw [doubled, write, List.flatMap_map]
  simp only [hchar]

end Template

namespace Fields

open Template (Part Piece write doubled)

variable {m : Type → Type}

theorem get?_insert_self (fields : Fields m) (name : String) (value : m String) :
    (fields.insert name value).get? name = some value := Table.get?_insert_self _ _ _

theorem get?_insert_of_ne {name other : String} (h : other ≠ name) (fields : Fields m)
    (value : m String) : (fields.insert name value).get? other = fields.get? other :=
  Table.get?_insert_of_ne h _ _

/-! ## What a template means -/

def meaning [Monad m] (fields : Fields m) : Part → m String
  | .literal text _ => pure text
  | .openBrace => pure "\x7b"
  | .closeBrace => pure "\x7d"
  | .slot name _ _ =>
    match fields.get? name with
    | none => pure ("\x7b" ++ name ++ "\x7d")
    | some value => value

/-- The field a part uses, if it uses one. -/
def used? (fields : Fields m) : Part → Option String
  | .slot name _ _ => if fields.contains name then some name else none
  | _ => none

/-- A value that writes its name into a log whenever it is run. -/
def logged [Monad m] (name : String) (value : m String) : StateT (List String) m String := do
  modify (· ++ [name])
  liftM value

def allLogged [Monad m] (fields : Fields m) : Fields (StateT (List String) m) :=
  ⟨fields.values.map fun e => (e.1, logged e.1 e.2)⟩

theorem get?_allLogged [Monad m] (fields : Fields m) (name : String) :
    fields.allLogged.get? name = (fields.get? name).map (logged name) := by
  unfold allLogged get?
  induction fields.values with
  | nil => rfl
  | cons e rest ih =>
    rw [List.map_cons, Table.get?, Table.get?]
    split
    case isTrue h => rw [h]; rfl
    case isFalse => exact ih

section Lawful

variable [Monad m] [LawfulMonad m] (fields : Fields m)

theorem expand_append (a b : List Piece) :
    fields.expand (a ++ b) = do return (← fields.expand a) ++ (← fields.expand b) := by
  induction a with
  | nil => simp [expand]
  | cons piece rest ih =>
    cases piece with
    | char c => simp [expand, ih]
    | slot name =>
      cases h : fields.get? (String.ofList name) with
      | none => simp [expand, h, ih, ← List.append_assoc]
      | some value => simp [expand, h, ih, ← List.append_assoc]

theorem expand_chars (text : List Char) : fields.expand (text.map .char) = pure text := by
  induction text with
  | nil => rfl
  | cons c rest ih => simp [expand, ih]

theorem expand_part (t : Part) :
    fields.expand t.pieces = String.toList <$> fields.meaning t := by
  cases t with
  | literal text braceless => simp [Part.pieces, meaning, expand_chars]
  | openBrace => simp [Part.pieces, meaning, expand]
  | closeBrace => simp [Part.pieces, meaning, expand]
  | slot name unclosed unopened =>
    cases h : fields.get? name with
    | none => simp [Part.pieces, meaning, expand, h, Template.slot]
    | some value => simp [Part.pieces, meaning, expand, h]

theorem expand_parts (parts : List Part) :
    fields.expand (parts.flatMap Part.pieces) =
      (fun texts => (String.join texts).toList) <$> parts.mapM fields.meaning := by
  induction parts with
  | nil => simp [expand]
  | cons t rest ih =>
    rw [List.flatMap_cons, expand_append, expand_part, ih]
    simp

theorem format_eq_join (parts : List Part) :
    fields.format (write parts) = String.join <$> parts.mapM fields.meaning := by
  rw [format, Template.pieces_write, expand_parts, bind_map_left]
  simp only [String.ofList_toList, bind_pure_comp]

/-- Each part runs the field it uses, once, and no other. -/
theorem run_meaning_allLogged (t : Part) (log : List String) :
    (fields.allLogged.meaning t).run log =
      (·, log ++ (fields.used? t).toList) <$> fields.meaning t := by
  cases t with
  | slot name unclosed unopened =>
    cases h : fields.get? name with
    | none => simp [meaning, used?, get?_allLogged, contains, h]
    | some value => simp [meaning, used?, get?_allLogged, contains, h, logged]
  | _ => simp [meaning, used?]

theorem run_mapM_allLogged (parts : List Part) (log : List String) :
    (parts.mapM fields.allLogged.meaning).run log =
      (·, log ++ parts.filterMap fields.used?) <$> parts.mapM fields.meaning := by
  induction parts generalizing log with
  | nil => simp
  | cons t rest ih =>
    rw [List.mapM_cons, List.mapM_cons, StateT.run_bind, run_meaning_allLogged]
    cases h : fields.used? t <;> simp [ih, h]

theorem mapM_meaning_ofChar (text : List Char) :
    (text.map Part.ofChar).mapM fields.meaning = pure (text.map String.singleton) := by
  have hchar : ∀ c, fields.meaning (Part.ofChar c) = pure (String.singleton c) := by
    intro c
    by_cases hopen : c = '\x7b'
    · subst hopen
      rfl
    · by_cases hclose : c = '\x7d'
      · subst hclose
        rfl
      · simp [Part.ofChar, meaning, hopen, hclose]
  induction text with
  | nil => rfl
  | cons c rest ih => simp [hchar, ih]

end Lawful

/-- `Fields.format` on a written template gives what its parts mean, in order: the values of its
slots are run from left to right, and what they yield is not read again. With `allLogged` the log of
all runs names the field of each slot that has one, once, and nothing else. A text with every brace
`doubled` comes out as it was. -/
theorem format_write [Monad m] [LawfulMonad m] (fields : Fields m) (parts : List Part) :
    fields.format (write parts) = String.join <$> parts.mapM fields.meaning ∧
    (∀ log, (fields.allLogged.format (write parts)).run log =
      (·, log ++ parts.filterMap fields.used?) <$> fields.format (write parts)) ∧
    ∀ text, fields.format (doubled text) = pure text := by
  refine ⟨fields.format_eq_join parts, ?_, ?_⟩
  · intro log
    rw [format_eq_join, format_eq_join, StateT.run_map, run_mapM_allLogged]
    simp
  · intro text
    rw [Template.doubled_eq_write, format_eq_join, mapM_meaning_ofChar, map_pure]
    congr 1
    rw [← String.toList_inj, String.toList_join, List.flatMap_map]
    simp

/-- One field, which counts its runs. -/
def counting : Fields (StateM Nat) where
  values := [("n", modifyGet fun k => (String.ofList (List.replicate k 'i'), k + 1))]

/-- A slot between escaped braces, one used again, one without a name, and one that holds a
brace. -/
def adjacent : List Part :=
  [.openBrace, .slot "n" (by decide) (by decide), .closeBrace, .slot "n" (by decide) (by decide),
    .slot "" (by decide) (by decide), .slot "a\x7bb" (by decide) (by decide)]

theorem format_write_adjacent :
    LawfulMonad (StateM Nat) ∧
      write adjacent = "\x7b\x7b\x7bn\x7d\x7d\x7d\x7bn\x7d\x7b\x7d\x7ba\x7bb\x7d" ∧
      (counting.format (write adjacent)).run 1 = ("\x7bi\x7dii\x7b\x7d\x7ba\x7bb\x7d", 3) ∧
      (((counting.allLogged.format (write adjacent)).run []).run 1).1.2 = ["n", "n"] ∧
      counting.format (doubled "\x7bn\x7d") = pure "\x7bn\x7d" := by
  obtain ⟨hjoin, hlog, hdoubled⟩ := format_write counting adjacent
  refine ⟨inferInstance, by decide, ?_, ?_, hdoubled _⟩
  · rw [hjoin]
    rfl
  · rw [hlog, hjoin]
    rfl

end Fields
end ShellPrompt
