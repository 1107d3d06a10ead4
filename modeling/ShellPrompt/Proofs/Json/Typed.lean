import ShellPrompt.Json.Expecting
import ShellPrompt.Proofs.Json.Containers

/-!
# ShellPrompt.Proofs.Json.Typed

Readers of values of a known type. Each takes the documents of its type and refuses all others
(`toOption_refuse`), so for each there is a view of documents that says what it reads.
-/

namespace ShellPrompt
namespace Json

variable {α : Type}

@[simp] theorem toOption_seen (s : Seen) (expected : String) (rest : List Char) :
    (seen s expected rest : Except ReadError α).toOption = none := rfl

/-- Refusing never ends well. -/
@[simp] theorem toOption_refuse (expected : String) (text : List Char) :
    (refuse expected text : Except ReadError α).toOption = none := by
  unfold refuse
  split
  all_goals simp
  split
  · rfl
  split
  · simp
  · rfl

theorem Unsigned.head_ne {digits : List Char} (h : Unsigned digits) {c : Char}
    (hc : c.isDigit = false) (rest tail : List Char) : digits ++ rest ≠ c :: tail := by
  obtain ⟨d, more, rfl, hd⟩ := h.exists_cons
  intro heq
  rw [List.cons_append, List.cons.injEq] at heq
  rw [heq.1, hc] at hd
  cases hd

/-! ## Scalars -/

def viewText : Doc → Option String
  | .string s => text? s
  | _ => none

theorem reads_expectString : Reads expectString viewText := by
  intro d t hd w rest hw _
  unfold expectString
  rw [hd.skipBlank hw]
  cases hd with
  | string h => simpa [viewText] using toOption_string h rest
  | positive h =>
    split
    case h_1 => rfl
    case h_2 heq => exact absurd heq (h.head_ne (by decide) _ _)
    case h_3 => exact toOption_refuse _ _
  | null | true | false | negative | array | object => exact toOption_refuse _ _

def viewBool : Doc → Option Bool
  | .bool b => some b
  | _ => none

theorem reads_expectBool : Reads expectBool viewBool := by
  intro d t hd w rest hw _
  unfold expectBool
  rw [hd.skipBlank hw]
  cases hd with
  | true => rfl
  | false => rfl
  | positive h =>
    split
    case h_1 => rfl
    case h_2 heq => exact absurd heq (h.head_ne (by decide) _ _)
    case h_3 heq => exact absurd heq (h.head_ne (by decide) _ _)
    case h_4 => exact toOption_refuse _ _
  | null | string | negative | array | object => exact toOption_refuse _ _

def Number.convert? (convert? : Int → Option α) : Number → Option α
  | .int z => convert? z
  | .float _ => none

def viewInteger (convert? : Int → Option α) : Doc → Option α
  | .number negative digits => (number? negative digits).bind (Number.convert? convert?)
  | _ => none

/-- What becomes of a number where an integer is expected. -/
def finishInteger (expected : String) (convert? : Int → Option α) (r : Number × List Char) :
    Except ReadError (α × List Char) :=
  match r.1 with
  | .float x => seen (.float x) expected r.2
  | .int z =>
    match convert? z with
    | some a => .ok (a, r.2)
    | none => here (.outOfRange z expected) r.2

theorem toOption_finishInteger (expected : String) (convert? : Int → Option α)
    (r : Number × List Char) :
    (finishInteger expected convert? r).toOption = (r.1.convert? convert?).map (·, r.2) := by
  obtain ⟨n, rest⟩ := r
  cases n with
  | float x => rfl
  | int z =>
    simp only [finishInteger, Number.convert?]
    cases convert? z <;> rfl

theorem toOption_number_finish (expected : String) (convert? : Int → Option α) {digits : List Char}
    (h : Unsigned digits) (negative : Bool) {rest : List Char} (hrest : Fenced rest) :
    (number negative (digits ++ rest) >>= finishInteger expected convert?).toOption =
      (viewInteger convert? (.number negative digits)).map (·, rest) := by
  rw [toOption_bind, toOption_number h hrest, viewInteger]
  cases number? negative digits with
  | none => rfl
  | some n => exact toOption_finishInteger expected convert? (n, rest)

theorem reads_expectInteger (expected : String) (convert? : Int → Option α) :
    Reads (expectInteger expected convert?) (viewInteger convert?) := by
  intro d t hd w rest hw hrest
  unfold expectInteger
  rw [hd.skipBlank hw]
  cases hd with
  | positive h =>
    have hfinish := toOption_number_finish expected convert? h false hrest
    obtain ⟨c, tail, rfl, hc⟩ := h.exists_cons
    split
    case h_1 heq => cases heq
    case h_2 heq =>
      obtain ⟨rfl, -⟩ := List.cons.inj heq
      cases hc
    case h_3 heq =>
      obtain ⟨rfl, rfl⟩ := List.cons.inj heq
      rw [if_pos hc]
      exact hfinish
  | negative h => exact toOption_number_finish expected convert? h true hrest
  | null | true | false | string | array | object => simp [viewInteger, Char.isDigit]

def viewOption (view : Doc → Option α) : Doc → Option (Option α)
  | .null => some none
  | d => (view d).map some

theorem reads_expectOption {reader : Reader α} {view : Doc → Option α} (h : Reads reader view) :
    Reads (expectOption reader) (viewOption view) := by
  intro d t hd w rest hw hrest
  have hread := h d t hd [] rest blanks_nil hrest
  have hmap : ((reader (t ++ rest)).map fun p => (some p.1, p.2)).toOption =
      ((view d).map some).map (·, rest) := by
    rw [toOption_map, ← List.nil_append (t ++ rest), hread]
    cases view d <;> rfl
  unfold expectOption
  rw [hd.skipBlank hw]
  cases hd with
  | null => rfl
  | positive h =>
    split
    case h_1 heq => exact absurd heq (h.head_ne (by decide) _ _)
    case h_2 => exact hmap
  | true | false | string | negative | array | object => exact hmap

/-! ## Lists and tables -/

def viewStrings : Nat → Doc → Option (List String)
  | _ + 1, .array items => items.mapM viewText
  | _, _ => none

theorem reads_expectStrings (depth : Nat) : Reads (expectStrings depth) (viewStrings depth) := by
  intro d t hd w rest hw _
  rw [expectStrings, hd.skipBlank hw]
  cases hd with
  | array h =>
    cases depth with
    | zero => rfl
    | succ depth => simpa [viewStrings] using toOption_listBody reads_expectString h rest
  | positive h =>
    cases depth
    all_goals
      split
      case h_1 => rfl
      case h_2 heq => exact absurd heq (h.head_ne (by decide) _ _)
      case h_3 => exact toOption_refuse _ _
  | null | true | false | string | negative | object =>
    cases depth <;> exact toOption_refuse _ _

def viewTable (view : Nat → Doc → Option α) : Nat → Doc → Option (Table α)
  | depth + 1, .object members => table? (view depth) members
  | _, _ => none

theorem reads_expectTable {value : Nat → Reader α} {view : Nat → Doc → Option α}
    (h : ∀ n, Reads (value n) (view n)) (depth : Nat) :
    Reads (expectTable value depth) (viewTable view depth) := by
  intro d t hd w rest hw _
  rw [expectTable, hd.skipBlank hw]
  cases hd with
  | object hms =>
    cases depth with
    | zero => rfl
    | succ depth =>
      simpa [viewTable, table?] using toOption_objectBody (readsMember_table (h depth)) hms [] rest
  | positive h =>
    obtain ⟨c, tail, rfl, hc⟩ := h.exists_cons
    have hbrace : c ≠ '\x7b' := by
      rintro rfl
      cases hc
    cases depth <;> simp [hbrace, viewTable]
  | null | true | false | string | negative | array => simp [viewTable]

/-! ## Names -/

def viewName (variants : List (String × α)) : Nat → Doc → Option α
  | _, .string s => (text? s).bind (List.lookup · variants)
  | _ + 1, .object [(key, .null)] => (text? key).bind (List.lookup · variants)
  | _, _ => none

theorem soleKey_member {w : List Char} (hw : Blanks w) (rest : List Char) :
    soleKey (w ++ '"' :: rest) = string rest := by
  unfold soleKey
  rw [skipBlank_append hw, skipBlank_cons (by decide)]
  rfl

theorem soleKey_end {w : List Char} (hw : Blanks w) (rest : List Char) :
    (soleKey (w ++ '\x7d' :: rest)).toOption = none := by
  unfold soleKey
  rw [skipBlank_append hw, skipBlank_cons (by decide)]
  rfl

/-- What becomes of a text where a name is expected. -/
def finishName (variants : List (String × α)) (r : String × List Char) :
    Except ReadError (α × List Char) :=
  match variants.lookup r.1 with
  | some a => .ok (a, r.2)
  | none => here (.unknownVariant r.1 (variants.map Prod.fst)) r.2

theorem toOption_finishName (variants : List (String × α)) (r : String × List Char) :
    (finishName variants r).toOption = (variants.lookup r.1).map (·, r.2) := by
  unfold finishName
  cases variants.lookup r.1 <;> rfl

theorem toOption_string_finish (variants : List (String × α)) {us : Units} {raw : List Char}
    (h : SpellsUnits us raw) (rest : List Char) :
    (string (raw ++ '"' :: rest) >>= finishName variants).toOption =
      ((text? us).bind (List.lookup · variants)).map (·, rest) := by
  rw [toOption_bind, toOption_string h]
  cases text? us with
  | none => rfl
  | some s => exact toOption_finishName variants (s, rest)

/-- Behind the null of a name's object its brace is due. -/
def finishObject (a : α) (text : List Char) : Except ReadError (α × List Char) :=
  match skipBlank text with
  | [] => here .endInObject []
  | d :: rest => if d = '\x7d' then .ok (a, rest) else here .expectedValue (d :: rest)

/-- The null of a name's object. -/
def finishNull (a : α) (text : List Char) : Except ReadError (α × List Char) := do
  let text ← colon text
  let text ←
    match skipBlank text with
    | [] => atPeek .endInValue []
    | 'n' :: rest => literal "ull".toList rest
    | text => refuse "unit" text
  finishObject a text

theorem finishObject_end {w : List Char} (hw : Blanks w) (a : α) (rest : List Char) :
    finishObject a (w ++ '\x7d' :: rest) = .ok (a, rest) := by
  rw [finishObject, skipBlank_append hw, skipBlank_cons (by decide)]
  rfl

theorem toOption_finishObject_more {m : Member} {ms : List Member} {u : List Char}
    (h : SpellsMoreMembers (m :: ms) u) (a : α) (rest : List Char) :
    (finishObject a (u ++ rest)).toOption = none := by
  cases h with
  | cons hw =>
    rw [finishObject, List.append_assoc, skipBlank_append hw, List.cons_append,
      skipBlank_cons (by decide)]
    rfl

theorem finishNull_null {w w' : List Char} (hw : Blanks w) (hw' : Blanks w') (a : α)
    (rest : List Char) :
    finishNull a (w ++ ':' :: (w' ++ ('n' :: 'u' :: 'l' :: 'l' :: rest))) =
      finishObject a rest := by
  rw [finishNull, colon_append hw]
  simp only [bind, Except.bind, skipBlank_append hw']
  rfl

theorem toOption_finishNull_other {d : Doc} (hne : d ≠ .null) {t w w' : List Char}
    (hd : Spells d t) (hw : Blanks w) (hw' : Blanks w') (a : α) (rest : List Char) :
    (finishNull a (w ++ ':' :: (w' ++ (t ++ rest)))).toOption = none := by
  rw [finishNull, colon_append hw]
  simp only [toOption_bind, toOption_ok, Option.bind_some, hd.skipBlank hw']
  cases hd with
  | null => exact absurd rfl hne
  | positive h =>
    split
    case h_1 => rfl
    case h_2 heq => exact absurd heq (h.head_ne (by decide) _ _)
    case h_3 => simp
  | true | false | string | negative | array | object => simp

theorem expectName_object (variants : List (String × α)) (depth : Nat) (text : List Char) :
    expectName variants (depth + 1) ('\x7b' :: text) =
      (soleKey text >>= finishName variants) >>= fun p => finishNull p.1 p.2 := by
  rw [expectName, skipBlank_cons (by decide)]
  rfl

/-- An object names a variant if it has one member, a null under that name. -/
theorem toOption_expectName_members (variants : List (String × α)) {ms : List Member}
    {t : List Char} (h : SpellsMembers ms t) (depth : Nat) (rest : List Char) :
    (expectName variants (depth + 1) ('\x7b' :: (t ++ '\x7d' :: rest))).toOption =
      (viewName variants (depth + 1) (.object ms)).map (·, rest) := by
  rw [expectName_object]
  cases h with
  | nil hw =>
    simp [soleKey_end hw, viewName]
  | @cons m ms w s u hw hm hu =>
    cases hm with
    | @intro key d raw w₁ w₂ t hkey hw₁ hw₂ hd =>
      have htext : w ++ '"' :: (raw ++ '"' :: (w₁ ++ ':' :: (w₂ ++ t)) ++ u) ++ '\x7d' :: rest =
          w ++ '"' :: (raw ++ '"' :: (w₁ ++ ':' :: (w₂ ++ (t ++ (u ++ '\x7d' :: rest))))) := by
        simp
      rw [htext, soleKey_member hw, toOption_bind, toOption_string_finish variants hkey]
      by_cases hnull : d = .null
      · subst hnull
        cases hd
        cases ms with
        | nil =>
          cases hu with
          | @nil u hw₃ =>
            cases hvariant : (text? key).bind (List.lookup · variants) with
            | none => simp [viewName, hvariant]
            | some a =>
              simp only [viewName, hvariant, Option.map_some, Option.bind_some]
              have hnull := finishNull_null hw₁ hw₂ a (u ++ '\x7d' :: rest)
              simp [hnull, finishObject_end hw₃]
        | cons m ms =>
          cases hvariant : (text? key).bind (List.lookup · variants) with
          | none => simp [viewName]
          | some a =>
            have hnull := finishNull_null hw₁ hw₂ a (u ++ '\x7d' :: rest)
            simp [viewName, hnull, toOption_finishObject_more hu]
      · have hview : viewName variants (depth + 1) (.object ((key, d) :: ms)) = none := by
          cases ms with
          | nil => cases d <;> first | rfl | exact absurd rfl hnull
          | cons m ms => cases d <;> rfl
        rw [hview]
        cases (text? key).bind (List.lookup · variants) with
        | none => rfl
        | some a => exact toOption_finishNull_other hnull hd hw₁ hw₂ a _

theorem reads_expectName (variants : List (String × α)) (depth : Nat) :
    Reads (expectName variants depth) (viewName variants depth) := by
  intro d t hd w rest hw hrest
  have hblanks : expectName variants depth (w ++ (t ++ rest)) =
      expectName variants depth (t ++ rest) := by
    rw [expectName, expectName, hd.skipBlank hw, hd.skipBlank_self]
  rw [hblanks]
  cases hd with
  | object h =>
    rw [List.cons_append, List.append_assoc, List.singleton_append]
    cases depth with
    | zero =>
      rw [expectName, skipBlank_cons (by decide)]
      simp [viewName]
    | succ depth => exact toOption_expectName_members variants h depth rest
  | string h =>
    rw [List.cons_append, List.append_assoc, List.singleton_append]
    cases depth <;> exact toOption_string_finish variants h rest
  | positive h =>
    obtain ⟨c, tail, rfl, hc⟩ := h.exists_cons
    have hblank := (Opens.plain (.inr hc)).1
    have hbrace : c ≠ '\x7b' := by
      rintro rfl
      cases hc
    rw [expectName, List.cons_append, skipBlank_cons hblank]
    have hview : viewName variants depth (.number false (c :: tail)) = none := by
      cases depth <;> rfl
    rw [hview]
    split
    case h_1 => rfl
    case h_2 heq =>
      obtain ⟨rfl, -⟩ := List.cons.inj heq
      cases hc
    case h_3 heq =>
      obtain ⟨rfl, -⟩ := List.cons.inj heq
      rw [if_neg hbrace]
      rfl
  | null | true | false | negative | array => cases depth <;> rfl

end Json
end ShellPrompt
