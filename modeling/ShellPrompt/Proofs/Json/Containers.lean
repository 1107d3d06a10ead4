import ShellPrompt.Proofs.Json.Numbers

/-!
# ShellPrompt.Proofs.Json.Containers

Reading the lists and objects of a document.

`Reads r view` says that the reader `r` takes from any text of a document what `view` finds in the
document itself, and refuses the text if that is nothing. Lists and objects are read item by item
and member by member (`toOption_listBody`, `toOption_objectBody`), so a reader of a container reads
what its parts do. `reads_value` puts this together for values of any kind.
-/

namespace ShellPrompt
namespace Json

variable {α : Type}

def Reads (r : Reader α) (view : Doc → Option α) : Prop :=
  ∀ d t, Spells d t → ∀ w rest, Blanks w → Fenced rest →
    (r (w ++ (t ++ rest))).toOption = (view d).map (·, rest)

/-- A whole text. -/
theorem toOption_whole {reader : Reader α} {view : Doc → Option α}
    (h : Reads reader view) {d : Doc} {text : String} (htext : SpellsText d text) :
    (whole reader text.toList).toOption = view d := by
  obtain ⟨w, t, w', hw, hd, hw', heq⟩ := htext
  have hfenced : Fenced w' := by
    have := Fenced.blanks hw' .nil
    rwa [List.append_nil] at this
  rw [whole, heq, toOption_bind, h d t hd w w' hw hfenced]
  cases view d with
  | none => rfl
  | some a => simp [skipBlank_blanks hw']

/-! ## Lists -/

section Lists

variable {item : Reader α} {view : Doc → Option α}

theorem nextItem_end {w : List Char} (hw : Blanks w) (isFirst : Bool) (rest : List Char) :
    nextItem isFirst (w ++ ']' :: rest) = .ok (false, ']' :: rest) := by
  rw [nextItem, skipBlank_append hw, skipBlank_cons (by decide)]
  rfl

theorem nextItem_first {d : Doc} {t w : List Char} (h : Spells d t) (hw : Blanks w)
    (rest : List Char) : nextItem true (w ++ (t ++ rest)) = .ok (true, t ++ rest) := by
  rw [nextItem, h.skipBlank hw]
  obtain ⟨c, tail, rfl, hc⟩ := h.exists_cons
  have hclose := hc.plain.2.1
  split <;> simp_all

theorem nextItem_more {d : Doc} {t w w' : List Char} (h : Spells d t) (hw : Blanks w)
    (hw' : Blanks w') (rest : List Char) :
    nextItem false (w ++ ',' :: (w' ++ (t ++ rest))) = .ok (true, t ++ rest) := by
  rw [nextItem, skipBlank_append hw, skipBlank_cons (by decide)]
  have hskip := h.skipBlank hw' rest
  obtain ⟨c, tail, rfl, hc⟩ := h.exists_cons
  have hclose := hc.plain.2.1
  split
  case h_1 heq => cases heq
  case h_2 heq => exact absurd (List.cons.inj heq).1 (by decide)
  case h_3 heq =>
    obtain ⟨rfl, rfl⟩ := List.cons.inj heq
    rw [if_neg (by decide), if_pos rfl, hskip]
    split <;> simp_all

theorem toOption_moreItems (hitem : Reads item view) {ds : List Doc} {t : List Char}
    (h : SpellsMoreItems ds t) (bound : Nat) (rest : List Char) :
    (items item (ds.length + 1 + bound) false (t ++ ']' :: rest)).toOption =
      (ds.mapM view).map (·, ']' :: rest) := by
  induction ds generalizing t with
  | nil =>
    cases h with
    | nil hw =>
      rw [List.length_nil, Nat.zero_add, Nat.add_comm, items, nextItem_end hw]
      rfl
  | cons d ds ih =>
    cases h with
    | @cons _ _ w w' s u hw hw' hs hu =>
      have hbound : (d :: ds).length + 1 + bound = (ds.length + 1 + bound) + 1 := by
        rw [List.length_cons]
        omega
      have htext : w ++ ',' :: (w' ++ (s ++ u)) ++ ']' :: rest =
          w ++ ',' :: (w' ++ (s ++ (u ++ ']' :: rest))) := by simp
      have hread := hitem d s hs [] (u ++ ']' :: rest) blanks_nil (hu.fenced rest)
      rw [List.nil_append] at hread
      rw [hbound, htext, items, nextItem_more hs hw hw']
      simp only [toOption_bind, toOption_ok, Option.bind_some, if_true, hread, List.mapM_cons]
      cases view d with
      | none => rfl
      | some a =>
        simp only [Option.map_some, Option.bind_some, ih hu]
        cases ds.mapM view <;> rfl

theorem toOption_items (hitem : Reads item view) {ds : List Doc} {t : List Char}
    (h : SpellsItems ds t) (bound : Nat) (rest : List Char) :
    (items item (ds.length + 1 + bound) true (t ++ ']' :: rest)).toOption =
      (ds.mapM view).map (·, ']' :: rest) := by
  cases h with
  | nil hw =>
    rw [List.length_nil, Nat.zero_add, Nat.add_comm, items, nextItem_end hw]
    rfl
  | @cons d ds w s u hw hs hu =>
    have hbound : (d :: ds).length + 1 + bound = (ds.length + 1 + bound) + 1 := by
      rw [List.length_cons]
      omega
    have htext : w ++ (s ++ u) ++ ']' :: rest = w ++ (s ++ (u ++ ']' :: rest)) := by simp
    have hread := hitem d s hs [] (u ++ ']' :: rest) blanks_nil (hu.fenced rest)
    rw [List.nil_append] at hread
    rw [hbound, htext, items, nextItem_first hs hw]
    simp only [toOption_bind, toOption_ok, Option.bind_some, if_true, hread, List.mapM_cons]
    cases view d with
    | none => rfl
    | some a =>
      simp only [Option.map_some, Option.bind_some, toOption_moreItems hitem hu]
      cases ds.mapM view <;> rfl

theorem SpellsMoreItems.length_le {ds : List Doc} {t : List Char} (h : SpellsMoreItems ds t) :
    ds.length ≤ t.length := by
  induction ds generalizing t with
  | nil => exact Nat.zero_le _
  | cons d ds ih =>
    cases h with
    | cons _ _ _ hu =>
      have := ih hu
      simp only [List.length_append, List.length_cons]
      omega

theorem SpellsItems.length_le {ds : List Doc} {t : List Char} (h : SpellsItems ds t) :
    ds.length ≤ t.length := by
  cases h with
  | nil => exact Nat.zero_le _
  | cons _ hs hu =>
    obtain ⟨c, tail, rfl, -⟩ := hs.exists_cons
    have := hu.length_le
    simp only [List.length_append, List.length_cons]
    omega

theorem endList_close (rest : List Char) : endList (']' :: rest) = .ok rest := by
  rw [endList, skipBlank_cons (by decide)]
  rfl

theorem toOption_listBody (hitem : Reads item view) {ds : List Doc} {t : List Char}
    (h : SpellsItems ds t) (rest : List Char) :
    (listBody item (t ++ ']' :: rest)).toOption = (ds.mapM view).map (·, rest) := by
  have hlength := h.length_le
  obtain ⟨spare, hspare⟩ : ∃ spare, (t ++ ']' :: rest).length = ds.length + 1 + spare :=
    ⟨t.length - ds.length + rest.length, by simp; omega⟩
  rw [listBody, hspare]
  simp only [toOption_bind, toOption_items hitem h]
  cases ds.mapM view <;> simp [endList_close]

end Lists

/-! ## Objects -/

/-- What a reader of members takes from the members of a document, one after the other. The keys
have to be texts. -/
def viewMembers (view : String → α → Doc → Option α) : α → List Member → Option α
  | acc, [] => some acc
  | acc, (key, d) :: rest =>
    (text? key).bind fun key => (view key acc d).bind fun acc => viewMembers view acc rest

/-- The reader `member` takes what `view` finds in the value of a member, the key being read. -/
def ReadsMember (member : String → α → Reader α) (view : String → α → Doc → Option α) : Prop :=
  ∀ key acc d t, Spells d t → ∀ w w' rest, Blanks w → Blanks w' → Fenced rest →
    (member key acc (w ++ ':' :: (w' ++ (t ++ rest)))).toOption =
      (view key acc d).map (·, rest)

section Objects

variable {member : String → α → Reader α} {view : String → α → Doc → Option α}

theorem nextKey_end {w : List Char} (hw : Blanks w) (isFirst : Bool) (rest : List Char) :
    nextKey isFirst (w ++ '\x7d' :: rest) = .ok (false, '\x7d' :: rest) := by
  rw [nextKey, skipBlank_append hw, skipBlank_cons (by decide)]
  rfl

theorem nextKey_first {w : List Char} (hw : Blanks w) (rest : List Char) :
    nextKey true (w ++ '"' :: rest) = .ok (true, rest) := by
  rw [nextKey, skipBlank_append hw, skipBlank_cons (by decide)]
  rfl

theorem nextKey_more {w w' : List Char} (hw : Blanks w) (hw' : Blanks w') (rest : List Char) :
    nextKey false (w ++ ',' :: (w' ++ '"' :: rest)) = .ok (true, rest) := by
  rw [nextKey, skipBlank_append hw, skipBlank_cons (by decide)]
  simp only [skipBlank_append hw', skipBlank_cons (show isBlank '"' = false by decide)]
  rfl

theorem colon_append {w : List Char} (hw : Blanks w) (rest : List Char) :
    colon (w ++ ':' :: rest) = .ok rest := by
  rw [colon, skipBlank_append hw, skipBlank_cons (by decide)]
  rfl

/-- One member: its key, its colon and its value. -/
theorem toOption_member (hmember : ReadsMember member view) {key : Units} {d : Doc}
    {t : List Char} (h : SpellsMember (key, d) t) (acc : α) {rest : List Char}
    (hrest : Fenced rest) {β : Type} (next : α → Reader β) :
    (do
      let (key, text) ← string (t ++ rest)
      let (acc, text) ← member key acc text
      next acc text).toOption =
    (text? key).bind fun key => (view key acc d).bind fun acc => (next acc rest).toOption := by
  cases h with
  | @intro _ _ raw w w' s hkey hw hw' hs =>
    have htext : raw ++ '"' :: (w ++ ':' :: (w' ++ s)) ++ rest =
        raw ++ '"' :: (w ++ ':' :: (w' ++ (s ++ rest))) := by simp
    rw [htext, toOption_bind, toOption_string hkey]
    cases text? key with
    | none => rfl
    | some key =>
      simp only [Option.map_some, Option.bind_some, toOption_bind,
        hmember key acc d s hs w w' rest hw hw' hrest]
      cases view key acc d <;> rfl

theorem toOption_moreMembers (hmember : ReadsMember member view) {ms : List Member}
    {t : List Char} (h : SpellsMoreMembers ms t) (bound : Nat) (acc : α) (rest : List Char) :
    (members member (ms.length + 1 + bound) false acc (t ++ '\x7d' :: rest)).toOption =
      (viewMembers view acc ms).map (·, '\x7d' :: rest) := by
  induction ms generalizing t acc with
  | nil =>
    cases h with
    | nil hw =>
      rw [List.length_nil, Nat.zero_add, Nat.add_comm, members, nextKey_end hw]
      rfl
  | cons m ms ih =>
    obtain ⟨key, d⟩ := m
    cases h with
    | @cons _ _ w w' s u hw hw' hs hu =>
      have hbound : ((key, d) :: ms).length + 1 + bound = (ms.length + 1 + bound) + 1 := by
        rw [List.length_cons]
        omega
      have htext : w ++ ',' :: (w' ++ '"' :: (s ++ u)) ++ '\x7d' :: rest =
          w ++ ',' :: (w' ++ '"' :: (s ++ (u ++ '\x7d' :: rest))) := by simp
      rw [hbound, htext, members, nextKey_more hw hw', toOption_bind]
      simp only [toOption_ok, Option.bind_some, if_true]
      rw [toOption_member hmember hs acc (hu.fenced rest), viewMembers]
      simp only [ih hu, Option.map_bind, Function.comp_def]

theorem toOption_members (hmember : ReadsMember member view) {ms : List Member}
    {t : List Char} (h : SpellsMembers ms t) (bound : Nat) (acc : α) (rest : List Char) :
    (members member (ms.length + 1 + bound) true acc (t ++ '\x7d' :: rest)).toOption =
      (viewMembers view acc ms).map (·, '\x7d' :: rest) := by
  cases h with
  | nil hw =>
    rw [List.length_nil, Nat.zero_add, Nat.add_comm, members, nextKey_end hw]
    rfl
  | @cons m ms w s u hw hs hu =>
    obtain ⟨key, d⟩ := m
    have hbound : ((key, d) :: ms).length + 1 + bound = (ms.length + 1 + bound) + 1 := by
      rw [List.length_cons]
      omega
    have htext : w ++ '"' :: (s ++ u) ++ '\x7d' :: rest =
        w ++ '"' :: (s ++ (u ++ '\x7d' :: rest)) := by simp
    rw [hbound, htext, members, nextKey_first hw, toOption_bind]
    simp only [toOption_ok, Option.bind_some, if_true]
    rw [toOption_member hmember hs acc (hu.fenced rest), viewMembers]
    simp only [toOption_moreMembers hmember hu, Option.map_bind, Function.comp_def]

theorem SpellsMoreMembers.length_le {ms : List Member} {t : List Char}
    (h : SpellsMoreMembers ms t) : ms.length ≤ t.length := by
  induction ms generalizing t with
  | nil => exact Nat.zero_le _
  | cons m ms ih =>
    cases h with
    | cons _ _ _ hu =>
      have := ih hu
      simp only [List.length_append, List.length_cons]
      omega

theorem SpellsMembers.length_le {ms : List Member} {t : List Char} (h : SpellsMembers ms t) :
    ms.length ≤ t.length := by
  cases h with
  | nil => exact Nat.zero_le _
  | cons _ _ hu =>
    have := hu.length_le
    simp only [List.length_append, List.length_cons]
    omega

theorem endObject_close (rest : List Char) : endObject ('\x7d' :: rest) = .ok rest := by
  rw [endObject, skipBlank_cons (by decide)]
  rfl

theorem toOption_objectBody (hmember : ReadsMember member view) {ms : List Member}
    {t : List Char} (h : SpellsMembers ms t) (initial : α) (rest : List Char) :
    (objectBody member initial (t ++ '\x7d' :: rest)).toOption =
      (viewMembers view initial ms).map (·, rest) := by
  have hlength := h.length_le
  obtain ⟨spare, hspare⟩ : ∃ spare, (t ++ '\x7d' :: rest).length = ms.length + 1 + spare :=
    ⟨t.length - ms.length + rest.length, by simp; omega⟩
  rw [objectBody, hspare]
  simp only [toOption_bind, toOption_members hmember h]
  cases viewMembers view initial ms <;> simp [endObject_close]

end Objects

/-! ## Tables -/

/-- An object as a table of what `view` finds in the values; the last of equal keys counts. -/
def table? (view : Doc → Option α) (ms : List Member) : Option (Table α) :=
  viewMembers (fun key table d => (view d).map (Table.insert key · table)) [] ms

theorem readsMember_table {value : Reader α} {view : Doc → Option α} (h : Reads value view) :
    ReadsMember (tableMember value)
      fun key table d => (view d).map (Table.insert key · table) := by
  intro key table d t hd w w' rest hw hw' hrest
  rw [tableMember, toOption_bind, colon_append hw]
  simp only [toOption_ok, Option.bind_some, toOption_bind, h d t hd w' rest hw' hrest]
  cases view d <;> rfl

/-! ## Values -/

/-- The value a document holds, nesting at most that deep. -/
def value? : Nat → Doc → Option Value
  | _, .null => some .null
  | _, .bool b => some (.bool b)
  | _, .number negative digits => (number? negative digits).map .number
  | _, .string s => (text? s).map .string
  | 0, .array _ => none
  | depth + 1, .array items => (items.mapM (value? depth)).map .array
  | 0, .object _ => none
  | depth + 1, .object members => (table? (value? depth) members).map .object

theorem value_number {digits : List Char} (h : Unsigned digits) (depth : Nat) (rest : List Char) :
    value depth (digits ++ rest) =
      (number false (digits ++ rest)).map fun p => (.number p.1, p.2) := by
  obtain ⟨c, tail, rfl, hc⟩ := h.exists_cons
  have hblank := (Opens.plain (.inr hc)).1
  rw [value, List.cons_append, skipBlank_cons hblank]
  have hcases := isDigit_cases hc
  simp only [List.mem_cons, List.not_mem_nil, or_false] at hcases
  rcases hcases with rfl | rfl | rfl | rfl | rfl | rfl | rfl | rfl | rfl | rfl <;> rfl

theorem value_blanks {w : List Char} (hw : Blanks w) (depth : Nat) (text : List Char) :
    value depth (w ++ text) = value depth text := by
  unfold value
  rw [skipBlank_append hw]

/-- A document without parts. -/
def Doc.IsScalar : Doc → Prop
  | .array _ => False
  | .object _ => False
  | _ => True

theorem toOption_value_scalar (depth : Nat) {d : Doc} {t : List Char} (hd : Spells d t)
    (hscalar : d.IsScalar) {rest : List Char} (hrest : Fenced rest) :
    (value depth (t ++ rest)).toOption = (value? depth d).map (·, rest) := by
  cases hd with
  | null => cases depth <;> rfl
  | true => cases depth <;> rfl
  | false => cases depth <;> rfl
  | positive h =>
    rw [value_number h, toOption_map, toOption_number h hrest]
    cases depth <;> simp [value?, Function.comp_def]
  | negative h =>
    rw [List.cons_append, value, skipBlank_cons (by decide)]
    simp only [toOption_map, toOption_number h hrest]
    cases depth <;> simp [value?, Function.comp_def]
  | string h =>
    rw [List.cons_append, List.append_assoc, value, skipBlank_cons (by decide)]
    simp only [toOption_map, List.singleton_append, toOption_string h]
    cases depth <;> simp [value?, Function.comp_def]
  | array _ => exact hscalar.elim
  | object _ => exact hscalar.elim

theorem value_array (depth : Nat) (text : List Char) :
    value (depth + 1) ('[' :: text) =
      (listBody (value depth) text).map fun p => (.array p.1, p.2) := by
  rw [value, skipBlank_cons (by decide)]
  rfl

theorem value_object (depth : Nat) (text : List Char) :
    value (depth + 1) ('\x7b' :: text) =
      (objectBody (tableMember (value depth)) [] text).map fun p => (.object p.1, p.2) := by
  rw [value, skipBlank_cons (by decide)]
  rfl

theorem reads_value (depth : Nat) : Reads (value depth) (value? depth) := by
  induction depth with
  | zero =>
    intro d t hd w rest hw hrest
    rw [value_blanks hw]
    by_cases hscalar : d.IsScalar
    · exact toOption_value_scalar 0 hd hscalar hrest
    · cases hd with
      | array _ => rfl
      | object _ => rfl
      | _ => exact absurd trivial hscalar
  | succ depth ih =>
    intro d t hd w rest hw hrest
    rw [value_blanks hw]
    by_cases hscalar : d.IsScalar
    · exact toOption_value_scalar _ hd hscalar hrest
    · cases hd with
      | array h =>
        rw [List.cons_append, List.append_assoc, List.singleton_append, value_array, toOption_map,
          toOption_listBody ih h]
        simp [value?, Function.comp_def]
      | object h =>
        rw [List.cons_append, List.append_assoc, List.singleton_append, value_object, toOption_map,
          toOption_objectBody (readsMember_table ih) h]
        simp [value?, table?, Function.comp_def]
      | _ => exact absurd trivial hscalar

end Json
end ShellPrompt
