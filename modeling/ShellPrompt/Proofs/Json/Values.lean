import ShellPrompt.Proofs.Json.Members
import ShellPrompt.Proofs.Json.Spelling

/-!
# ShellPrompt.Proofs.Json.Values

Values as documents. `Value.doc` is the document a value is printed as (`Value.spells_print`), and
a value that was read is found in its document again, however deep it nests (`yields_value`).
Floating numbers are left aside: what is read back is the nearest of 64 bits.
-/

namespace ShellPrompt
namespace Json

variable {α β : Type}

/-! ## What readers yield -/

theorem map_eq_ok_iff {ε : Type} {x : Except ε α} {f : α → β} {b : β} :
    x.map f = .ok b ↔ ∃ a, x = .ok a ∧ f a = b := by
  cases x <;> simp [Except.map]

theorem bind_eq_ok_iff {ε : Type} {x : Except ε α} {f : α → Except ε β} {b : β} :
    x >>= f = .ok b ↔ ∃ a, x = .ok a ∧ f a = .ok b := by
  cases x <;> simp [bind, Except.bind]

section Yielding

variable {P : α → Prop}

theorem yields_items {item : Reader α} (h : Yields item P) (bound : Nat) (isFirst : Bool) :
    Yields (items item bound isFirst) fun found => ∀ a ∈ found, P a := by
  induction bound generalizing isFirst with
  | zero =>
    intro text found rest hread
    cases hread
    simp
  | succ bound ih =>
    intro text found rest hread
    rw [items, bind_eq_ok_iff] at hread
    obtain ⟨⟨more, text'⟩, -, hread⟩ := hread
    cases more with
    | false =>
      cases hread
      simp
    | true =>
      simp only [if_true, bind_eq_ok_iff] at hread
      obtain ⟨⟨a, text₁⟩, ha, ⟨others, text₂⟩, hothers, hread⟩ := hread
      cases hread
      exact List.forall_mem_cons.2 ⟨h _ _ _ ha, ih false _ _ _ hothers⟩

theorem yields_listBody {item : Reader α} (h : Yields item P) :
    Yields (listBody item) fun found => ∀ a ∈ found, P a := by
  intro text found rest hread
  rw [listBody, bind_eq_ok_iff] at hread
  obtain ⟨⟨found', text'⟩, hitems, hread⟩ := hread
  obtain ⟨text'', -, hread⟩ := bind_eq_ok_iff.1 hread
  cases hread
  exact yields_items h _ _ _ _ _ hitems

theorem yields_members {member : String → α → Reader α}
    (h : ∀ key acc, P acc → Yields (member key acc) P) (bound : Nat) (isFirst : Bool) {acc : α}
    (hacc : P acc) : Yields (members member bound isFirst acc) P := by
  induction bound generalizing isFirst acc with
  | zero =>
    intro text found rest hread
    cases hread
    exact hacc
  | succ bound ih =>
    intro text found rest hread
    rw [members, bind_eq_ok_iff] at hread
    obtain ⟨⟨more, text'⟩, -, hread⟩ := hread
    cases more with
    | false =>
      cases hread
      exact hacc
    | true =>
      simp only [if_true, bind_eq_ok_iff] at hread
      obtain ⟨⟨key, text₁⟩, -, ⟨acc', text₂⟩, hmember, hread⟩ := hread
      exact ih false (h key acc hacc _ _ _ hmember) _ _ _ hread

theorem yields_objectBody {member : String → α → Reader α}
    (h : ∀ key acc, P acc → Yields (member key acc) P) {initial : α} (hinitial : P initial) :
    Yields (objectBody member initial) P := by
  intro text found rest hread
  rw [objectBody, bind_eq_ok_iff] at hread
  obtain ⟨⟨found', text'⟩, hmembers, hread⟩ := hread
  obtain ⟨text'', -, hread⟩ := bind_eq_ok_iff.1 hread
  cases hread
  exact yields_members h _ _ hinitial _ _ _ hmembers

/-- The tables that are read are sorted. -/
theorem yields_table {value : Reader α} (h : Yields value P) :
    Yields (objectBody (tableMember value) []) fun table =>
      Table.Sorted table ∧ ∀ e ∈ table, P e.2 := by
  refine yields_objectBody ?_ ⟨Table.sorted_nil, by simp⟩
  rintro key table ⟨hsorted, hall⟩ text found rest hread
  obtain ⟨text', -, hread⟩ := bind_eq_ok_iff.1 hread
  obtain ⟨⟨a, text''⟩, ha, hread⟩ := bind_eq_ok_iff.1 hread
  cases hread
  refine ⟨Table.sorted_insert hsorted key a, ?_⟩
  intro e he
  rcases Table.mem_insert he with rfl | he
  · exact h _ _ _ ha
  · exact hall e he

end Yielding

/-! ## Values as documents -/

def Number.doc : Number → Doc
  | .int z => .number (decide (z < 0)) (Text.Numeral.decimal z.natAbs)
  | .float x => .number x.isNegative (x.text.dropWhile (· == '-'))

mutual

def Value.doc : Value → Doc
  | .null => .null
  | .bool b => .bool b
  | .number n => n.doc
  | .string s => .string (units s)
  | .array items => .array (docItems items)
  | .object members => .object (docMembers members)

def docItems : List Value → List Doc
  | [] => []
  | v :: rest => v.doc :: docItems rest

def docMembers : List (String × Value) → List Member
  | [] => []
  | m :: rest => docEntry m :: docMembers rest

def docEntry : String × Value → Member
  | (key, v) => (units key, v.doc)

end

/-- A floating number stands somewhere in the value. -/
inductive Value.HoldsFloat : Value → Prop where
  | here (x : Binary64) : HoldsFloat (.number (.float x))
  | item {v : Value} {items : List Value} : v ∈ items → HoldsFloat v → HoldsFloat (.array items)
  | member {e : String × Value} {members : List (String × Value)} :
      e ∈ members → HoldsFloat e.2 → HoldsFloat (.object members)

theorem docItems_eq (items : List Value) : docItems items = items.map Value.doc := by
  induction items with
  | nil => rfl
  | cons v items ih => exact congrArg (v.doc :: ·) ih

theorem docMembers_eq (members : List (String × Value)) :
    docMembers members = members.map fun e => (units e.1, e.2.doc) := by
  induction members with
  | nil => rfl
  | cons e members ih =>
    obtain ⟨key, v⟩ := e
    exact congrArg ((units key, v.doc) :: ·) ih

theorem Value.doc_array (items : List Value) :
    (Value.array items).doc = .array (items.map Value.doc) :=
  congrArg Doc.array (docItems_eq items)

theorem Value.doc_object (members : List (String × Value)) :
    (Value.object members).doc = .object (members.map fun e => (units e.1, e.2.doc)) :=
  congrArg Doc.object (docMembers_eq members)

theorem printItems_eq (items : List Value) : printItems items = items.map Value.print := by
  induction items with
  | nil => rfl
  | cons v items ih => exact congrArg (v.print :: ·) ih

theorem printMembers_eq (members : List (String × Value)) :
    printMembers members = members.map fun e => (e.1, e.2.print) := by
  induction members with
  | nil => rfl
  | cons e members ih =>
    obtain ⟨key, v⟩ := e
    exact congrArg ((key, v.print) :: ·) ih

theorem Value.print_array (items : List Value) :
    (Value.array items).print = printList (items.map Value.print) :=
  congrArg printList (printItems_eq items)

theorem Value.print_object (members : List (String × Value)) :
    (Value.object members).print = printObject (members.map fun e => (e.1, e.2.print)) :=
  congrArg printObject (printMembers_eq members)

mutual

theorem Value.spells_print : ∀ {v : Value}, ¬ v.HoldsFloat → Spells v.doc v.print
  | .null, _ => .null
  | .bool true, _ => .true
  | .bool false, _ => .false
  | .number (.int z), _ => spells_signed z
  | .number (.float x), h => absurd (.here x) h
  | .string s, _ => spells_printString s
  | .array items, h => by
    have hitems := spells_printItems items fun v hv hfloat => h (.item hv hfloat)
    rw [Value.doc_array, Value.print_array]
    exact spells_printList hitems
  | .object members, h => by
    have hmembers := spells_printMembers members fun e he hfloat => h (.member he hfloat)
    rw [Value.doc_object, Value.print_object]
    exact spells_printObject Prod.fst hmembers

theorem spells_printItems : ∀ items : List Value, (∀ v ∈ items, ¬ v.HoldsFloat) →
    ∀ v ∈ items, Spells v.doc v.print
  | [], _ => by simp
  | v :: items, h => by
    obtain ⟨hfirst, hrest⟩ := List.forall_mem_cons.1 h
    exact List.forall_mem_cons.2 ⟨Value.spells_print hfirst, spells_printItems items hrest⟩

theorem spells_printMembers : ∀ members : List (String × Value),
    (∀ e ∈ members, ¬ e.2.HoldsFloat) → ∀ e ∈ members, Spells e.2.doc e.2.print
  | [], _ => by simp
  | e :: members, h => by
    obtain ⟨hfirst, hrest⟩ := List.forall_mem_cons.1 h
    exact List.forall_mem_cons.2 ⟨spells_printEntry e hfirst, spells_printMembers members hrest⟩

theorem spells_printEntry : ∀ e : String × Value, ¬ e.2.HoldsFloat → Spells e.2.doc e.2.print
  | (_, _), h => Value.spells_print h

end

/-! ## Reading a printed value -/

/-- The value is found in its own document. -/
def Value.Returns (depth : Nat) (v : Value) : Prop :=
  ¬ v.HoldsFloat → value? depth v.doc = some v

theorem mapM_map_eq_some {f : β → Option α} {g : α → β} {items : List α}
    (h : ∀ a ∈ items, f (g a) = some a) : (items.map g).mapM f = some items := by
  induction items with
  | nil => rfl
  | cons a items ih =>
    obtain ⟨hfirst, hrest⟩ := List.forall_mem_cons.1 h
    rw [List.map_cons, List.mapM_cons, hfirst, ih hrest]
    rfl

theorem Value.returns_array {depth : Nat} {items : List Value}
    (h : ∀ v ∈ items, v.Returns depth) : (Value.array items).Returns (depth + 1) := by
  intro hfloat
  have hitems : (items.map Value.doc).mapM (value? depth) = some items :=
    mapM_map_eq_some fun v hv => h v hv fun hv' => hfloat (.item hv hv')
  rw [Value.doc_array, value?, hitems]
  rfl

theorem Value.returns_object {depth : Nat} {members : Table Value} (hsorted : Table.Sorted members)
    (h : ∀ e ∈ members, e.2.Returns depth) : (Value.object members).Returns (depth + 1) := by
  intro hfloat
  have hmembers :
      table? (value? depth) (members.map fun e => (units e.1, e.2.doc)) = some members :=
    table?_map hsorted fun e he => h e he fun he' => hfloat (.member he he')
  rw [Value.doc_object, value?, hmembers]
  rfl

theorem Value.returns_number {n : Number} (h : Fits n) (depth : Nat) :
    (Value.number n).Returns depth := by
  intro hfloat
  cases n with
  | float x => exact absurd (.here x) hfloat
  | int z =>
    have hz := number?_int (h z rfl)
    have hview : value? depth (Value.number (.int z)).doc =
        (number? (decide (z < 0)) (Text.Numeral.decimal z.natAbs)).map .number := by
      cases depth <;> rfl
    rw [hview, hz]
    rfl

theorem Value.returns_scalar {v : Value} (h : v = .null ∨ (∃ b, v = .bool b) ∨ ∃ s, v = .string s)
    (depth : Nat) : v.Returns depth := by
  intro _
  rcases h with rfl | ⟨b, rfl⟩ | ⟨s, rfl⟩
  · cases depth <;> rfl
  · cases depth <;> rfl
  · cases depth <;> exact congrArg (Option.map Value.string) (text?_units s)

/-- What the reader of values can return. -/
inductive Found (depth : Nat) : Value → Prop where
  | scalar {v : Value} : (v = .null ∨ (∃ b, v = .bool b) ∨ ∃ s, v = .string s) → Found depth v
  | number {n : Number} : Fits n → Found depth (.number n)
  | array {inner : Nat} {items : List Value} {text rest : List Char} : depth = inner + 1 →
      listBody (value inner) text = .ok (items, rest) → Found depth (.array items)
  | object {inner : Nat} {members : Table Value} {text rest : List Char} : depth = inner + 1 →
      objectBody (tableMember (value inner)) [] text = .ok (members, rest) →
      Found depth (.object members)

theorem found_number {negative : Bool} {text rest : List Char} {v : Value} {depth : Nat}
    (h : ((number negative text).map fun p => (Value.number p.1, p.2)) = .ok (v, rest)) :
    Found depth v := by
  obtain ⟨⟨n, rest'⟩, hn, heq⟩ := map_eq_ok_iff.1 h
  cases heq
  exact .number (yields_number _ _ _ _ hn)

theorem yields_found (depth : Nat) : Yields (value depth) (Found depth) := by
  intro text v rest h
  unfold value at h
  split at h
  case h_1 => cases h
  case h_2 =>
    obtain ⟨text', -, heq⟩ := map_eq_ok_iff.1 h
    cases heq
    exact .scalar (.inl rfl)
  case h_3 =>
    obtain ⟨text', -, heq⟩ := map_eq_ok_iff.1 h
    cases heq
    exact .scalar (.inr (.inl ⟨_, rfl⟩))
  case h_4 =>
    obtain ⟨text', -, heq⟩ := map_eq_ok_iff.1 h
    cases heq
    exact .scalar (.inr (.inl ⟨_, rfl⟩))
  case h_5 => exact found_number h
  case h_6 =>
    obtain ⟨⟨s, text'⟩, -, heq⟩ := map_eq_ok_iff.1 h
    cases heq
    exact .scalar (.inr (.inr ⟨_, rfl⟩))
  case h_7 =>
    cases depth with
    | zero => cases h
    | succ depth =>
      obtain ⟨⟨items, text'⟩, hitems, heq⟩ := map_eq_ok_iff.1 h
      cases heq
      exact .array rfl hitems
  case h_8 =>
    split at h
    · cases depth with
      | zero => cases h
      | succ depth =>
        obtain ⟨⟨members, text'⟩, hmembers, heq⟩ := map_eq_ok_iff.1 h
        cases heq
        exact .object rfl hmembers
    split at h
    · exact found_number h
    · cases h

theorem yields_value (depth : Nat) : Yields (value depth) (Value.Returns depth) := by
  induction depth with
  | zero =>
    intro text v rest h
    cases yields_found 0 _ _ _ h with
    | scalar hv => exact Value.returns_scalar hv 0
    | number hn => exact Value.returns_number hn 0
    | array hdepth _ => cases hdepth
    | object hdepth _ => cases hdepth
  | succ depth ih =>
    intro text v rest h
    cases yields_found _ _ _ _ h with
    | scalar hv => exact Value.returns_scalar hv _
    | number hn => exact Value.returns_number hn _
    | array hdepth hitems =>
      obtain rfl := Nat.succ.inj hdepth
      exact Value.returns_array (yields_listBody ih _ _ _ hitems)
    | object hdepth hmembers =>
      obtain rfl := Nat.succ.inj hdepth
      obtain ⟨hsorted, hall⟩ := yields_table ih _ _ _ hmembers
      exact Value.returns_object hsorted hall

end Json
end ShellPrompt
