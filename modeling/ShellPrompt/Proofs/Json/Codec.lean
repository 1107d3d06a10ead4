import ShellPrompt.Proofs.Json.Typed
import ShellPrompt.Proofs.Json.Values

/-!
# ShellPrompt.Proofs.Json.Codec

A type of values with its two JSON forms, the text that is printed and the documents that are read.

A `Codec` carries the proofs that they agree: the reader takes what the view finds in a document,
whatever the order of members in it, a printed value spells its document, and whatever was read is
found in its document again. Lists, tables, options and records of types with a codec have one.
-/

namespace ShellPrompt
namespace Json

structure Codec (α : Type) where
  /-- The reader, given how deep lists and objects may nest. -/
  read : Nat → Reader α
  view : Nat → Doc → Option α
  print : α → List Char
  write : α → Doc
  /-- Values that are read back as they were printed. -/
  Exact : α → Prop
  /-- The nesting from which on whatever is read is read back. -/
  depth : Nat
  reads : ∀ n, Reads (read n) (view n)
  steady : ∀ n, Steady (view n)
  spells : ∀ a, Exact a → Spells (write a) (print a)
  returns : ∀ n, depth ≤ n → Yields (read n) fun a => Exact a → view n (write a) = some a

namespace Codec

variable {α : Type}

/-- No member to put elsewhere. -/
theorem steady_of_flat {view : Doc → Option α} (harray : ∀ items, view (.array items) = none)
    (hobject : ∀ members, view (.object members) = none) : Steady view := by
  intro d d' h
  cases h with
  | item => rw [harray, harray]
  | swap => rw [hobject, hobject]
  | member => rw [hobject, hobject]

/-! ## Scalars -/

def string : Codec String where
  read _ := expectString
  view _ := viewText
  print := printString
  write s := .string (units s)
  Exact _ := True
  depth := 0
  reads _ := reads_expectString
  steady _ := steady_of_flat (fun _ => rfl) fun _ => rfl
  spells s _ := spells_printString s
  returns _ _ := fun _ s _ _ _ => text?_units s

def bool : Codec Bool where
  read _ := expectBool
  view _ := viewBool
  print b := (Value.bool b).print
  write b := .bool b
  Exact _ := True
  depth := 0
  reads _ := reads_expectBool
  steady _ := steady_of_flat (fun _ => rfl) fun _ => rfl
  spells b _ := by
    cases b
    · exact .false
    · exact .true
  returns _ _ := fun _ _ _ _ _ => rfl

theorem viewInteger_doc {convert? : Int → Option α} {z : Int} {a : α} (h : InWord z)
    (hconvert : convert? z = some a) : viewInteger convert? (Value.int z).doc = some a := by
  have hview : viewInteger convert? (Value.int z).doc =
      (number? (decide (z < 0)) (Text.Numeral.decimal z.natAbs)).bind
        (Number.convert? convert?) := rfl
  rw [hview, number?_int h]
  exact hconvert

/-- A type of integers within 64 bits; `convert?` knows its range. -/
def integer (expected : String) (convert? : Int → Option α) (toInt : α → Int)
    (inWord : ∀ a, InWord (toInt a)) (convert_toInt : ∀ a, convert? (toInt a) = some a) :
    Codec α where
  read _ := expectInteger expected convert?
  view _ := viewInteger convert?
  print a := (Value.int (toInt a)).print
  write a := (Value.int (toInt a)).doc
  Exact _ := True
  depth := 0
  reads _ := reads_expectInteger expected convert?
  steady _ := steady_of_flat (fun _ => rfl) fun _ => rfl
  spells a _ := spells_signed (toInt a)
  returns _ _ := fun _ a _ _ _ => viewInteger_doc (inWord a) (convert_toInt a)

def toUInt64? (z : Int) : Option UInt64 :=
  if 0 ≤ z ∧ z < 0x10000000000000000 then some (UInt64.ofNat z.toNat) else none

theorem toUInt64?_toNat (n : UInt64) : toUInt64? n.toNat = some n := by
  have hlt := n.toNat_lt
  rw [toUInt64?, if_pos ⟨by omega, by omega⟩]
  simp

theorem inWord_uint64 (n : UInt64) : InWord n.toNat := by
  have hlt := n.toNat_lt
  have hmax : maxWord = 0xFFFFFFFFFFFFFFFF := rfl
  exact ⟨by omega, by omega⟩

def uint64 : Codec UInt64 :=
  integer "u64" toUInt64? (fun n => n.toNat) inWord_uint64 toUInt64?_toNat

theorem view_uint64 (n : Nat) (a : UInt64) : uint64.view n (uint64.write a) = some a :=
  viewInteger_doc (inWord_uint64 a) (toUInt64?_toNat a)

def toInt32? (z : Int) : Option Int32 :=
  if -0x80000000 ≤ z ∧ z < 0x80000000 then some (Int32.ofInt z) else none

theorem toInt32?_toInt (n : Int32) : toInt32? n.toInt = some n := by
  have hlow := n.le_toInt
  have hhigh := n.toInt_lt
  rw [toInt32?, if_pos ⟨by omega, by omega⟩, Int32.ofInt_toInt]

theorem inWord_int32 (n : Int32) : InWord n.toInt := by
  have hlow := n.le_toInt
  have hhigh := n.toInt_lt
  have hmax : maxWord = 0xFFFFFFFFFFFFFFFF := rfl
  exact ⟨by omega, by omega⟩

def int32 : Codec Int32 := integer "i32" toInt32? Int32.toInt inWord_int32 toInt32?_toInt

def value : Codec Value where
  read := Json.value
  view := value?
  print := Value.print
  write := Value.doc
  Exact v := ¬ v.HoldsFloat
  depth := 0
  reads := reads_value
  steady := steady_value
  spells _ := Value.spells_print
  returns n _ := yields_value n

/-! ## Options, lists, tables and names -/

/-- An absent value is a null, which must not stand for a present one. -/
def option (c : Codec α) (hnull : ∀ a, c.write a ≠ .null) : Codec (Option α) where
  read n := expectOption (c.read n)
  view n := viewOption (c.view n)
  print
    | none => Value.null.print
    | some a => c.print a
  write
    | none => .null
    | some a => c.write a
  Exact a := ∀ b ∈ a, c.Exact b
  depth := c.depth
  reads n := reads_expectOption (c.reads n)
  steady n := by
    intro d d' h
    have hview := c.steady n _ _ h
    cases h <;> exact congrArg (Option.map some) hview
  spells
    | none, _ => .null
    | some a, h => c.spells a (h a rfl)
  returns n hn := by
    intro text a rest h hexact
    cases a with
    | none => rfl
    | some a =>
      have hread : ∃ text', c.read n text' = .ok (a, rest) := by
        unfold expectOption at h
        split at h
        · obtain ⟨text', -, heq⟩ := map_eq_ok_iff.1 h
          cases heq
        · obtain ⟨⟨a', rest'⟩, ha, heq⟩ := map_eq_ok_iff.1 h
          cases heq
          exact ⟨_, ha⟩
      obtain ⟨text', hread⟩ := hread
      have hview := c.returns n hn _ _ _ hread (hexact a rfl)
      have hne := hnull a
      unfold viewOption
      split
      · contradiction
      · rw [hview]
        rfl

theorem viewStrings_write (n : Nat) (l : List String) :
    viewStrings (n + 1) (.array (l.map string.write)) = some l :=
  mapM_map_eq_some fun s _ => text?_units s

def strings : Codec (List String) where
  read := expectStrings
  view := viewStrings
  print l := (Value.strings l).print
  write l := .array (l.map string.write)
  Exact _ := True
  depth := 1
  reads := reads_expectStrings
  steady n := by
    intro d d' h
    cases n with
    | zero => cases h <;> rfl
    | succ n =>
      cases h with
      | item before after h =>
        have hitem : viewText _ = viewText _ := string.steady n _ _ h
        simp only [viewStrings, mapM_split, hitem]
      | swap => rfl
      | member => rfl
  spells l _ := by
    rw [Value.strings, Value.print_array, List.map_map]
    exact spells_printList fun s _ => spells_printString s
  returns n hn := by
    intro _ l _ _ _
    cases n with
    | zero => cases hn
    | succ n => exact viewStrings_write n l

/-- A table of values, an object with its keys. -/
def table (c : Codec α) : Codec (Table α) where
  read := expectTable c.read
  view := viewTable c.view
  print t := printObject (t.map fun e => (e.1, c.print e.2))
  write t := .object (t.map fun e => (units e.1, c.write e.2))
  Exact t := ∀ e ∈ t, c.Exact e.2
  depth := c.depth + 1
  reads := reads_expectTable c.reads
  steady n := by
    intro d d' h
    cases n with
    | zero => cases h <;> rfl
    | succ n =>
      cases h with
      | swap before after different => exact table?_swap different before after
      | item => rfl
      | member key before after h => exact table?_congr (c.steady n _ _ h) before after
  spells t h := spells_printObject Prod.fst fun e he => c.spells e.2 (h e he)
  returns n hn := by
    cases n with
    | zero => cases hn
    | succ n =>
      intro text t rest h hexact
      have hread : ∃ text', objectBody (tableMember (c.read n)) [] text' = .ok (t, rest) := by
        rw [expectTable] at h
        split at h
        · cases h
        split at h
        · exact ⟨_, h⟩
        · exact absurd (toOption_eq_some_iff.2 h) (by simp)
      obtain ⟨text', hread⟩ := hread
      have hvalue := c.returns n (Nat.le_of_succ_le_succ hn)
      obtain ⟨hsorted, hall⟩ := yields_table hvalue _ _ _ hread
      exact table?_map hsorted fun e he => hall e he (hexact e he)

theorem view_table (c : Codec α) (depth : Nat) (ms : List Member) :
    c.table.view (depth + 1) (.object ms) = table? (c.view depth) ms := rfl

theorem viewName_eq_none {variants : List (String × α)} {ms : List Member}
    (h : ∀ key, ms ≠ [(key, .null)]) (n : Nat) : viewName variants n (.object ms) = none := by
  unfold viewName
  split <;> simp_all

theorem steady_viewName (variants : List (String × α)) (n : Nat) :
    Steady (viewName variants n) := by
  intro d d' h
  cases h with
  | item => cases n <;> rfl
  | @swap m m' before after =>
    have hnot : ∀ m m' key, before ++ m :: m' :: after ≠ [(key, Doc.null)] := by
      intro m m' key heq
      have := congrArg List.length heq
      simp at this
      omega
    rw [viewName_eq_none (hnot m m'), viewName_eq_none (hnot m' m)]
  | @member d d' key before after h =>
    have hnot : ∀ d, d ≠ .null → ∀ key', before ++ (key, d) :: after ≠ [(key', Doc.null)] := by
      intro d hne key' heq
      have hmem : (key, d) ∈ [(key', Doc.null)] := by
        rw [← heq]
        simp
      simp [hne] at hmem
    rw [viewName_eq_none (hnot d (by rintro rfl; cases h)),
      viewName_eq_none (hnot d' (by rintro rfl; cases h))]

theorem viewName_write {variants : List (String × α)} {key : String} {a : α}
    (h : variants.lookup key = some a) (n : Nat) :
    viewName variants n (.string (units key)) = some a := by
  simp [viewName, h]

/-- One of several names. -/
def name (variants : List (String × α)) (nameOf : α → String)
    (lookup_nameOf : ∀ a, variants.lookup (nameOf a) = some a) : Codec α where
  read := expectName variants
  view := viewName variants
  print a := printString (nameOf a)
  write a := .string (units (nameOf a))
  Exact _ := True
  depth := 0
  reads := reads_expectName variants
  steady := steady_viewName variants
  spells a _ := spells_printString (nameOf a)
  returns n _ := fun _ a _ _ _ => viewName_write (lookup_nameOf a) n

end Codec
end Json
end ShellPrompt
