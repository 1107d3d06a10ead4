/-!
# ShellPrompt.Table

Associations in strictly ascending key order. Keys compare by code points, which is also the order
of their UTF-8 bytes. A second `insert` of a key replaces its value.
-/

namespace ShellPrompt

abbrev Table (α : Type) := List (String × α)

namespace Table

variable {α : Type}

def precedes : List Char → List Char → Bool
  | _, [] => false
  | [], _ :: _ => true
  | a :: as, b :: bs => a.toNat < b.toNat || (a.toNat == b.toNat && precedes as bs)

def insert (key : String) (value : α) : Table α → Table α
  | [] => [(key, value)]
  | (k, v) :: rest =>
    if key = k then (key, value) :: rest
    else if precedes key.toList k.toList then (key, value) :: (k, v) :: rest
    else (k, v) :: insert key value rest

def get? (key : String) : Table α → Option α
  | [] => none
  | (k, v) :: rest => if key = k then some v else get? key rest

def keys (table : Table α) : List String := table.map Prod.fst

/-- The table of a list of associations; of several with one key the last counts. -/
def ofList (entries : List (String × α)) : Table α :=
  entries.foldl (fun table e => insert e.1 e.2 table) []

@[simp] theorem get?_nil (key : String) : get? key ([] : Table α) = none := rfl

theorem get?_insert_self (key : String) (value : α) (table : Table α) :
    get? key (insert key value table) = some value := by
  induction table with
  | nil => simp [insert, get?]
  | cons e rest ih =>
    obtain ⟨k, v⟩ := e
    by_cases h : key = k
    · simp [insert, get?, h]
    · by_cases hb : precedes key.toList k.toList = true
      · simp [insert, get?, h, hb]
      · simp [insert, get?, h, hb, ih]

theorem get?_insert_of_ne {key other : String} (h : other ≠ key) (value : α) (table : Table α) :
    get? other (insert key value table) = get? other table := by
  induction table with
  | nil => simp [insert, get?, h]
  | cons e rest ih =>
    obtain ⟨k, v⟩ := e
    by_cases hk : key = k
    · subst hk; simp [insert, get?, h]
    · by_cases hb : precedes key.toList k.toList = true
      · simp [insert, get?, hk, hb, h]
      · simp [insert, get?, hk, hb, ih]

end Table
end ShellPrompt
