import ShellPrompt.Json.Skipping

/-!
# ShellPrompt.Json.Expecting

Readers of values of a known type. A value of another type is refused by what it looks like: a
scalar is read to the end first, a list or an object is refused at its bracket.
-/

namespace ShellPrompt
namespace Json

def seen {α : Type} (s : Seen) (expected : String) (rest : List Char) : Except ReadError α :=
  here (.wrongType s expected) rest

def seenNumber : Number → Seen
  | .int z => .int z
  | .float x => .float x

def refuse {α : Type} (expected : String) (text : List Char) : Except ReadError α :=
  match text with
  | 'n' :: rest => do
    let rest ← literal "ull".toList rest
    seen .null expected rest
  | 't' :: rest => do
    let rest ← literal "rue".toList rest
    seen (.bool true) expected rest
  | 'f' :: rest => do
    let rest ← literal "alse".toList rest
    seen (.bool false) expected rest
  | '-' :: rest => do
    let (n, rest) ← number true rest
    seen (seenNumber n) expected rest
  | '"' :: rest => do
    let (s, rest) ← string rest
    seen (.string s) expected rest
  | '[' :: rest => seen .list expected ('[' :: rest)
  | c :: rest =>
    if c = '\x7b' then seen .object expected (c :: rest)
    else if c.isDigit then do
      let (n, rest) ← number false (c :: rest)
      seen (seenNumber n) expected rest
    else atPeek .expectedValue (c :: rest)
  | [] => atPeek .expectedValue []

def expectString : Reader String := fun text =>
  match skipBlank text with
  | [] => atPeek .endInValue []
  | '"' :: rest => string rest
  | text => refuse "a string" text

def expectBool : Reader Bool := fun text =>
  match skipBlank text with
  | [] => atPeek .endInValue []
  | 't' :: rest => (literal "rue".toList rest).map fun text => (true, text)
  | 'f' :: rest => (literal "alse".toList rest).map fun text => (false, text)
  | text => refuse "a boolean" text

/-- Reads an integer and hands it to `convert?`, which knows its range. -/
def expectInteger {α : Type} (expected : String) (convert? : Int → Option α) : Reader α :=
  fun text =>
    let finish (r : Number × List Char) : Except ReadError (α × List Char) :=
      match r.1 with
      | .float x => seen (.float x) expected r.2
      | .int z =>
        match convert? z with
        | some a => .ok (a, r.2)
        | none => here (.outOfRange z expected) r.2
    match skipBlank text with
    | [] => atPeek .endInValue []
    | '-' :: rest => number true rest >>= finish
    | c :: rest =>
      if c.isDigit then number false (c :: rest) >>= finish else refuse expected (c :: rest)

def expectUInt64 : Reader UInt64 :=
  expectInteger "u64" fun z =>
    if 0 ≤ z ∧ z < 0x10000000000000000 then some (UInt64.ofNat z.toNat) else none

def expectInt32 : Reader Int32 :=
  expectInteger "i32" fun z =>
    if -0x80000000 ≤ z ∧ z < 0x80000000 then some (Int32.ofInt z) else none

def expectOption {α : Type} (reader : Reader α) : Reader (Option α) := fun text =>
  match skipBlank text with
  | 'n' :: rest => (literal "ull".toList rest).map fun text => (none, text)
  | text => (reader text).map fun p => (some p.1, p.2)

def expectStrings : Nat → Reader (List String)
  | depth, text =>
    match skipBlank text with
    | [] => atPeek .endInValue []
    | '[' :: rest =>
      if depth = 0 then atPeek .tooDeep ('[' :: rest) else listBody expectString rest
    | text => refuse "a sequence" text

/-- An object read as a table; `value` gets the depth that is left inside. -/
def expectTable {α : Type} (value : Nat → Reader α) : Nat → Reader (Table α)
  | depth, text =>
    match skipBlank text with
    | [] => atPeek .endInValue []
    | c :: rest =>
      if c = '\x7b' then
        match depth with
        | 0 => atPeek .tooDeep (c :: rest)
        | depth + 1 => objectBody (tableMember (value depth)) [] rest
      else refuse "a map" (c :: rest)

/-- The key of an object that holds a single member. An object that holds none is refused at its
closing brace. -/
def soleKey : Reader String := fun text =>
  match skipBlank text with
  | [] => atPeek .endInObject []
  | '"' :: rest => string rest
  | c :: rest =>
    if c = '\x7d' then atPeek .expectedValue (c :: rest)
    else atPeek .keyMustBeString (c :: rest)

/-- One of several names, written as a string or as an object with that single key and null. -/
def expectName {α : Type} (variants : List (String × α)) : Nat → Reader α
  | depth, text =>
    let lookup (r : String × List Char) : Except ReadError (α × List Char) :=
      match variants.lookup r.1 with
      | some a => .ok (a, r.2)
      | none => here (.unknownVariant r.1 (variants.map Prod.fst)) r.2
    match skipBlank text with
    | [] => atPeek .endInValue []
    | '"' :: rest => string rest >>= lookup
    | c :: rest =>
      if c = '\x7b' then
        if depth = 0 then atPeek .tooDeep (c :: rest)
        else do
          let (a, text) ← soleKey rest >>= lookup
          let text ← colon text
          let text ←
            match skipBlank text with
            | [] => atPeek .endInValue []
            | 'n' :: rest => literal "ull".toList rest
            | text => refuse "unit" text
          match skipBlank text with
          | [] => here .endInObject []
          | d :: rest => if d = '\x7d' then .ok (a, rest) else here .expectedValue (d :: rest)
      else atPeek .expectedValue (c :: rest)

/-! ## Records -/

/-- A field of a record: its name, and how its value is read into the record. -/
structure RecordField (α : Type) where
  name : String
  read : Nat → α → Reader α

/-- A second value for a field is refused where its colon is due, behind a brace that stands
there. -/
def refuseAgain {α : Type} (key : String) (text : List Char) : Except ReadError α :=
  match skipBlank text with
  | [] => here (.duplicateField key) []
  | c :: rest =>
    if c = '\x7d' then here (.duplicateField key) rest else here (.duplicateField key) (c :: rest)

/-- Reads a member of a record. Unknown keys are passed over. -/
def recordMember {α : Type} (fields : List (RecordField α)) (depth : Nat) (key : String)
    (acc : α × List String) : Reader (α × List String) := fun text =>
  match fields.find? (fun f => f.name == key) with
  | none => do
    let text ← colon text
    let text ← skipValue text
    return (acc, text)
  | some f =>
    if acc.2.contains key then refuseAgain key text
    else do
      let text ← colon text
      let (a, text) ← f.read depth acc.1 text
      return ((a, key :: acc.2), text)

/-- Reads the items of a list onto the fields of a record, in order. -/
def recordItems {α : Type} (depth : Nat) : List (RecordField α) → Bool → α → Reader α
  | [], _, acc, text => .ok (acc, text)
  | f :: rest, isFirst, acc, text => do
    let (more, text) ← nextItem isFirst text
    if more then
      let (acc, text) ← f.read depth acc text
      recordItems depth rest false acc text
    else return (acc, text)

/-- A record, written as an object or as the list of its leading fields. What is not written keeps
the value it has in `initial`. -/
def expectRecord {α : Type} (name : String) (fields : List (RecordField α)) (initial : α) :
    Nat → Reader α
  | depth, text =>
    match skipBlank text with
    | [] => atPeek .endInValue []
    | '[' :: rest =>
      match depth with
      | 0 => atPeek .tooDeep ('[' :: rest)
      | depth + 1 => do
        let (a, text) ← recordItems depth fields true initial rest
        let text ← endList text
        return (a, text)
    | c :: rest =>
      if c = '\x7b' then
        match depth with
        | 0 => atPeek .tooDeep (c :: rest)
        | depth + 1 =>
          (objectBody (recordMember fields depth) (initial, []) rest).map fun p => (p.1.1, p.2)
      else refuse s!"struct {name}" (c :: rest)

end Json
end ShellPrompt
