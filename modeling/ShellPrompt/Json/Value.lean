import ShellPrompt.Json.Binary64
import ShellPrompt.Table

/-!
# ShellPrompt.Json.Value

JSON values and their compact text. Objects hold their members in ascending key order, a key once.
Strings escape quotes, backslashes and C0 controls and nothing else.
-/

namespace ShellPrompt
namespace Json

/-- Integers of 64 bits, signed or not, stay integers; every other number is floating. -/
inductive Number where
  | int (z : Int)
  | float (x : Binary64)
deriving DecidableEq

inductive Value where
  | null
  | bool (b : Bool)
  | number (n : Number)
  | string (s : String)
  | array (items : List Value)
  | object (members : List (String × Value))
deriving Inhabited

namespace Value

def int (z : Int) : Value := .number (.int z)

def nat (n : Nat) : Value := .number (.int n)

def strings (items : List String) : Value := .array (items.map .string)

def ofOption {α : Type} (f : α → Value) : Option α → Value
  | some a => f a
  | none => .null

/-- An object of the given members; of several with one key the last counts. -/
def ofMembers (members : List (String × Value)) : Value := .object (Table.ofList members)

def asUInt64? : Value → Option UInt64
  | .number (.int z) =>
    if 0 ≤ z ∧ z < 0x10000000000000000 then some (UInt64.ofNat z.toNat) else none
  | _ => none

def asBool? : Value → Option Bool
  | .bool b => some b
  | _ => none

def asString? : Value → Option String
  | .string s => some s
  | _ => none

end Value

/-! ## Text -/

def escapeControl (c : Char) : List Char :=
  "\\u00".toList ++
    [Text.Numeral.hexChar (c.toNat / 16), Text.Numeral.hexChar (c.toNat % 16)]

def escape (c : Char) : List Char :=
  if c == '"' then ['\\', '"']
  else if c == '\\' then ['\\', '\\']
  else if c.toNat == 0x08 then ['\\', 'b']
  else if c.toNat == 0x0C then ['\\', 'f']
  else if c == '\n' then ['\\', 'n']
  else if c == '\r' then ['\\', 'r']
  else if c == '\t' then ['\\', 't']
  else if c.toNat < 0x20 then escapeControl c
  else [c]

def printString (s : String) : List Char := '"' :: s.toList.flatMap escape ++ ['"']

def Number.print : Number → List Char
  | .int z => Text.Numeral.signed z
  | .float x => x.text

def bracket (opening closing : Char) (items : List (List Char)) : List Char :=
  opening :: [','].intercalate items ++ [closing]

def printList (items : List (List Char)) : List Char := bracket '[' ']' items

def printMember (key : String) (value : List Char) : List Char := printString key ++ ':' :: value

def printObject (members : List (String × List Char)) : List Char :=
  bracket '\x7b' '\x7d' (members.map fun m => printMember m.1 m.2)

mutual

def Value.print : Value → List Char
  | .null => "null".toList
  | .bool true => "true".toList
  | .bool false => "false".toList
  | .number n => n.print
  | .string s => printString s
  | .array items => printList (printItems items)
  | .object members => printObject (printMembers members)

def printItems : List Value → List (List Char)
  | [] => []
  | v :: rest => v.print :: printItems rest

def printMembers : List (String × Value) → List (String × List Char)
  | [] => []
  | m :: rest => printEntry m :: printMembers rest

def printEntry : String × Value → String × List Char
  | (key, v) => (key, v.print)

end

def Value.text (v : Value) : String := String.ofList v.print

end Json
end ShellPrompt
