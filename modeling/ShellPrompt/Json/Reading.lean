import ShellPrompt.Json.Value
import ShellPrompt.Text.Quoted
import ShellPrompt.Text.Utf8

/-!
# ShellPrompt.Json.Reading

Readers of JSON text, and what they refuse.

A reader takes the text that is left and returns a value with what is left behind it. An error
remembers the text that was unread when it arose, so that its place in the whole text can be
worked out at the end (`ReadError.place`). Two conventions of place occur: `atPeek` points behind
the character that was looked at, `here` at the first character not taken.
-/

namespace ShellPrompt
namespace Json

inductive Seen where
  | null
  | bool (b : Bool)
  | int (z : Int)
  | float (x : Binary64)
  | string (s : String)
  | list
  | object

namespace Seen

def message : Seen → String
  | .null => "null"
  | .bool b => s!"boolean `{b}`"
  | .int z => s!"integer `{z}`"
  | .float x => s!"floating point `{String.ofList x.text}`"
  | .string s => s!"string {Text.Quoted.quote s}"
  | .list => "sequence"
  | .object => "map"

end Seen

inductive Problem where
  | endInValue
  | endInList
  | endInObject
  | endInString
  | expectedColon
  | expectedListCommaOrEnd
  | expectedObjectCommaOrEnd
  | expectedIdent
  | expectedValue
  | invalidEscape
  | invalidNumber
  | numberOutOfRange
  | loneSurrogate
  | surrogateCutShort
  | keyMustBeString
  | controlCharacter
  | trailingComma
  | trailingCharacters
  | tooDeep
  | wrongType (seen : Seen) (expected : String)
  | outOfRange (z : Int) (expected : String)
  | unknownVariant (name : String) (variants : List String)
  | duplicateField (name : String)

namespace Problem

def message : Problem → String
  | .endInValue => "EOF while parsing a value"
  | .endInList => "EOF while parsing a list"
  | .endInObject => "EOF while parsing an object"
  | .endInString => "EOF while parsing a string"
  | .expectedColon => "expected `:`"
  | .expectedListCommaOrEnd => "expected `,` or `]`"
  | .expectedObjectCommaOrEnd => "expected `,` or `\x7d`"
  | .expectedIdent => "expected ident"
  | .expectedValue => "expected value"
  | .invalidEscape => "invalid escape"
  | .invalidNumber => "invalid number"
  | .numberOutOfRange => "number out of range"
  | .loneSurrogate => "lone leading surrogate in hex escape"
  | .surrogateCutShort => "unexpected end of hex escape"
  | .keyMustBeString => "key must be a string"
  | .controlCharacter => "control character (\\u0000-\\u001F) found while parsing a string"
  | .trailingComma => "trailing comma"
  | .trailingCharacters => "trailing characters"
  | .tooDeep => "recursion limit exceeded"
  | .wrongType seen expected => s!"invalid type: {seen.message}, expected {expected}"
  | .outOfRange z expected => s!"invalid value: integer `{z}`, expected {expected}"
  | .unknownVariant name variants =>
    let listed := ", ".intercalate (variants.map fun v => s!"`{v}`")
    s!"unknown variant `{name}`, expected one of {listed}"
  | .duplicateField name => s!"duplicate field `{name}`"

end Problem

/-- A problem, the text unread when it arose, and how many bytes of that text it points past. -/
structure ReadError where
  problem : Problem
  unread : List Char
  past : Nat

abbrev Reader (α : Type) := List Char → Except ReadError (α × List Char)

/-- The problem lies in what comes next. -/
def atPeek {α : Type} (problem : Problem) (text : List Char) : Except ReadError α :=
  .error ⟨problem, text, if text.isEmpty then 0 else 1⟩

/-- The problem lies in what was read last. -/
def here {α : Type} (problem : Problem) (text : List Char) : Except ReadError α :=
  .error ⟨problem, text, 0⟩

/-- The problem lies in the next byte, which counts as read. -/
def behind {α : Type} (problem : Problem) (text : List Char) : Except ReadError α :=
  .error ⟨problem, text, 1⟩

/-! ## Places -/

/-- Line and column, the column counted in bytes from the start of its line. -/
structure Place where
  line : Nat
  column : Nat
deriving DecidableEq

/-- The place that many bytes into a text, counted on from a given place. -/
def Place.advance (p : Place) : List Char → Nat → Place
  | [], _ => p
  | _, 0 => p
  | c :: rest, n + 1 =>
    if c == '\n' then (Place.mk (p.line + 1) 0).advance rest n
    else
      (Place.mk p.line (p.column + min c.utf8Size (n + 1))).advance rest (n + 1 - c.utf8Size)

def ReadError.place (e : ReadError) (text : List Char) : Place :=
  (Place.mk 1 0).advance text (Text.Utf8.size text - Text.Utf8.size e.unread + e.past)

def ReadError.message (e : ReadError) (text : List Char) : String :=
  let place := e.place text
  s!"{e.problem.message} at line {place.line} column {place.column}"

/-! ## Blanks, literals, digits -/

def isBlank (c : Char) : Bool := c == ' ' || c == '\t' || c == '\n' || c == '\r'

def skipBlank (text : List Char) : List Char := text.dropWhile isBlank

/-- Reads the rest of a literal whose first character was taken. -/
def literal : List Char → List Char → Except ReadError (List Char)
  | [], text => .ok text
  | _ :: _, [] => here .endInValue []
  | e :: es, c :: rest => if c = e then literal es rest else behind .expectedIdent (c :: rest)

def startsWithDigit : List Char → Bool
  | c :: _ => c.isDigit
  | [] => false

def skipDigits (text : List Char) : List Char := text.dropWhile Char.isDigit

def maxWord : Nat := 0xFFFFFFFFFFFFFFFF

def digitValue (c : Char) : Nat := c.toNat - '0'.toNat

/-- Reads digits onto a number as long as it stays within 64 bits, and counts them. -/
def digitsOnto : Nat → Nat → List Char → Nat × Nat × List Char
  | n, count, [] => (n, count, [])
  | n, count, c :: rest =>
    if c.isDigit && 10 * n + digitValue c ≤ maxWord then
      digitsOnto (10 * n + digitValue c) (count + 1) rest
    else (n, count, c :: rest)

/-- Reads the digits of an exponent; `none` once they pass 31 bits. -/
def exponentDigits : Nat → List Char → Option Nat × List Char
  | n, [] => (some n, [])
  | n, c :: rest =>
    if c.isDigit then
      if 10 * n + digitValue c ≤ 0x7FFFFFFF then exponentDigits (10 * n + digitValue c) rest
      else (none, rest)
    else (some n, c :: rest)

/-! ## Numbers -/

def floating (negative : Bool) (significand : Nat) (exponent : Int) : Reader Number :=
  fun text =>
    match Binary64.ofParts? negative significand exponent with
    | some x => .ok (.float x, text)
    | none => here .numberOutOfRange text

def signedZero (negative : Bool) : Number :=
  .float (if negative then Binary64.zero.neg else Binary64.zero)

def exponentSign : List Char → Bool × List Char
  | '+' :: rest => (false, rest)
  | '-' :: rest => (true, rest)
  | text => (false, text)

def exponent (negative : Bool) (significand : Nat) (start : Int) : Reader Number := fun text =>
  let (down, text) := exponentSign text
  match text with
  | [] => here .endInValue []
  | c :: rest =>
    if c.isDigit then
      match exponentDigits (digitValue c) rest with
      | (some e, rest) => floating negative significand (if down then start - e else start + e) rest
      | (none, rest) =>
        if significand ≠ 0 ∧ ¬ down then here .numberOutOfRange rest
        else .ok (signedZero negative, skipDigits rest)
    else behind .invalidNumber (c :: rest)

def scaled (negative : Bool) (significand : Nat) (start : Int) : Reader Number
  | 'e' :: rest => exponent negative significand start rest
  | 'E' :: rest => exponent negative significand start rest
  | text => floating negative significand start text

/-- Reads the places behind a decimal point. Those that no longer fit into 64 bits are dropped. -/
def decimals (negative : Bool) (significand : Nat) (start : Int) : Reader Number := fun text =>
  let (n, count, rest) := digitsOnto significand 0 text
  if startsWithDigit rest then scaled negative n (start - count) (skipDigits rest)
  else if count = 0 then
    if rest.isEmpty then atPeek .endInValue rest else atPeek .invalidNumber rest
  else scaled negative n (start - count) rest

/-- Integers that do not fit, and a negative zero, are floating. -/
def integral (negative : Bool) (n : Nat) : Number :=
  if negative then
    if n = 0 then signedZero true
    else if n ≤ 0x8000000000000000 then .int (-(n : Int))
    else .float ((Binary64.ofParts? true n 0).getD .zero)
  else .int n

def fraction (negative : Bool) (n : Nat) : Reader Number
  | '.' :: rest => decimals negative n 0 rest
  | 'e' :: rest => exponent negative n 0 rest
  | 'E' :: rest => exponent negative n 0 rest
  | text => .ok (integral negative n, text)

/-- What may follow integral digits of which the last `extra` no longer fitted. -/
def longFraction (negative : Bool) (n : Nat) (extra : Nat) : Reader Number
  | '.' :: rest => decimals negative n extra rest
  | text => scaled negative n extra text

def number (negative : Bool) : Reader Number
  | [] => here .endInValue []
  | c :: rest =>
    if c = '0' then
      if startsWithDigit rest then atPeek .invalidNumber rest else fraction negative 0 rest
    else if c.isDigit then
      let (n, _, after) := digitsOnto (digitValue c) 0 rest
      if startsWithDigit after then
        longFraction negative n (after.takeWhile Char.isDigit).length (skipDigits after)
      else fraction negative n after
    else behind .invalidNumber (c :: rest)

/-! ## Strings -/

def unit? (a b c d : Char) : Option Nat := Text.Numeral.hexadecimal? [a, b, c, d]

/-- Four bytes are due, each a hexadecimal digit. -/
def badUnit {α : Type} (text : List Char) : Except ReadError α :=
  if Text.Utf8.size text < 4 then here .endInString [] else .error ⟨.invalidEscape, text, 4⟩

def escaped? (c : Char) : Option Char :=
  if c == '"' || c == '\\' || c == '/' then some c
  else if c == 'b' then some (Char.ofNat 0x08)
  else if c == 'f' then some (Char.ofNat 0x0C)
  else if c == 'n' then some '\n'
  else if c == 'r' then some '\r'
  else if c == 't' then some '\t'
  else none

def isHigh (u : Nat) : Bool := 0xD800 ≤ u && u < 0xDC00
def isLow (u : Nat) : Bool := 0xDC00 ≤ u && u < 0xE000

def ofPair (high low : Nat) : Char :=
  Char.ofNat ((high - 0xD800) * 0x400 + (low - 0xDC00) + 0x10000)

/-- Adds a character to the front of what a reader returns. -/
def consTo (c : Char) (r : Except ReadError (List Char × List Char)) :
    Except ReadError (List Char × List Char) := r.map fun p => (c :: p.1, p.2)

def stringBody : Reader (List Char)
  | [] => here .endInString []
  | '"' :: rest => .ok ([], rest)
  | '\\' :: [] => here .endInString []
  | '\\' :: 'u' :: rest =>
    match rest with
    | a :: b :: c :: d :: rest' =>
      match unit? a b c d with
      | none => badUnit rest
      | some u =>
        if isLow u then here .loneSurrogate rest'
        else if isHigh u then
          match rest' with
          | [] => here .endInString []
          | '\\' :: [] => here .endInString []
          | '\\' :: 'u' :: more =>
            match more with
            | e :: f :: g :: h :: more' =>
              match unit? e f g h with
              | none => badUnit more
              | some v =>
                if isLow v then consTo (ofPair u v) (stringBody more')
                else here .loneSurrogate more'
            | _ => badUnit more
          | '\\' :: more => behind .surrogateCutShort more
          | _ => behind .surrogateCutShort rest'
        else consTo (Char.ofNat u) (stringBody rest')
    | _ => badUnit rest
  | '\\' :: c :: rest =>
    match escaped? c with
    | some x => consTo x (stringBody rest)
    | none => behind .invalidEscape (c :: rest)
  | c :: rest =>
    if c.toNat < 0x20 then behind .controlCharacter (c :: rest) else consTo c (stringBody rest)

def string : Reader String := fun text =>
  (stringBody text).map fun p => (String.ofList p.1, p.2)

/-! ## Lists and objects -/

/-- Is there another item in a list of which the opening bracket, or an item, was read? The text
returned is that of the item, or begins with the closing bracket. -/
def nextItem (isFirst : Bool) (text : List Char) : Except ReadError (Bool × List Char) :=
  match skipBlank text with
  | [] => atPeek .endInList []
  | ']' :: rest => .ok (false, ']' :: rest)
  | c :: rest =>
    if isFirst then .ok (true, c :: rest)
    else if c = ',' then
      match skipBlank rest with
      | [] => atPeek .endInValue []
      | ']' :: rest => atPeek .trailingComma (']' :: rest)
      | text => .ok (true, text)
    else atPeek .expectedListCommaOrEnd (c :: rest)

def endList (text : List Char) : Except ReadError (List Char) :=
  match skipBlank text with
  | [] => atPeek .endInList []
  | ']' :: rest => .ok rest
  | ',' :: rest =>
    match skipBlank rest with
    | ']' :: rest => atPeek .trailingComma (']' :: rest)
    | text => atPeek .trailingCharacters text
  | text => atPeek .trailingCharacters text

/-- Is there another member? The text returned begins behind the opening quote of its key, or
with the closing brace. -/
def nextKey (isFirst : Bool) (text : List Char) : Except ReadError (Bool × List Char) :=
  match skipBlank text with
  | [] => atPeek .endInObject []
  | c :: rest =>
    if c = '\x7d' then .ok (false, c :: rest)
    else if isFirst then
      if c = '"' then .ok (true, rest) else atPeek .keyMustBeString (c :: rest)
    else if c = ',' then
      match skipBlank rest with
      | [] => atPeek .endInValue []
      | '"' :: rest => .ok (true, rest)
      | d :: rest =>
        if d = '\x7d' then atPeek .trailingComma (d :: rest)
        else atPeek .keyMustBeString (d :: rest)
    else atPeek .expectedObjectCommaOrEnd (c :: rest)

def endObject (text : List Char) : Except ReadError (List Char) :=
  match skipBlank text with
  | [] => atPeek .endInObject []
  | c :: rest =>
    if c = '\x7d' then .ok rest
    else if c = ',' then atPeek .trailingComma (c :: rest)
    else atPeek .trailingCharacters (c :: rest)

def colon (text : List Char) : Except ReadError (List Char) :=
  match skipBlank text with
  | [] => atPeek .endInObject []
  | ':' :: rest => .ok rest
  | text => atPeek .expectedColon text

/-- Reads items up to the closing bracket, which is left. The first argument bounds their number;
every item takes at least one character. -/
def items {α : Type} (item : Reader α) : Nat → Bool → Reader (List α)
  | 0, _, text => .ok ([], text)
  | bound + 1, isFirst, text => do
    let (more, text) ← nextItem isFirst text
    if more then
      let (a, text) ← item text
      let (rest, text) ← items item bound false text
      return (a :: rest, text)
    else return ([], text)

/-- Reads members up to the closing brace, which is left, folding each onto what was read before
it. The first argument bounds their number. -/
def members {α : Type} (member : String → α → Reader α) : Nat → Bool → α → Reader α
  | 0, _, acc, text => .ok (acc, text)
  | bound + 1, isFirst, acc, text => do
    let (more, text) ← nextKey isFirst text
    if more then
      let (key, text) ← string text
      let (acc, text) ← member key acc text
      members member bound false acc text
    else return (acc, text)

def listBody {α : Type} (item : Reader α) : Reader (List α) := fun text => do
  let (found, text) ← items item text.length true text
  let text ← endList text
  return (found, text)

def objectBody {α : Type} (member : String → α → Reader α) (initial : α) : Reader α :=
  fun text => do
    let (found, text) ← members member text.length true initial text
    let text ← endObject text
    return (found, text)

/-- A member of an object that becomes a table. -/
def tableMember {α : Type} (value : Reader α) (key : String) (table : Table α) :
    Reader (Table α) := fun text => do
  let text ← colon text
  let (a, text) ← value text
  return (Table.insert key a table, text)

/-! ## Values -/

def value : Nat → Reader Value
  | depth, text =>
    match skipBlank text with
    | [] => atPeek .endInValue []
    | 'n' :: rest => (literal "ull".toList rest).map fun text => (.null, text)
    | 't' :: rest => (literal "rue".toList rest).map fun text => (.bool true, text)
    | 'f' :: rest => (literal "alse".toList rest).map fun text => (.bool false, text)
    | '-' :: rest => (number true rest).map fun p => (.number p.1, p.2)
    | '"' :: rest => (string rest).map fun p => (.string p.1, p.2)
    | '[' :: rest =>
      match depth with
      | 0 => atPeek .tooDeep ('[' :: rest)
      | depth + 1 => (listBody (value depth) rest).map fun p => (.array p.1, p.2)
    | c :: rest =>
      if c = '\x7b' then
        match depth with
        | 0 => atPeek .tooDeep (c :: rest)
        | depth + 1 =>
          (objectBody (tableMember (value depth)) [] rest).map fun p => (.object p.1, p.2)
      else if c.isDigit then (number false (c :: rest)).map fun p => (.number p.1, p.2)
      else atPeek .expectedValue (c :: rest)

/-- Lists and objects nest at most this deep in a text. -/
def maxDepth : Nat := 127

def whole {α : Type} (reader : Reader α) (text : List Char) : Except ReadError α := do
  let (a, rest) ← reader text
  match skipBlank rest with
  | [] => return a
  | rest => atPeek .trailingCharacters rest

def parse (text : String) : Except ReadError Value := whole (value maxDepth) text.toList

end Json
end ShellPrompt
