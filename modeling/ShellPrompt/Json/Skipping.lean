import ShellPrompt.Json.Reading

/-!
# ShellPrompt.Json.Skipping

Passing over a value without building it. Open lists and objects are kept on a stack, so nesting
has no limit here. Surrogates in skipped strings need not pair up and numbers may be of any size.

`Due` is what may come next. `skipLoop` takes at least one character each time it meets `value` or
`more`, so twice the length of the text bounds it.
-/

namespace ShellPrompt
namespace Json

inductive Frame where
  | list
  | object
deriving DecidableEq

namespace Frame

def closing : Frame → Char
  | .list => ']'
  | .object => '\x7d'

def ended : Frame → Problem
  | .list => .endInList
  | .object => .endInObject

def commaOrEnd : Frame → Problem
  | .list => .expectedListCommaOrEnd
  | .object => .expectedObjectCommaOrEnd

end Frame

inductive Due where
  | value
  /-- The first item of the innermost frame, or its end. -/
  | first
  /-- A comma or the end of the innermost frame, if there is one. -/
  | more
deriving DecidableEq

def skipExponent (text : List Char) : Except ReadError (List Char) :=
  match (exponentSign text).2 with
  | [] => here .invalidNumber []
  | c :: rest => if c.isDigit then .ok (skipDigits rest) else behind .invalidNumber (c :: rest)

def skipScale : List Char → Except ReadError (List Char)
  | 'e' :: rest => skipExponent rest
  | 'E' :: rest => skipExponent rest
  | text => .ok text

def skipFraction : List Char → Except ReadError (List Char)
  | '.' :: rest =>
    if startsWithDigit rest then skipScale (skipDigits rest) else atPeek .invalidNumber rest
  | text => skipScale text

def skipNumber : List Char → Except ReadError (List Char)
  | [] => here .invalidNumber []
  | c :: rest =>
    if c = '0' then
      if startsWithDigit rest then atPeek .invalidNumber rest else skipFraction rest
    else if c.isDigit then skipFraction (skipDigits rest)
    else behind .invalidNumber (c :: rest)

def skipString : List Char → Except ReadError (List Char)
  | [] => here .endInString []
  | '"' :: rest => .ok rest
  | '\\' :: [] => here .endInString []
  | '\\' :: 'u' :: rest =>
    match rest with
    | a :: b :: c :: d :: rest' =>
      match unit? a b c d with
      | none => badUnit rest
      | some _ => skipString rest'
    | _ => badUnit rest
  | '\\' :: c :: rest =>
    match escaped? c with
    | some _ => skipString rest
    | none => behind .invalidEscape (c :: rest)
  | c :: rest => if c.toNat < 0x20 then here .controlCharacter (c :: rest) else skipString rest

/-- In an object, passes over the key and the colon in front of a value. -/
def skipKey (frame : Frame) (text : List Char) : Except ReadError (List Char) :=
  match frame with
  | .list => .ok text
  | .object =>
    match skipBlank text with
    | [] => atPeek .endInObject []
    | '"' :: rest => do
      let text ← skipString rest
      colon text
    | text => atPeek .keyMustBeString text

/-- The scalar at the start of a text, or the frame it opens. -/
def skipOne (text : List Char) : Except ReadError (Option Frame × List Char) :=
  match skipBlank text with
  | [] => atPeek .endInValue []
  | 'n' :: rest => (literal "ull".toList rest).map fun text => (none, text)
  | 't' :: rest => (literal "rue".toList rest).map fun text => (none, text)
  | 'f' :: rest => (literal "alse".toList rest).map fun text => (none, text)
  | '-' :: rest => (skipNumber rest).map fun text => (none, text)
  | '"' :: rest => (skipString rest).map fun text => (none, text)
  | '[' :: rest => .ok (some .list, rest)
  | c :: rest =>
    if c = '\x7b' then .ok (some .object, rest)
    else if c.isDigit then (skipNumber (c :: rest)).map fun text => (none, text)
    else atPeek .expectedValue (c :: rest)

/-- The end of the innermost frame, or the start of its next value (`false`). -/
def skipSeparator (isFirst : Bool) (frame : Frame) (text : List Char) :
    Except ReadError (Bool × List Char) :=
  match skipBlank text with
  | [] => atPeek frame.ended []
  | c :: rest =>
    if c = frame.closing then .ok (true, rest)
    else if isFirst then (skipKey frame (c :: rest)).map fun text => (false, text)
    else if c = ',' then (skipKey frame rest).map fun text => (false, text)
    else atPeek frame.commaOrEnd (c :: rest)

def skipLoop : Nat → Due → List Frame → List Char → Except ReadError (List Char)
  | 0, _, _, text => .ok text
  | bound + 1, .value, stack, text => do
    let (opened, text) ← skipOne text
    match opened with
    | some frame => skipLoop bound .first (frame :: stack) text
    | none => skipLoop bound .more stack text
  | _ + 1, .first, [], text => .ok text
  | _ + 1, .more, [], text => .ok text
  | bound + 1, .first, frame :: stack, text => do
    let (closed, text) ← skipSeparator true frame text
    if closed then skipLoop bound .more stack text
    else skipLoop bound .value (frame :: stack) text
  | bound + 1, .more, frame :: stack, text => do
    let (closed, text) ← skipSeparator false frame text
    if closed then skipLoop bound .more stack text
    else skipLoop bound .value (frame :: stack) text

def skipValue (text : List Char) : Except ReadError (List Char) :=
  skipLoop (2 * text.length + 2) .value [] text

end Json
end ShellPrompt
