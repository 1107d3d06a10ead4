import ShellPrompt.Text.Utf8

/-!
# ShellPrompt.Text.EscapeSequence

Terminal escape sequences, and the text that is left without them.

A terminal reads a sequence as a machine: `State` says how far it is, `step` reads one character
and says what stays visible. Outside every sequence (`ground`) control characters other than the
line feed are invisible too. In every other state CAN and SUB abandon the sequence and ESC begins
a new one.

* `strip`: the visible characters of a text read from `ground`.
* `strip_append`: reading a concatenation goes on from where the first part ends (`after`).
-/

namespace ShellPrompt
namespace Text
namespace EscapeSequence

inductive State where
  | ground
  | escape
  | escapeIntermediate
  | control
  | systemCommand
  /-- A device control string before its first parameter. -/
  | deviceEntry
  /-- A device control string after a parameter byte. -/
  | deviceParameter
  /-- A device control string after an intermediate byte. -/
  | deviceIntermediate
  | devicePassthrough
  /-- A string whose content is ignored until the sequence is abandoned. -/
  | ignoredString
deriving DecidableEq

/-- Characters a terminal consumes outside sequences: C0 and C1 controls but the line feed. -/
def isInvisible (n : Nat) : Bool := (n < 0x20 && n != 0x0A) || (0x80 ≤ n && n < 0xA0)

/-- Byte 9C ends a device string even inside a character. What is left of that character is no
text: a lone byte below A0 is a control, any other shows as U+FFFD. -/
def remnant (bytes : List UInt8) : List Char :=
  (bytes.filter (fun b => 0xA0 ≤ b.toNat)).map (fun _ => Char.ofNat 0xFFFD)

def ground (c : Char) : List Char := if isInvisible c.toNat then [] else [c]

/-- The line feed stays visible inside the short sequences. -/
def keepLineFeed (n : Nat) : List Char := if n == 0x0A then ['\n'] else []

def escape (n : Nat) : State :=
  if 0x20 ≤ n && n ≤ 0x2F then .escapeIntermediate
  else if n == 0x50 then .deviceEntry
  else if n == 0x58 || n == 0x5E || n == 0x5F then .ignoredString
  else if n == 0x5B then .control
  else if n == 0x5D then .systemCommand
  else if 0x30 ≤ n && n ≤ 0x7E then .ground
  else .escape

def escapeIntermediate (n : Nat) : State :=
  if 0x30 ≤ n && n ≤ 0x7E then .ground else .escapeIntermediate

def control (n : Nat) : State := if 0x40 ≤ n && n ≤ 0x7E then .ground else .control

def systemCommand (n : Nat) : State := if n == 0x07 then .ground else .systemCommand

def deviceEntry (n : Nat) : State :=
  if 0x20 ≤ n && n ≤ 0x2F then .deviceIntermediate
  else if 0x30 ≤ n && n ≤ 0x3F then .deviceParameter
  else if 0x40 ≤ n && n ≤ 0x7E then .devicePassthrough
  else .deviceEntry

def deviceParameter (n : Nat) : State :=
  if 0x20 ≤ n && n ≤ 0x2F then .deviceIntermediate
  else if 0x3C ≤ n && n ≤ 0x3F then .ignoredString
  else if 0x40 ≤ n && n ≤ 0x7E then .devicePassthrough
  else .deviceParameter

def deviceIntermediate (n : Nat) : State :=
  if 0x30 ≤ n && n ≤ 0x3F then .ignoredString
  else if 0x40 ≤ n && n ≤ 0x7E then .devicePassthrough
  else .deviceIntermediate

def devicePassthrough (c : Char) : List Char × State :=
  match (String.utf8EncodeChar c).dropWhile (fun b => b.toNat != 0x9C) with
  | [] => ([], .devicePassthrough)
  | _ :: rest => (remnant rest, .ground)

/-- Reads one character: what of it is visible, and the state after it. -/
def step (s : State) (c : Char) : List Char × State :=
  let n := c.toNat
  if n == 0x1B then ([], .escape)
  else if s == .ground then (ground c, .ground)
  else if n == 0x18 || n == 0x1A then ([], .ground)
  else
    match s with
    | .ground => (ground c, .ground)
    | .escape => (keepLineFeed n, escape n)
    | .escapeIntermediate => (keepLineFeed n, escapeIntermediate n)
    | .control => (keepLineFeed n, control n)
    | .systemCommand => ([], systemCommand n)
    | .deviceEntry => ([], deviceEntry n)
    | .deviceParameter => ([], deviceParameter n)
    | .deviceIntermediate => ([], deviceIntermediate n)
    | .devicePassthrough => devicePassthrough c
    | .ignoredString => ([], .ignoredString)

def stripFrom (s : State) : List Char → List Char
  | [] => []
  | c :: rest => (step s c).1 ++ stripFrom (step s c).2 rest

/-- The state a text leaves a terminal in. -/
def after (s : State) : List Char → State
  | [] => s
  | c :: rest => after (step s c).2 rest

def strip (text : List Char) : List Char := stripFrom .ground text

theorem stripFrom_append (s : State) (a b : List Char) :
    stripFrom s (a ++ b) = stripFrom s a ++ stripFrom (after s a) b := by
  induction a generalizing s with
  | nil => rfl
  | cons c rest ih => simp [stripFrom, after, ih]

theorem after_append (s : State) (a b : List Char) : after s (a ++ b) = after (after s a) b := by
  induction a generalizing s with
  | nil => rfl
  | cons c rest ih => simp [after, ih]

theorem strip_append (a b : List Char) :
    strip (a ++ b) = strip a ++ stripFrom (after .ground a) b := stripFrom_append _ a b

end EscapeSequence
end Text
end ShellPrompt
