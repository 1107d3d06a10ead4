import ShellPrompt.Text.EscapeSequence

/-!
# ShellPrompt.Text.Printable

Text as messages show it: without escape sequences, controls that are no blanks, and DEL. A blank
control (tab, line feed, form feed, carriage return) inside a short sequence is shown and breaks
the sequence off. Byte 9C ends a device or ignored string, with the character it belongs to.
-/

namespace ShellPrompt
namespace Text
namespace Printable

open EscapeSequence (State)

def isBlankControl (n : Nat) : Bool := n == 0x09 || n == 0x0A || n == 0x0C || n == 0x0D

def holdsTerminator (c : Char) : Bool := (String.utf8EncodeChar c).contains 0x9C

/-- Reads one character: what is shown for it, and the state after it. -/
def step (s : State) (c : Char) : List Char × State :=
  let n := c.toNat
  match s with
  | .ground =>
    if isBlankControl n || 0x80 ≤ n then ([c], .ground)
    else if n == 0x7F then ([], .ground)
    else EscapeSequence.step .ground c
  | .escape | .escapeIntermediate | .control =>
    if isBlankControl n then ([c], .ground) else EscapeSequence.step s c
  | .devicePassthrough | .ignoredString =>
    if holdsTerminator c then ([], .ground) else EscapeSequence.step s c
  | _ => EscapeSequence.step s c

def showFrom (s : State) : List Char → List Char
  | [] => []
  | c :: rest => (step s c).1 ++ showFrom (step s c).2 rest

def shown (text : String) : String := String.ofList (showFrom .ground text.toList)

/-- The characters before the first line feed, less a carriage return at their end. -/
def firstLine (text : String) : String :=
  let line := text.toList.takeWhile (· != '\n')
  if line.length < text.toList.length && line.getLast? == some '\r' then
    String.ofList line.dropLast
  else String.ofList line

end Printable
end Text
end ShellPrompt
