/-!
# ShellPrompt.Text.Utf8

Text as bytes. `encode` writes characters, `scan` reads bytes one at a time and reports every
maximal sequence that belongs to no character as `none`:

* `lossy` shows such a sequence as one U+FFFD;
* `decode?` accepts a byte string only when there is none.
-/

namespace ShellPrompt
namespace Text

abbrev Bytes := List UInt8

namespace Utf8

def encode (text : List Char) : Bytes := text.flatMap String.utf8EncodeChar

def size (text : List Char) : Nat := text.foldr (fun c n => c.utf8Size + n) 0

/-- Splits a text after `n` bytes, where that is between two characters. -/
def splitAt? : Nat → List Char → Option (List Char × List Char)
  | 0, text => some ([], text)
  | _ + 1, [] => none
  | n + 1, c :: rest =>
    if c.utf8Size ≤ n + 1 then (splitAt? (n + 1 - c.utf8Size) rest).map fun r => (c :: r.1, r.2)
    else none

inductive State where
  | start
  /-- Inside a character: bytes still owed, the range of the next one, the value so far. -/
  | owed (more lo hi value : Nat)

/-- What a byte does to a reader that stands between characters. -/
def first (b : Nat) : List (Option Char) × State :=
  if b < 0x80 then ([some (Char.ofNat b)], .start)
  else if b < 0xC2 then ([none], .start)
  else if b < 0xE0 then ([], .owed 1 0x80 0xBF (b - 0xC0))
  else if b < 0xF0 then
    ([], .owed 2 (if b == 0xE0 then 0xA0 else 0x80) (if b == 0xED then 0x9F else 0xBF) (b - 0xE0))
  else if b < 0xF5 then
    ([], .owed 3 (if b == 0xF0 then 0x90 else 0x80) (if b == 0xF4 then 0x8F else 0xBF) (b - 0xF0))
  else ([none], .start)

/-- Reads one byte. A byte that does not continue a character ends it as invalid and is then read
afresh. -/
def step : State → Nat → List (Option Char) × State
  | .start, b => first b
  | .owed more lo hi value, b =>
    if lo ≤ b && b ≤ hi then
      let value := value * 64 + b % 64
      if more ≤ 1 then ([some (Char.ofNat value)], .start)
      else ([], .owed (more - 1) 0x80 0xBF value)
    else
      let (out, next) := first b
      (none :: out, next)

def scanFrom : State → Bytes → List (Option Char)
  | .start, [] => []
  | .owed .., [] => [none]
  | s, b :: rest =>
    let (out, next) := step s b.toNat
    out ++ scanFrom next rest

/-- The characters of a byte string, with `none` for each maximal invalid sequence. -/
def scan (bytes : Bytes) : List (Option Char) := scanFrom .start bytes

/-- The byte string for display, U+FFFD standing for what is not text. -/
def lossy (bytes : Bytes) : List Char :=
  (scan bytes).map (fun c => c.getD (Char.ofNat 0xFFFD))

/-- The text of a byte string, if it is text. -/
def decode? (bytes : Bytes) : Option (List Char) := (scan bytes).mapM id

@[simp] theorem encode_nil : encode [] = [] := rfl

@[simp] theorem encode_append (a b : List Char) : encode (a ++ b) = encode a ++ encode b := by
  simp [encode]

end Utf8
end Text
end ShellPrompt
