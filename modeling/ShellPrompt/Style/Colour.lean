import ShellPrompt.Fault
import ShellPrompt.Text.Numeral
import ShellPrompt.Text.Utf8

/-!
# ShellPrompt.Style.Colour

Colours and the words that name them.

A colour word is `#` with six hexadecimal digits, a palette index in decimal, or a name: one of
eight hues, `bright-` in front for its intense variant. `purple` and `magenta` are one hue.
-/

namespace ShellPrompt
namespace Style

inductive Hue where
  | black | red | green | yellow | blue | purple | cyan | white
deriving DecidableEq

inductive Colour where
  | reset
  | named (hue : Hue) (bright : Bool)
  | palette (index : UInt8)
  | rgb (r g b : UInt8)
deriving DecidableEq

inductive Reason where
  | hexLength
  | hexDigit
  | unknownWord (word : String)
deriving DecidableEq

namespace Reason

def message : Reason → String
  | .hexLength => "hex colours need six digits"
  | .hexDigit => "bad hex digit"
  | .unknownWord word => s!"unknown word `{word}`"

end Reason

namespace Hue

def ofWord? (word : List Char) : Option Hue :=
  match String.ofList word with
  | "black" => some .black
  | "red" => some .red
  | "green" => some .green
  | "yellow" => some .yellow
  | "blue" => some .blue
  | "purple" => some .purple
  | "magenta" => some .purple
  | "cyan" => some .cyan
  | "white" => some .white
  | _ => none

def index : Hue → Nat
  | .black => 0
  | .red => 1
  | .green => 2
  | .yellow => 3
  | .blue => 4
  | .purple => 5
  | .cyan => 6
  | .white => 7

end Hue

namespace Colour

/-- What follows `mark` at the start of a word. -/
def after? (mark word : List Char) : Option (List Char) :=
  if mark.isPrefixOf word then some (word.drop mark.length) else none

def ofName? (word : List Char) : Option Colour :=
  match after? "bright-".toList word with
  | some rest => (Hue.ofWord? rest).map (.named · true)
  | none => (Hue.ofWord? word).map (.named · false)

/-- The value of one channel. A single digit behind a plus sign is read too. -/
def channel? (pair : List Char) : Option UInt8 :=
  (Text.Numeral.hexadecimal? (Text.Numeral.dropPlus pair)).map UInt8.ofNat

/-- Reads the next two bytes of a hexadecimal colour; they have to be whole characters. -/
def channel (digits : List Char) : Except (Fault Reason) (UInt8 × List Char) :=
  match Text.Utf8.splitAt? 2 digits with
  | none => .error (.crash .splitCharacter)
  | some (pair, rest) =>
    match channel? pair with
    | none => .error (.error .hexDigit)
    | some value => .ok (value, rest)

/-- The colour behind `#`. Its length is counted in bytes. -/
def ofHex (digits : List Char) : Except (Fault Reason) Colour :=
  if Text.Utf8.size digits ≠ 6 then .error (.error .hexLength)
  else do
    let (r, rest) ← channel digits
    let (g, rest) ← channel rest
    let (b, _) ← channel rest
    return .rgb r g b

def ofIndex? (word : List Char) : Option Colour :=
  match Text.Numeral.unsigned? word with
  | some n => if n < 256 then some (.palette (UInt8.ofNat n)) else none
  | none => none

def ofWord (word : List Char) : Except (Fault Reason) Colour :=
  match word with
  | '#' :: digits => ofHex digits
  | _ =>
    match ofIndex? word with
    | some colour => .ok colour
    | none =>
      match ofName? word with
      | some colour => .ok colour
      | none => .error (.error (.unknownWord (String.ofList word)))

end Colour
end Style
end ShellPrompt
