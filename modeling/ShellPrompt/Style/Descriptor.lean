import ShellPrompt.Style.Colour
import ShellPrompt.Text.Blank

/-!
# ShellPrompt.Style.Descriptor

Concrete styling, and style strings such as `bold fg:#ff8800 bg:blue`.

A style string is read word by word, letter case of ASCII letters aside. An attribute word sets an
attribute, `none` forgets everything read so far, any other word is a colour: of the background
behind `bg:`, else of the foreground, with or without `fg:`. Later colours replace earlier ones.
-/

namespace ShellPrompt
namespace Style

structure Descriptor where
  fg : Option Colour := none
  bg : Option Colour := none
  bold : Bool := false
  dimmed : Bool := false
  italic : Bool := false
  underline : Bool := false
deriving DecidableEq

structure StyleError where
  style : String
  reason : Reason
deriving DecidableEq

namespace StyleError

def message (e : StyleError) : String := s!"invalid style `{e.style}`: {e.reason.message}"

end StyleError

namespace Descriptor

def plain : Descriptor := {}

def isPlain (d : Descriptor) : Bool := d == plain

/-- A colour word, with its optional mark of the layer it belongs to. -/
def paintWord (d : Descriptor) (word : List Char) : Except (Fault Reason) Descriptor :=
  match Colour.after? "bg:".toList word with
  | some colour => (Colour.ofWord colour).map fun c => { d with bg := some c }
  | none =>
    let colour := (Colour.after? "fg:".toList word).getD word
    (Colour.ofWord colour).map fun c => { d with fg := some c }

/-- What one word, already in lower case, makes of a style. -/
def applyWord (d : Descriptor) (word : List Char) : Except (Fault Reason) Descriptor :=
  match String.ofList word with
  | "bold" => .ok { d with bold := true }
  | "dimmed" => .ok { d with dimmed := true }
  | "dim" => .ok { d with dimmed := true }
  | "italic" => .ok { d with italic := true }
  | "underline" => .ok { d with underline := true }
  | "none" => .ok plain
  | _ => paintWord d word

def wordsOf (raw : List Char) : List (List Char) :=
  (Text.words raw).map (fun word => word.map Char.toLower)

/-- Reads words from left to right; the first that cannot be read decides. -/
def applyWords : Descriptor → List (List Char) → Except (Fault Reason) Descriptor
  | d, [] => .ok d
  | d, word :: rest =>
    match applyWord d word with
    | .ok d' => applyWords d' rest
    | .error fault => .error fault

def parse (raw : String) : Except (Fault StyleError) Descriptor :=
  match applyWords plain (wordsOf raw.toList) with
  | .ok d => .ok d
  | .error (.error reason) => .error (.error ⟨raw, reason⟩)
  | .error (.crash c) => .error (.crash c)

end Descriptor
end Style
end ShellPrompt
