import ShellPrompt.Style.Descriptor
import ShellPrompt.Table

/-!
# ShellPrompt.Style.Sheet

Style tags and what they stand for. `defaults` is the built-in sheet; `withOverrides` overlays it
with configured style strings, and a string that cannot be read leaves its tag as it was.
-/

namespace ShellPrompt
namespace Style

structure Sheet where
  styles : Table Descriptor := []

namespace Sheet

def empty : Sheet := {}

def insert (sheet : Sheet) (tag : String) (style : Descriptor) : Sheet :=
  ⟨Table.insert tag style sheet.styles⟩

def get? (sheet : Sheet) (tag : String) : Option Descriptor := Table.get? tag sheet.styles

def size (sheet : Sheet) : Nat := sheet.styles.length

def isEmpty (sheet : Sheet) : Bool := sheet.styles.isEmpty

def defaults : Sheet where
  styles := Table.ofList [
    ("error", { bold := true, fg := some (.named .red false) }),
    ("success", { bold := true, fg := some (.named .green false) }),
    ("path", { bold := true, fg := some (.named .cyan false) }),
    ("git-clean", { bold := true, fg := some (.named .purple false) }),
    ("git-dirty", { bold := true, fg := some (.named .yellow false) }),
    ("duration", { fg := some (.named .yellow false) }),
    ("jobs", { bold := true, fg := some (.named .blue false) }),
    ("muted", { fg := some (.named .black true) })]

/-- Overlays the entries in order and collects the strings that cannot be read. -/
def overlay : Sheet → List (String × String) → Except Crash (Sheet × List StyleError)
  | sheet, [] => .ok (sheet, [])
  | sheet, (tag, raw) :: rest =>
    match Descriptor.parse raw with
    | .ok style => overlay (sheet.insert tag style) rest
    | .error (.error e) => (overlay sheet rest).map fun r => (r.1, e :: r.2)
    | .error (.crash c) => .error c

def withOverrides (overrides : Table String) : Except Crash (Sheet × List StyleError) :=
  overlay defaults overrides

end Sheet
end Style
end ShellPrompt
