import ShellPrompt.Fragment

/-!
# ShellPrompt.Layout

Fitting fragments into the width of a terminal.

Fragments are dropped whole, the lowest priority first and among equals the rightmost, until the
line fits or one fragment is left. `fit` is that loop; `takeLeast` finds the fragment to drop.
-/

namespace ShellPrompt

/-- The places of a prompt that a line is rendered for. -/
inductive Target where
  | left
  | right
  | bottom
deriving DecidableEq

namespace Target

/-- In render order. -/
def all : List Target := [.left, .right, .bottom]

def name : Target → String
  | .left => "left"
  | .right => "right"
  | .bottom => "bottom"

end Target

namespace Layout

structure Line where
  fragments : List Fragment := []
  /-- Modules whose fragments were dropped, in drop order. -/
  dropped : List String := []
  /-- Columns of the kept fragments and the separators between them. -/
  width : Nat := 0
  /-- A lone fragment is wider than the terminal. -/
  overflow : Bool := false
deriving DecidableEq

def Line.isEmpty (l : Line) : Bool := l.fragments.isEmpty

structure Lines where
  left : Line := {}
  right : Line := {}
  bottom : Line := {}
deriving DecidableEq

namespace Lines

def line (ls : Lines) : Target → Line
  | .left => ls.left
  | .right => ls.right
  | .bottom => ls.bottom

def set (ls : Lines) (t : Target) (l : Line) : Lines :=
  match t with
  | .left => { ls with left := l }
  | .right => { ls with right := l }
  | .bottom => { ls with bottom := l }

@[simp] theorem line_set_self (ls : Lines) (t : Target) (l : Line) : (ls.set t l).line t = l := by
  cases t <;> rfl

theorem line_set_of_ne {t u : Target} (h : u ≠ t) (ls : Lines) (l : Line) :
    (ls.set t l).line u = ls.line u := by
  cases t <;> cases u <;> first | rfl | exact absurd rfl h

end Lines

/-- Columns of fragments side by side with a separator of the given width between them. -/
def lineWidth (gap : Nat) (fragments : List Fragment) : Nat :=
  fragments.foldr (fun f n => f.width + n) 0 + gap * (fragments.length - 1)

/-- Takes the fragment of least priority out of a nonempty list, among equals the rightmost. -/
def takeLeast : Fragment → List Fragment → Fragment × List Fragment
  | f, [] => (f, [])
  | f, g :: rest =>
    let r := takeLeast g rest
    if f.priority.toInt < r.1.priority.toInt then (f, g :: rest) else (r.1, f :: r.2)

theorem length_takeLeast (f : Fragment) (rest : List Fragment) :
    (takeLeast f rest).2.length = rest.length := by
  induction rest generalizing f with
  | nil => rfl
  | cons g rest ih =>
    simp only [takeLeast]
    split
    · rfl
    · simp [ih]

/-- The fragments kept within `budget` columns, and those dropped, in drop order. -/
def fit (gap budget : Nat) : List Fragment → List Fragment × List Fragment
  | [] => ([], [])
  | [f] => ([f], [])
  | f :: g :: rest =>
    if budget < lineWidth gap (f :: g :: rest) then
      let r := takeLeast f (g :: rest)
      let kept := fit gap budget r.2
      (kept.1, r.1 :: kept.2)
    else (f :: g :: rest, [])
termination_by fragments => fragments.length
decreasing_by simp [length_takeLeast]

def compose (separator : String) (fragments : List Fragment) (termWidth : UInt16) : Line :=
  let gap := displayWidth separator
  let budget := termWidth.toNat
  let r := fit gap budget fragments
  let width := lineWidth gap r.1
  { fragments := r.1
    dropped := r.2.map Fragment.module
    width := width
    overflow := budget < width }

end Layout
end ShellPrompt
