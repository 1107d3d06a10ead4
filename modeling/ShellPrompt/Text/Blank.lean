/-!
# ShellPrompt.Text.Blank

Words of a text. A blank is a character with the Unicode property `White_Space`; a word is a
maximal run of other characters.

* `pieces`: the runs between blanks, empty ones included, so that `pieces` of a concatenation
  at a blank is the concatenation of the two (`pieces_append`).
* `words`: the nonempty pieces.
-/

namespace ShellPrompt
namespace Text

def isBlank (c : Char) : Bool :=
  let n := c.toNat
  (0x09 ≤ n && n ≤ 0x0D) || n == 0x20 || n == 0x85 || n == 0xA0 || n == 0x1680 ||
    (0x2000 ≤ n && n ≤ 0x200A) || n == 0x2028 || n == 0x2029 || n == 0x202F ||
    n == 0x205F || n == 0x3000

/-- The runs between blanks, from left to right; some may be empty. -/
def pieces : List Char → List (List Char)
  | [] => [[]]
  | c :: rest =>
    if isBlank c then [] :: pieces rest
    else
      match pieces rest with
      | [] => [[c]]
      | p :: ps => (c :: p) :: ps

def words (text : List Char) : List (List Char) :=
  (pieces text).filter (fun p => !p.isEmpty)

theorem pieces_ne_nil (text : List Char) : pieces text ≠ [] := by
  cases text with
  | nil => simp [pieces]
  | cons c rest =>
    rw [pieces]
    split
    · simp
    · split <;> simp

theorem pieces_append {w : Char} (hw : isBlank w = true) (a b : List Char) :
    pieces (a ++ w :: b) = pieces a ++ pieces b := by
  induction a with
  | nil => simp [pieces, hw]
  | cons c rest ih =>
    simp only [List.cons_append, pieces, ih]
    split
    · simp
    · cases h : pieces rest with
      | nil => exact absurd h (pieces_ne_nil rest)
      | cons p ps => simp

/-- A blank separates the words before it from the words after it. -/
theorem words_append {w : Char} (hw : isBlank w = true) (a b : List Char) :
    words (a ++ w :: b) = words a ++ words b := by
  simp [words, pieces_append hw]

end Text
end ShellPrompt
