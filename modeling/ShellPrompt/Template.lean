/-!
# ShellPrompt.Template

Templates with slots in braces.

Outside slots a doubled brace stands for one, and a lone closing brace for itself. A slot goes up to
the next closing brace; an opening brace without one leaves the rest of the template as it is.
-/

namespace ShellPrompt
namespace Template

inductive Piece where
  | char (c : Char)
  | slot (name : List Char)
deriving DecidableEq

/-- The characters up to the next closing brace, and those behind it. -/
def untilClosing : List Char → Option (List Char × List Char)
  | [] => none
  | c :: rest =>
    if c = '\x7d' then some ([], rest)
    else (untilClosing rest).map fun p => (c :: p.1, p.2)

theorem eq_of_untilClosing {text name rest : List Char}
    (h : untilClosing text = some (name, rest)) : text = name ++ '\x7d' :: rest := by
  induction text generalizing name with
  | nil => simp [untilClosing] at h
  | cons c cs ih =>
    unfold untilClosing at h
    split at h
    · cases h; simp_all
    · obtain ⟨p, hp, he⟩ := Option.map_eq_some_iff.1 h
      cases he
      simp [ih hp]

def pieces : List Char → List Piece
  | [] => []
  | '\x7b' :: '\x7b' :: rest => .char '\x7b' :: pieces rest
  | '\x7d' :: '\x7d' :: rest => .char '\x7d' :: pieces rest
  | '\x7b' :: text =>
    match _h : untilClosing text with
    | some (name, rest) => .slot name :: pieces rest
    | none => .char '\x7b' :: text.map .char
  | c :: rest => .char c :: pieces rest
termination_by text => text.length
decreasing_by
  · simp only [List.length_cons]; omega
  · simp only [List.length_cons]; omega
  · rw [eq_of_untilClosing _h]; simp only [List.length_cons, List.length_append]; omega
  · simp only [List.length_cons]; omega

def slot (name : List Char) : List Char := '\x7b' :: name ++ ['\x7d']

end Template
end ShellPrompt
