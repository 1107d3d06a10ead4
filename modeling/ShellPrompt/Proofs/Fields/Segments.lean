import ShellPrompt.Proofs.Fields.Format

/-!
# ShellPrompt.Proofs.Fields.Segments

Any template, however its braces stand.

* `Template.Scans`: what a scan from left to right meets in a template. Every template is scanned in
  just one way (`exists_scans`, `Scans.unique`).
* `Scans.pieces_eq`: the pieces a template is filled from.
* `expand_empty`: without any field, filling takes one brace out of each pair and nothing else.
* `expand_insert_own`: a field whose value is its own slot fills nothing.
-/

namespace ShellPrompt
namespace Template

inductive Segment where
  | char (c : Char)
  | openPair
  | closePair
  /-- A closing brace by itself. -/
  | lone
  | slot (name : List Char)
  /-- An opening brace that no closing one follows, with the rest of the template. -/
  | unclosed (rest : List Char)
deriving DecidableEq

namespace Segment

/-- The segment as it stands in the template. -/
def spelled : Segment → List Char
  | .char c => [c]
  | .openPair => ['\x7b', '\x7b']
  | .closePair => ['\x7d', '\x7d']
  | .lone => ['\x7d']
  | .slot name => Template.slot name
  | .unclosed rest => '\x7b' :: rest

/-- Of a pair, one brace; anything else as it stands. -/
def kept : Segment → List Char
  | .openPair => ['\x7b']
  | .closePair => ['\x7d']
  | s => s.spelled

def pieces : Segment → List Piece
  | .char c => [.char c]
  | .openPair => [.char '\x7b']
  | .closePair => [.char '\x7d']
  | .lone => [.char '\x7d']
  | .slot name => [.slot name]
  | .unclosed rest => .char '\x7b' :: rest.map .char

end Segment

def isBrace (c : Char) : Bool := c = '\x7b' || c = '\x7d'

inductive Scans : List Char → List Segment → Prop where
  | nil : Scans [] []
  | char {c : Char} {rest : List Char} {segments : List Segment} (plain : isBrace c = false)
      (more : Scans rest segments) : Scans (c :: rest) (.char c :: segments)
  | openPair {rest : List Char} {segments : List Segment} (more : Scans rest segments) :
    Scans ('\x7b' :: '\x7b' :: rest) (.openPair :: segments)
  | closePair {rest : List Char} {segments : List Segment} (more : Scans rest segments) :
    Scans ('\x7d' :: '\x7d' :: rest) (.closePair :: segments)
  | lone {rest : List Char} {segments : List Segment} (single : rest.head? ≠ some '\x7d')
      (more : Scans rest segments) : Scans ('\x7d' :: rest) (.lone :: segments)
  | slot {text name rest : List Char} {segments : List Segment}
      (single : text.head? ≠ some '\x7b') (named : text = name ++ '\x7d' :: rest)
      (first : '\x7d' ∉ name) (more : Scans rest segments) :
    Scans ('\x7b' :: text) (.slot name :: segments)
  | unclosed {text : List Char} (single : text.head? ≠ some '\x7b') (unended : '\x7d' ∉ text) :
    Scans ('\x7b' :: text) [.unclosed text]

theorem untilClosing_eq_none_iff {text : List Char} : untilClosing text = none ↔ '\x7d' ∉ text := by
  induction text with
  | nil => simp [untilClosing]
  | cons c rest ih =>
    unfold untilClosing
    split
    case isTrue h => simp [h]
    case isFalse h => simp [ih, Ne.symm h]

theorem notMem_of_untilClosing {text name rest : List Char}
    (h : untilClosing text = some (name, rest)) : '\x7d' ∉ name := by
  induction text generalizing name with
  | nil => cases h
  | cons c text ih =>
    unfold untilClosing at h
    split at h
    case isTrue =>
      cases h
      simp
    case isFalse hc =>
      obtain ⟨p, hp, heq⟩ := Option.map_eq_some_iff.1 h
      cases heq
      simp [ih hp, Ne.symm hc]

theorem head?_ne {c : Char} {text : List Char} (h : ∀ rest, text ≠ c :: rest) :
    text.head? ≠ some c := by
  intro hhead
  obtain ⟨rest, rfl⟩ := List.head?_eq_some_iff.1 hhead
  exact h rest rfl

theorem exists_scans (text : List Char) : ∃ segments, Scans text segments := by
  fun_induction pieces text with
  | case1 => exact ⟨_, .nil⟩
  | case2 rest ih =>
    obtain ⟨segments, h⟩ := ih
    exact ⟨_, .openPair h⟩
  | case3 rest ih =>
    obtain ⟨segments, h⟩ := ih
    exact ⟨_, .closePair h⟩
  | case4 text hopen name rest hclosing ih =>
    obtain ⟨segments, h⟩ := ih
    exact ⟨_, .slot (head?_ne hopen) (eq_of_untilClosing hclosing)
      (notMem_of_untilClosing hclosing) h⟩
  | case5 text hopen hclosing =>
    exact ⟨_, .unclosed (head?_ne hopen) (untilClosing_eq_none_iff.1 hclosing)⟩
  | case6 c rest _ hdouble hopen ih =>
    obtain ⟨segments, h⟩ := ih
    by_cases hclose : c = '\x7d'
    · subst hclose
      exact ⟨_, .lone (head?_ne fun more heq => hdouble more rfl heq) h⟩
    · have hbrace : c ≠ '\x7b' := hopen
      exact ⟨_, .char (by simp [isBrace, hclose, hbrace]) h⟩

theorem Scans.unique {text : List Char} {a b : List Segment} (ha : Scans text a)
    (hb : Scans text b) : a = b := by
  induction ha generalizing b with
  | nil =>
    cases hb
    rfl
  | char plain more ih =>
    cases hb with
    | char _ more' => rw [ih more']
    | openPair | closePair | lone | slot | unclosed => simp [isBrace] at plain
  | openPair more ih =>
    cases hb with
    | openPair more' => rw [ih more']
    | char plain => simp [isBrace] at plain
    | slot single | unclosed single => simp at single
  | closePair more ih =>
    cases hb with
    | closePair more' => rw [ih more']
    | char plain => simp [isBrace] at plain
    | lone single => simp at single
  | lone single more ih =>
    cases hb with
    | lone _ more' => rw [ih more']
    | char plain => simp [isBrace] at plain
    | closePair => simp at single
  | @slot text name rest _ single named first more ih =>
    cases hb with
    | @slot _ name' rest' _ _ named' first' more' =>
      have hsame : some (name, rest) = some (name', rest') := by
        rw [← untilClosing_append first, ← named, named', untilClosing_append first']
      cases hsame
      rw [ih more']
    | char plain => simp [isBrace] at plain
    | openPair => simp at single
    | unclosed _ unended => simp [named] at unended
  | unclosed single unended =>
    cases hb with
    | unclosed => rfl
    | char plain => simp [isBrace] at plain
    | openPair => simp at single
    | slot _ named => simp [named] at unended

theorem Scans.spelled_eq {text : List Char} {segments : List Segment} (h : Scans text segments) :
    text = segments.flatMap Segment.spelled := by
  induction h with
  | nil => rfl
  | char plain more ih => rw [List.flatMap_cons, ← ih]; rfl
  | openPair more ih => rw [List.flatMap_cons, ← ih]; rfl
  | closePair more ih => rw [List.flatMap_cons, ← ih]; rfl
  | lone single more ih => rw [List.flatMap_cons, ← ih]; rfl
  | slot single named first more ih =>
    rw [List.flatMap_cons, ← ih, named]
    simp [Segment.spelled, Template.slot]
  | unclosed single unended => simp [Segment.spelled]

theorem Scans.pieces_eq {text : List Char} {segments : List Segment} (h : Scans text segments) :
    pieces text = segments.flatMap Segment.pieces := by
  induction h with
  | nil => simp [pieces]
  | @char c rest segments plain more ih =>
    have hc : c ≠ '\x7b' ∧ c ≠ '\x7d' := by simpa [isBrace] using plain
    rw [List.flatMap_cons, ← ih]
    exact pieces_literal (show ∀ d ∈ [c], d ≠ '\x7b' ∧ d ≠ '\x7d' by simpa using hc) rest
  | openPair more ih => rw [pieces, ih]; rfl
  | closePair more ih => rw [pieces, ih]; rfl
  | lone single more ih =>
    rw [pieces, ih]
    · rfl
    · intro _ heq
      simp at heq
    · intro more' _ heq
      simp [heq] at single
    · simp
  | @slot text name rest segments single named first more ih =>
    have hopen : name.head? ≠ some '\x7b' := by
      intro hhead
      exact single (by rw [named, List.head?_append, hhead, Option.some_or])
    have hslot : '\x7b' :: text = Template.slot name ++ rest := by simp [Template.slot, named]
    rw [hslot, pieces_slot first hopen, ih]
    rfl
  | @unclosed text single unended =>
    rw [pieces]
    · split
      case h_1 name rest hclosing =>
        rw [untilClosing_eq_none_iff.2 unended] at hclosing
        cases hclosing
      case h_2 => simp [Segment.pieces]
    · intro more heq
      simp [heq] at single

/-! ## What is kept of a template -/

theorem Segment.filter_kept (s : Segment) :
    s.kept.filter (!isBrace ·) = s.spelled.filter (!isBrace ·) := by
  cases s <;> simp [kept, spelled, isBrace]

theorem filter_kept (segments : List Segment) :
    (segments.flatMap Segment.kept).filter (!isBrace ·) =
      (segments.flatMap Segment.spelled).filter (!isBrace ·) := by
  simp only [List.filter_flatMap, Segment.filter_kept]

end Template

namespace Fields

open Template (Piece Segment)

variable {m : Type → Type} [Monad m] [LawfulMonad m]

theorem expand_empty (segments : List Segment) :
    ({} : Fields m).expand (segments.flatMap Segment.pieces) =
      pure (segments.flatMap Segment.kept) := by
  have hsegment : ∀ s : Segment, ({} : Fields m).expand s.pieces = pure s.kept := by
    intro s
    cases s with
    | unclosed rest => simp [Segment.pieces, expand, expand_chars, Segment.kept, Segment.spelled]
    | _ => simp [Segment.pieces, expand, get?, Segment.kept, Segment.spelled]
  induction segments with
  | nil => rfl
  | cons s rest ih =>
    rw [List.flatMap_cons, expand_append, hsegment, ih]
    simp

/-- The text of a slot, as a field of that name may yield it. -/
def own (name : String) : String := "\x7b" ++ name ++ "\x7d"

theorem toList_own (name : String) : (own name).toList = Template.slot name.toList := by
  simp [own, Template.slot]

theorem expand_insert_own {fields : Fields m} {name : String} (h : fields.get? name = none)
    (pieces : List Piece) :
    (fields.insert name (pure (own name))).expand pieces = fields.expand pieces := by
  induction pieces with
  | nil => rfl
  | cons piece rest ih =>
    cases piece with
    | char c => rw [expand, expand, ih]
    | slot other =>
      by_cases heq : String.ofList other = name
      · subst heq
        simp only [expand, get?_insert_self, h, ih, pure_bind, toList_own, String.toList_ofList]
      · simp only [expand, get?_insert_of_ne heq, ih]

end Fields
end ShellPrompt
