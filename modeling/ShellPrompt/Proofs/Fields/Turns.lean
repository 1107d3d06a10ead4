import ShellPrompt.Proofs.Fields.Segments
import ShellPrompt.Proofs.Text.Utf8

/-!
# ShellPrompt.Proofs.Fields.Turns

Filling a template by byte offsets.

A template need not be taken apart before it is filled. Each turn of a loop looks for the next
brace, copies what stands before it, writes what the brace calls for and goes on behind that. All
it knows are offsets in bytes, so it may cut where no character begins.

* `brace?`, `turn?` and `fill`: the loop. A cut outside the text or inside a character gives `none`,
  and so does running out of turns.
* `turn?_eq`: no cut is ever wrong, and every turn leaves less to do.
* `format_scans`: given more turns than the template has bytes, the loop fills it.
-/

namespace ShellPrompt
namespace Template

open Text.Utf8

/-- What a brace calls for. -/
inductive Writing where
  | text (text : List Char)
  | slot (name asWritten : List Char)

/-- Sees to the brace a text begins with: what is to be written, and the text behind it. -/
def brace? (text : List Char) : Option (Writing × List Char) :=
  if ['\x7b', '\x7b'].isPrefixOf text || ['\x7d', '\x7d'].isPrefixOf text then do
    return (.text (← upTo? 1 text), ← from? 2 text)
  else if ['\x7d'].isPrefixOf text then do
    return (.text ['\x7d'], ← from? 1 text)
  else do
    match offset? (· = '\x7d') (← from? 1 text) with
    | some stop =>
      return (.slot (← between? 1 (1 + stop) text) (← upTo? (stop + 2) text),
        ← from? (stop + 2) text)
    | none => return (.text text, [])

inductive Turn where
  /-- No brace is left. -/
  | last (text : List Char)
  | next (front : List Char) (writing : Writing) (rest : List Char)

def turn? (text : List Char) : Option Turn :=
  match offset? isBrace text with
  | none => some (.last text)
  | some pos => do
    let front ← upTo? pos text
    let (writing, rest) ← brace? (← from? pos text)
    return .next front writing rest

def Segment.writing : Segment → Writing
  | .slot name => .slot name (Template.slot name)
  | s => .text s.kept

theorem Segment.spelled_ne_nil (s : Segment) : s.spelled ≠ [] := by
  cases s <;> simp [spelled, Template.slot]

theorem size_slot (name : List Char) : size (slot name) = size name + 2 := by
  have hopen : '\x7b'.utf8Size = 1 := rfl
  have hclose : '\x7d'.utf8Size = 1 := rfl
  simp only [slot, List.cons_append, size_cons, size_append, size_nil, hopen, hclose]
  omega

theorem isPrefixOf_singleton {c : Char} {text : List Char} (h : text.head? ≠ some c) :
    [c].isPrefixOf text = false := by
  cases text with
  | nil => rfl
  | cons d rest =>
    have hne : c ≠ d := fun heq => h (by rw [heq, List.head?_cons])
    simp [List.isPrefixOf, hne]

theorem brace?_eq {s : Segment} {segments : List Segment} {text : List Char}
    (h : Scans text (s :: segments)) (hbrace : ∀ c, s ≠ .char c) :
    ∃ rest, text = s.spelled ++ rest ∧ Scans rest segments ∧
      brace? text = some (s.writing, rest) := by
  cases h with
  | char => exact absurd rfl (hbrace _)
  | @openPair rest _ more =>
    refine ⟨rest, rfl, more, ?_⟩
    have hone : upTo? 1 ('\x7b' :: '\x7b' :: rest) = some ['\x7b'] := upTo?_append ['\x7b'] _
    have htwo : from? 2 ('\x7b' :: '\x7b' :: rest) = some rest := from?_append ['\x7b', '\x7b'] _
    simp [brace?, hone, htwo, Segment.writing, Segment.kept]
  | @closePair rest _ more =>
    refine ⟨rest, rfl, more, ?_⟩
    have hone : upTo? 1 ('\x7d' :: '\x7d' :: rest) = some ['\x7d'] := upTo?_append ['\x7d'] _
    have htwo : from? 2 ('\x7d' :: '\x7d' :: rest) = some rest := from?_append ['\x7d', '\x7d'] _
    simp [brace?, hone, htwo, Segment.writing, Segment.kept]
  | @lone rest _ single more =>
    refine ⟨rest, rfl, more, ?_⟩
    have hone : from? 1 ('\x7d' :: rest) = some rest := from?_append ['\x7d'] _
    simp [brace?, hone, isPrefixOf_singleton single, Segment.writing, Segment.kept, Segment.spelled]
  | @slot behind name rest _ single named first more =>
    have htext : '\x7b' :: behind = Template.slot name ++ rest := by simp [Template.slot, named]
    have hbehind : from? 1 ('\x7b' :: behind) = some behind := from?_append ['\x7b'] _
    have hstop : offset? (· = '\x7d') behind = some (size name) := by
      rw [named]
      exact offset?_append (fun c hc => by simpa using ne_of_mem_of_not_mem hc first) (by simp) rest
    have hname : between? 1 (1 + size name) ('\x7b' :: behind) = some name := by
      rw [named]
      exact between?_append ['\x7b'] name ('\x7d' :: rest)
    have hwritten : upTo? (size name + 2) ('\x7b' :: behind) = some (Template.slot name) := by
      rw [htext, ← size_slot, upTo?_append]
    have hrest : from? (size name + 2) ('\x7b' :: behind) = some rest := by
      rw [htext, ← size_slot, from?_append]
    refine ⟨rest, htext, more, ?_⟩
    simp [brace?, hbehind, hstop, hname, hwritten, hrest, isPrefixOf_singleton single,
      Segment.writing]
  | @unclosed behind single unended =>
    have hbehind : from? 1 ('\x7b' :: behind) = some behind := from?_append ['\x7b'] _
    have hstop : offset? (· = '\x7d') behind = none :=
      offset?_eq_none fun c hc => by simpa using ne_of_mem_of_not_mem hc unended
    refine ⟨[], (List.append_nil _).symm, .nil, ?_⟩
    simp [brace?, hbehind, hstop, isPrefixOf_singleton single, Segment.writing, Segment.kept,
      Segment.spelled]

theorem exists_front (text : List Char) :
    ∃ front tail, text = front ++ tail ∧ (∀ c ∈ front, isBrace c = false) ∧
      ∀ c ∈ tail.head?, isBrace c := by
  induction text with
  | nil => exact ⟨[], [], rfl, by simp, by simp⟩
  | cons c rest ih =>
    cases hc : isBrace c with
    | true => exact ⟨[], c :: rest, rfl, by simp, by simpa using hc⟩
    | false =>
      obtain ⟨front, tail, rfl, hfront, htail⟩ := ih
      exact ⟨c :: front, tail, rfl, by simpa [hc] using hfront, htail⟩

theorem turn?_eq (text : List Char) :
    turn? text = some (.last text) ∧ pieces text = text.map .char ∨
      ∃ front s rest, turn? text = some (.next front (Segment.writing s) rest) ∧
        size rest < size text ∧ pieces text = front.map .char ++ (s.pieces ++ pieces rest) := by
  obtain ⟨front, tail, rfl, hfront, htail⟩ := exists_front text
  have hplain : ∀ c ∈ front, c ≠ '\x7b' ∧ c ≠ '\x7d' := by
    simpa [isBrace] using hfront
  cases tail with
  | nil =>
    refine .inl ⟨?_, ?_⟩
    · rw [List.append_nil, turn?, offset?_eq_none hfront]
    · rw [pieces_literal hplain, pieces, List.append_nil, List.append_nil]
  | cons b behind =>
    have hb : isBrace b = true := htail b rfl
    -- a scan from here begins with the segment of that brace
    obtain ⟨segments, hscans⟩ := exists_scans (b :: behind)
    obtain ⟨s, more, rfl⟩ : ∃ s more, segments = s :: more := by
      cases hscans <;> exact ⟨_, _, rfl⟩
    have hbrace : ∀ c, s ≠ .char c := by
      rintro c rfl
      cases hscans with
      | char plain => simp [plain] at hb
    obtain ⟨rest, htext, hrest, hturn⟩ := brace?_eq hscans hbrace
    refine .inr ⟨front, s, rest, ?_, ?_, ?_⟩
    · rw [turn?, offset?_append hfront hb]
      simp [upTo?_append, from?_append, hturn]
    · have := size_pos s.spelled_ne_nil
      rw [htext, size_append, size_append]
      omega
    · rw [pieces_literal hplain, hscans.pieces_eq, hrest.pieces_eq, List.flatMap_cons]

end Template

namespace Fields

open Template (Segment Writing turn?)
open Text.Utf8

variable {m : Type → Type} [Monad m]

/-- What is written for a brace. -/
def written (fields : Fields m) : Writing → m (List Char)
  | .text text => return text
  | .slot name asWritten => do
    let value ← fields.value? (String.ofList name)
    return (value.map String.toList).getD asWritten

def fill (fields : Fields m) : Nat → List Char → List Char → m (Option (List Char))
  | 0, _, _ => return none
  | k + 1, out, text =>
    match turn? text with
    | none => return none
    | some (.last text) => return some (out ++ text)
    | some (.next front writing rest) => do
      let new ← fields.written writing
      fields.fill k (out ++ front ++ new) rest

variable [LawfulMonad m]

theorem expand_segment (fields : Fields m) (s : Segment) :
    fields.expand s.pieces = fields.written s.writing := by
  cases s with
  | unclosed rest =>
    simp [Segment.pieces, expand, expand_chars, Segment.writing, written, Segment.kept,
      Segment.spelled]
  | slot name =>
    cases h : fields.get? (String.ofList name) with
    | none => simp [Segment.pieces, expand, h, Segment.writing, written, value?]
    | some value => simp [Segment.pieces, expand, h, Segment.writing, written, value?]
  | _ => simp [Segment.pieces, expand, Segment.writing, written, Segment.kept, Segment.spelled]

theorem fill_eq (fields : Fields m) {k : Nat} {text : List Char} (h : size text < k)
    (out : List Char) :
    fields.fill k out text =
      (fun new => some (out ++ new)) <$> fields.expand (Template.pieces text) := by
  induction k generalizing text out with
  | zero => exact absurd h (Nat.not_lt_zero _)
  | succ k ih =>
    rcases Template.turn?_eq text with ⟨hturn, hpieces⟩ | ⟨front, s, rest, hturn, hsize, hpieces⟩
    · rw [fill, hturn, hpieces, expand_chars, map_pure]
    · have hmore : size rest < k := by omega
      rw [fill, hturn, hpieces, expand_append, expand_append, expand_chars, expand_segment]
      simp [ih hmore, List.append_assoc]

/-- The loop of `Fields.format` comes to an end on any template, cutting it between characters only,
and reads the one list of segments the template `Scans` as. Without a field it takes one brace out
of each pair outside slots, and a field whose value is its own slot is as good as none. -/
theorem format_scans (fields : Fields m) (template : String) :
    (∀ text, ∃ t, turn? text = some t ∧
      ∀ front writing rest, t = .next front writing rest → size rest < size text) ∧
    (∀ k, size template.toList < k →
      fields.fill k [] template.toList = (some ·.toList) <$> fields.format template) ∧
    (∃ segments, (∀ other, Template.Scans template.toList other ↔ other = segments) ∧
      template.toList = segments.flatMap Segment.spelled ∧
      ({} : Fields m).format template = pure (String.ofList (segments.flatMap Segment.kept)) ∧
      (segments.flatMap Segment.kept).filter (!Template.isBrace ·) =
        template.toList.filter (!Template.isBrace ·)) ∧
    ∀ name, fields.get? name = none →
      (fields.insert name (pure (own name))).format template = fields.format template := by
  refine ⟨?_, ?_, ?_, ?_⟩
  · intro text
    rcases Template.turn?_eq text with ⟨hturn, -⟩ | ⟨front, s, rest, hturn, hsize, -⟩
    · exact ⟨_, hturn, nofun⟩
    · refine ⟨_, hturn, ?_⟩
      rintro _ _ _ ⟨⟩
      exact hsize
  · intro k h
    rw [fill_eq fields h, format, bind_pure_comp, Functor.map_map]
    simp only [List.nil_append, String.toList_ofList]
  · obtain ⟨segments, hscans⟩ := Template.exists_scans template.toList
    refine ⟨segments, ?_, hscans.spelled_eq, ?_, ?_⟩
    · intro other
      exact ⟨fun h => h.unique hscans, fun h => h ▸ hscans⟩
    · rw [format, hscans.pieces_eq, expand_empty, pure_bind]
    · rw [Template.filter_kept, ← hscans.spelled_eq]
  · intro name h
    rw [format, expand_insert_own h, ← format]

/-- Braces of every shape, some next to a character of two bytes. -/
def unbalanced : String := "\x7dé\x7bn\x7d\x7d\x7dü\x7bb\x7bc\x7d\x7b\x7b\x7bö"

theorem format_scans_unbalanced :
    LawfulMonad (StateM Nat) ∧ size unbalanced.toList = 20 ∧
      (counting.format unbalanced).run 1 = ("\x7déi\x7dü\x7bb\x7bc\x7d\x7b\x7bö", 2) ∧
      ({} : Fields (StateM Nat)).format unbalanced =
        pure "\x7dé\x7bn\x7d\x7dü\x7bb\x7bc\x7d\x7b\x7bö" ∧
      counting.get? "b\x7bc" = none ∧
      (counting.insert "b\x7bc" (pure (own "b\x7bc"))).format unbalanced =
        counting.format unbalanced := by
  have htext : unbalanced.toList = ['\x7d', 'é', '\x7b', 'n', '\x7d', '\x7d', '\x7d', 'ü', '\x7b',
    'b', '\x7b', 'c', '\x7d', '\x7b', '\x7b', '\x7b', 'ö'] := rfl
  obtain ⟨-, hfill, ⟨segments, hscans, -, hempty, -⟩, hown⟩ := format_scans counting unbalanced
  rw [htext] at hfill hscans
  have hsegments := (hscans [.lone, .char 'é', .slot ['n'], .closePair, .char 'ü',
    .slot ['b', '\x7b', 'c'], .openPair, .unclosed ['ö']]).1
      (.lone (by simp) (.char rfl (.slot (by simp) rfl (by simp) (.closePair (.char rfl
        (.slot (by simp) rfl (by simp) (.openPair (.unclosed (by simp) (by simp)))))))))
  have hrun : ((some ·.toList) <$> counting.format unbalanced).run 1 =
      (some "\x7déi\x7dü\x7bb\x7bc\x7d\x7b\x7bö".toList, 2) := by
    rw [← hfill 21 (by decide)]
    rfl
  refine ⟨inferInstance, by rw [htext]; rfl, ?_, ?_, rfl, hown _ rfl⟩
  · obtain ⟨hfilled, hcount⟩ := Prod.mk.inj hrun
    exact Prod.ext (String.toList_injective (Option.some.inj hfilled)) hcount
  · rw [hempty, ← hsegments]
    rfl

end Fields
end ShellPrompt
