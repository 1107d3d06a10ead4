import ShellPrompt.Proofs.Json.Printing
import ShellPrompt.Proofs.Log.LogFile

/-!
# ShellPrompt.Proofs.Log.SharedFile

Two sinks on one file, their calls interleaved in any way, each call one step.

A sink that has truncated the file goes on at its own offset. Where the other sink has moved the
end of the file meanwhile, the next line lands inside the content or behind a gap:

  * `Orderly` — a call that truncates the file, or whose sink stands at its end;
  * `Tidy.log` — an orderly call keeps the file a row of whole lines, those since the last
    truncation among them;
  * `Tidy.not_intact` — any other call loses a line or leaves a gap of NUL bytes;
  * `intact_iff_orderly` — so lines stay whole and present exactly as long as all calls are orderly.
-/

namespace ShellPrompt
namespace Log

theorem Event.bytes_length_pos (e : Event) : 0 < e.bytes.length := by
  have hline : e.line ≠ [] := by simp [Event.line]
  obtain ⟨c, rest, hcons⟩ := List.exists_cons_of_ne_nil hline
  have hpos := String.length_utf8EncodeChar c ▸ c.utf8Size_pos
  rw [Event.bytes, hcons, Text.Utf8.encode, List.flatMap_cons, List.length_append]
  omega

theorem Event.zero_not_mem_bytes (e : Event) : (0 : UInt8) ∉ e.bytes := by
  refine Text.Utf8.zero_not_mem_encode ?_
  intro c hc
  rcases List.mem_append.1 hc with hc | hc
  · have := e.graphic_print c hc
    omega
  · rw [List.mem_singleton.1 hc]
    decide

theorem zero_not_mem_lines (events : List Event) : (0 : UInt8) ∉ lines events := by
  intro h
  obtain ⟨e, -, he⟩ := List.mem_flatMap.1 h
  exact e.zero_not_mem_bytes he

theorem length_lines_le {kept found : List Event} (h : kept.Sublist found) :
    (lines kept).length ≤ (lines found).length := by
  induction h with
  | slnil => simp
  | cons e _ ih =>
    simp only [lines_cons, List.length_append]
    omega
  | cons_cons e _ ih =>
    simp only [lines_cons, List.length_append]
    omega

/-- The file is a row of whole lines, and the given events are among them, in their order. -/
def Intact (content : Text.Bytes) (kept : List Event) : Prop :=
  ∃ found, content = lines found ∧ kept.Sublist found

theorem not_intact_of_length_lt {content : Text.Bytes} {kept : List Event}
    (h : content.length < (lines kept).length) : ¬ Intact content kept := by
  rintro ⟨found, rfl, hsub⟩
  have := length_lines_le hsub
  omega

theorem not_intact_of_zero {content : Text.Bytes} (h : (0 : UInt8) ∈ content)
    (kept : List Event) : ¬ Intact content kept := by
  rintro ⟨found, rfl, -⟩
  exact zero_not_mem_lines found h

/-! ## Writing away from the end -/

theorem length_overwrite_lt {content bytes : Text.Bytes} {offset : Nat}
    (hinside : offset < content.length) (hbytes : 0 < bytes.length) :
    (overwrite content offset bytes).length < content.length + bytes.length := by
  simp [overwrite]
  omega

theorem zero_mem_overwrite {content bytes : Text.Bytes} {offset : Nat}
    (hbeyond : content.length < offset) : (0 : UInt8) ∈ overwrite content offset bytes := by
  have hgap : (0 : UInt8) ∈ List.replicate (offset - content.length) 0 :=
    List.mem_replicate.2 ⟨by omega, rfl⟩
  simp only [overwrite, List.mem_append]
  exact .inl (.inl (.inr hgap))

theorem not_intact_overwrite {kept : List Event} {offset : Nat}
    (haway : offset ≠ (lines kept).length) (e : Event) :
    ¬ Intact (overwrite (lines kept) offset e.bytes) (kept ++ [e]) := by
  rcases Nat.lt_or_gt_of_ne haway with hinside | hbeyond
  · refine not_intact_of_length_lt ?_
    have := length_overwrite_lt hinside e.bytes_length_pos
    simpa using this
  · exact not_intact_of_zero (zero_mem_overwrite hbeyond) _

/-! ## Two sinks -/

inductive Side where
  | first
  | second
deriving DecidableEq

structure Call where
  side : Side
  event : Event

structure SharedFile where
  first : FileSink
  second : FileSink
  content : Text.Bytes

namespace SharedFile

def opened (maxBytes : Nat) (content : Text.Bytes) : SharedFile where
  first := { maxBytes }
  second := { maxBytes }
  content := content

def sink (s : SharedFile) : Side → FileSink
  | .first => s.first
  | .second => s.second

def log (s : SharedFile) (c : Call) : SharedFile :=
  let r := (s.sink c.side).write s.content c.event.bytes
  match c.side with
  | .first => { s with first := r.1, content := r.2 }
  | .second => { s with second := r.1, content := r.2 }

def after (s : SharedFile) (calls : List Call) : SharedFile := calls.foldl log s

/-- The call finds the file too long and truncates it. -/
def Truncates (s : SharedFile) (c : Call) : Prop :=
  Exceeds (s.sink c.side).maxBytes s.content c.event.bytes

instance (s : SharedFile) (c : Call) : Decidable (s.Truncates c) :=
  inferInstanceAs (Decidable (Exceeds ..))

/-- The call truncates the file, or its sink stands at the end of it. -/
def Orderly (s : SharedFile) (c : Call) : Prop :=
  s.Truncates c ∨ (s.sink c.side).AtEnd s.content

/-- The events logged since the last truncation, after those of `kept` where there is none. -/
def sinceFrom (s : SharedFile) (kept : List Event) : List Call → List Event
  | [] => kept
  | c :: rest =>
    (s.log c).sinceFrom (if s.Truncates c then [c.event] else kept ++ [c.event]) rest

/-- The events logged since the file was last truncated, or since it was opened. -/
def since (s : SharedFile) (calls : List Call) : List Event := s.sinceFrom [] calls

theorem content_log (s : SharedFile) (c : Call) :
    (s.log c).content = ((s.sink c.side).write s.content c.event.bytes).2 := by
  unfold log
  split <;> rfl

theorem sink_log_self (s : SharedFile) (c : Call) :
    (s.log c).sink c.side = ((s.sink c.side).write s.content c.event.bytes).1 := by
  obtain ⟨side, e⟩ := c
  cases side <;> rfl

theorem sink_log_of_ne (s : SharedFile) {c : Call} {side : Side} (h : side ≠ c.side) :
    (s.log c).sink side = s.sink side := by
  obtain ⟨side', e⟩ := c
  cases side <;> cases side' <;> first | rfl | exact absurd rfl h

/-- The file is a row of lines that ends with those of `kept`. In front of these stands what the
file held when it was opened, but only as long as both sinks append: the file has not been
truncated then. -/
structure Tidy (s : SharedFile) (kept : List Event) : Prop where
  content : ∃ base, s.content = lines (base ++ kept) ∧
    (base = [] ∨ ∀ side, (s.sink side).position = .atEnd)

namespace Tidy

variable {s : SharedFile} {kept : List Event} {c : Call}

theorem opened (maxBytes : Nat) (old : List Event) :
    (SharedFile.opened maxBytes (lines old)).Tidy [] := by
  refine ⟨old, by simp [SharedFile.opened], .inr ?_⟩
  intro side
  cases side <;> rfl

theorem intact (h : s.Tidy kept) : Intact s.content kept := by
  obtain ⟨base, hcontent, -⟩ := h.content
  exact ⟨base ++ kept, hcontent, List.sublist_append_right base kept⟩

theorem truncate (htrunc : s.Truncates c) : (s.log c).Tidy [c.event] := by
  refine ⟨[], ?_, .inl rfl⟩
  rw [content_log, (FileSink.write_exceeding htrunc).1]
  simp

/-- A sink that appends stays in that mode, and the other one is not touched. -/
theorem position_append (hfit : ¬ s.Truncates c) (hpos : ∀ side, (s.sink side).position = .atEnd)
    (side : Side) : ((s.log c).sink side).position = .atEnd := by
  by_cases hside : side = c.side
  · subst hside
    rw [sink_log_self, FileSink.write_fitting hfit, FileSink.put, hpos]
    exact hpos _
  · rw [sink_log_of_ne s hside]
    exact hpos side

theorem append (h : s.Tidy kept) (hfit : ¬ s.Truncates c)
    (hend : (s.sink c.side).AtEnd s.content) : (s.log c).Tidy (kept ++ [c.event]) := by
  obtain ⟨base, hcontent, hbase⟩ := h.content
  refine ⟨base, ?_, ?_⟩
  · rw [content_log, FileSink.write_fitting hfit, (FileSink.put_atEnd hend _).1, hcontent]
    simp
  · exact hbase.imp_right fun hpos => position_append hfit hpos

theorem log (h : s.Tidy kept) (horderly : s.Orderly c) :
    (s.log c).Tidy (if s.Truncates c then [c.event] else kept ++ [c.event]) := by
  split
  case isTrue htrunc => exact truncate htrunc
  case isFalse hfit => exact h.append hfit (horderly.resolve_left hfit)

/-- A sink away from the end has truncated the file before, so nothing stands in front of the
lines of `kept`: the new line falls into them, or behind a gap. -/
theorem not_intact (h : s.Tidy kept) (hdisorder : ¬ s.Orderly c) :
    ¬ s.Truncates c ∧ ¬ Intact (s.log c).content (kept ++ [c.event]) := by
  obtain ⟨hfit, haway⟩ := not_or.1 hdisorder
  refine ⟨hfit, ?_⟩
  obtain ⟨base, hcontent, hbase⟩ := h.content
  cases hpos : (s.sink c.side).position with
  | atEnd => exact absurd (.inl hpos) haway
  | offset n =>
    have hnil : base = [] := by
      refine hbase.resolve_right fun hall => ?_
      rw [hall] at hpos
      cases hpos
    rw [hnil, List.nil_append] at hcontent
    have hn : n ≠ (lines kept).length := by
      rintro rfl
      exact haway (.inr (by rw [hpos, hcontent]))
    rw [content_log, FileSink.write_fitting hfit, FileSink.put, hpos, hcontent]
    exact not_intact_overwrite hn c.event

end Tidy

/-! ## Whole runs -/

theorem forall_prefix_cons {c : Call} {rest : List Call} {P : List Call → Prop} :
    (∀ before, before <+: c :: rest → P before) ↔
      P [] ∧ ∀ before, before <+: rest → P (c :: before) := by
  constructor
  · intro h
    exact ⟨h [] List.nil_prefix, fun before hbefore => h _ ((List.prefix_cons_inj c).2 hbefore)⟩
  · rintro ⟨hnil, hcons⟩ before hbefore
    rcases List.prefix_cons_iff.1 hbefore with rfl | ⟨tail, rfl, htail⟩
    · exact hnil
    · exact hcons tail htail

theorem forall_call_cons {c : Call} {rest : List Call} {P : List Call → Call → Prop} :
    (∀ before d, before ++ [d] <+: c :: rest → P before d) ↔
      P [] c ∧ ∀ before d, before ++ [d] <+: rest → P (c :: before) d := by
  constructor
  · intro h
    exact ⟨h [] c (by simp), fun before d hbefore => h _ d ((List.prefix_cons_inj c).2 hbefore)⟩
  · rintro ⟨hnil, hcons⟩ before d hbefore
    cases before with
    | nil =>
      obtain ⟨rfl, -⟩ := List.cons_prefix_cons.1 hbefore
      exact hnil
    | cons b before =>
      obtain ⟨rfl, htail⟩ := List.cons_prefix_cons.1 hbefore
      exact hcons before d htail

/-- Up to the first call that is not orderly the file is tidy, and right behind it no longer
intact. -/
theorem Tidy.intact_iff {s : SharedFile} {kept : List Event} (h : s.Tidy kept)
    (calls : List Call) :
    (∀ before, before <+: calls → Intact (s.after before).content (s.sinceFrom kept before)) ↔
      ∀ before c, before ++ [c] <+: calls → (s.after before).Orderly c := by
  induction calls generalizing s kept with
  | nil =>
    refine iff_of_true ?_ (by simp)
    intro before hbefore
    rw [List.prefix_nil.1 hbefore]
    exact h.intact
  | cons c rest ih =>
    rw [forall_prefix_cons, forall_call_cons]
    by_cases horderly : s.Orderly c
    · exact and_congr (iff_of_true h.intact horderly) (ih (h.log horderly))
    · refine iff_of_false ?_ fun hall => horderly hall.1
      rintro ⟨-, hrest⟩
      obtain ⟨hfit, hlost⟩ := h.not_intact horderly
      have hintact := hrest [] List.nil_prefix
      rw [sinceFrom, if_neg hfit] at hintact
      exact hlost hintact

/-- Two sinks on a file of whole lines keep it `Intact` at all times, with every event since the
last truncation in it and in order, exactly as long as each call `Truncates` the file or is made by
a sink that is `AtEnd`. -/
theorem intact_iff_orderly (maxBytes : Nat) (old : List Event) (calls : List Call) :
    let s := SharedFile.opened maxBytes (lines old)
    (∀ before, before <+: calls → Intact (s.after before).content (s.since before)) ↔
      ∀ before c, before ++ [c] <+: calls →
        (s.after before).Truncates c ∨
          ((s.after before).sink c.side).AtEnd (s.after before).content :=
  (Tidy.opened maxBytes old).intact_iff calls

def note (message : String) : Event := { level := .info, target := "prompt", message := message }

/-- The first sink truncates the file, the second appends a line, and the next line of the first is
written over it. -/
theorem overtaken_line_is_lost :
    let s := SharedFile.opened 180 (lines [note "a", note "b", note "c"])
    let calls : List Call := [⟨.first, note "d"⟩, ⟨.second, note "e"⟩, ⟨.first, note "f"⟩]
    s.since calls = [note "d", note "e", note "f"] ∧
      (s.after calls).content = lines [note "d", note "f"] ∧
      ¬ Intact (s.after calls).content (s.since calls) := by
  intro s calls
  have hlength : ∀ m ∈ ["a", "b", "c", "d", "e", "f"], (note m).bytes.length = 59 := by
    decide +kernel
  simp only [List.forall_mem_cons, List.not_mem_nil, false_imp_iff, implies_true, and_true]
    at hlength
  obtain ⟨ha, hb, hc, hd, he, hf⟩ := hlength
  have hsince : s.since calls = [note "d", note "e", note "f"] := by
    simp [s, calls, since, sinceFrom, opened, Truncates, Exceeds, sink, log, FileSink.write,
      FileSink.mustTruncate, FileSink.put, overwrite, ha, hb, hc, hd, he, hf]
  have hcontent : (s.after calls).content = lines [note "d", note "f"] := by
    simp [s, calls, after, opened, sink, log, FileSink.write, FileSink.mustTruncate,
      FileSink.put, overwrite, ha, hb, hc, hd, he, hf]
  refine ⟨hsince, hcontent, not_intact_of_length_lt ?_⟩
  simp [hsince, hcontent, hd, he, hf]

end SharedFile
end Log
end ShellPrompt
