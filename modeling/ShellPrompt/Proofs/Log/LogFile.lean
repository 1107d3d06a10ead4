import ShellPrompt.Log.Sink

/-!
# ShellPrompt.Proofs.Log.LogFile

A log file with one writer.

A sink that truncated its file writes at an offset of its own. As long as nobody else writes, that
offset is the end of the file:

  * `FileSink.AtEnd` — the sink writes at the end, by appending or at its offset;
  * `FileSink.write_atEnd` — so a line goes behind the content, or stands alone in place of it, and
    the sink is at the end again;
  * `Logger.Holds.after` — this holds through any calls, and `keeps_grown` — the file keeps a suffix
    of what was logged;
  * `file_keeps_lines` — what the file holds after any session, and after one event more.
-/

namespace ShellPrompt
namespace Log

/-- The bytes an event takes up in a file. -/
def Event.bytes (e : Event) : Text.Bytes := Text.Utf8.encode e.line

def lines (events : List Event) : Text.Bytes := events.flatMap Event.bytes

@[simp] theorem lines_nil : lines [] = [] := rfl

@[simp] theorem lines_cons (e : Event) (rest : List Event) :
    lines (e :: rest) = e.bytes ++ lines rest := rfl

@[simp] theorem lines_append (a b : List Event) : lines (a ++ b) = lines a ++ lines b := by
  simp [lines]

/-- Does a line of that length make the file too long? Without a limit no line does. -/
def Exceeds (maxBytes : Nat) (content line : Text.Bytes) : Prop :=
  0 < maxBytes ∧ maxBytes < content.length + line.length

instance (maxBytes : Nat) (content line : Text.Bytes) : Decidable (Exceeds maxBytes content line) :=
  inferInstanceAs (Decidable (_ ∧ _))

/-- A line behind the content of a file, or alone where the file would become too long. -/
def extended (maxBytes : Nat) (content line : Text.Bytes) : Text.Bytes :=
  if Exceeds maxBytes content line then line else content ++ line

theorem suffix_extended (maxBytes : Nat) (content line : Text.Bytes) :
    line <:+ extended maxBytes content line := by
  unfold extended
  split
  · exact List.suffix_refl line
  · exact List.suffix_append content line

theorem length_extended_le {maxBytes : Nat} (hmax : 0 < maxBytes) (content line : Text.Bytes) :
    (extended maxBytes content line).length ≤ maxBytes ∨
      extended maxBytes content line = line := by
  unfold extended
  split
  case isTrue => exact .inr rfl
  case isFalse h =>
    left
    rw [List.length_append]
    unfold Exceeds at h
    omega

/-! ## One write -/

theorem overwrite_end (content bytes : Text.Bytes) :
    overwrite content content.length bytes = content ++ bytes := by
  simp [overwrite]

namespace FileSink

theorem mustTruncate_iff (sink : FileSink) (content line : Text.Bytes) :
    sink.mustTruncate content line.length = true ↔ Exceeds sink.maxBytes content line := by
  simp [mustTruncate, Exceeds, Nat.pos_iff_ne_zero]

/-- What the sink writes next goes behind the content. -/
def AtEnd (sink : FileSink) (content : Text.Bytes) : Prop :=
  sink.position = .atEnd ∨ sink.position = .offset content.length

theorem put_atEnd {sink : FileSink} {content : Text.Bytes} (h : sink.AtEnd content)
    (bytes : Text.Bytes) :
    (sink.put content bytes).2 = content ++ bytes ∧
      (sink.put content bytes).1.AtEnd (content ++ bytes) := by
  unfold put
  rcases h with h | h
  · rw [h]
    exact ⟨rfl, .inl h⟩
  · rw [h]
    exact ⟨overwrite_end content bytes, .inr (by simp)⟩

@[simp] theorem maxBytes_put (sink : FileSink) (content bytes : Text.Bytes) :
    (sink.put content bytes).1.maxBytes = sink.maxBytes := by
  unfold put
  split <;> rfl

@[simp] theorem maxBytes_write (sink : FileSink) (content line : Text.Bytes) :
    (sink.write content line).1.maxBytes = sink.maxBytes := by
  unfold write
  split <;> simp

/-- A truncating write needs no assumption on the position: it starts the file anew. -/
theorem write_exceeding {sink : FileSink} {content line : Text.Bytes}
    (h : Exceeds sink.maxBytes content line) :
    (sink.write content line).2 = line ∧ (sink.write content line).1.AtEnd line := by
  unfold write
  rw [if_pos ((mustTruncate_iff sink content line).2 h)]
  have hstart : FileSink.AtEnd { sink with position := .offset 0 } [] := .inr rfl
  exact put_atEnd hstart line

theorem write_fitting {sink : FileSink} {content line : Text.Bytes}
    (h : ¬ Exceeds sink.maxBytes content line) :
    sink.write content line = sink.put content line := by
  unfold write
  rw [if_neg (by rwa [mustTruncate_iff])]

theorem write_atEnd {sink : FileSink} {content : Text.Bytes} (h : sink.AtEnd content)
    (line : Text.Bytes) :
    (sink.write content line).2 = extended sink.maxBytes content line ∧
      (sink.write content line).1.AtEnd (extended sink.maxBytes content line) := by
  unfold extended
  split
  case isTrue hex => exact write_exceeding hex
  case isFalse hfit =>
    rw [write_fitting hfit]
    exact put_atEnd h line

end FileSink

/-! ## Sessions -/

/-- What is done with the log of one file: events are logged, or the file is opened anew, with a
minimum level for what follows. -/
inductive Use where
  | log (e : Event)
  | reopen (minLevel : Level)

def Logger.use (l : Logger) : Use → Logger
  | .log e => l.log e
  | .reopen minLevel => { sink := l.sink.reopened, minLevel := minLevel }

def Logger.after (l : Logger) (uses : List Use) : Logger := uses.foldl Logger.use l

/-- A logger that has just opened a file. -/
def Logger.onFile (maxBytes : Nat) (content : Text.Bytes) (minLevel : Level) : Logger where
  sink := .file { maxBytes } content
  minLevel := minLevel

/-- The events that pass the level filter, in the order they are logged. -/
def passed : Level → List Use → List Event
  | _, [] => []
  | level, .log e :: rest =>
    if level.rank ≤ e.level.rank then e :: passed level rest else passed level rest
  | _, .reopen level :: rest => passed level rest

/-- The logger writes at the end of a file with that content. -/
def Logger.Holds (maxBytes : Nat) (content : Text.Bytes) (l : Logger) : Prop :=
  ∃ sink, l.sink = .file sink content ∧ sink.maxBytes = maxBytes ∧ sink.AtEnd content

namespace Logger.Holds

variable {maxBytes : Nat} {content : Text.Bytes} {l : Logger}

theorem content? (h : l.Holds maxBytes content) : l.sink.content? = some content := by
  obtain ⟨sink, hsink, -, -⟩ := h
  rw [hsink]
  rfl

theorem log (h : l.Holds maxBytes content) {e : Event} (he : l.enabled e.level = true) :
    (l.log e).Holds maxBytes (extended maxBytes content e.bytes) := by
  obtain ⟨sink, hsink, rfl, hend⟩ := h
  obtain ⟨hcontent, hend'⟩ := FileSink.write_atEnd hend e.bytes
  refine ⟨(sink.write content e.bytes).1, ?_, FileSink.maxBytes_write .., hend'⟩
  rw [Logger.log, if_pos he]
  simp only [hsink, Sink.record]
  rw [← hcontent]
  rfl

theorem reopen (h : l.Holds maxBytes content) (minLevel : Level) :
    (l.use (.reopen minLevel)).Holds maxBytes content := by
  obtain ⟨sink, hsink, hmax, -⟩ := h
  refine ⟨{ sink with position := .atEnd }, ?_, hmax, .inl rfl⟩
  simp [Logger.use, hsink, Sink.reopened]

end Logger.Holds

theorem Logger.log_disabled {l : Logger} {e : Event} (h : ¬ l.enabled e.level = true) :
    l.log e = l := by
  rw [Logger.log, if_neg h]

@[simp] theorem Logger.minLevel_log (l : Logger) (e : Event) : (l.log e).minLevel = l.minLevel := by
  unfold Logger.log
  split <;> rfl

/-- A file that held `before` still does, in front of all that was logged, or it holds the last
part of what was logged and nothing else. -/
def Keeps (before : Text.Bytes) (logged : List Event) (content : Text.Bytes) : Prop :=
  content = before ++ lines logged ∨ ∃ kept, kept ≠ [] ∧ kept <:+ logged ∧ content = lines kept

theorem Keeps.extended {maxBytes : Nat} {before content : Text.Bytes} {e : Event}
    {logged : List Event} (h : Keeps (extended maxBytes before e.bytes) logged content) :
    Keeps before (e :: logged) content := by
  rcases h with h | ⟨kept, hne, hsuffix, h⟩
  · unfold Log.extended at h
    split at h
    case isTrue => exact .inr ⟨e :: logged, List.cons_ne_nil _ _, List.suffix_refl _, by simp [h]⟩
    case isFalse => exact .inl (by simp [h])
  · exact .inr ⟨kept, hne, hsuffix.trans (List.suffix_cons e logged), h⟩

/-- The content of a file after the lines of these events. -/
def grown (maxBytes : Nat) (content : Text.Bytes) (events : List Event) : Text.Bytes :=
  events.foldl (fun content e => extended maxBytes content e.bytes) content

theorem keeps_grown (maxBytes : Nat) (before : Text.Bytes) (events : List Event) :
    Keeps before events (grown maxBytes before events) := by
  induction events generalizing before with
  | nil => exact .inl (by simp [grown])
  | cons e rest ih => exact (ih (extended maxBytes before e.bytes)).extended

theorem Logger.Holds.after {maxBytes : Nat} {before : Text.Bytes} {l : Logger}
    (h : l.Holds maxBytes before) (uses : List Use) :
    (l.after uses).Holds maxBytes (grown maxBytes before (passed l.minLevel uses)) := by
  induction uses generalizing l before with
  | nil => exact h
  | cons u rest ih =>
    rw [Logger.after, List.foldl_cons]
    cases u with
    | reopen minLevel => exact ih (h.reopen minLevel)
    | log e =>
      by_cases he : l.enabled e.level = true
      · have hpass : l.minLevel.rank ≤ e.level.rank := of_decide_eq_true he
        have hholds := ih (h.log he)
        rw [Logger.minLevel_log] at hholds
        rw [passed, if_pos hpass]
        exact hholds
      · have hstop : ¬ l.minLevel.rank ≤ e.level.rank := fun hle => he (decide_eq_true hle)
        rw [Logger.use, Logger.log_disabled he, passed, if_neg hstop]
        exact ih h

theorem Logger.holds_onFile (maxBytes : Nat) (original : Text.Bytes) (level : Level) :
    (Logger.onFile maxBytes original level).Holds maxBytes original :=
  ⟨{ maxBytes }, rfl, rfl, .inl rfl⟩

theorem exists_content {maxBytes : Nat} {before : Text.Bytes} {l : Logger}
    (h : l.Holds maxBytes before) (uses : List Use) :
    ∃ content, (l.after uses).Holds maxBytes content ∧
      Keeps before (passed l.minLevel uses) content :=
  ⟨_, h.after uses, keeps_grown maxBytes before _⟩

/-- After any session through `Logger.onFile` the file holds what it held and the `lines` of all
that `passed`, or just the last part of these. One event more then goes behind that, or stands alone
where the file would grow past its limit; so its line is there, whole and last, and a file longer
than the limit is that one line. -/
theorem file_keeps_lines (maxBytes : Nat) (original : Text.Bytes) (level : Level)
    (uses : List Use) :
    let l := (Logger.onFile maxBytes original level).after uses
    ∃ content,
      l.sink.content? = some content ∧
      (content = original ++ lines (passed level uses) ∨
        ∃ kept, kept ≠ [] ∧ kept <:+ passed level uses ∧ content = lines kept) ∧
      ∀ e, l.enabled e.level = true → ∃ next,
        (l.log e).sink.content? = some next ∧
        next = (if 0 < maxBytes ∧ maxBytes < content.length + e.bytes.length then e.bytes
          else content ++ e.bytes) ∧
        e.bytes <:+ next ∧
        (0 < maxBytes → next.length ≤ maxBytes ∨ next = e.bytes) := by
  intro l
  have hstart := Logger.holds_onFile maxBytes original level
  obtain ⟨content, hholds, hkeeps⟩ := exists_content hstart uses
  refine ⟨content, hholds.content?, hkeeps, ?_⟩
  intro e he
  refine ⟨extended maxBytes content e.bytes, (hholds.log he).content?, rfl, ?_, ?_⟩
  · exact suffix_extended maxBytes content e.bytes
  · exact fun hmax => length_extended_le hmax content e.bytes

end Log
end ShellPrompt
