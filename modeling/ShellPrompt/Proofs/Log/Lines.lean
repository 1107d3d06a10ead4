import ShellPrompt.Proofs.Json.LongIntegers
import ShellPrompt.Proofs.Json.Nesting
import ShellPrompt.Proofs.Json.Printing
import ShellPrompt.Proofs.Log.LogFile

/-!
# ShellPrompt.Proofs.Log.Lines

Lines of a log, read back.

A line is the text of one value, so whatever an event holds is escaped in it, and the line feeds in
a file are those between events.

* `Event.value`, `Event.print_eq`: the value an event is printed as.
* `Event.read_back`: the entry of an event is found in its line, if the reader allows for the
  nesting of its fields.
* `splitOn_lines`: split at line feeds, the lines are apart again.
* `log_read_back`: what is appended to a file without a limit, read line by line.
-/

namespace ShellPrompt
namespace Log

open Json (Value value? units)

/-! ## Entries -/

def Level.ofName? (name : String) : Option Level := Level.all.find? fun level => level.name == name

@[simp] theorem Level.ofName?_name (level : Level) : Level.ofName? level.name = some level := by
  cases level <;> decide

/-- What a line says about an event, its time apart. -/
structure Entry where
  level : Level
  target : String
  message : String
  /-- The member of that name, if there is one. -/
  fields : Option (Table Value)

namespace Entry

def ofMembers? (members : Table Value) : Option Entry := do
  let level ← (Table.get? "level" members).bind Value.asString?
  let level ← Level.ofName? level
  let target ← (Table.get? "target" members).bind Value.asString?
  let message ← (Table.get? "message" members).bind Value.asString?
  match Table.get? "fields" members with
  | none => return { level, target, message, fields := none }
  | some (.object fields) => return { level, target, message, fields := some fields }
  | some _ => none

def ofValue? : Value → Option Entry
  | .object members => ofMembers? members
  | _ => none

/-- Reads a piece of a log as JSON that nests at most that deep. -/
def read? (depth : Nat) (piece : Text.Bytes) : Option Entry :=
  (Text.Utf8.decode? piece).bind fun text =>
    (Json.whole (Json.value depth) text).toOption.bind ofValue?

end Entry

namespace Event

/-- The fields are absent exactly if there are none. -/
def entry (e : Event) : Entry where
  level := e.level
  target := e.target
  message := e.message
  fields := if e.fields.isEmpty then none else some e.fields

/-! ## Values -/

/-- The members of a line but the time, in the order in which they are written. -/
def said (e : Event) : List (String × Value) :=
  [("level", .string e.level.name), ("target", .string e.target), ("message", .string e.message)] ++
    if e.fields.isEmpty then [] else [("fields", .object e.fields)]

def value (e : Event) : Value := .object (("ts_ms", .nat e.tsMs) :: e.said)

def nesting (e : Event) : Nat := e.value.nesting

/-- The time has 128 bits, and the fields are such as values are. -/
def Proper (e : Event) : Prop := e.tsMs < 2 ^ 128 ∧ (Value.object e.fields).Proper

def Floatless (e : Event) : Prop := ¬ (Value.object e.fields).HoldsFloat

theorem print_eq (e : Event) : e.print = e.value.print := by
  rw [value, Value.print_object, print, said]
  split <;> rfl

theorem ofMembers?_said (e : Event) (time : Value) :
    Entry.ofMembers? (Table.insertAll [] (("ts_ms", time) :: e.said)) = some e.entry := by
  rw [said]
  split
  case isTrue h => simp [Entry.ofMembers?, Table.get?_insert, Value.asString?, entry, h]
  case isFalse h => simp [Entry.ofMembers?, Table.get?_insert, Value.asString?, entry, h]

theorem of_mem_said {e : Event} {m : String × Value} (h : m ∈ e.said) :
    (∃ s, m.2 = .string s) ∨ m.2 = .object e.fields := by
  rcases List.mem_append.1 h with h | h
  · simp only [List.mem_cons, List.not_mem_nil, or_false] at h
    rcases h with rfl | rfl | rfl <;> exact .inl ⟨_, rfl⟩
  · split at h
    · cases h
    · rw [List.mem_singleton.1 h]
      exact .inr rfl

theorem Floatless.value {e : Event} (h : e.Floatless) : ¬ e.value.HoldsFloat := by
  intro hfloat
  cases hfloat with
  | member hm hheld =>
    rcases List.mem_cons.1 hm with rfl | hm
    · cases hheld
    · rcases of_mem_said hm with ⟨s, hs⟩ | hs
      · rw [hs] at hheld
        cases hheld
      · exact h (hs ▸ hheld)

theorem spellsText_print {e : Event} (h : e.Floatless) :
    Json.SpellsText e.value.doc (String.ofList e.print) := by
  refine ⟨[], e.value.print, [], Json.blanks_nil, Value.spells_print h.value, Json.blanks_nil, ?_⟩
  rw [String.toList_ofList, print_eq, List.nil_append, List.append_nil]

/-! ## Reading back -/

theorem exists_time {tsMs : Nat} (h : tsMs < 2 ^ 128) (depth : Nat) :
    ∃ time, value? depth (Value.nat tsMs).doc = some time := by
  obtain ⟨x, hx⟩ := Json.exists_number? h
  have hneg : decide ((tsMs : Int) < 0) = false := decide_eq_false (by omega)
  have hview : value? depth (Value.nat tsMs).doc =
      (Json.number? (decide ((tsMs : Int) < 0)) (Text.Numeral.decimal tsMs)).map .number := by
    cases depth <;> rfl
  rw [hview, hneg, hx]
  exact ⟨_, rfl⟩

/-- All of a line but the time is found as it was, in a reader that goes deep enough. -/
theorem Proper.exists_view {e : Event} (h : e.Proper) (hfloat : e.Floatless) {depth : Nat}
    (hdepth : e.nesting ≤ depth) :
    ∃ time, value? depth e.value.doc =
      some (.object (Table.insertAll [] (("ts_ms", time) :: e.said))) := by
  obtain ⟨hbits, hfields⟩ := h
  obtain ⟨depth, rfl⟩ := Nat.exists_eq_add_one.2 (Nat.lt_of_lt_of_le (Nat.succ_pos _) hdepth)
  have hmembers := Json.nestingMembers_le_iff.1 (Nat.le_of_succ_le_succ hdepth)
  obtain ⟨time, htime⟩ := exists_time hbits depth
  have hsaid : ∀ m ∈ e.said, value? depth m.2.doc = some m.2 := by
    intro m hm
    have hnesting := hmembers m (List.mem_cons_of_mem _ hm)
    have hnone : ¬ m.2.HoldsFloat := fun hheld => hfloat.value (.member (.tail _ hm) hheld)
    rcases of_mem_said hm with hs | hs
    · exact Value.returns_scalar (.inr (.inr hs)) depth hnone
    · rw [hs] at hnesting hnone ⊢
      exact hfields.returns hnesting hnone
  have hfirst : Json.pair? (value? depth) (units "ts_ms", (Value.nat e.tsMs).doc) =
      some ("ts_ms", time) :=
    Json.pair?_eq_some_iff.2 ⟨rfl, htime⟩
  refine ⟨time, ?_⟩
  rw [value, Value.doc_object, value?, Json.table?_eq, List.map_cons, List.mapM_cons, hfirst,
    Json.mapM_pair? hsaid]
  rfl

/-- A line gives back the entry of its event, to a reader that goes as deep as the event. -/
theorem read_back {e : Event} (h : e.Proper) (hfloat : e.Floatless) (depth : Nat) :
    Entry.read? depth (Text.Utf8.encode e.print) =
      if e.nesting ≤ depth then some e.entry else none := by
  have hview := Json.toOption_whole (Json.reads_value depth) (spellsText_print hfloat)
  rw [String.toList_ofList] at hview
  rw [Entry.read?, Text.Utf8.decode?_encode, Option.bind_some, hview]
  split
  case isTrue hdepth =>
    obtain ⟨time, htime⟩ := h.exists_view hfloat hdepth
    rw [htime]
    exact ofMembers?_said e time
  case isFalse hdeep =>
    rw [Json.value?_deep (Nat.lt_of_not_le hdeep)]
    rfl

end Event

/-! ## Lines of a file -/

theorem Event.bytes_eq (e : Event) : e.bytes = Text.Utf8.encode e.print ++ [0x0A] := by
  rw [Event.bytes, Event.line, Text.Utf8.encode_append]
  rfl

/-- No byte of a line but its end is below the space. -/
theorem Event.graphic_bytes (e : Event) {b : UInt8} (h : b ∈ Text.Utf8.encode e.print) :
    0x20 ≤ b.toNat := by
  refine Nat.le_of_not_lt fun hlow => ?_
  obtain ⟨c, hc, heq⟩ := Text.Utf8.exists_mem_of_mem_encode h (by omega)
  have := e.graphic_print c hc
  omega

theorem Event.feed_not_mem (e : Event) : (0x0A : UInt8) ∉ Text.Utf8.encode e.print :=
  fun h => absurd (e.graphic_bytes h) (by decide)

theorem control_mem_lines {events : List Event} {b : UInt8} (h : b ∈ lines events)
    (hlow : b.toNat < 0x20) : b = 0x0A := by
  obtain ⟨e, -, hb⟩ := List.mem_flatMap.1 h
  rw [Event.bytes_eq] at hb
  rcases List.mem_append.1 hb with hb | hb
  · have := e.graphic_bytes hb
    omega
  · exact List.mem_singleton.1 hb

theorem count_lines (events : List Event) : (lines events).count 0x0A = events.length := by
  induction events with
  | nil => rfl
  | cons e rest ih =>
    rw [lines_cons, List.count_append, ih, Event.bytes_eq, List.count_append,
      List.count_eq_zero_of_not_mem e.feed_not_mem, List.count_singleton_self, List.length_cons]
    omega

/-- Behind the last line feed is nothing. -/
theorem splitOn_lines (events : List Event) :
    (lines events).splitOn 0x0A = events.map (fun e => Text.Utf8.encode e.print) ++ [[]] := by
  induction events with
  | nil => rfl
  | cons e rest ih =>
    rw [lines_cons, Event.bytes_eq, List.append_assoc, List.singleton_append,
      Text.Utf8.splitOn_append_of_notMem e.feed_not_mem, List.splitOn_cons_eq_if_modifyHead,
      if_pos (beq_self_eq_true _), ih]
    simp

theorem exists_bound {α : Type} (f : α → Nat) (xs : List α) : ∃ bound, ∀ x ∈ xs, f x ≤ bound := by
  induction xs with
  | nil => exact ⟨0, by simp⟩
  | cons x xs ih =>
    obtain ⟨bound, hbound⟩ := ih
    refine ⟨max (f x) bound, List.forall_mem_cons.2 ⟨Nat.le_max_left .., fun y hy => ?_⟩⟩
    exact Nat.le_trans (hbound y hy) (Nat.le_max_right ..)

theorem grown_unlimited (content : Text.Bytes) (events : List Event) :
    grown 0 content events = content ++ lines events := by
  induction events generalizing content with
  | nil => simp [grown]
  | cons e rest ih =>
    have hfits : extended 0 content e.bytes = content ++ e.bytes := if_neg fun h => by cases h.1
    rw [grown, List.foldl_cons, hfits, lines_cons, ← List.append_assoc]
    exact ih _

/-- What a session appends through `Logger.onFile` to a file without a limit is as many lines as
events `passed`, without control characters in them, and `Entry.read?` reads each back as its event.
-/
theorem log_read_back (original : Text.Bytes) (level : Level) (uses : List Use)
    (hproper : ∀ e ∈ passed level uses, e.Proper)
    (hfloat : ∀ e ∈ passed level uses, e.Floatless) :
    ∃ appended pieces,
      ((Logger.onFile 0 original level).after uses).sink.content? = some (original ++ appended) ∧
      appended.count 0x0A = (passed level uses).length ∧
      (∀ b ∈ appended, b.toNat < 0x20 → b = 0x0A) ∧
      appended.splitOn 0x0A = pieces ++ [[]] ∧
      (∃ bound, ∀ depth, bound ≤ depth →
        pieces.map (Entry.read? depth) = (passed level uses).map fun e => some e.entry) ∧
      ∀ depth, pieces.map (Entry.read? depth) =
        (passed level uses).map fun e => if e.nesting ≤ depth then some e.entry else none := by
  have hholds := (Logger.holds_onFile 0 original level).after uses
  have hpassed : (Logger.onFile 0 original level).minLevel = level := rfl
  rw [hpassed, grown_unlimited] at hholds
  generalize passed level uses = events at hproper hfloat hholds
  have hread : ∀ depth,
      (events.map fun e => Text.Utf8.encode e.print).map (Entry.read? depth) =
        events.map fun e => if e.nesting ≤ depth then some e.entry else none := by
    intro depth
    rw [List.map_map]
    refine List.map_congr_left fun e he => ?_
    rw [Function.comp_apply, Event.read_back (hproper e he) (hfloat e he)]
  obtain ⟨bound, hbound⟩ := exists_bound Event.nesting events
  refine ⟨lines events, _, hholds.content?, count_lines events, fun b => control_mem_lines,
    splitOn_lines events, ⟨bound, fun depth hdepth => ?_⟩, hread⟩
  rw [hread]
  exact List.map_congr_left fun e he => if_pos (Nat.le_trans (hbound e he) hdepth)

/-- An event whose texts hold the end of a line and a line more. -/
def forging : Event where
  level := .error
  target := "a\"b\\c"
  message := "failed\"\x7d\n\x7b\"level\":\"info\"\x7d"
  fields := [("é", .array [.string "\n\u0001", .number (.int (-1))])]
  tsMs := 7

theorem forging_proper : forging.Proper := by
  have hitems : ∀ v ∈ [Value.string "\n\u0001", .number (.int (-1))], v.Proper := by
    have hfits : Json.Fits (.int (-1)) := by
      rintro z ⟨⟩
      simp [Json.InWord]
    simp only [List.forall_mem_cons, List.not_mem_nil, false_implies, implies_true, and_true]
    exact ⟨.scalar (.inr (.inr ⟨_, rfl⟩)), .number hfits⟩
  refine ⟨by decide, .object (by simp [forging, Table.Sorted]) ?_⟩
  intro m hm
  rw [List.mem_singleton.1 hm]
  exact .array hitems

theorem forging_floatless : forging.Floatless := by
  rintro (_ | _ | ⟨hm, hheld⟩)
  rw [List.mem_singleton.1 hm] at hheld
  rcases hheld with _ | ⟨hv, hheld⟩
  simp only [List.mem_cons, List.not_mem_nil, or_false] at hv
  rcases hv with rfl | rfl <;> cases hheld

theorem log_read_back_forging :
    let quiet : Event := { level := .debug, target := "a", message := "" }
    let plain : Event := { level := .warn, target := "a", message := "\r" }
    let uses := [Use.log forging, .log quiet, .reopen .warn, .log plain]
    passed .info uses = [forging, plain] ∧ (∀ e ∈ [forging, plain], e.Proper) ∧
      (∀ e ∈ [forging, plain], e.Floatless) ∧
      ∃ appended pieces,
        ((Logger.onFile 0 [0x7B] .info).after uses).sink.content? = some (0x7B :: appended) ∧
        appended.count 0x0A = 2 ∧ appended.splitOn 0x0A = pieces ++ [[]] ∧
        pieces.map (Entry.read? 3) =
          [some forging.entry,
            some { level := .warn, target := "a", message := "\r", fields := none }] := by
  intro quiet plain uses
  have hplain : plain.Proper := ⟨by decide, .object List.Pairwise.nil (by simp [plain])⟩
  have hnone : plain.Floatless := by
    rintro (_ | _ | ⟨hm, -⟩)
    cases hm
  have hproper : ∀ e ∈ [forging, plain], e.Proper := by simp [forging_proper, hplain]
  have hfloat : ∀ e ∈ [forging, plain], e.Floatless := by simp [forging_floatless, hnone]
  obtain ⟨appended, pieces, hcontent, hcount, -, hsplit, -, hread⟩ :=
    log_read_back [0x7B] .info uses hproper hfloat
  exact ⟨rfl, hproper, hfloat, appended, pieces, hcontent, hcount, hsplit, hread 3⟩

end Log
end ShellPrompt
