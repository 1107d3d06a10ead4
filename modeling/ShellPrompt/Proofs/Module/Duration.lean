import ShellPrompt.Module.Builtin
import ShellPrompt.Proofs.Json.Numbers
import ShellPrompt.Proofs.Text.Numeral

/-!
# ShellPrompt.Proofs.Module.Duration

Durations are read back from their text.

* `read?` reads numbers with their units, the greater units first. A number has no leading zero,
  and a unit occurs at most once.
* `read?_write`: what is read is what was written.
* `exists_parts`: the numbers and units of a duration.
* `format_read_back`: the text tells the duration to the millisecond below a second, and to the
  second from there on.
-/

namespace ShellPrompt
namespace Module
namespace Duration

open Text.Numeral (decimal decimal?)

inductive TimeUnit where
  | hour
  | minute
  | second
  | millisecond
deriving DecidableEq

namespace TimeUnit

/-- The greatest first. -/
def all : List TimeUnit := [.hour, .minute, .second, .millisecond]

def inMs : TimeUnit → Nat
  | hour => 3600000
  | minute => 60000
  | second => 1000
  | millisecond => 1

def mark : TimeUnit → List Char
  | hour => ['h']
  | minute => ['m']
  | second => ['s']
  | millisecond => ['m', 's']

/-- What follows the mark of the unit, if the text begins with it. Before an `s`, an `m` is no
minute. -/
def after? : TimeUnit → List Char → Option (List Char)
  | hour, 'h' :: rest => some rest
  | minute, 'm' :: rest => if rest.head? = some 's' then none else some rest
  | second, 's' :: rest => some rest
  | millisecond, 'm' :: 's' :: rest => some rest
  | _, _ => none

theorem after?_mark (u : TimeUnit) {rest : List Char} (h : rest.head? ≠ some 's') :
    u.after? (u.mark ++ rest) = some rest := by
  cases u <;> simp [mark, after?, h]

theorem after?_of_ne {u v : TimeUnit} (hne : v ≠ u) {rest : List Char}
    (h : rest.head? ≠ some 's') : v.after? (u.mark ++ rest) = none := by
  -- between a minute and a millisecond what follows decides
  have hminute : millisecond.after? ('m' :: rest) = none := by
    cases rest with
    | nil => rfl
    | cons c rest =>
      have hc : c ≠ 's' := by simpa using h
      simp [after?, hc]
  cases u <;> cases v <;> simp_all [mark, after?]

end TimeUnit

structure Part where
  amount : Nat
  unit : TimeUnit
deriving DecidableEq

def total (parts : List Part) : Nat := parts.foldr (fun p ms => p.amount * p.unit.inMs + ms) 0

@[simp] theorem total_nil : total [] = 0 := by simp [total]

@[simp] theorem total_cons (p : Part) (rest : List Part) :
    total (p :: rest) = p.amount * p.unit.inMs + total rest := by simp [total]

/-! ## Reading -/

/-- The number a text begins with, in digits without leading zeros, and what follows it. -/
def number? (text : List Char) : Option (Nat × List Char) :=
  let (digits, rest) := text.span Char.isDigit
  if digits.head? = some '0' ∧ digits ≠ ['0'] then none else (decimal? digits).map (·, rest)

/-- The number of such units a text begins with, and what follows them. -/
def amount? (u : TimeUnit) (text : List Char) : Option (Nat × List Char) :=
  (number? text).bind fun r => (u.after? r.2).map (r.1, ·)

def readFrom : List TimeUnit → List Char → Option (List Part)
  | [], text => if text = [] then some [] else none
  | u :: lower, text =>
    match amount? u text with
    | some (n, rest) => (readFrom lower rest).map (⟨n, u⟩ :: ·)
    | none => readFrom lower text

def read? (text : List Char) : Option (List Part) := readFrom TimeUnit.all text

/-! ## Writing -/

def Part.text (p : Part) : List Char := decimal p.amount ++ p.unit.mark

def write (parts : List Part) : List Char := parts.flatMap Part.text

theorem number?_decimal (n : Nat) {rest : List Char} (h : ∀ c ∈ rest.head?, c.isDigit = false) :
    number? (decimal n ++ rest) = some (n, rest) := by
  have hplain : ¬ ((decimal n).head? = some '0' ∧ decimal n ≠ ['0']) := by
    have hwhole := Json.whole_decimal n
    generalize decimal n = digits at hwhole
    cases hwhole with
    | zero => simp
    | digits digit leading more => simp [leading]
  simp only [number?, Text.Numeral.span_decimal n h]
  rw [if_neg hplain, Text.Numeral.decimal?_decimal, Option.map_some]

theorem head?_write (parts : List Part) : (write parts).head? ≠ some 's' := by
  cases parts with
  | nil => simp [write]
  | cons p rest =>
    intro h
    have hfirst : 's' ∈ (decimal p.amount).head? := by
      have hne := Text.Numeral.decimal_ne_nil p.amount
      simpa [write, Part.text, List.head?_append, List.head?_eq_some_head hne] using h
    have := Text.Numeral.isDigit_of_mem_decimal (List.mem_of_mem_head? hfirst)
    simp at this

section Parts

variable {rest : List Char} (hrest : rest.head? ≠ some 's')
include hrest

theorem amount?_text (p : Part) : amount? p.unit (p.text ++ rest) = some (p.amount, rest) := by
  have hmark : ∀ c ∈ (p.unit.mark ++ rest).head?, c.isDigit = false := by
    cases p.unit <;> simp [TimeUnit.mark]
  rw [amount?, Part.text, List.append_assoc, number?_decimal _ hmark, Option.bind_some,
    TimeUnit.after?_mark _ hrest]
  rfl

theorem amount?_of_ne {p : Part} {u : TimeUnit} (hne : u ≠ p.unit) :
    amount? u (p.text ++ rest) = none := by
  have hmark : ∀ c ∈ (p.unit.mark ++ rest).head?, c.isDigit = false := by
    cases p.unit <;> simp [TimeUnit.mark]
  rw [amount?, Part.text, List.append_assoc, number?_decimal _ hmark, Option.bind_some,
    TimeUnit.after?_of_ne hne hrest]
  rfl

end Parts

/-- By induction on the units there may be. Each is that of the next part or of none. -/
theorem readFrom_write {units : List TimeUnit} (hnodup : units.Nodup) {parts : List Part}
    (h : (parts.map Part.unit).Sublist units) : readFrom units (write parts) = some parts := by
  induction units generalizing parts with
  | nil =>
    obtain rfl : parts = [] := by simpa using h
    rfl
  | cons u lower ih =>
    obtain ⟨hnotMem, hlower⟩ := List.nodup_cons.1 hnodup
    cases parts with
    | nil =>
      show readFrom lower (write []) = some []
      exact ih hlower (List.nil_sublist _)
    | cons p rest =>
      have hwrite : write (p :: rest) = p.text ++ write rest := List.flatMap_cons
      by_cases hu : u = p.unit
      · subst hu
        have hsub : (rest.map Part.unit).Sublist lower := by simpa using h
        rw [readFrom, hwrite, amount?_text (head?_write rest)]
        exact congrArg (Option.map (⟨p.amount, p.unit⟩ :: ·)) (ih hlower hsub)
      · have hsub : ((p :: rest).map Part.unit).Sublist lower := by
          rw [List.map_cons] at h ⊢
          exact (List.sublist_cons_iff.1 h).resolve_right fun ⟨_, heq, _⟩ =>
            hu (List.cons.inj heq).1.symm
        rw [readFrom, hwrite, amount?_of_ne (head?_write rest) hu, ← hwrite]
        exact ih hlower hsub

theorem read?_write {parts : List Part} (h : (parts.map Part.unit).Sublist TimeUnit.all) :
    read? (write parts) = some parts := readFrom_write (by decide) h

example : read? "1h0m5s".toList = some [⟨1, .hour⟩, ⟨0, .minute⟩, ⟨5, .second⟩] ∧
    read? "5s1m".toList = none ∧ read? "05s".toList = none := by decide

/-! ## Durations -/

/-- From the leading unit down to seconds, none left out; or milliseconds alone. -/
def Unbroken (units : List TimeUnit) : Prop :=
  units = [.millisecond] ∨ units ≠ [] ∧ units <:+ [.hour, .minute, .second]

theorem Unbroken.sublist {units : List TimeUnit} (h : Unbroken units) :
    units.Sublist TimeUnit.all := by
  rcases h with rfl | ⟨-, h⟩
  · decide
  · exact h.sublist.trans (by decide)

/-- The part of a duration that is written. -/
def kept (ms : Nat) : Nat := if ms < 1000 then ms else ms - ms % 1000

/-- The parts a duration is written in. -/
structure PartsOf (ms : Nat) (parts : List Part) : Prop where
  text : format ms = write parts
  unbroken : Unbroken (parts.map Part.unit)
  total : total parts = kept ms
  lower : ∀ p ∈ parts.tail, p.amount < 60
  leading : ∀ p ∈ parts.head?, p.amount = 0 → ms = 0

theorem exists_parts (ms : Nat) : ∃ parts, PartsOf ms parts := by
  by_cases hms : ms < 1000
  · refine ⟨[⟨ms, .millisecond⟩], ?_, .inl rfl, ?_, by simp, by simp⟩
    · simp [format, hms, write, Part.text, TimeUnit.mark]
    · simp [TimeUnit.inMs, kept, hms]
  · have hkept : kept ms = 1000 * (ms / 1000) := by
      rw [kept, if_neg hms]
      omega
    by_cases hh : 0 < ms / 1000 / 3600
    · refine ⟨[⟨ms / 1000 / 3600, .hour⟩, ⟨ms / 1000 % 3600 / 60, .minute⟩,
        ⟨ms / 1000 % 60, .second⟩], ?_, .inr ⟨by simp, List.suffix_rfl⟩, ?_, ?_, ?_⟩
      · simp [format, hms, hh, write, Part.text, TimeUnit.mark]
      · simp only [total_cons, total_nil, TimeUnit.inMs, hkept]
        omega
      · simp only [List.tail_cons, List.forall_mem_cons]
        exact ⟨by omega, by omega, by simp⟩
      · simp only [List.head?_cons, Option.mem_def, Option.some.injEq, forall_eq']
        omega
    · by_cases hm : 0 < ms / 1000 % 3600 / 60
      · refine ⟨[⟨ms / 1000 % 3600 / 60, .minute⟩, ⟨ms / 1000 % 60, .second⟩], ?_,
          .inr ⟨by simp, [.hour], rfl⟩, ?_, ?_, ?_⟩
        · simp [format, hms, hh, hm, write, Part.text, TimeUnit.mark]
        · simp only [total_cons, total_nil, TimeUnit.inMs, hkept]
          omega
        · simp only [List.tail_cons, List.forall_mem_cons]
          exact ⟨by omega, by simp⟩
        · simp only [List.head?_cons, Option.mem_def, Option.some.injEq, forall_eq']
          omega
      · refine ⟨[⟨ms / 1000 % 60, .second⟩], ?_, .inr ⟨by simp, [.hour, .minute], rfl⟩, ?_, by simp,
          ?_⟩
        · simp [format, hms, hh, hm, write, Part.text, TimeUnit.mark]
        · simp only [total_cons, total_nil, TimeUnit.inMs, hkept]
          omega
        · simp only [List.head?_cons, Option.mem_def, Option.some.injEq, forall_eq']
          omega

theorem format_congr {a b : Nat} (ha : 1000 ≤ a) (hb : 1000 ≤ b) (h : a / 1000 = b / 1000) :
    format a = format b := by
  rw [format, format, if_neg (Nat.not_lt.2 ha), if_neg (Nat.not_lt.2 hb), h]

/-- `read?` reads back what `format` writes: a duration to the millisecond if it is below a second,
and to the second from there on. The units are `Unbroken` from the leading one down to the seconds,
what follows the leading unit is less than 60, and only the duration of no time at all leads with a
zero. So two durations have one text just where they are equal or have the same number of whole
seconds, one at least. -/
theorem format_read_back :
    (∀ ms, ∃ parts, read? (format ms) = some parts ∧
      total parts = (if ms < 1000 then ms else ms - ms % 1000) ∧
      Unbroken (parts.map Part.unit) ∧
      (∀ p ∈ parts.tail, p.amount < 60) ∧
      ∀ p ∈ parts.head?, p.amount = 0 → format ms = ['0', 'm', 's']) ∧
    ∀ a b, format a = format b ↔ a = b ∨ 1000 ≤ a ∧ 1000 ≤ b ∧ a / 1000 = b / 1000 := by
  have hread : ∀ {ms parts}, PartsOf ms parts → read? (format ms) = some parts := by
    intro ms parts h
    rw [h.text]
    exact read?_write h.unbroken.sublist
  refine ⟨fun ms => ?_, fun a b => ⟨fun h => ?_, ?_⟩⟩
  · obtain ⟨parts, h⟩ := exists_parts ms
    refine ⟨parts, hread h, h.total, h.unbroken, h.lower, fun p hp hzero => ?_⟩
    rw [h.leading p hp hzero]
    rfl
  · obtain ⟨parts, ha⟩ := exists_parts a
    obtain ⟨parts', hb⟩ := exists_parts b
    have hparts : parts = parts' := by
      have hboth := hread hb
      rw [← h, hread ha] at hboth
      exact Option.some.inj hboth
    have hkept : kept a = kept b := by rw [← ha.total, ← hb.total, hparts]
    unfold kept at hkept
    split at hkept <;> split at hkept <;> omega
  · rintro (rfl | ⟨ha, hb, h⟩)
    · rfl
    · exact format_congr ha hb h

end Duration
end Module
end ShellPrompt
