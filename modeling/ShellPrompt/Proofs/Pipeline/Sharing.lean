import ShellPrompt.Proofs.Metrics
import ShellPrompt.Proofs.Pipeline.Calls

/-!
# ShellPrompt.Proofs.Pipeline.Sharing

Counters that several pipelines share.

Each record is made under a lock, so calls that overlap record one thing at a time. What a call has
recorded does not depend on the counters, so an overlap is an interleaving of what the calls tell.

* `Interleaving`: lists merged into one. It holds the same items (`Interleaving.perm`).
* `Answered`: a call with the blocks it comes to, and so with its notes and its records.
* `counters_are_capped_sums`: what counters show after any records, in whatever order and by
  whatever pipelines they were made.
-/

namespace ShellPrompt

/-- Lists merged into one, the items of each in their order. -/
inductive Interleaving {α : Type} : List (List α) → List α → Prop where
  | done {parts : List (List α)} : (∀ part ∈ parts, part = []) → Interleaving parts []
  | next (before after : List (List α)) {x : α} {rest all : List α} :
      Interleaving (before ++ rest :: after) all →
      Interleaving (before ++ (x :: rest) :: after) (x :: all)

theorem Interleaving.perm {α : Type} {parts : List (List α)} {all : List α}
    (h : Interleaving parts all) : all.Perm parts.flatten := by
  induction h with
  | done hnone => rw [List.flatten_eq_nil_iff.2 hnone]
  | @next before after x _ _ _ ih =>
    refine (ih.cons x).trans ?_
    simp only [List.flatten_append, List.flatten_cons, List.cons_append]
    exact List.perm_middle.symm

namespace Pipeline

open Metrics (Record Count)

variable {p : Pipeline} {s : Snapshot}

/-- What is recorded with a part. -/
def Part.records (p : Pipeline) (s : Snapshot) : Part → List Record
  | .block b => [
      .modules (b.found.countP fun o => o.fragment?.isSome)
        (b.found.countP fun o => o.isFailure && !o.isTimeout) (b.found.countP Outcome.isTimeout),
      .layout (b.line p s).dropped.length (b.line p s).overflow]
  | .committed _ => [.render]
  | .cancelled => [.cancelled]
  | _ => []

theorem changes_outcomeNotes (found : List Outcome) :
    (outcomeNotes found).filterMap Note.change? = [Record.apply (.modules
      (found.countP fun o => o.fragment?.isSome)
      (found.countP fun o => o.isFailure && !o.isTimeout) (found.countP Outcome.isTimeout))] := by
  rw [outcomeNotes, List.filterMap_append, List.filterMap_map]
  exact congrArg (· ++ _) (List.filterMap_eq_nil_iff.2 fun _ _ => rfl)

theorem changes_lineNotes (t : Target) (line : Layout.Line) :
    (lineNotes t line).filterMap Note.change? =
      [Record.apply (.layout line.dropped.length line.overflow)] := by
  rw [lineNotes]
  cases line.overflow <;> cases line.dropped.isEmpty <;> rfl

theorem changes_part (part : Part) :
    (part.notes p s).filterMap Note.change? = (part.records p s).map Record.apply := by
  cases part with
  | block b =>
    rw [Part.notes, Block.notes, targetNotes, List.filterMap_append, List.filterMap_append,
      Note.filterMap_map_logged (fun _ => rfl), changes_outcomeNotes, changes_lineNotes]
    rfl
  | stopped t => exact Note.filterMap_map_logged (fun _ => rfl) _
  | _ => rfl

/-- A call of a pipeline under a plan, with the blocks it comes to. -/
structure Answered where
  pipeline : Pipeline
  plan : Plan
  call : Call
  blocks : List Block
  stop : Stop
  goes : pipeline.Goes plan call.snapshot call.targets call.token blocks stop

namespace Answered

def parts (a : Answered) : List Part := a.call.parts a.pipeline a.blocks a.stop

def notes (a : Answered) : List Note :=
  a.parts.flatMap (Part.notes a.pipeline a.call.snapshot)

def records (a : Answered) : List Record :=
  a.parts.flatMap (Part.records a.pipeline a.call.snapshot)

theorem ends (a : Answered) :
    (a.call.run a.pipeline a.plan).Ends (a.call.result a.pipeline a.blocks a.stop) a.notes :=
  Call.ends a.goes

theorem exists_answered (p : Pipeline) (plan : Plan) (c : Call) :
    ∃ a : Answered, a.pipeline = p ∧ a.plan = plan ∧ a.call = c := by
  obtain ⟨blocks, stop, h⟩ := p.exists_goes plan c.snapshot c.targets c.token
  exact ⟨⟨p, plan, c, blocks, stop, h⟩, rfl, rfl, rfl⟩

theorem changes_notes (a : Answered) :
    a.notes.filterMap Note.change? = a.records.map Record.apply := by
  rw [notes, records, List.filterMap_flatMap, List.map_flatMap]
  exact List.flatMap_congr fun part _ => changes_part part

end Answered

theorem changes_answered (answered : List Answered) :
    (answered.map Answered.notes).flatten.filterMap Note.change? =
      (answered.flatMap Answered.records).map Record.apply := by
  rw [← List.flatMap_def, List.filterMap_flatMap, List.map_flatMap]
  exact List.flatMap_congr fun a _ => a.changes_notes

/-- Counters that have been told everything show all records, whichever call came first. -/
theorem countAll_interleaving {answered : List Answered} {all : List Note}
    (h : Interleaving (answered.map Answered.notes) all) (m : Metrics) :
    m.countAll all = m.recordAll (answered.flatMap Answered.records) := by
  have hperm : (all.filterMap Note.change?).Perm
      ((answered.flatMap Answered.records).map Record.apply) := by
    rw [← changes_answered]
    exact h.perm.filterMap _
  -- so the changes are records, in some order
  have hcomm : ∀ f ∈ all.filterMap Note.change?, ∀ g ∈ all.filterMap Note.change?,
      ∀ n : Metrics, g (f n) = f (g n) := by
    intro f hf g hg n
    obtain ⟨r, -, rfl⟩ := List.mem_map.1 (hperm.subset hf)
    obtain ⟨r', -, rfl⟩ := List.mem_map.1 (hperm.subset hg)
    exact Metrics.recordAll_perm (.swap r' r []) n
  calc m.countAll all
    _ = ((answered.flatMap Answered.records).map Record.apply).foldl (fun n f => f n) m :=
      hperm.foldl_eq' hcomm m
    _ = m.recordAll (answered.flatMap Answered.records) := List.foldl_map ..

/-- A counter shows the exact sum of what was `recorded` for it, as far as it goes. So it never goes
down, stays at the limit once it is there, and does not depend on the order of the records. Neither
does it depend on the `Interleaving` of calls of pipelines that share it: each call ends the same
way, whatever has been counted, and together they add the sum of their records. -/
theorem counters_are_capped_sums :
    (∀ rs : List Record, (Metrics.recordAll {} rs).counts =
      Count.all.map fun k => (k.name, min (Metrics.recorded rs k) Counter.max)) ∧
    (∀ (m : Metrics) (rs : List Record) (k : Count),
      ((m.recordAll rs).counter k).value =
          min ((m.counter k).value + Metrics.recorded rs k) Counter.max ∧
        (m.counter k).value ≤ ((m.recordAll rs).counter k).value ∧
        ((m.counter k).IsFull → ((m.recordAll rs).counter k).IsFull)) ∧
    (∀ (m : Metrics) (rs rs' : List Record), rs.Perm rs' → m.recordAll rs = m.recordAll rs') ∧
    (∀ (p : Pipeline) (plan : Plan) (c : Call), ∃ a : Answered,
      a.pipeline = p ∧ a.plan = plan ∧ a.call = c ∧
        (c.run p plan).Ends (c.result p a.blocks a.stop) a.notes) ∧
    ∀ (answered : List Answered) (all : List Note) (w : Observers),
      Interleaving (answered.map Answered.notes) all →
        (w.tellAll all).metrics =
          w.metrics.map (·.recordAll (answered.flatMap Answered.records)) := by
  refine ⟨?counts, ?counter, fun m _ _ h => Metrics.recordAll_perm h m, ?answered, ?shared⟩
  case counts =>
    intro rs
    rw [Metrics.counts_eq]
    refine List.map_congr_left fun k _ => ?_
    have hzero : (Metrics.counter {} k).value = 0 := by cases k <;> rfl
    rw [Metrics.counter_recordAll, Counter.value_add, hzero, Nat.zero_add]
  case counter =>
    intro m rs k
    rw [Metrics.counter_recordAll]
    exact ⟨rfl, Counter.le_add .., fun hfull => by rwa [hfull.add]⟩
  case answered =>
    intro p plan c
    obtain ⟨a, rfl, rfl, rfl⟩ := Answered.exists_answered p plan c
    exact ⟨a, rfl, rfl, rfl, a.ends⟩
  case shared =>
    intro answered all w h
    rw [Observers.metrics_tellAll]
    exact congrArg w.metrics.map (funext (countAll_interleaving h))

/-- A render of a prompt without modules. -/
def idle : Answered where
  pipeline := { config := { left := [] }, registry := {}, sheet := {}, digest := "" }
  plan := eager
  call := .render ⟨{}, by decide⟩
  blocks := []
  stop := none
  goes := .pass rfl (.pass rfl (.pass rfl .done))

def almostFullCounts : Metrics where
  renders := { value := 0xFFFFFFFFFFFFFFFE }

def fullCounts : Metrics where
  renders := { value := 0xFFFFFFFFFFFFFFFF }

/-- Two renders, told of in turn, and a counter that has room for one. -/
theorem counters_of_overlapping_renders :
    (∃ all, Interleaving [idle.notes, idle.notes] all ∧
      (Observers.tellAll { metrics := some almostFullCounts } all).metrics = some fullCounts) ∧
    ((fullCounts.recordAll [.render]).counter .renders).IsFull ∧
    fullCounts.recordAll [.render, .cancelled] = fullCounts.recordAll [.cancelled, .render] := by
  have hturns : ∀ notes : List Note,
      Interleaving [notes, notes] (notes.flatMap fun n => [n, n]) := by
    intro notes
    induction notes with
    | nil => exact .done (by simp)
    | cons n rest ih => exact .next [] [n :: rest] (.next [rest] [] ih)
  obtain ⟨-, hcounter, hperm, -, hshared⟩ := counters_are_capped_sums
  refine ⟨⟨_, hturns idle.notes, ?_⟩, ?_, hperm fullCounts _ _ (.swap ..)⟩
  · rw [hshared [idle, idle] _ _ (hturns idle.notes)]
    rfl
  · exact (hcounter fullCounts _ .renders).2.2 rfl

end Pipeline
end ShellPrompt
