import ShellPrompt.Proofs.Pipeline.Blocks

/-!
# ShellPrompt.Proofs.Pipeline.Trail

The audit trail of a render.

* `Block.trail`: one event for each configured name and one for the fitted line. `Part.trail` is
  the same for all that is told of a prompt.
* `audit_of_render`: a render records its start, whole blocks for the configured targets, and how it
  ended.
-/

namespace ShellPrompt
namespace Pipeline

def moduleEvent : Outcome → Audit.Event
  | .rendered f => ⟨.moduleRendered, [("module", .string f.module)]⟩
  | .failed failure => ⟨.moduleFailed, [("module", .string failure.module)]⟩
  | .empty name => ⟨.moduleSkipped, [("module", .string name)]⟩
  | .disabled name => ⟨.moduleSkipped, [("module", .string name)]⟩
  | .unknown name => ⟨.moduleSkipped, [("module", .string name)]⟩

theorem moduleEvent_eq (o : Outcome) :
    moduleEvent o = ⟨stageOf o, [("module", .string o.module)]⟩ := by
  cases o <;> rfl

def layoutEvent (t : Target) (line : Layout.Line) : Audit.Event where
  stage := .layoutComposed
  details := [
    ("target", .string t.name),
    ("width", .nat line.width),
    ("dropped", .strings line.dropped),
    ("overflow", .bool line.overflow)]

def startEvent (p : Pipeline) (s : Snapshot) : Audit.Event where
  stage := .renderStarted
  details := [("config", .string p.digest), ("term_width", .nat s.termWidth.toNat)]

def Block.trail (p : Pipeline) (s : Snapshot) (b : Block) : List Audit.Event :=
  b.found.map moduleEvent ++ [layoutEvent b.target (b.line p s)]

def Part.trail (p : Pipeline) (s : Snapshot) : Part → List Audit.Event
  | .started => [p.startEvent s]
  | .block b => b.trail p s
  | .stopped _ => []
  | .committed lines => [⟨.renderCommitted, [("left_width", .nat lines.left.width)]⟩]
  | .cancelled => [⟨.renderCancelled, []⟩]
  | .failed _ => []

variable {p : Pipeline} {plan : Plan} {s : Snapshot} {token : Token} {blocks : List Block}
  {stop : Stop}

theorem filterMap_audited_lineNotes (t : Target) (line : Layout.Line) :
    (lineNotes t line).filterMap Note.audited? = [layoutEvent t line] := by
  unfold lineNotes layoutEvent
  cases line.overflow <;> cases line.dropped.isEmpty <;> rfl

theorem filterMap_audited_block (b : Block) :
    (b.notes p s).filterMap Note.audited? = b.trail p s := by
  rw [Block.notes, targetNotes, List.filterMap_append, List.filterMap_append,
    Note.filterMap_map_logged fun _ => rfl, filterMap_audited_outcomeNotes,
    filterMap_audited_lineNotes, Block.trail, funext moduleEvent_eq]
  rfl

theorem filterMap_audited_part (part : Part) :
    (part.notes p s).filterMap Note.audited? = part.trail p s := by
  cases part with
  | block b => exact filterMap_audited_block b
  | stopped t => exact Note.filterMap_map_logged (fun _ => rfl) _
  | _ => rfl

theorem flatMap_trail_goneParts (blocks : List Block) (stop : Stop) :
    (goneParts blocks stop).flatMap (Part.trail p s) = blocks.flatMap (Block.trail p s) := by
  rw [goneParts, List.flatMap_append, List.flatMap_map]
  cases stop <;> exact List.append_nil _

/-- The events of a render that goes so. -/
theorem audit_of_goes (h : p.Goes plan s Target.all token blocks stop) (w : Observers) :
    ((p.renderWithCancel plan s token).watchedBy w).2.audit =
      w.audit.map (· ++ p.startEvent s :: (blocks.flatMap (Block.trail p s) ++
        (p.lastParts s blocks stop).flatMap (Part.trail p s))) := by
  rw [p.renderWithCancel_ends plan s token w, Observers.audit_tellAll, h.rendered,
    List.filterMap_flatMap]
  simp only [filterMap_audited_part]
  rw [promptParts, List.flatMap_cons, List.flatMap_append, flatMap_trail_goneParts]
  rfl

/-- The events of a render are its start, the whole blocks of the configured targets in their order
(`Goes`), and how it ended. A block has one event for each configured name, in order, and then one
for the line of its target; targets without modules have none. A committed render has all blocks and
ends with the width of its left line, zero if no module is configured there. A cancelled one has
those in front of some configured target, and so has one that panics or is waited for, which records
no more. -/
theorem audit_of_render (p : Pipeline) (plan : Plan) (s : Snapshot) (token : Token)
    (w : Observers) :
    let run := (p.renderWithCancel plan s token).watchedBy w
    ∃ blocks stop, p.Goes plan s Target.all token blocks stop ∧
      (∀ b ∈ blocks, b.Sound p s) ∧
      (∀ out, run.1 = .ok out →
        p.configured = blocks.map Block.target ∧
        ∃ width, (∀ b ∈ blocks, b.target = .left → (b.line p s).width = width) ∧
          (p.config.modulesFor .left = [] → width = 0) ∧
          run.2.audit = w.audit.map (· ++ p.startEvent s ::
            (blocks.flatMap (Block.trail p s) ++
              [⟨.renderCommitted, [("left_width", .nat width)]⟩]))) ∧
      (∀ halt, run.1 = .error halt →
        (∃ t rest, p.configured = blocks.map Block.target ++ t :: rest) ∧
        (∀ e, halt = .error e → e = .cancelled) ∧
        run.2.audit = w.audit.map (· ++ p.startEvent s ::
          (blocks.flatMap (Block.trail p s) ++
            if halt = .error .cancelled then [⟨.renderCancelled, []⟩] else []))) := by
  intro run
  obtain ⟨blocks, stop, h⟩ := p.exists_goes plan s Target.all token
  have hresult : run.1 = ended (p.output (p.fill s blocks {})) stop := by
    have hends : run.1 = _ := congrArg Prod.fst (p.renderWithCancel_ends plan s token w)
    rw [hends, h.rendered]
  have haudit : run.2.audit = _ := audit_of_goes h w
  have hreach : Reaches p.configured blocks stop := h.reaches
  refine ⟨blocks, stop, h, h.sound, ?committed, ?stopped⟩
  case committed =>
    intro out hok
    rw [hresult] at hok
    cases stop with
    | some stop => cases hok
    | none =>
      have hnodup : (blocks.map Block.target).Nodup :=
        (hreach.sublist.trans List.filter_sublist).nodup (show Target.all.Nodup by decide)
      refine ⟨hreach, (p.fill s blocks {}).left.width, ?left, ?unconfigured, ?trail⟩
      case left =>
        intro b hb hleft
        have hline := line_fill_of_mem (p := p) (s := s) hnodup hb {}
        rw [hleft] at hline
        exact (congrArg Layout.Line.width hline).symm
      case unconfigured =>
        intro hnone
        have hleft : Target.left ∉ blocks.map Block.target := by
          rw [← show p.configured = _ from hreach]
          simp [configured, isConfigured, hnone]
        exact congrArg Layout.Line.width (line_fill_of_notMem (p := p) (s := s) hleft {})
      case trail =>
        rw [haudit]
        rfl
  case stopped =>
    intro halt herror
    rw [hresult] at herror
    cases stop with
    | none => cases herror
    | some stop =>
      obtain ⟨t, halt'⟩ := stop
      cases herror
      obtain ⟨rest, hrest⟩ := hreach
      refine ⟨⟨t, rest, hrest⟩, ?_, ?_⟩
      · rintro e rfl
        exact h.eq_cancelled rfl
      · rw [haudit]
        rcases halt with (_ | _) | c | _ <;> rfl

end Pipeline
end ShellPrompt
