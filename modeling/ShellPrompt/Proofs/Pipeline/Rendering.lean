import ShellPrompt.Pipeline
import ShellPrompt.Proofs.Registry.Outcomes

/-!
# ShellPrompt.Proofs.Pipeline.Rendering

How rendering ends and what it tells, from one target to the whole prompt.

* `targetNotes`: what the observers are told about a target once its modules are evaluated.
* `composed`: the lines of several targets, one after the other; the first that is not evaluated
  ends it. `composeTargets_ends` is the induction behind it; `line_of_composeLayout` is about one
  of the lines.
* `rendered`: the whole prompt. `renderLine_ends` is about one line of it.
* `build_crashed`, `build_ok`: how a pipeline comes to be built.
-/

namespace ShellPrompt
namespace Pipeline

/-! ## What is told -/

def outcomeNotes (found : List Outcome) : List Note :=
  found.map (fun o => .audited ⟨stageOf o, [("module", .string o.module)]⟩) ++
    [.counted (·.recordModules
      (found.countP fun o => o.fragment?.isSome)
      (found.countP fun o => o.isFailure && !o.isTimeout)
      (found.countP Outcome.isTimeout))]

def lineNotes (t : Target) (line : Layout.Line) : List Note :=
  [.audited ⟨.layoutComposed, [
      ("target", .string t.name),
      ("width", .nat line.width),
      ("dropped", .strings line.dropped),
      ("overflow", .bool line.overflow)]⟩,
    .counted (·.recordLayout line.dropped.length line.overflow)] ++
  (if line.overflow then [.logged (event .warn "width_overflow"
    [("target", .string t.name), ("width", .nat line.width)])] else []) ++
  (if line.dropped.isEmpty then [] else [.logged (event .debug "fragments_dropped"
    [("target", .string t.name), ("modules", .strings line.dropped)])])

theorem run_recordOutcomes (found : List Outcome) (w : Observers) :
    (recordOutcomes found).run w = ((), w.tellAll (outcomeNotes found)) := by
  have hforM := Observers.run_forM (fun o => audit (stageOf o) [("module", .string o.module)])
    (fun o => .audited ⟨stageOf o, [("module", .string o.module)]⟩) (fun _ _ => rfl) found w
  rw [recordOutcomes, StateT.run_bind, hforM, outcomeNotes, Observers.tellAll_append]
  rfl

theorem filterMap_audited_outcomeNotes (found : List Outcome) :
    (outcomeNotes found).filterMap Note.audited? =
      found.map fun o => ⟨stageOf o, [("module", .string o.module)]⟩ := by
  rw [outcomeNotes, List.filterMap_append, List.filterMap_map]
  exact (List.append_nil _).trans (congrFun List.filterMap_eq_map found)

theorem countAll_outcomeNotes (m : Metrics) (found : List Outcome) :
    m.countAll (outcomeNotes found) = m.recordModules
      (found.countP fun o => o.fragment?.isSome)
      (found.countP fun o => o.isFailure && !o.isTimeout)
      (found.countP Outcome.isTimeout) := by
  have hnames : m.countAll (found.map fun o =>
      .audited ⟨stageOf o, [("module", .string o.module)]⟩) = m := by
    refine Metrics.countAll_eq_self ?_ m
    intro n hn
    obtain ⟨o, -, rfl⟩ := List.mem_map.1 hn
    rfl
  rw [outcomeNotes, Metrics.countAll_append, hnames]
  rfl

theorem run_recordLine (t : Target) (line : Layout.Line) (w : Observers) :
    (recordLine t line).run w = ((), w.tellAll (lineNotes t line)) := by
  unfold recordLine lineNotes
  cases line.overflow <;> cases line.dropped.isEmpty <;> rfl

/-! ## One target -/

variable (p : Pipeline)

/-- The line of a target whose names came out so. -/
def lineOf (s : Snapshot) (found : List Outcome) : Layout.Line :=
  Layout.compose p.config.separator (found.filterMap Outcome.fragment?) s.termWidth

def targetNotes (s : Snapshot) (t : Target) (found : List Outcome) : List Note :=
  outcomeNotes found ++ lineNotes t (p.lineOf s found)

def evaluated (scheduler : Evaluation.Scheduler) (t : Target) (s : Snapshot) (token : Token) :
    Except Halt (List Outcome × Token) × List Note :=
  p.registry.evaluated scheduler (p.config.modulesFor t) s p.options token

variable {p} {plan : Plan} {scheduler : Evaluation.Scheduler} {t : Target} {s : Snapshot}
  {token after : Token} {found : List Outcome} {h : Halt} {notes : List Note}

theorem attainable_options (p : Pipeline) : p.options.Attainable := by
  refine Evaluation.attainable_ofMillis fun b hb => ?_
  obtain ⟨ms, -, rfl⟩ := Option.map_eq_some_iff.1 hb
  exact ⟨ms, rfl⟩

theorem grants_options (p : Pipeline) : p.options.Grants := fun _ => rfl

theorem millis_options (p : Pipeline) :
    p.options.budget.map Evaluation.Span.millis = p.config.budget := by
  simp [options, Function.comp_def]

/-- What comes out of a target is what its names call for. -/
theorem callsFor_of_evaluated (h : (p.evaluated scheduler t s token).1 = .ok (found, after)) :
    found.length = (p.config.modulesFor t).length ∧
      ∀ i name, (p.config.modulesFor t)[i]? = some name → ∃ x, found[i]? = some x ∧
        Registry.CallsFor p.registry s p.config.budget name
          (p.registry.InTime (p.config.modulesFor t) s scheduler p.options token i) x := by
  rw [← p.millis_options]
  exact Registry.callsFor_of_evaluated p.grants_options h

theorem inTime_of_not_isTimeout {i : Nat} {name : String} {m : Module} {settings : ModuleSettings}
    {x : Outcome} (h : (p.evaluated scheduler t s token).1 = .ok (found, after))
    (hi : (p.config.modulesFor t)[i]? = some name) (he : p.registry.Enabled name m settings)
    (hx : found[i]? = some x) (htimeout : x.isTimeout = false) :
    p.registry.InTime (p.config.modulesFor t) s scheduler p.options token i := by
  obtain ⟨x', hx', hcalls⟩ := (callsFor_of_evaluated h).2 i name hi
  obtain rfl := Option.some.inj (hx.symm.trans hx')
  exact Registry.inTime_of_not_isTimeout hcalls he htimeout

theorem composeTarget_unconfigured (hnone : p.config.modulesFor t = []) :
    (p.composeTarget scheduler t s token).Ends (.ok (none, token)) [] := by
  intro w
  rw [composeTarget, hnone]
  rfl

theorem composeTarget_found (hsome : p.config.modulesFor t ≠ [])
    (he : p.evaluated scheduler t s token = (.ok (found, after), notes)) :
    (p.composeTarget scheduler t s token).Ends (.ok (some (p.lineOf s found), after))
      (notes ++ p.targetNotes s t found) := by
  have hends := p.registry.evaluate_ends scheduler (p.config.modulesFor t) s p.options token
  rw [show p.registry.evaluated scheduler _ s p.options token = _ from he] at hends
  rw [composeTarget, if_neg (by simpa using hsome)]
  refine hends.bind ?_
  have hline := Render.Ends.watch (run_recordLine t (p.lineOf s found))
    (g := fun _ => pure (some (p.lineOf s found), after)) (.pure _)
  rw [List.append_nil] at hline
  exact Render.Ends.watch (run_recordOutcomes found) hline

theorem composeTarget_halted (hsome : p.config.modulesFor t ≠ [])
    (he : p.evaluated scheduler t s token = (.error h, notes)) :
    (p.composeTarget scheduler t s token).Ends (.error h) notes := by
  have hends := p.registry.evaluate_ends scheduler (p.config.modulesFor t) s p.options token
  rw [show p.registry.evaluated scheduler _ s p.options token = _ from he] at hends
  rw [composeTarget, if_neg (by simpa using hsome)]
  exact hends.bind_error _

theorem exists_composeTarget_ends (p : Pipeline) (scheduler : Evaluation.Scheduler) (t : Target)
    (s : Snapshot) (token : Token) :
    ∃ result notes, (p.composeTarget scheduler t s token).Ends result notes := by
  by_cases hnames : p.config.modulesFor t = []
  · exact ⟨_, _, composeTarget_unconfigured hnames⟩
  · rcases he : p.evaluated scheduler t s token with ⟨halt | ⟨found, after⟩, notes⟩
    · exact ⟨_, _, composeTarget_halted hnames he⟩
    · exact ⟨_, _, composeTarget_found hnames he⟩

/-! ## All targets -/

def composed (p : Pipeline) (plan : Plan) (s : Snapshot) :
    List Target → Layout.Lines → Token → Except Halt Layout.Lines × List Note
  | [], lines, _ => (.ok lines, [])
  | t :: rest, lines, token =>
    if p.config.modulesFor t = [] then composed p plan s rest lines token
    else
      match p.evaluated (plan t) t s token with
      | (.error h, notes) => (.error h, notes)
      | (.ok (found, after), notes) =>
        let r := composed p plan s rest (lines.set t (p.lineOf s found)) after
        (r.1, notes ++ p.targetNotes s t found ++ r.2)

theorem composeTargets_ends (p : Pipeline) (plan : Plan) (s : Snapshot) (targets : List Target)
    (lines : Layout.Lines) (token : Token) :
    (p.composeTargets plan s targets lines token).Ends (p.composed plan s targets lines token).1
      (p.composed plan s targets lines token).2 := by
  induction targets generalizing lines token with
  | nil => exact .pure lines
  | cons t rest ih =>
    rw [composeTargets, composed]
    split
    case isTrue hnone => exact (composeTarget_unconfigured hnone).bind (ih lines token)
    case isFalse hsome =>
      rcases he : p.evaluated (plan t) t s token with ⟨h | ⟨found, after⟩, notes⟩
      · exact (composeTarget_halted hsome he).bind_error _
      · exact (composeTarget_found hsome he).bind (ih _ after)

theorem composeLayout_ends (p : Pipeline) (plan : Plan) (s : Snapshot) (token : Token) :
    (p.composeLayout plan s token).Ends (p.composed plan s Target.all {} token).1
      (p.composed plan s Target.all {} token).2 :=
  p.composeTargets_ends plan s Target.all {} token

/-- A composed line is a fitted one, or it is as it was before. -/
theorem line_composed {targets : List Target} {before lines : Layout.Lines} (t : Target)
    (h : (p.composed plan s targets before token).1 = .ok lines) :
    (lines.line t = before.line t ∧ (t ∈ targets → p.config.modulesFor t = [])) ∨
      p.config.modulesFor t ≠ [] ∧ ∃ token' found after,
        (p.evaluated (plan t) t s token').1 = .ok (found, after) ∧
        lines.line t = p.lineOf s found := by
  induction targets generalizing before token with
  | nil =>
    cases h
    exact .inl ⟨rfl, nofun⟩
  | cons u rest ih =>
    rw [composed] at h
    split at h
    case isTrue hnone =>
      refine (ih h).imp_left fun hsame => ⟨hsame.1, fun ht => ?_⟩
      rcases List.mem_cons.1 ht with rfl | ht
      · exact hnone
      · exact hsame.2 ht
    case isFalse hsome =>
      rcases he : p.evaluated (plan u) u s token with ⟨halt | ⟨found, after⟩, notes⟩
      · rw [he] at h
        cases h
      · rw [he] at h
        rcases ih h with ⟨hsame, hrest⟩ | hfitted
        · by_cases htu : t = u
          · subst htu
            rw [Layout.Lines.line_set_self] at hsame
            exact .inr ⟨hsome, token, found, after, congrArg Prod.fst he, hsame⟩
          · rw [Layout.Lines.line_set_of_ne htu] at hsame
            exact .inl ⟨hsame, fun ht => hrest ((List.mem_cons.1 ht).resolve_left htu)⟩
        · exact .inr hfitted

/-- The line of a target is the one its outcomes are fitted into, under whatever token it was
begun. -/
theorem line_of_composeLayout {lines : Layout.Lines} (t : Target)
    (h : (p.composeLayout plan s token).Gives (.ok lines)) :
    (p.config.modulesFor t = [] → lines.line t = {}) ∧
      (p.config.modulesFor t ≠ [] → ∃ token' found after,
        (p.evaluated (plan t) t s token').1 = .ok (found, after) ∧
        lines.line t = p.lineOf s found) := by
  have hempty : ({} : Layout.Lines).line t = {} := by cases t <;> rfl
  have ht : t ∈ Target.all := by cases t <;> decide
  rcases line_composed t ((p.composeLayout_ends plan s token).gives.unique h) with
    ⟨hsame, hnone⟩ | ⟨hsome, hfitted⟩
  · exact ⟨fun _ => hsame.trans hempty, fun hsome => absurd (hnone ht) hsome⟩
  · exact ⟨fun hnone => absurd hnone hsome, fun _ => hfitted⟩

theorem paint_empty (p : Pipeline) : p.paint {} = "" := rfl

/-- A target without modules has an empty line, whether or not it is part of the output. -/
theorem line_output (p : Pipeline) (lines : Layout.Lines) (hlines : ∀ t,
    p.config.modulesFor t = [] → lines.line t = {}) (t : Target) :
    (p.output lines).line t = p.paint (lines.line t) := by
  have hempty : ∀ t, p.isConfigured t = false → p.paint (lines.line t) = "" := by
    intro t ht
    rw [hlines t (by simpa [isConfigured] using ht), paint_empty]
  cases t with
  | left => rfl
  | right =>
    cases hc : p.isConfigured .right with
    | true => simp [output, Output.line, hc, Layout.Lines.line]
    | false => rw [hempty _ hc]; simp [output, Output.line, hc]
  | bottom =>
    cases hc : p.isConfigured .bottom with
    | true => simp [output, Output.line, hc, Layout.Lines.line]
    | false => rw [hempty _ hc]; simp [output, Output.line, hc]

def startNote (p : Pipeline) (s : Snapshot) : Note :=
  .audited ⟨.renderStarted,
    [("config", .string p.digest), ("term_width", .nat s.termWidth.toNat)]⟩

def cancelNotes : List Note :=
  [.audited ⟨.renderCancelled, []⟩, .counted (·.recordCancelled),
    .logged (event .debug "render_cancelled" [])]

def commitNotes (p : Pipeline) (lines : Layout.Lines) : List Note :=
  [.counted (·.recordRender), .audited ⟨.renderCommitted, [("left_width", .nat lines.left.width)]⟩,
    .logged (event .debug "render_committed"
      [("config", .string p.digest), ("left_width", .nat lines.left.width)])]

def rendered (p : Pipeline) (plan : Plan) (s : Snapshot) (token : Token) :
    Except Halt Output × List Note :=
  match p.composed plan s Target.all {} token with
  | (.ok lines, notes) => (.ok (p.output lines), p.startNote s :: (notes ++ p.commitNotes lines))
  | (.error (.error .cancelled), notes) =>
    (.error (.error .cancelled), p.startNote s :: (notes ++ cancelNotes))
  | (.error h, notes) => (.error h, p.startNote s :: notes)

theorem result_rendered (p : Pipeline) (plan : Plan) (s : Snapshot) (token : Token) :
    (p.rendered plan s token).1 = (p.composed plan s Target.all {} token).1.map p.output := by
  rw [rendered]
  rcases p.composed plan s Target.all {} token with ⟨((_ | _) | c | _) | lines, notes⟩ <;> rfl

theorem renderWithCancel_ends (p : Pipeline) (plan : Plan) (s : Snapshot) (token : Token) :
    (p.renderWithCancel plan s token).Ends (p.rendered plan s token).1
      (p.rendered plan s token).2 := by
  have hlines := p.composeLayout_ends plan s token
  intro w
  rw [renderWithCancel, Render.watchedBy_watch_bind, Render.watchedBy_bind,
    Render.watchedBy_recover, hlines, rendered]
  rcases p.composed plan s Target.all {} token with ⟨((_ | _) | c | _) | lines, notes⟩
  case error.error.cancelled | ok =>
    simp only [Observers.tellAll_cons, Observers.tellAll_append]
    rfl
  all_goals rfl

theorem renderWithCancel_gives_iff (out : Output) :
    (p.renderWithCancel plan s token).Gives (.ok out) ↔
      ∃ lines, (p.composeLayout plan s token).Gives (.ok lines) ∧ out = p.output lines := by
  simp only [(p.composeLayout_ends plan s token).gives_iff]
  rw [(p.renderWithCancel_ends plan s token).gives_iff, result_rendered]
  rcases (p.composed plan s Target.all {} token).1 with halt | lines
  · exact iff_of_false nofun fun ⟨_, h, _⟩ => nomatch h
  · constructor
    · intro h
      exact ⟨lines, rfl, (Except.ok.inj h).symm⟩
    · rintro ⟨lines', h, rfl⟩
      cases h
      rfl

theorem renderLine_ends {p : Pipeline} {scheduler : Evaluation.Scheduler} {t : Target}
    {s : Snapshot} {result : Except Halt (Option Layout.Line × Token)} {notes : List Note}
    (h : (p.composeTarget scheduler t s .own).Ends result notes) :
    (p.renderLine scheduler t s).Ends (result.map fun r => (r.1.map p.paint).getD "") notes := by
  intro w
  rw [renderLine, Render.watchedBy_bind, h w]
  cases result <;> rfl

theorem renderLine_gives_iff (text : String) :
    (p.renderLine scheduler t s).Gives (.ok text) ↔
      ∃ line after, (p.composeTarget scheduler t s .own).Gives (.ok (line, after)) ∧
        text = p.paint (line.getD {}) := by
  obtain ⟨result, notes, hends⟩ := exists_composeTarget_ends p scheduler t s .own
  rw [(renderLine_ends hends).gives_iff]
  simp only [hends.gives_iff]
  rcases result with halt | ⟨line, after⟩
  · exact iff_of_false nofun fun ⟨_, _, h, _⟩ => nomatch h
  · have htext : (line.map p.paint).getD "" = p.paint (line.getD {}) := by
      cases line with
      | none => exact (paint_empty p).symm
      | some line => rfl
    constructor
    · intro h
      exact ⟨line, after, rfl, (Except.ok.inj h).symm.trans htext⟩
    · rintro ⟨line', after', h, rfl⟩
      cases h
      exact congrArg Except.ok htext

theorem build_crashed {config : Config} {c : Crash}
    (h : Style.Sheet.withOverrides config.styles = .error c) (registry : Option Registry) :
    (build config registry).Ends (.error (.crash c)) [] := by
  intro w
  rw [build, h]
  rfl

def built (config : Config) (registry : Option Registry) (sheet : Style.Sheet) : Pipeline where
  config := config
  registry := (registry.getD (.withBuiltins config)).configure config
  sheet := sheet
  digest := config.digest

/-- A pipeline is built from any styles that do not stop the program; those that cannot be read
are told of. -/
theorem build_ok {config : Config} {sheet : Style.Sheet} {errors : List Style.StyleError}
    (h : Style.Sheet.withOverrides config.styles = .ok (sheet, errors))
    (registry : Option Registry) :
    (build config registry).Ends (.ok (built config registry sheet))
      (errors.map fun e => .logged (styleEvent e)) := by
  rw [build, h, ← List.append_nil (errors.map _)]
  exact (Render.Ends.forM (fun e => log (styleEvent e)) (fun e => .logged (styleEvent e))
    (fun _ _ => rfl) errors).bind (.pure (built config registry sheet))

end Pipeline
end ShellPrompt
