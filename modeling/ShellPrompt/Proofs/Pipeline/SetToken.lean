import ShellPrompt.Proofs.Pipeline.Rendering
import ShellPrompt.Proofs.Registry.Cancel

/-!
# ShellPrompt.Proofs.Pipeline.SetToken

Whole prompts under a token that is set before they are rendered.

Nothing is looked at but the first target that has modules (`Leads`): its evaluation never comes
out, and the targets behind it are not begun.

* `composed_unconfigured`, `composed_of_leads`: the two ways through the targets.
* `renderWithCancel_set`: such a render is cancelled and tells of nothing else, unless no target
  has modules or a worker of the leading one cannot be named.
-/

namespace ShellPrompt
namespace Pipeline

/-- The first target in render order for which modules are configured. -/
def Leads (p : Pipeline) (t : Target) : Prop := Target.all.find? p.isConfigured = some t

variable {p : Pipeline} {plan : Plan} {s : Snapshot} {token : Token} {t : Target}

theorem isConfigured_iff : p.isConfigured t = true ↔ p.config.modulesFor t ≠ [] := by
  simp [isConfigured]

theorem isConfigured_eq_false_iff : p.isConfigured t = false ↔ p.config.modulesFor t = [] := by
  simp [isConfigured]

theorem composed_unconfigured {targets : List Target}
    (h : targets.find? p.isConfigured = none) (lines : Layout.Lines) :
    p.composed plan s targets lines token = (.ok lines, []) := by
  induction targets with
  | nil => rfl
  | cons t rest ih =>
    rw [List.find?_eq_none] at h
    obtain ⟨ht, hrest⟩ := List.forall_mem_cons.1 h
    rw [composed, if_pos (isConfigured_eq_false_iff.1 (Bool.eq_false_of_not_eq_true ht))]
    exact ih (List.find?_eq_none.2 hrest)

/-- Where the first target that has modules does not come out, nothing behind it is begun. -/
theorem composed_of_leads {targets : List Target} (h : targets.find? p.isConfigured = some t)
    {halt : Halt} {notes : List Note}
    (he : p.evaluated (plan t) t s token = (.error halt, notes)) (lines : Layout.Lines) :
    p.composed plan s targets lines token = (.error halt, notes) := by
  induction targets with
  | nil => cases h
  | cons first rest ih =>
    rw [composed]
    cases hfirst : p.isConfigured first with
    | false =>
      rw [List.find?_cons_of_neg (by rw [hfirst]; exact Bool.false_ne_true)] at h
      rw [if_pos (isConfigured_eq_false_iff.1 hfirst)]
      exact ih h
    | true =>
      rw [List.find?_cons_of_pos hfirst] at h
      obtain rfl := Option.some.inj h
      rw [if_neg (isConfigured_iff.1 hfirst), he]

theorem rendered_unconfigured (h : Target.all.find? p.isConfigured = none) :
    p.rendered plan s token = (.ok {}, p.startNote s :: p.commitNotes {}) := by
  have hall : ∀ t ∈ Target.all, p.isConfigured t = false :=
    fun t ht => Bool.eq_false_of_not_eq_true (List.find?_eq_none.1 h t ht)
  have houtput : p.output {} = {} := by
    rw [output, hall .right (by decide), hall .bottom (by decide)]
    rfl
  rw [rendered, composed_unconfigured h]
  exact congrArg (fun result => (Except.ok result, _)) houtput

section Leads

variable (hset : token.isCancelled = true)
  (hsteps : 5 ≤ ((plan t) p.options (p.registry.work (p.config.modulesFor t) s)).count .main)
  (ht : p.Leads t)

include hset hsteps ht

theorem rendered_cancelled
    (hname : ¬ p.registry.Unnameable (p.config.modulesFor t) p.options) :
    p.rendered plan s token = (.error (.error .cancelled),
      p.startNote s :: ((p.registry.unknownIn (p.config.modulesFor t)).map .logged ++
        cancelNotes)) := by
  have hcases := Registry.evaluated_set p.attainable_options hset hsteps
  have he := (hcases.resolve_right fun h => hname h.1).2
  rw [rendered, composed_of_leads ht (Prod.ext he (Registry.notes_of_error he))]

theorem rendered_crashed (hname : p.registry.Unnameable (p.config.modulesFor t) p.options) :
    ∃ name ∈ p.config.modulesFor t, Char.ofNat 0 ∈ name.toList ∧
      p.rendered plan s token = (.error (.crash (.workerName name)),
        p.startNote s :: (p.registry.unknownIn (p.config.modulesFor t)).map .logged) := by
  obtain ⟨-, name, hmem, hnul, he⟩ :=
    (Registry.evaluated_set p.attainable_options hset hsteps).resolve_left fun h => h.1 hname
  refine ⟨name, hmem, hnul, ?_⟩
  rw [rendered, composed_of_leads ht (Prod.ext he (Registry.notes_of_error he))]

end Leads

/-- What the observers of a cancelled render know, if nothing but events is told in between. -/
theorem tellAll_cancelled (p : Pipeline) (s : Snapshot) (events : List Log.Event)
    (w : Observers) :
    let after := w.tellAll (p.startNote s :: (events.map .logged ++ cancelNotes))
    after.audit = w.audit.map (· ++ [⟨.renderStarted,
        [("config", .string p.digest), ("term_width", .nat s.termWidth.toNat)]⟩,
      ⟨.renderCancelled, []⟩]) ∧
    after.metrics = w.metrics.map Metrics.recordCancelled ∧
    after.logger = (w.logAll (events ++ [event .debug "render_cancelled" []])).logger := by
  intro after
  refine ⟨?_, ?_, ?_⟩
  · rw [Observers.audit_tellAll, List.filterMap_cons, List.filterMap_append,
      Note.filterMap_map_logged fun _ => rfl]
    rfl
  · rw [Observers.metrics_tellAll]
    simp only [Metrics.countAll]
    rw [List.filterMap_cons, List.filterMap_append, Note.filterMap_map_logged fun _ => rfl]
    rfl
  · rw [Observers.logger_tellAll, List.filterMap_cons, List.filterMap_append,
      Note.filterMap_logged_map_logged]
    rfl

/-- A render whose token is set beforehand is cancelled at the target that `Leads`. Apart from its
start and the names there that no module is registered under, nothing but the cancellation is told
of. There are two exceptions. Where no target has modules nobody looks at the token, and an empty
prompt is committed. And with one worker for each module a worker that is to be named as none can be
(`Unnameable`) lets a panic out first. -/
theorem renderWithCancel_set (hset : token.isCancelled = true)
    (hsteps : ∀ t, 5 ≤ ((plan t) p.options
      (p.registry.work (p.config.modulesFor t) s)).count .main) (w : Observers) :
    let run := (p.renderWithCancel plan s token).watchedBy w
    let started : Audit.Event := ⟨.renderStarted,
      [("config", .string p.digest), ("term_width", .nat s.termWidth.toNat)]⟩
    let unknown := fun t => p.registry.unknownIn (p.config.modulesFor t)
    (run.1 = .error (.error .cancelled) ↔
      ∃ t, p.Leads t ∧ ¬ p.registry.Unnameable (p.config.modulesFor t) p.options) ∧
    (∀ t, p.Leads t → ¬ p.registry.Unnameable (p.config.modulesFor t) p.options →
      run.2.audit = w.audit.map (· ++ [started, ⟨.renderCancelled, []⟩]) ∧
      run.2.metrics = w.metrics.map Metrics.recordCancelled ∧
      run.2.logger = (w.logAll (unknown t ++ [event .debug "render_cancelled" []])).logger) ∧
    ((∀ t, p.isConfigured t = false) →
      run = (.ok {}, w.tellAll (p.startNote s :: p.commitNotes {}))) ∧
    (∀ t, p.Leads t → p.registry.Unnameable (p.config.modulesFor t) p.options →
      (∃ name ∈ p.config.modulesFor t, Char.ofNat 0 ∈ name.toList ∧
        run.1 = .error (.crash (.workerName name))) ∧
      run.2 = (w.record started).logAll (unknown t)) := by
  intro run started unknown
  have hrun : run = ((p.rendered plan s token).1, w.tellAll (p.rendered plan s token).2) :=
    p.renderWithCancel_ends plan s token w
  refine ⟨⟨?only, ?cancelled⟩, ?told, ?unconfigured, ?crashed⟩
  case only =>
    intro h
    rw [hrun] at h
    cases hlead : Target.all.find? p.isConfigured with
    | none =>
      rw [rendered_unconfigured hlead] at h
      cases h
    | some t =>
      refine ⟨t, hlead, fun hname => ?_⟩
      obtain ⟨name, -, -, hcrash⟩ := rendered_crashed hset (hsteps t) hlead hname
      rw [hcrash] at h
      cases h
  case cancelled =>
    rintro ⟨t, ht, hname⟩
    rw [hrun, rendered_cancelled hset (hsteps t) ht hname]
  case told =>
    intro t ht hname
    rw [hrun, rendered_cancelled hset (hsteps t) ht hname]
    exact p.tellAll_cancelled s (unknown t) w
  case unconfigured =>
    intro h
    have hnone : Target.all.find? p.isConfigured = none :=
      List.find?_eq_none.2 fun t _ => by rw [h t]; exact Bool.false_ne_true
    rw [hrun, rendered_unconfigured hnone]
  case crashed =>
    intro t ht hname
    obtain ⟨name, hmem, hnul, hcrash⟩ := rendered_crashed hset (hsteps t) ht hname
    rw [hrun, hcrash, Observers.tellAll_cons, Observers.tellAll_logged]
    exact ⟨⟨name, hmem, hnul, rfl⟩, rfl⟩

/-- Nothing to the left, a name without a module and a disabled module to the right, and a module
that answers at the bottom. -/
def sparse : Pipeline where
  config := { left := [], right := ["git", "jobs"], bottom := ["dir"] }
  registry := Registry.medley
  sheet := {}
  digest := ""

theorem renderWithCancel_set_sparse :
    sparse.Leads .right ∧ ¬ sparse.registry.Unnameable ["git", "jobs"] sparse.options ∧
      ∃ w, (sparse.renderWithCancel eager ⟨{}, by decide⟩ (.shared true)).watchedBy
          { audit := some [], metrics := some {} } = (.error (.error .cancelled), w) ∧
        w.audit = some [⟨.renderStarted, [("config", .string ""), ("term_width", .nat 80)]⟩,
          ⟨.renderCancelled, []⟩] ∧
        w.metrics = some (Metrics.recordCancelled {}) := by
  have hright : sparse.Leads .right := by rfl
  have hname : ¬ sparse.registry.Unnameable ["git", "jobs"] sparse.options := by
    rintro ⟨-, name, hmem, -, -, -, hnul⟩
    simp only [List.mem_cons, List.not_mem_nil, or_false] at hmem
    rcases hmem with rfl | rfl <;> revert hnul <;> decide
  obtain ⟨hcancelled, htold, -, -⟩ := @renderWithCancel_set sparse eager ⟨{}, by decide⟩
    (.shared true) rfl (fun t => by cases t <;> decide) { audit := some [], metrics := some {} }
  obtain ⟨haudit, hmetrics, -⟩ := htold .right hright hname
  exact ⟨hright, hname, _, Prod.ext (hcancelled.2 ⟨.right, hright, hname⟩) rfl, haudit, hmetrics⟩

/-- A prompt without modules is committed under a set token, and one whose module no worker can be
named after ends in a panic. -/
theorem set_token_passed_over :
    (Pipeline.renderWithCancel { sparse with config := { left := [] } } eager ⟨{}, by decide⟩
        (.shared true)).watchedBy { metrics := some {} } =
      (.ok {}, { metrics := some (Metrics.recordRender {}) }) ∧
    ((Pipeline.renderWithCancel
        { sparse with config := { left := ["clock\x00"] }, registry := Registry.guarded }
        eager ⟨{}, by decide⟩ (.shared true)).watchedBy {}).1 =
      .error (.crash (.workerName "clock\x00")) :=
  ⟨by rfl, by rfl⟩

end Pipeline
end ShellPrompt
