import ShellPrompt.Proofs.Pipeline.Rendering
import ShellPrompt.Proofs.Registry.Isolation

/-!
# ShellPrompt.Proofs.Pipeline.Serving

Prompts under a token of their own.

* `Returns`: no target is waited for any more. `exists_returns` says that this comes about among
  modules that answer.
* `Serves`: the outcomes of each target. A target that returns has them unless a worker is to be
  named as none can be (`TripsAt`, `evaluated_cases`).
* `render_served`, `renderLine_served`: whole prompts and single lines are made of the same lines.
  `render_tripped` is the other case.
* `Serves.unique`: the outcomes do not depend on the plan, if the same modules answer in time.
-/

namespace ShellPrompt
namespace Pipeline

section Serving

variable (p : Pipeline) (plan : Plan) (s : Snapshot)

/-- At a target a worker is to be named as none can be. -/
def TripsAt (t : Target) (name : String) : Prop :=
  p.registry.Trips (p.config.modulesFor t) s (plan t) p.options .own name

def Returns : Prop :=
  ∀ t, p.config.modulesFor t ≠ [] → (p.evaluated (plan t) t s .own).1 ≠ .error .waits

def Serves (found : Target → List Outcome) : Prop :=
  ∀ t, p.config.modulesFor t ≠ [] → (p.evaluated (plan t) t s .own).1 = .ok (found t, .own)

/-- Does the module at a position of a target answer in time? -/
def InTime (t : Target) (i : Nat) : Prop :=
  p.registry.InTime (p.config.modulesFor t) s (plan t) p.options .own i

/-- Where time is limited, the same modules answer in time. -/
def Alike (plan₂ : Plan) : Prop :=
  p.config.budget ≠ none → ∀ t i name m settings, (p.config.modulesFor t)[i]? = some name →
    p.registry.Enabled name m settings → (p.InTime plan₂ s t i ↔ p.InTime plan s t i)

end Serving

variable {p : Pipeline} {plan plan₂ : Plan} {s : Snapshot} {t : Target}
  {found found₂ : Target → List Outcome}

theorem exists_returns
    (ha : ∀ t, Evaluation.Answering (p.registry.work (p.config.modulesFor t) s))
    {actions : Nat → Evaluation.Action} (hfair : Evaluation.Fair actions) :
    ∃ n, ∀ m, n ≤ m → p.Returns (fun _ _ _ => Evaluation.upTo actions m) s := by
  have htarget := fun t => Registry.evaluated_returns (ha t) p.options .own hfair
  obtain ⟨nleft, hleft⟩ := htarget .left
  obtain ⟨nright, hright⟩ := htarget .right
  obtain ⟨nbottom, hbottom⟩ := htarget .bottom
  refine ⟨max nleft (max nright nbottom), ?_⟩
  intro m hm t _
  cases t with
  | left => exact hleft m (by omega)
  | right => exact hright m (by omega)
  | bottom => exact hbottom m (by omega)

theorem TripsAt.configured {name : String} (h : p.TripsAt plan s t name) :
    p.config.modulesFor t ≠ [] := by
  obtain ⟨i, -, -, hi, -⟩ := h
  exact List.ne_nil_of_mem (List.mem_of_getElem? hi)

theorem TripsAt.evaluated {name : String} (h : p.TripsAt plan s t name) :
    (p.evaluated (plan t) t s .own).1 = .error (.crash (.workerName name)) :=
  Registry.crashed_of_trips h

theorem evaluated_cases (h : (p.evaluated (plan t) t s .own).1 ≠ .error .waits) :
    (∃ found, (p.evaluated (plan t) t s .own).1 = .ok (found, .own)) ∨
      ∃ name, p.TripsAt plan s t name ∧
        (p.evaluated (plan t) t s .own).1 = .error (.crash (.workerName name)) := by
  rcases he : (p.evaluated (plan t) t s .own).1 with (e | c | _) | ⟨found, after⟩
  · exact absurd rfl (Registry.eq_cancelled_of_evaluated he).2
  · obtain ⟨name, htrips, rfl⟩ := Registry.exists_trips_of_crashed p.attainable_options he
    exact .inr ⟨name, htrips, rfl⟩
  · exact absurd he h
  · obtain rfl := Registry.eq_own_of_evaluated he
    exact .inl ⟨found, rfl⟩

theorem exists_serves (hr : p.Returns plan s) (ht : ∀ t name, ¬ p.TripsAt plan s t name) :
    ∃ found, p.Serves plan s found := by
  have htarget : ∀ t, ∃ found, p.config.modulesFor t ≠ [] →
      (p.evaluated (plan t) t s .own).1 = .ok (found, .own) := by
    intro t
    by_cases hnone : p.config.modulesFor t = []
    · exact ⟨[], fun h => absurd hnone h⟩
    · rcases evaluated_cases (hr t hnone) with ⟨found, he⟩ | ⟨name, htrips, -⟩
      · exact ⟨found, fun _ => he⟩
      · exact absurd htrips (ht t name)
  exact ⟨fun t => (htarget t).choose, fun t => (htarget t).choose_spec⟩

/-! ## Lines -/

/-- The fitted lines of targets that came out so. -/
def linesFor (p : Pipeline) (s : Snapshot) (found : Target → List Outcome) : Layout.Lines :=
  Target.all.foldl (fun lines t =>
    if p.config.modulesFor t = [] then lines else lines.set t (p.lineOf s (found t))) {}

theorem line_linesFor (p : Pipeline) (s : Snapshot) (found : Target → List Outcome)
    (t : Target) : (p.linesFor s found).line t =
      if p.config.modulesFor t = [] then {} else p.lineOf s (found t) := by
  rw [linesFor, Target.all]
  simp only [List.foldl_cons, List.foldl_nil]
  cases t <;> split <;> split <;> split <;> simp_all [Layout.Lines.set, Layout.Lines.line]

theorem line_prompt (p : Pipeline) (s : Snapshot) (found : Target → List Outcome) (t : Target) :
    (p.output (p.linesFor s found)).line t =
      if p.config.modulesFor t = [] then "" else p.paint (p.lineOf s (found t)) := by
  rw [line_output p _ (fun t ht => by rw [line_linesFor, if_pos ht]), line_linesFor]
  split
  · exact paint_empty p
  · rfl

/-! ## Rendering -/

theorem composed_served {targets : List Target}
    (h : ∀ t ∈ targets, p.config.modulesFor t ≠ [] →
      (p.evaluated (plan t) t s .own).1 = .ok (found t, .own)) (lines : Layout.Lines) :
    (p.composed plan s targets lines .own).1 = .ok (targets.foldl (fun lines t =>
      if p.config.modulesFor t = [] then lines else lines.set t (p.lineOf s (found t))) lines) := by
  induction targets generalizing lines with
  | nil => rfl
  | cons t rest ih =>
    obtain ⟨ht, hrest⟩ := List.forall_mem_cons.1 h
    rw [composed, List.foldl_cons]
    split
    case isTrue hnone => exact ih hrest lines
    case isFalse hsome =>
      have he := ht hsome
      rcases hev : p.evaluated (plan t) t s .own with ⟨result, notes⟩
      rw [hev] at he
      subst he
      exact ih hrest _

theorem rendered_served (h : p.Serves plan s found) :
    (p.rendered plan s .own).1 = .ok (p.output (p.linesFor s found)) := by
  have hlines : (p.composed plan s Target.all {} .own).1 = .ok (p.linesFor s found) :=
    composed_served (fun t _ => h t) {}
  rw [result_rendered, hlines]
  rfl

theorem renderLine_served (h : p.Serves plan s found) (t : Target) :
    (p.renderLine (plan t) t s).Gives (.ok ((p.output (p.linesFor s found)).line t)) := by
  rw [line_prompt]
  split
  case isTrue hnone => exact (renderLine_ends (composeTarget_unconfigured hnone)).gives
  case isFalse hsome =>
    exact (renderLine_ends (composeTarget_found hsome (Prod.ext (h t hsome) rfl))).gives

/-- A line alone is of no concern to other targets. -/
theorem exists_line (hr : p.Returns plan s) (ht : ∀ name, ¬ p.TripsAt plan s t name) :
    ∃ text, (p.renderLine (plan t) t s).Gives (.ok text) := by
  by_cases hnone : p.config.modulesFor t = []
  · exact ⟨_, (renderLine_ends (composeTarget_unconfigured hnone)).gives⟩
  · rcases evaluated_cases (hr t hnone) with ⟨found, he⟩ | ⟨name, htrips, -⟩
    · exact ⟨_, (renderLine_ends (composeTarget_found hnone (Prod.ext he rfl))).gives⟩
    · exact absurd htrips (ht name)

/-- One target that trips stops the targets before and behind it as well. -/
theorem composed_tripped {targets : List Target}
    (hr : p.Returns plan s) (ht : ∃ t ∈ targets, ∃ name, p.TripsAt plan s t name)
    (lines : Layout.Lines) :
    ∃ t name, p.TripsAt plan s t name ∧
      (p.composed plan s targets lines .own).1 = .error (.crash (.workerName name)) := by
  induction targets generalizing lines with
  | nil => obtain ⟨_, hmem, _⟩ := ht; cases hmem
  | cons t rest ih =>
    obtain ⟨u, hu, name, htrips⟩ := ht
    rw [composed]
    split
    case isTrue hnone =>
      refine ih ⟨u, ?_, name, htrips⟩ lines
      rcases List.mem_cons.1 hu with rfl | hu
      · exact absurd hnone htrips.configured
      · exact hu
    case isFalse hsome =>
      rcases hev : p.evaluated (plan t) t s .own with ⟨result, notes⟩
      have hcases := evaluated_cases (hr t hsome)
      rw [hev] at hcases
      rcases hcases with ⟨found, rfl⟩ | ⟨name, htrips, rfl⟩
      · refine ih ⟨u, ?_, name, htrips⟩ _
        rcases List.mem_cons.1 hu with rfl | hu
        · have hcrash := htrips.evaluated
          rw [hev] at hcrash
          cases hcrash
        · exact hu
      · exact ⟨t, name, htrips, rfl⟩

theorem rendered_tripped (hr : p.Returns plan s) (ht : ∃ t name, p.TripsAt plan s t name) :
    ∃ t name, p.TripsAt plan s t name ∧
      (p.rendered plan s .own).1 = .error (.crash (.workerName name)) := by
  obtain ⟨u, hu⟩ := ht
  have hmem : u ∈ Target.all := by cases u <;> decide
  obtain ⟨t, name, htrips, hlines⟩ := composed_tripped hr ⟨u, hmem, hu⟩ {}
  refine ⟨t, name, htrips, ?_⟩
  rw [result_rendered, hlines]
  rfl

theorem render_served (h : p.Serves plan s found) :
    (p.render plan s).Gives (.ok (p.output (p.linesFor s found))) ∧
      (p.renderOrEmpty plan s).Gives (.ok (p.output (p.linesFor s found))) := by
  have hends := p.renderWithCancel_ends plan s .own
  rw [rendered_served h] at hends
  exact ⟨hends.gives, (hends.recover_ok _).gives⟩

theorem render_tripped (hr : p.Returns plan s) (ht : ∃ t name, p.TripsAt plan s t name) :
    ∃ t name, p.TripsAt plan s t name ∧
      (p.render plan s).Gives (.error (.crash (.workerName name))) ∧
      (p.renderOrEmpty plan s).Gives (.error (.crash (.workerName name))) := by
  obtain ⟨t, name, htrips, hrendered⟩ := rendered_tripped hr ht
  have hends := p.renderWithCancel_ends plan s .own
  rw [hrendered] at hends
  exact ⟨t, name, htrips, hends.gives, (hends.recover_halt nofun _).gives⟩

/-! ## Plans -/

theorem Serves.unique (h : p.Serves plan s found) (h₂ : p.Serves plan₂ s found₂)
    (halike : p.Alike plan s plan₂) (hsome : p.config.modulesFor t ≠ []) :
    found₂ t = found t := by
  have he := h t hsome
  have he₂ := h₂ t hsome
  have hlength := (Registry.yields_of_evaluated he).1
  have hlength₂ := (Registry.yields_of_evaluated he₂).1
  apply List.ext_getElem?
  intro i
  cases hi : (p.config.modulesFor t)[i]? with
  | none =>
    have hle := List.getElem?_eq_none_iff.1 hi
    rw [List.getElem?_eq_none (hlength₂ ▸ hle), List.getElem?_eq_none (hlength ▸ hle)]
  | some name =>
    refine Registry.outcome_unique he he₂ rfl hi hi rfl (fun why => iff_of_false
      (Registry.not_refused p.grants_options i why) (Registry.not_refused p.grants_options i why))
      fun hb m settings => halike (fun hnone => hb ?_) t i name m settings hi
    rw [options, hnone, Option.map_none]

theorem Serves.linesFor_eq (h : p.Serves plan s found) (h₂ : p.Serves plan₂ s found₂)
    (halike : p.Alike plan s plan₂) : p.linesFor s found₂ = p.linesFor s found := by
  have hline : ∀ t, (p.linesFor s found₂).line t = (p.linesFor s found).line t := by
    intro t
    rw [line_linesFor, line_linesFor]
    split
    case isTrue => rfl
    case isFalse hsome => rw [h.unique h₂ halike hsome]
  have hleft := hline .left
  have hright := hline .right
  have hbottom := hline .bottom
  cases hc : p.linesFor s found
  cases hc₂ : p.linesFor s found₂
  simp_all [Layout.Lines.line]

end Pipeline
end ShellPrompt
