import ShellPrompt.Proofs.Fields.Format
import ShellPrompt.Proofs.Pipeline.Serving

/-!
# ShellPrompt.Proofs.Fields.Lines

Every way to a prompt line.

* `get?_bindPipeline`: the fields of a pipeline, one for each target that is offered.
* `format_template`: the template of a target is filled with the value of its field.
* `lines_agree`: a whole render, an indulgent one, a single line and a filled template give the
  same lines, unless a worker is to be named as none can be.
-/

namespace ShellPrompt
namespace Fields

theorem nameOf_inj {t u : Target} : nameOf t = nameOf u ↔ t = u := by
  cases t <;> cases u <;> decide

theorem offers_iff {p : Pipeline} {t : Target} :
    offers p t = true ↔ t = .left ∨ p.isConfigured t = true := by
  simp [offers]

/-! ## Fields and templates -/

section Bound

variable {m : Type → Type}

theorem get?_foldl_insert (value : Target → m String) (targets : List Target) (fields : Fields m)
    (t : Target) :
    (targets.foldl (fun fields t => fields.insert (nameOf t) (value t)) fields).get? (nameOf t) =
      if t ∈ targets then some (value t) else fields.get? (nameOf t) := by
  induction targets generalizing fields with
  | nil => rfl
  | cons u rest ih =>
    rw [List.foldl_cons, ih]
    by_cases hrest : t ∈ rest
    · simp [hrest]
    · by_cases hu : t = u
      · subst hu
        simp [hrest, get?_insert_self]
      · simp [hrest, hu, get?_insert_of_ne (mt nameOf_inj.1 hu)]

theorem get?_foldl_insert_of_ne {name : String} (h : ∀ t, name ≠ nameOf t)
    (value : Target → m String) (targets : List Target) (fields : Fields m) :
    (targets.foldl (fun fields t => fields.insert (nameOf t) (value t)) fields).get? name =
      fields.get? name := by
  induction targets generalizing fields with
  | nil => rfl
  | cons u rest ih => rw [List.foldl_cons, ih, get?_insert_of_ne (h u)]

/-- The value of the only slot. -/
theorem format_template [Monad m] [LawfulMonad m] {fields : Fields m} {t : Target}
    {value : m String} (h : fields.get? (nameOf t) = some value) :
    fields.format (Templates.template t) = value := by
  have hwritten : Templates.template t = Template.write
      [.slot (nameOf t) (by cases t <;> decide) (by cases t <;> decide)] := by
    simp [Templates.template, Template.write, Template.Part.chars]
  rw [hwritten, format_eq_join]
  simp [meaning, h]

variable [Monad m] [MonadLiftT Render m] (fields : Fields m) (p : Pipeline)
  (plan : Pipeline.Plan) (gather : m (Except PromptError Snapshot))

theorem get?_bindPipeline (t : Target) :
    (fields.bindPipeline p plan gather).get? (nameOf t) =
      if offers p t then some (line p plan gather t) else fields.get? (nameOf t) := by
  have hmem : t ∈ Target.all := by cases t <;> decide
  rw [bindPipeline, get?_foldl_insert]
  simp [hmem]

theorem contains_bindPipeline (name : String) :
    (bindPipeline {} p plan gather).contains name = true ↔
      ∃ t, name = nameOf t ∧ offers p t = true := by
  rw [contains]
  by_cases h : ∃ t, name = nameOf t
  · obtain ⟨t, rfl⟩ := h
    rw [get?_bindPipeline]
    cases ho : offers p t with
    | true => exact iff_of_true rfl ⟨t, rfl, ho⟩
    | false =>
      refine iff_of_false (by simp [get?]) ?_
      rintro ⟨u, hu, hou⟩
      rw [← nameOf_inj.1 hu, ho] at hou
      cases hou
  · rw [bindPipeline, get?_foldl_insert_of_ne (not_exists.1 h)]
    refine iff_of_false (by simp [get?]) ?_
    rintro ⟨t, ht, -⟩
    exact h ⟨t, ht⟩

end Bound

namespace Templates

def get? (templates : Templates) : Target → Option String
  | .left => templates.prompt
  | .right => templates.rightPrompt
  | .bottom => templates.bottomToolbar

theorem get?_ofPipeline (p : Pipeline) (t : Target) :
    (ofPipeline p true).get? t = if offers p t then some (template t) else none := by
  cases t <;> rfl

end Templates

/-! ## Lines -/

section Lines

variable {p : Pipeline} {plan : Pipeline.Plan} {s : Snapshot}
  {gather : Render (Except PromptError Snapshot)} {t : Target}

theorem format_bindPipeline {template : String}
    (h : (Templates.ofPipeline p true).get? t = some template) :
    (bindPipeline {} p plan gather).format template = line p plan gather t := by
  rw [Templates.get?_ofPipeline] at h
  split at h
  case isTrue ho =>
    cases h
    exact format_template (by rw [get?_bindPipeline, if_pos ho])
  case isFalse => cases h

theorem line_refused {e : PromptError} (hg : gather.Gives (.ok (.error e))) :
    (line p plan gather t).Gives (.ok "") :=
  hg.bind (Render.Ends.pure "").gives

theorem line_gathered {text : String} (hg : gather.Gives (.ok (.ok s)))
    (hline : (p.renderLine (plan t) t s).Gives (.ok text)) :
    (line p plan gather t).Gives (.ok text) :=
  hg.bind (hline.recover_ok _)

end Lines

/-- Among modules that answer every way to a prompt line comes to an end (`Returns`). A worker that
is to be named as none can be (`TripsAt`) stops whole renders, and the lines of the other targets
can still be had one by one. Otherwise there is one prompt, and under every plan that lets the same
modules answer in time (`Alike`) `render`, `renderOrEmpty`, `renderLine` and the template filled by
`bindPipeline` all lead to it: the left target and those with modules have a field and a template.
Where no snapshot is to be had the template is filled with nothing. -/
theorem lines_agree (p : Pipeline) (s : Snapshot) :
    ((∀ t, Evaluation.Answering (p.registry.work (p.config.modulesFor t) s)) →
      ∀ actions, Evaluation.Fair actions →
        ∃ n, ∀ m, n ≤ m → p.Returns (fun _ _ _ => Evaluation.upTo actions m) s) ∧
    (∀ plan, p.Returns plan s →
      ((∃ t name, p.TripsAt plan s t name) → ∃ t name, p.TripsAt plan s t name ∧
        (p.render plan s).Gives (.error (.crash (.workerName name))) ∧
        (p.renderOrEmpty plan s).Gives (.error (.crash (.workerName name)))) ∧
      (∀ t, (∀ name, ¬ p.TripsAt plan s t name) →
        ∃ text, (p.renderLine (plan t) t s).Gives (.ok text)) ∧
      ((∀ t name, ¬ p.TripsAt plan s t name) →
        ∃ o, ∀ plan₂, p.Returns plan₂ s → (∀ t name, ¬ p.TripsAt plan₂ s t name) →
          p.Alike plan s plan₂ →
          (p.render plan₂ s).Gives (.ok o) ∧ (p.renderOrEmpty plan₂ s).Gives (.ok o) ∧
          (∀ t, (p.renderLine (plan₂ t) t s).Gives (.ok (o.line t))) ∧
          ∀ gather : Render (Except PromptError Snapshot), gather.Gives (.ok (.ok s)) →
            ∀ t template, (Templates.ofPipeline p true).get? t = some template →
              ((bindPipeline {} p plan₂ gather).format template).Gives (.ok (o.line t)))) ∧
    (∀ plan (gather : Render (Except PromptError Snapshot)) name,
      (bindPipeline {} p plan gather).contains name = true ↔
        ∃ t, name = nameOf t ∧ (t = .left ∨ p.isConfigured t = true)) ∧
    (∀ t, ((Templates.ofPipeline p true).get? t).isSome = true ↔
      t = .left ∨ p.isConfigured t = true) ∧
    (∀ plan (gather : Render (Except PromptError Snapshot)) e, gather.Gives (.ok (.error e)) →
      ∀ t template, (Templates.ofPipeline p true).get? t = some template →
        ((bindPipeline {} p plan gather).format template).Gives (.ok "")) := by
  refine ⟨fun ha _ hfair => Pipeline.exists_returns ha hfair, ?lines, ?fields, ?templates,
    ?refused⟩
  case lines =>
    intro plan hr
    refine ⟨Pipeline.render_tripped hr, fun t => Pipeline.exists_line hr, fun hunnamed => ?_⟩
    obtain ⟨found, hfound⟩ := Pipeline.exists_serves hr hunnamed
    refine ⟨p.output (p.linesFor s found), fun plan₂ hr₂ hunnamed₂ halike => ?_⟩
    obtain ⟨found₂, hfound₂⟩ := Pipeline.exists_serves hr₂ hunnamed₂
    rw [← hfound.linesFor_eq hfound₂ halike]
    obtain ⟨hrender, hrenderOrEmpty⟩ := Pipeline.render_served hfound₂
    refine ⟨hrender, hrenderOrEmpty, Pipeline.renderLine_served hfound₂, ?_⟩
    intro gather hg t template htemplate
    rw [format_bindPipeline htemplate]
    exact line_gathered hg (Pipeline.renderLine_served hfound₂ t)
  case fields =>
    intro plan gather name
    simp only [contains_bindPipeline, offers_iff]
  case templates =>
    intro t
    rw [Templates.get?_ofPipeline, ← offers_iff]
    split <;> simp_all
  case refused =>
    intro plan gather e hg t template htemplate
    rw [format_bindPipeline htemplate]
    exact line_refused hg

/-- Two targets under xonsh, which marks styles by fields in braces. -/
def braced : Pipeline where
  config := { left := ["dir"], right := ["clock"], dialect := .xonsh, moduleTimeoutMs := 0 }
  registry := {
    entries := [
      (⟨"dir", fun _ =>
        { ending := .returns (.ok (some { text := "~", style := some "path" })) }⟩, {}),
      (⟨"clock", fun _ => { ending := .returns (.ok (some { text := "12:00" })) }⟩, {})] }
  sheet := { styles := [("path", { bold := true })] }
  digest := ""

theorem not_tripsAt_braced (plan : Pipeline.Plan) (t : Target) (name : String) :
    ¬ braced.TripsAt plan ⟨{}, by decide⟩ t name := by
  rintro ⟨i, m, settings, hi, -, hname, -⟩
  have hmem := List.mem_of_getElem? hi
  revert hname
  cases t with
  | left => obtain rfl := List.mem_singleton.1 hmem; decide
  | right => obtain rfl := List.mem_singleton.1 hmem; decide
  | bottom => cases hmem

theorem answering_braced (t : Target) : Evaluation.Answering
    (braced.registry.work (braced.config.modulesFor t) ⟨{}, by decide⟩) := by
  intro j hj
  obtain ⟨e, he, rfl⟩ := Registry.exists_entry_of_work hj
  simp only [braced, List.mem_cons, List.not_mem_nil, or_false] at he
  rcases he with rfl | rfl <;> exact nofun

theorem lines_agree_braced :
    ∃ n, ∀ m, n ≤ m →
      (braced.renderLine (fun _ _ => Evaluation.upTo Evaluation.dovetail m) .right
        ⟨{}, by decide⟩).Gives (.ok "12:00") ∧
      ((bindPipeline {} braced (fun _ _ _ => Evaluation.upTo Evaluation.dovetail m)
        (pure (.ok ⟨{}, by decide⟩) : Render _)).format "\x7bprompt_left\x7d").Gives
          (.ok "\x7bBOLD_DEFAULT\x7d~\x7bRESET\x7d") ∧
      ((bindPipeline {} braced Pipeline.eager
        (pure (.error .zeroWidth) : Render _)).format "\x7bprompt_left\x7d").Gives
          (.ok "") := by
  obtain ⟨hreturns, hlines, -, -, hrefused⟩ := lines_agree braced ⟨{}, by decide⟩
  obtain ⟨n, hn⟩ := hreturns answering_braced _ Evaluation.fair_dovetail
  have heager : braced.Returns Pipeline.eager ⟨{}, by decide⟩ := by
    intro t ht
    cases t with
    | left => nofun
    | right => nofun
    | bottom => exact absurd rfl ht
  obtain ⟨-, -, hagree⟩ := hlines Pipeline.eager heager
  obtain ⟨o, ho⟩ := hagree (not_tripsAt_braced _)
  have hrendered : ((braced.render Pipeline.eager ⟨{}, by decide⟩).watchedBy {}).1 =
      .ok { left := "\x7bBOLD_DEFAULT\x7d~\x7bRESET\x7d", right := some "12:00" } := by
    decide +kernel
  obtain ⟨hrender, -⟩ := ho _ heager (not_tripsAt_braced _) (fun hb => absurd rfl hb)
  obtain rfl := Except.ok.inj ((hrender {}).symm.trans hrendered)
  refine ⟨n, fun m hm => ?_⟩
  obtain ⟨-, -, hline, hformat⟩ :=
    ho _ (hn m hm) (not_tripsAt_braced _) (fun hb => absurd rfl hb)
  exact ⟨hline .right, hformat _ (fun _ => rfl) .left _ rfl,
    hrefused _ _ .zeroWidth (fun _ => rfl) .left _ rfl⟩

/-- Two targets, of which the second has a module named as no worker can be. -/
def unnamed : Pipeline where
  config := { left := ["dir"], right := ["clock\x00"] }
  registry := Registry.noisy
  sheet := {}
  digest := ""

/-- The line of the one target can be had, and the prompt of both stops the program. -/
theorem nul_name_stops_render :
    ((unnamed.renderLine Evaluation.eager .left ⟨{}, by decide⟩).watchedBy {}).1 = .ok "~" ∧
      ((unnamed.render Pipeline.eager ⟨{}, by decide⟩).watchedBy {}).1 =
        .error (.crash (.workerName "clock\x00")) ∧
      ((unnamed.renderOrEmpty Pipeline.eager ⟨{}, by decide⟩).watchedBy {}).1 =
        .error (.crash (.workerName "clock\x00")) :=
  ⟨by decide +kernel, by rfl, by rfl⟩

end Fields
end ShellPrompt
