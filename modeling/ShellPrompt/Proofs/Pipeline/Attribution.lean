import ShellPrompt.Proofs.Pipeline.Rendering
import ShellPrompt.Proofs.Registry.Isolation

/-!
# ShellPrompt.Proofs.Pipeline.Attribution

Whose name an outcome bears.

A fragment is stamped with the name its module is registered under, and so are missing answers,
panics and answers that come too late. A failure is passed on as the module reports it, and it may
report another name (`Disowns`). Outcomes are audited under the name they bear, but failures are
logged under the name that was requested.

* `module_of_callsFor`, `module_eq_iff`: the name on what a name calls for.
  `attributes_of_evaluated`: that on an outcome, whose module may be refused a worker.
  `map_module_eq_iff` is about all of them.
* `evaluate_attributes`: the names on outcomes, in the log and in the audit trail.
-/

namespace ShellPrompt
namespace Registry

/-- An enabled module that fails under a name other than the one it is registered under. -/
def Disowns (r : Registry) (s : Snapshot) (name : String) (failure : ModuleFailure) : Prop :=
  ∃ m settings, r.Enabled name m settings ∧ (m.run s).ending = .returns (.error failure) ∧
    failure.module ≠ name

variable {r : Registry} {s : Snapshot} {budget : Option UInt64} {name : String} {inTime : Prop}
  {x : Outcome}

theorem module_of_callsFor (h : CallsFor r s budget name inTime x) :
    x.module = name ∨ ∃ failure, r.Disowns s name failure ∧ inTime ∧ x = .failed failure := by
  cases h with
  | unknown _ => exact .inl rfl
  | disabled _ _ => exact .inl rfl
  | timedOut he _ _ => exact .inl (name_of_find? he.1)
  | panicked he _ _ => exact .inl (name_of_find? he.1)
  | @failed m settings failure he hin hend =>
    by_cases hown : failure.module = name
    · exact .inl hown
    · exact .inr ⟨failure, ⟨m, settings, he, hend, hown⟩, hin, rfl⟩
  | nothing he _ _ => exact .inl (name_of_find? he.1)
  | blank he _ _ _ => exact .inl (name_of_find? he.1)
  | rendered he _ _ _ => exact .inl (name_of_find? he.1)

theorem module_eq_iff (h : CallsFor r s budget name inTime x) :
    x.module = name ↔ ¬ (inTime ∧ ∃ failure, r.Disowns s name failure) := by
  constructor
  · rintro hname ⟨hin, failure, m, settings, he, hend, hother⟩
    rw [h.unique (.failed he hin hend)] at hname
    exact hother hname
  · intro hnone
    rcases module_of_callsFor h with hname | ⟨failure, hdisowns, hin, -⟩
    · exact hname
    · exact absurd ⟨hin, failure, hdisowns⟩ hnone

variable {names : List String} {w w' : Observers} {scheduler : Evaluation.Scheduler}
  {o : Evaluation.Options} {token after : Token} {found : List Outcome}

theorem attributes_of_evaluated
    (h : (r.evaluated scheduler names s o token).1 = .ok (found, after)) (i : Nat) (name : String)
    (hi : names[i]? = some name) : ∃ x, found[i]? = some x ∧
      (x.module = name ↔
        ¬ (r.InTime names s scheduler o token i ∧ ∃ failure, r.Disowns s name failure)) ∧
      (x.module ≠ name → ∃ failure, r.Disowns s name failure ∧ x = .failed failure) := by
  obtain ⟨x, hx, hyields⟩ := (yields_of_evaluated h).2 i name hi
  refine ⟨x, hx, ?_⟩
  by_cases hdenied : ∃ why, r.Refused names s scheduler o token i why
  · -- a module without a worker is told of by its own name, and is not in time
    obtain ⟨why, hwhy⟩ := hdenied
    obtain ⟨⟨_, m, settings, hi', he⟩, -⟩ := id hwhy
    have hlate := ((decides_of_evaluated h hi' he).refused why hwhy).1
    have hname : x.module = name := by
      rw [hyields.refused why hwhy]
      rfl
    exact ⟨iff_of_true hname fun hin => hlate hin.1, fun hother => absurd hname hother⟩
  · have hcalls := hyields.granted fun why hwhy => hdenied ⟨why, hwhy⟩
    refine ⟨module_eq_iff hcalls, fun hother => ?_⟩
    obtain ⟨failure, hdisowns, -, hfailed⟩ := (module_of_callsFor hcalls).resolve_left hother
    exact ⟨failure, hdisowns, hfailed⟩

theorem map_module_eq_iff (h : (r.evaluated scheduler names s o token).1 = .ok (found, after)) :
    found.map Outcome.module = names ↔ ∀ i name, names[i]? = some name →
      r.InTime names s scheduler o token i → ∀ failure, ¬ r.Disowns s name failure := by
  have hlen := (yields_of_evaluated h).1
  have hall := attributes_of_evaluated h
  constructor
  · intro hnames i name hi hin failure hdisowns
    obtain ⟨x, hx, hname, -⟩ := hall i name hi
    rw [← hnames, List.getElem?_map, hx] at hi
    exact hname.1 (Option.some.inj hi) ⟨hin, failure, hdisowns⟩
  · intro hnone
    apply List.ext_getElem?
    intro i
    rw [List.getElem?_map]
    cases hi : names[i]? with
    | none =>
      rw [List.getElem?_eq_none (hlen ▸ List.getElem?_eq_none_iff.1 hi), Option.map_none]
    | some name =>
      obtain ⟨x, hx, hname, -⟩ := hall i name hi
      rw [hx, Option.map_some, hname.2]
      rintro ⟨hin, failure, hdisowns⟩
      exact hnone i name hi hin failure hdisowns

/-- Outcomes come one for each name and in their order. An outcome bears the name it was requested
by, unless it is a failure that the module itself reported, in time, under another one (`Disowns`);
then `recordOutcomes` audits it under that one, while the log has the name that was requested. -/
theorem evaluate_attributes (h : (r.evaluate scheduler names s o token).watchedBy w =
    (.ok (found, after), w')) :
    found.length = names.length ∧
    (∀ i name, names[i]? = some name → ∃ x, found[i]? = some x ∧
      (x.module = name ↔
        ¬ (r.InTime names s scheduler o token i ∧ ∃ failure, r.Disowns s name failure)) ∧
      (x.module ≠ name → ∃ failure, r.Disowns s name failure ∧ x = .failed failure)) ∧
    (found.map Outcome.module = names ↔ ∀ i name, names[i]? = some name →
      r.InTime names s scheduler o token i → ∀ failure, ¬ r.Disowns s name failure) ∧
    w' = w.logAll (r.events names found) ∧
    ∀ v : Observers,
      let recorded := ((Pipeline.recordOutcomes found).run v).2
      recorded.audit = v.audit.map (· ++ found.map fun x =>
        ⟨Pipeline.stageOf x, [("module", .string x.module)]⟩) ∧
      recorded.metrics = v.metrics.map (·.recordModules
        (found.countP fun x => x.fragment?.isSome)
        (found.countP fun x => x.isFailure && !x.isTimeout)
        (found.countP Outcome.isTimeout)) := by
  obtain ⟨hresult, hobservers⟩ := (r.evaluate_ends scheduler names s o token).result_eq h
  refine ⟨(yields_of_evaluated hresult.symm).1, attributes_of_evaluated hresult.symm,
    map_module_eq_iff hresult.symm, ?logged, ?recorded⟩
  case logged =>
    rw [hobservers, notes_of_ok hresult.symm, Observers.tellAll_logged]
  case recorded =>
    intro v recorded
    have hrecorded : recorded = v.tellAll (Pipeline.outcomeNotes found) :=
      congrArg Prod.snd (Pipeline.run_recordOutcomes found v)
    rw [hrecorded]
    refine ⟨?_, ?_⟩
    · rw [Observers.audit_tellAll, Pipeline.filterMap_audited_outcomeNotes]
    · rw [Observers.metrics_tellAll]
      simp only [Pipeline.countAll_outcomeNotes]

/-- A module that fails under its own name, one that fails under another, one whose fragment names
another module, and one that panics. -/
def aliased : Registry where
  entries := [
    (⟨"git", fun _ => { ending := .returns (.error (.render "git" "no repository")) }⟩, {}),
    (⟨"hg", fun _ => { ending := .returns (.error (.render "vcs" "no repository")) }⟩, {}),
    (⟨"dir", fun _ => { ending := .returns (.ok (some { text := "~", module := "path" })) }⟩, {}),
    (⟨"weather", fun _ => { ending := .panics }⟩, {})]

def aliasedFound : List Outcome := [.failed (.panicked "weather"),
  .rendered { text := "~", module := "dir" }, .unknown "jobs",
  .failed (.render "git" "no repository")]

theorem evaluate_attributes_aliased :
    ((aliased.evaluate Evaluation.eager ["weather", "dir", "jobs", "git"] ⟨{}, by decide⟩ {}
        .own).watchedBy {} = (.ok (aliasedFound, .own), {}) ∧
      aliasedFound.map Outcome.module = ["weather", "dir", "jobs", "git"]) ∧
    ∃ failure, aliased.Disowns ⟨{}, by decide⟩ "hg" failure := by
  have hown : (aliased.evaluate Evaluation.eager ["weather", "dir", "jobs", "git"]
      ⟨{}, by decide⟩ {} .own).watchedBy {} = (.ok (aliasedFound, .own), {}) := by rfl
  have hother : (aliased.evaluate Evaluation.eager ["hg"] ⟨{}, by decide⟩ {} .own).watchedBy {} =
      (.ok ([.failed (.render "vcs" "no repository")], .own), {}) := by rfl
  refine ⟨⟨hown, ?own⟩, ?other⟩
  case own =>
    obtain ⟨-, -, hnames, -⟩ := evaluate_attributes hown
    refine hnames.2 ?_
    rintro i name hi - failure ⟨m, settings, ⟨hfind, -⟩, hend, hdiffers⟩
    rcases i with _ | _ | _ | _ | i
    all_goals
      cases hi
    all_goals
      cases hfind
    all_goals
      cases hend
    exact hdiffers rfl
  case other =>
    obtain ⟨-, heach, -⟩ := evaluate_attributes hother
    obtain ⟨x, hx, -, hfailed⟩ := heach 0 "hg" rfl
    obtain rfl := Option.some.inj hx
    obtain ⟨failure, hdisowns, -⟩ := hfailed (by decide)
    exact ⟨failure, hdisowns⟩

/-- The outcome for `hg` bears the name `vcs`, while the log tells of `hg`. -/
theorem failure_bears_other_name :
    ∃ found, ((aliased.evaluate Evaluation.eager ["hg"] ⟨{}, by decide⟩ {} .own).watchedBy {}).1 =
        .ok (found, .own) ∧
      found.map Outcome.module = ["vcs"] ∧
      aliased.events ["hg"] found = [failedEvent "hg" (.render "vcs" "no repository")] :=
  ⟨[.failed (.render "vcs" "no repository")], by rfl, by rfl, by rfl⟩

end Registry
end ShellPrompt
