import Mathlib.Data.List.Forall2
import ShellPrompt.Proofs.Layout
import ShellPrompt.Proofs.Pipeline.Rendering
import ShellPrompt.Proofs.Registry.Isolation

/-!
# ShellPrompt.Proofs.Pipeline.Pruning

Lines without the names that yield nothing.

Two pipelines list different modules for a target, the one what is left of the other's list when
some names that come to no fragment are taken out. Taking a name out moves all jobs behind it, and
workers may be started elsewhere, but if each module answers in time in both or in neither, the
fragments are the same, and so is the line.

* `Pruned`: a list with some entries taken out.
* `Punctual`: whether the module of a name answers in time does not depend on where it stands.
  `punctual_of_answers` says it of modules that answer in time or not at all.
* `filterMap_pruned`: the fragments that are left, by induction over what is taken out.
* `lines_pruned`: fitted lines, painted lines and whole prompts.
-/

namespace ShellPrompt

/-- Some entries are taken out, and the others stay in order. -/
inductive Pruned {α : Type} (drops : α → Prop) : List α → List α → Prop where
  | nil : Pruned drops [] []
  | keep {x : α} {xs kept : List α} : Pruned drops xs kept → Pruned drops (x :: xs) (x :: kept)
  | drop {x : α} {xs kept : List α} : drops x → Pruned drops xs kept → Pruned drops (x :: xs) kept

theorem filterMap_pruned {α β γ : Type} {R : α → β → Prop} {f : β → Option γ} {drops : α → Prop}
    {xs kept : List α} {ys ys' : List β} (h : Pruned drops xs kept) (hys : List.Forall₂ R xs ys)
    (hys' : List.Forall₂ R kept ys') (hunique : ∀ x y y', R x y → R x y' → y = y')
    (hdrops : ∀ x y, drops x → R x y → f y = none) :
    ys'.filterMap f = ys.filterMap f := by
  induction h generalizing ys ys' with
  | nil =>
    cases hys
    cases hys'
    rfl
  | keep _ ih =>
    obtain _ | ⟨hy, hys⟩ := hys
    obtain _ | ⟨hy', hys'⟩ := hys'
    rw [hunique _ _ _ hy' hy, List.filterMap_cons, List.filterMap_cons, ih hys hys']
  | drop hx _ ih =>
    obtain _ | ⟨hy, hys⟩ := hys
    rw [List.filterMap_cons_none (hdrops _ _ hx hy), ih hys hys']

namespace Registry

/-- An enabled module that answers sooner or later. -/
def Answers (r : Registry) (s : Snapshot) (name : String) : Prop :=
  ∃ m settings, r.Enabled name m settings ∧ (m.run s).ending ≠ .stalls

end Registry

namespace Pipeline

/-- Two pipelines that differ in the modules they list and in how they run them. -/
structure Akin (p p₂ : Pipeline) : Prop where
  registry : p₂.registry = p.registry
  sheet : p₂.sheet = p.sheet
  separator : p₂.config.separator = p.config.separator
  dialect : p₂.config.dialect = p.config.dialect
  budget : p₂.config.budget = p.config.budget

theorem akin_built (config : Config) (registry : Option Registry) (sheet : Style.Sheet)
    (lists : Target → List String) (parallel : Bool) :
    (built config registry sheet).Akin (built { config with
      left := lists .left
      right := lists .right
      bottom := lists .bottom
      parallel := parallel } registry sheet) :=
  ⟨rfl, rfl, rfl, rfl, rfl⟩

section Pruning

variable (p : Pipeline) (plan : Plan) (s : Snapshot) (answers : String → Prop) (t : Target)

/-- What a name comes to, `answers` telling which modules answer in time. -/
def ComesTo (name : String) (x : Outcome) : Prop :=
  Registry.CallsFor p.registry s p.config.budget name (answers name) x

/-- A name that comes to no fragment: there is no module, or it is disabled, yields nothing, fails,
panics or does not answer in time. -/
def Fruitless (name : String) : Prop := ∃ x, p.ComesTo s answers name x ∧ x.fragment? = none

/-- Whenever the names of a target come out, the modules that answer in time are those. -/
def Punctual : Prop :=
  ∀ token found after, (p.evaluated (plan t) t s token).1 = .ok (found, after) →
    ∀ i name m settings, (p.config.modulesFor t)[i]? = some name →
      p.registry.Enabled name m settings →
      (p.registry.InTime (p.config.modulesFor t) s (plan t) p.options token i ↔ answers name)

end Pruning

variable {p p₂ : Pipeline} {plan plan₂ : Plan} {s : Snapshot} {answers : String → Prop}
  {t : Target} {token after : Token} {found : List Outcome}

/-- Among modules that answer well within the budget or not at all, those that answer do so in
time. -/
theorem punctual_of_answers
    (h : ∀ token found after, (p.evaluated (plan t) t s token).1 = .ok (found, after) →
      ∀ (i : Nat) name (x : Outcome), (p.config.modulesFor t)[i]? = some name →
        found[i]? = some x → p.registry.Answers s name → x.isTimeout = false) :
    p.Punctual plan s (p.registry.Answers s) t := by
  intro token found after he i name m settings hi hm
  obtain ⟨x, hx, hcalls⟩ := (callsFor_of_evaluated he).2 i name hi
  constructor
  · intro hin
    exact ⟨m, settings, hm, Registry.not_stalls_of_inTime hcalls hm hin⟩
  · intro hanswers
    exact inTime_of_not_isTimeout he hi hm hx (h token found after he i name x hi hx hanswers)

theorem comesTo_of_evaluated (hp : p.Punctual plan s answers t)
    (h : (p.evaluated (plan t) t s token).1 = .ok (found, after)) :
    List.Forall₂ (p.ComesTo s answers) (p.config.modulesFor t) found := by
  obtain ⟨hlen, hall⟩ := callsFor_of_evaluated h
  rw [List.forall₂_iff_get]
  refine ⟨hlen.symm, fun i hi hi' => ?_⟩
  have hname : (p.config.modulesFor t)[i]? = some (p.config.modulesFor t)[i] :=
    List.getElem?_eq_getElem hi
  obtain ⟨x, hx, hcalls⟩ := hall i _ hname
  obtain rfl := Option.some.inj (hx.symm.trans (List.getElem?_eq_getElem hi'))
  exact hcalls.congr fun m settings he => hp _ _ _ h i _ m settings hname he

theorem ComesTo.unique {name : String} {x y : Outcome} (hx : p.ComesTo s answers name x)
    (hy : p.ComesTo s answers name y) : x = y := Registry.CallsFor.unique hx hy

theorem fruitless_iff {name : String} {x : Outcome} (hx : p.ComesTo s answers name x) :
    p.Fruitless s answers name ↔ x.fragment? = none := by
  constructor
  · rintro ⟨y, hy, hnone⟩
    rw [hx.unique hy]
    exact hnone
  · intro hnone
    exact ⟨x, hx, hnone⟩

/-- The line of a target is that of outcomes its names come to. -/
theorem line_of_composeTarget (hp : p.Punctual plan s answers t) {line : Option Layout.Line}
    (h : (p.composeTarget (plan t) t s token).Gives (.ok (line, after))) :
    ∃ found, List.Forall₂ (p.ComesTo s answers) (p.config.modulesFor t) found ∧
      line.getD {} = p.lineOf s found := by
  by_cases hnames : p.config.modulesFor t = []
  · have hline := (composeTarget_unconfigured hnames).gives.unique h
    obtain ⟨rfl, rfl⟩ := Prod.mk.inj (Except.ok.inj hline)
    rw [hnames]
    exact ⟨[], .nil, (Layout.compose_nil _ _).symm⟩
  · rcases he : p.evaluated (plan t) t s token with ⟨halt | ⟨found, after'⟩, notes⟩
    · have hline := (composeTarget_halted hnames he).gives.unique h
      cases hline
    · have hline := (composeTarget_found hnames he).gives.unique h
      obtain ⟨rfl, rfl⟩ := Prod.mk.inj (Except.ok.inj hline)
      exact ⟨found, comesTo_of_evaluated hp (congrArg Prod.fst he), rfl⟩

theorem line_of_composeLayout_punctual (hp : p.Punctual plan s answers t) {lines : Layout.Lines}
    (h : (p.composeLayout plan s token).Gives (.ok lines)) :
    ∃ found, List.Forall₂ (p.ComesTo s answers) (p.config.modulesFor t) found ∧
      lines.line t = p.lineOf s found := by
  obtain ⟨hnone, hsome⟩ := line_of_composeLayout t h
  by_cases hnames : p.config.modulesFor t = []
  · rw [hnames, hnone hnames]
    exact ⟨[], .nil, (Layout.compose_nil _ _).symm⟩
  · obtain ⟨token', found, after, he, hline⟩ := hsome hnames
    exact ⟨found, comesTo_of_evaluated hp he, hline⟩

section Akin

variable (h : p.Akin p₂)

include h

theorem Akin.paint (line : Layout.Line) : p₂.paint line = p.paint line := by
  rw [Pipeline.paint, Pipeline.paint, resolver, resolver, h.separator, h.sheet, h.dialect]

theorem Akin.lineOf_pruned
    (hpruned : Pruned (p.Fruitless s answers) (p.config.modulesFor t) (p₂.config.modulesFor t))
    {found found₂ : List Outcome}
    (hfound : List.Forall₂ (p.ComesTo s answers) (p.config.modulesFor t) found)
    (hfound₂ : List.Forall₂ (p₂.ComesTo s answers) (p₂.config.modulesFor t) found₂) :
    p₂.lineOf s found₂ = p.lineOf s found := by
  have hcomes : p₂.ComesTo s answers = p.ComesTo s answers := by
    funext name x
    rw [ComesTo, ComesTo, h.registry, h.budget]
  rw [hcomes] at hfound₂
  have hfragments : found₂.filterMap Outcome.fragment? = found.filterMap Outcome.fragment? :=
    filterMap_pruned hpruned hfound hfound₂ (fun _ _ _ => ComesTo.unique)
      fun _ _ hdrop hx => (fruitless_iff hx).1 hdrop
  rw [lineOf, lineOf, h.separator, hfragments]

end Akin

/-- A `Fruitless` name leaves no trace in the line of its target. Whichever such names are `Pruned`
from the list, and in whichever mode the modules are run, the line is fitted and painted alike, by
itself or as part of the prompt, wherever both come out; where nothing is left of the list, it is
the empty line. What is assumed is that a module answers in time in both or in neither (`Punctual`).
-/
theorem lines_pruned (h : p.Akin p₂) (hp : p.Punctual plan s answers t)
    (hp₂ : p₂.Punctual plan₂ s answers t)
    (hpruned : Pruned (p.Fruitless s answers) (p.config.modulesFor t)
      (p₂.config.modulesFor t)) :
    (∀ token (found : List Outcome) after,
      (p.registry.evaluate (plan t) (p.config.modulesFor t) s p.options token).Gives
        (.ok (found, after)) →
      ∀ (i : Nat) name (x : Outcome), (p.config.modulesFor t)[i]? = some name → found[i]? = some x →
        (p.Fruitless s answers name ↔ x.fragment? = none)) ∧
    (∀ token token₂ line line₂ after after₂,
      (p.composeTarget (plan t) t s token).Gives (.ok (line, after)) →
      (p₂.composeTarget (plan₂ t) t s token₂).Gives (.ok (line₂, after₂)) →
      line₂.getD {} = line.getD {} ∧ p₂.paint (line₂.getD {}) = p.paint (line.getD {})) ∧
    (∀ text text₂, (p.renderLine (plan t) t s).Gives (.ok text) →
      (p₂.renderLine (plan₂ t) t s).Gives (.ok text₂) → text₂ = text) ∧
    (∀ token token₂ lines lines₂, (p.composeLayout plan s token).Gives (.ok lines) →
      (p₂.composeLayout plan₂ s token₂).Gives (.ok lines₂) → lines₂.line t = lines.line t) ∧
    (∀ token token₂ out out₂, (p.renderWithCancel plan s token).Gives (.ok out) →
      (p₂.renderWithCancel plan₂ s token₂).Gives (.ok out₂) → out₂.line t = out.line t) := by
  have hcomposed : ∀ token token₂ line line₂ after after₂,
      (p.composeTarget (plan t) t s token).Gives (.ok (line, after)) →
      (p₂.composeTarget (plan₂ t) t s token₂).Gives (.ok (line₂, after₂)) →
      line₂.getD {} = line.getD {} ∧ p₂.paint (line₂.getD {}) = p.paint (line.getD {}) := by
    intro token token₂ line line₂ after after₂ hline hline₂
    obtain ⟨found, hfound, hfitted⟩ := line_of_composeTarget hp hline
    obtain ⟨found₂, hfound₂, hfitted₂⟩ := line_of_composeTarget hp₂ hline₂
    have hsame : line₂.getD {} = line.getD {} := by
      rw [hfitted, hfitted₂, h.lineOf_pruned hpruned hfound hfound₂]
    exact ⟨hsame, by rw [hsame, h.paint]⟩
  have hlayout : ∀ token token₂ lines lines₂, (p.composeLayout plan s token).Gives (.ok lines) →
      (p₂.composeLayout plan₂ s token₂).Gives (.ok lines₂) →
      lines₂.line t = lines.line t := by
    intro token token₂ lines lines₂ hlines hlines₂
    obtain ⟨found, hfound, hfitted⟩ := line_of_composeLayout_punctual hp hlines
    obtain ⟨found₂, hfound₂, hfitted₂⟩ := line_of_composeLayout_punctual hp₂ hlines₂
    rw [hfitted, hfitted₂, h.lineOf_pruned hpruned hfound hfound₂]
  refine ⟨?outcomes, hcomposed, ?line, hlayout, ?prompt⟩
  case outcomes =>
    intro token found after hfound i name x hi hx
    have hends := p.registry.evaluate_ends (plan t) (p.config.modulesFor t) s p.options token
    have hcomes := comesTo_of_evaluated hp (hends.gives_iff.1 hfound)
    obtain ⟨hlt, rfl⟩ := List.getElem?_eq_some_iff.1 hi
    obtain ⟨hlt', rfl⟩ := List.getElem?_eq_some_iff.1 hx
    exact fruitless_iff ((List.forall₂_iff_get.1 hcomes).2 i hlt hlt')
  case line =>
    intro text text₂ htext htext₂
    obtain ⟨line, after, hline, rfl⟩ := (renderLine_gives_iff text).1 htext
    obtain ⟨line₂, after₂, hline₂, rfl⟩ := (renderLine_gives_iff text₂).1 htext₂
    exact (hcomposed _ _ _ _ _ _ hline hline₂).2
  case prompt =>
    intro token token₂ out out₂ hout hout₂
    obtain ⟨lines, hlines, rfl⟩ := (renderWithCancel_gives_iff out).1 hout
    obtain ⟨lines₂, hlines₂, rfl⟩ := (renderWithCancel_gives_iff out₂).1 hout₂
    rw [line_output p lines fun t => (line_of_composeLayout t hlines).1,
      line_output p₂ lines₂ fun t => (line_of_composeLayout t hlines₂).1,
      hlayout _ _ _ _ hlines hlines₂, h.paint]

/-- Modules of every kind, run in either mode. -/
def mixed (names : List String) (parallel : Bool) : Pipeline :=
  built { left := names, parallel := parallel } (some Registry.medley) {}

def mixedNames : List String := ["clock", "git", "dir", "jobs", "weather"]

def keptFound : List Outcome := [.unknown "git",
  .rendered { text := "~", style := some "path", priority := 70, module := "dir" }]

/-- Of these modules only `clock` never answers. -/
theorem punctual_mixed (plan : Plan) {names : List String} {parallel : Bool}
    {found : List Outcome}
    (hrun : ∀ token, ((mixed names parallel).evaluated (plan .left) .left ⟨{}, by decide⟩
      token).1 = if token.isCancelled then .error (.error .cancelled) else .ok (found, token))
    (hclock : ∀ e ∈ names.zip found, e.2.isTimeout = true → e.1 = "clock") :
    (mixed names parallel).Punctual plan ⟨{}, by decide⟩
      ((mixed mixedNames true).registry.Answers ⟨{}, by decide⟩) .left := by
  refine punctual_of_answers (p := mixed names parallel) ?_
  intro token found' after h i name x hi hx hanswers
  rw [hrun] at h
  split at h
  case isTrue => cases h
  case isFalse =>
    cases h
    cases htimeout : x.isTimeout with
    | false => rfl
    | true =>
      have hzip : (names.zip found)[i]? = some (name, x) :=
        List.getElem?_zip_eq_some.2 ⟨hi, hx⟩
      have hmem := List.mem_of_getElem? hzip
      obtain rfl : name = "clock" := hclock _ hmem htimeout
      obtain ⟨m, settings, ⟨hfind, -⟩, hend⟩ := hanswers
      cases hfind
      exact absurd rfl hend

theorem lines_pruned_mixed :
    ∃ line line₂,
      ((mixed mixedNames true).composeTarget Evaluation.eager .left ⟨{}, by decide⟩ .own).Gives
        (.ok (some line, .own)) ∧
      ((mixed ["git", "dir"] false).composeTarget Evaluation.eager .left ⟨{}, by decide⟩ .own).Gives
        (.ok (some line₂, .own)) ∧
      line₂ = line := by
  have hrun : ∀ token, ((mixed mixedNames true).evaluated Evaluation.eager .left ⟨{}, by decide⟩
      token).1 = if token.isCancelled then .error (.error .cancelled)
        else .ok (Registry.medleyFound, token) := by
    rintro (_ | _ | _) <;> decide +kernel
  have hrun₂ : ∀ token, ((mixed ["git", "dir"] false).evaluated Evaluation.eager .left
      ⟨{}, by decide⟩ token).1 = if token.isCancelled then .error (.error .cancelled)
        else .ok (keptFound, token) := by
    rintro (_ | _ | _) <;> decide +kernel
  have hakin : (mixed mixedNames true).Akin (mixed ["git", "dir"] false) :=
    akin_built { left := mixedNames } (some Registry.medley) {}
      (fun | .left => ["git", "dir"] | _ => []) false
  have hpruned : Pruned ((mixed mixedNames true).Fruitless ⟨{}, by decide⟩
      ((mixed mixedNames true).registry.Answers ⟨{}, by decide⟩)) mixedNames ["git", "dir"] := by
    refine .drop ⟨.failed (.timedOut "clock" 200), ?clock, rfl⟩ (.keep (.keep
      (.drop ⟨.disabled "jobs", .disabled rfl rfl, rfl⟩
        (.drop ⟨.failed (.panicked "weather"), ?weather, rfl⟩ .nil))))
    case clock =>
      have hfind : (mixed mixedNames true).registry.find? "clock" =
          some (⟨"clock", fun _ => { ending := .stalls }⟩, {}) := rfl
      refine .timedOut ⟨hfind, rfl⟩ ?_ rfl
      rintro ⟨m, settings, ⟨hclock, -⟩, hend⟩
      cases hclock
      exact hend rfl
    case weather =>
      have hfind : (mixed mixedNames true).registry.find? "weather" =
          some (⟨"weather", fun _ => { ending := .panics }⟩, {}) := rfl
      exact .panicked ⟨hfind, rfl⟩ ⟨_, _, ⟨hfind, rfl⟩, nofun⟩ rfl
  obtain ⟨-, hline, -⟩ := lines_pruned hakin (punctual_mixed eager hrun (by decide))
    (punctual_mixed eager hrun₂ (by decide)) hpruned
  have hleft := (composeTarget_found (p := mixed mixedNames true) (t := .left) (by decide)
    (Prod.ext (hrun .own) rfl)).gives
  have hleft₂ := (composeTarget_found (p := mixed ["git", "dir"] false) (t := .left) (by decide)
    (Prod.ext (hrun₂ .own) rfl)).gives
  exact ⟨_, _, hleft, hleft₂, (hline _ _ _ _ _ _ hleft hleft₂).1⟩

end Pipeline
end ShellPrompt
