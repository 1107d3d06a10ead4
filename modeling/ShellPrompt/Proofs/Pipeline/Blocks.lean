import Mathlib.Data.List.Forall2
import ShellPrompt.Proofs.Pipeline.Rendering
import ShellPrompt.Proofs.Registry.Cancel

/-!
# ShellPrompt.Proofs.Pipeline.Blocks

Rendering, block by block.

* `Block`: a target that came out, with the outcomes of its names.
* `Part`: one of the things that are told of a prompt. Blocks are the parts that tell of modules.
* `Goes`: the blocks that targets come to one after the other, and the target that stops them if one
  does. `exists_goes` says that there always are some.
* `Goes.composed`, `Goes.rendered`: results and notes, made of the blocks.
* `Goes.reaches`: whole blocks for the configured targets, as far as it goes.
-/

namespace ShellPrompt
namespace Pipeline

structure Block where
  target : Target
  found : List Outcome

namespace Block

variable (p : Pipeline) (s : Snapshot) (b : Block)

def line : Layout.Line := p.lineOf s b.found

def notes : List Note :=
  (p.registry.events (p.config.modulesFor b.target) b.found).map .logged ++
    p.targetNotes s b.target b.found

/-- Each configured name has an outcome that it calls for. -/
def Sound : Prop :=
  List.Forall₂ (fun name x => ∃ inTime,
      Registry.CallsFor p.registry s p.config.budget name inTime x)
    (p.config.modulesFor b.target) b.found

end Block

inductive Part where
  | started
  | block (b : Block)
  /-- A target that did not come out. -/
  | stopped (t : Target)
  | committed (lines : Layout.Lines)
  | cancelled
  | failed (e : PromptError)

namespace Part

def notes (p : Pipeline) (s : Snapshot) : Part → List Note
  | .started => [p.startNote s]
  | .block b => b.notes p s
  | .stopped t => (p.registry.unknownIn (p.config.modulesFor t)).map .logged
  | .committed lines => p.commitNotes lines
  | .cancelled => cancelNotes
  | .failed e => [.logged (failedEvent e)]

def Sound (p : Pipeline) (s : Snapshot) : Part → Prop
  | .block b => b.Sound p s
  | _ => True

end Part

/-- The target that did not come out, and why. -/
abbrev Stop := Option (Target × Halt)

inductive Goes (p : Pipeline) (plan : Plan) (s : Snapshot) :
    List Target → Token → List Block → Stop → Prop where
  | done {token : Token} : Goes p plan s [] token [] none
  | pass {t : Target} {rest : List Target} {token : Token} {blocks : List Block} {stop : Stop} :
      p.config.modulesFor t = [] → Goes p plan s rest token blocks stop →
      Goes p plan s (t :: rest) token blocks stop
  | halt {t : Target} {rest : List Target} {token : Token} {h : Halt} :
      p.config.modulesFor t ≠ [] → (p.evaluated (plan t) t s token).1 = .error h →
      Goes p plan s (t :: rest) token [] (some (t, h))
  | block {t : Target} {rest : List Target} {token after : Token} {found : List Outcome}
      {blocks : List Block} {stop : Stop} :
      p.config.modulesFor t ≠ [] → (p.evaluated (plan t) t s token).1 = .ok (found, after) →
      Goes p plan s rest after blocks stop →
      Goes p plan s (t :: rest) token (⟨t, found⟩ :: blocks) stop

/-- Whole blocks for the configured targets, up to the one that stops them. -/
def Reaches (configured : List Target) (blocks : List Block) : Stop → Prop
  | none => configured = blocks.map Block.target
  | some (t, _) => ∃ rest, configured = blocks.map Block.target ++ t :: rest

def configured (p : Pipeline) : List Target := Target.all.filter p.isConfigured

/-- The lines of blocks, put in their places. -/
def fill (p : Pipeline) (s : Snapshot) (blocks : List Block) (lines : Layout.Lines) :
    Layout.Lines :=
  blocks.foldl (fun lines b => lines.set b.target (b.line p s)) lines

/-- Blocks, and the target behind them that did not come out. -/
def goneParts (blocks : List Block) (stop : Stop) : List Part :=
  blocks.map .block ++ (stop.map fun x => Part.stopped x.1).toList

def lastParts (p : Pipeline) (s : Snapshot) (blocks : List Block) : Stop → List Part
  | none => [.committed (p.fill s blocks {})]
  | some (_, .error .cancelled) => [.cancelled]
  | some _ => []

/-- All that is told of a prompt whose targets come to these blocks. -/
def promptParts (p : Pipeline) (s : Snapshot) (blocks : List Block) (stop : Stop) : List Part :=
  .started :: (goneParts blocks stop ++ p.lastParts s blocks stop)

def ended {α : Type} (a : α) : Stop → Except Halt α
  | none => .ok a
  | some (_, h) => .error h

variable {p : Pipeline} {plan : Plan} {s : Snapshot} {targets : List Target} {token : Token}
  {blocks : List Block} {stop : Stop} {t : Target}

theorem exists_goes (p : Pipeline) (plan : Plan) (s : Snapshot) (targets : List Target)
    (token : Token) : ∃ blocks stop, p.Goes plan s targets token blocks stop := by
  induction targets generalizing token with
  | nil => exact ⟨_, _, .done⟩
  | cons t rest ih =>
    by_cases hnone : p.config.modulesFor t = []
    · obtain ⟨blocks, stop, h⟩ := ih token
      exact ⟨_, _, .pass hnone h⟩
    · rcases he : (p.evaluated (plan t) t s token).1 with halt | ⟨found, after⟩
      · exact ⟨_, _, .halt hnone he⟩
      · obtain ⟨blocks, stop, h⟩ := ih after
        exact ⟨_, _, .block hnone he h⟩

namespace Goes

theorem composed (h : p.Goes plan s targets token blocks stop) (lines : Layout.Lines) :
    p.composed plan s targets lines token =
      (ended (p.fill s blocks lines) stop, (goneParts blocks stop).flatMap (Part.notes p s)) := by
  induction h generalizing lines with
  | done => rfl
  | pass hnone _ ih => rw [Pipeline.composed, if_pos hnone, ih]
  | @halt t _ token h hsome he =>
    have hev : p.evaluated (plan t) t s token = (.error h, (Part.stopped t).notes p s) :=
      Prod.ext he (Registry.notes_of_error he)
    rw [Pipeline.composed, if_neg hsome, hev]
    exact congrArg (_, ·) (List.append_nil _).symm
  | @block t _ token after found _ stop hsome he _ ih =>
    have hev : p.evaluated (plan t) t s token = (.ok (found, after),
        (p.registry.events (p.config.modulesFor t) found).map .logged) :=
      Prod.ext he (Registry.notes_of_ok he)
    rw [Pipeline.composed, if_neg hsome, hev]
    simp only [ih]
    rfl

theorem rendered (h : p.Goes plan s Target.all token blocks stop) :
    p.rendered plan s token = (ended (p.output (p.fill s blocks {})) stop,
      (p.promptParts s blocks stop).flatMap (Part.notes p s)) := by
  rw [Pipeline.rendered, h.composed, promptParts, List.flatMap_cons, List.flatMap_append]
  rcases stop with _ | ⟨t, (_ | _) | c | _⟩
  case none =>
    exact congrArg (fun last => (_, p.startNote s :: (_ ++ last))) (List.append_nil _).symm
  case some.error.cancelled => rfl
  all_goals exact congrArg (fun told => (_, p.startNote s :: told)) (List.append_nil _).symm

theorem sound (h : p.Goes plan s targets token blocks stop) : ∀ b ∈ blocks, b.Sound p s := by
  induction h with
  | done => exact nofun
  | pass _ _ ih => exact ih
  | halt _ _ => exact nofun
  | @block t rest token after found blocks stop hsome he _ ih =>
    refine List.forall_mem_cons.2 ⟨?_, ih⟩
    obtain ⟨hlen, hall⟩ := callsFor_of_evaluated he
    rw [Block.Sound, List.forall₂_iff_get]
    refine ⟨hlen.symm, fun i hi hi' => ?_⟩
    obtain ⟨x, hx, hcalls⟩ := hall i _ (List.getElem?_eq_getElem hi)
    obtain rfl := Option.some.inj (hx.symm.trans (List.getElem?_eq_getElem hi'))
    exact ⟨_, hcalls⟩

theorem reaches (h : p.Goes plan s targets token blocks stop) :
    Reaches (targets.filter p.isConfigured) blocks stop := by
  have hpass : ∀ {t rest}, p.config.modulesFor t = [] →
      (t :: rest).filter p.isConfigured = rest.filter p.isConfigured := fun hnone =>
    List.filter_cons_of_neg (by simp [isConfigured, hnone])
  have hhere : ∀ {t rest}, p.config.modulesFor t ≠ [] →
      (t :: rest).filter p.isConfigured = t :: rest.filter p.isConfigured := fun hsome =>
    List.filter_cons_of_pos (by simp [isConfigured, hsome])
  induction h with
  | done => rfl
  | pass hnone _ ih =>
    rw [hpass hnone]
    exact ih
  | halt hsome _ =>
    rw [hhere hsome]
    exact ⟨_, rfl⟩
  | @block t rest token after found blocks stop hsome _ _ ih =>
    rw [hhere hsome]
    cases stop with
    | none => exact congrArg (t :: ·) ih
    | some stop =>
      obtain ⟨more, hmore⟩ := ih
      exact ⟨more, congrArg (t :: ·) hmore⟩

/-- The only error a target stops with is that the token was set. -/
theorem eq_cancelled {e : PromptError} (h : p.Goes plan s targets token blocks stop)
    (hstop : stop = some (t, .error e)) : e = .cancelled := by
  induction h with
  | done => cases hstop
  | pass _ _ ih => exact ih hstop
  | halt _ he =>
    cases hstop
    exact (Registry.eq_cancelled_of_evaluated he).1
  | block _ _ _ ih => exact ih hstop

/-- Nobody sets a token of the render's own. -/
theorem ne_error_of_own {e : PromptError} (h : p.Goes plan s targets token blocks stop)
    (hown : token = .own) : stop ≠ some (t, .error e) := by
  induction h with
  | done => exact nofun
  | pass _ _ ih => exact ih hown
  | halt _ he =>
    rintro ⟨⟩
    exact (Registry.eq_cancelled_of_evaluated he).2 hown
  | block _ he _ ih =>
    subst hown
    exact ih (Registry.eq_own_of_evaluated he)

end Goes

theorem Reaches.sublist {configured : List Target} (h : Reaches configured blocks stop) :
    (blocks.map Block.target).Sublist configured := by
  cases stop with
  | none => rw [h]
  | some stop =>
    obtain ⟨rest, rfl⟩ := h
    exact List.sublist_append_left _ _

theorem fill_cons (b : Block) (rest : List Block) (lines : Layout.Lines) :
    p.fill s (b :: rest) lines = p.fill s rest (lines.set b.target (b.line p s)) := rfl

theorem line_fill_of_notMem (h : t ∉ blocks.map Block.target) (lines : Layout.Lines) :
    (p.fill s blocks lines).line t = lines.line t := by
  induction blocks generalizing lines with
  | nil => rfl
  | cons b rest ih =>
    obtain ⟨hb, hrest⟩ := not_or.1 (mt List.mem_cons.2 h)
    rw [fill_cons, ih hrest, Layout.Lines.line_set_of_ne hb]

theorem line_fill_of_mem (hnodup : (blocks.map Block.target).Nodup) {b : Block} (hb : b ∈ blocks)
    (lines : Layout.Lines) : (p.fill s blocks lines).line b.target = b.line p s := by
  induction blocks generalizing lines with
  | nil => cases hb
  | cons first rest ih =>
    obtain ⟨hfirst, hrest⟩ := List.nodup_cons.1 hnodup
    rw [fill_cons]
    rcases List.mem_cons.1 hb with rfl | hb
    -- no block behind the first writes over its line
    · rw [line_fill_of_notMem hfirst, Layout.Lines.line_set_self]
    · exact ih hrest hb _

end Pipeline
end ShellPrompt
