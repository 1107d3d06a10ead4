import ShellPrompt.Proofs.Pipeline.Blocks

/-!
# ShellPrompt.Proofs.Pipeline.Calls

The calls a pipeline answers, by the blocks they come to.

* `Call`: one of them with its arguments; `Call.run` is what it does under a plan.
* `Call.result`, `Call.parts`: what it ends with and what it tells, read off the blocks of its
  targets.
* `Call.ends`: that is all a plan has a say in.
-/

namespace ShellPrompt
namespace Pipeline

inductive Call where
  | render (s : Snapshot)
  | renderWithCancel (s : Snapshot) (token : Token)
  | renderOrEmpty (s : Snapshot)
  | renderLine (t : Target) (s : Snapshot)
  | composeLayout (s : Snapshot) (token : Token)

namespace Call

def Value : Call → Type
  | .render _ => Output
  | .renderWithCancel _ _ => Output
  | .renderOrEmpty _ => Output
  | .renderLine _ _ => String
  | .composeLayout _ _ => Layout.Lines

def run (p : Pipeline) (plan : Plan) : (c : Call) → Render c.Value
  | .render s => p.render plan s
  | .renderWithCancel s token => p.renderWithCancel plan s token
  | .renderOrEmpty s => p.renderOrEmpty plan s
  | .renderLine t s => p.renderLine (plan t) t s
  | .composeLayout s token => p.composeLayout plan s token

def snapshot : Call → Snapshot
  | .render s => s
  | .renderWithCancel s _ => s
  | .renderOrEmpty s => s
  | .renderLine _ s => s
  | .composeLayout s _ => s

def targets : Call → List Target
  | .renderLine t _ => [t]
  | _ => Target.all

def token : Call → Token
  | .renderWithCancel _ token => token
  | .composeLayout _ token => token
  | _ => .own

end Call

/-! ## What comes of it -/

def failedParts : Stop → List Part
  | some (_, .error e) => [.failed e]
  | _ => []

namespace Call

/-- What a call ends with whose targets come to these blocks. -/
def result (p : Pipeline) (blocks : List Block) (stop : Stop) : (c : Call) → Except Halt c.Value
  | .render s => ended (p.output (p.fill s blocks {})) stop
  | .renderWithCancel s _ => ended (p.output (p.fill s blocks {})) stop
  | .renderOrEmpty s =>
    match stop with
    | some (_, .error _) => .ok ({} : Output)
    | _ => ended (p.output (p.fill s blocks {})) stop
  | .renderLine t s => ended (p.paint ((p.fill s blocks {}).line t)) stop
  | .composeLayout s _ => ended (p.fill s blocks {}) stop

/-- What is told in its course. -/
def parts (p : Pipeline) (blocks : List Block) (stop : Stop) : Call → List Part
  | .render s => p.promptParts s blocks stop
  | .renderWithCancel s _ => p.promptParts s blocks stop
  | .renderOrEmpty s => p.promptParts s blocks stop ++ failedParts stop
  | .renderLine _ _ => goneParts blocks stop
  | .composeLayout _ _ => goneParts blocks stop

end Call

variable {p : Pipeline} {plan : Plan} {s : Snapshot} {token : Token} {blocks : List Block}
  {stop : Stop} {t : Target}

/-! ## Endings -/

theorem renderWithCancel_parts (h : p.Goes plan s Target.all token blocks stop) :
    (p.renderWithCancel plan s token).Ends (ended (p.output (p.fill s blocks {})) stop)
      ((p.promptParts s blocks stop).flatMap (Part.notes p s)) := by
  have hends := p.renderWithCancel_ends plan s token
  rw [h.rendered] at hends
  exact hends

theorem composeLayout_parts (h : p.Goes plan s Target.all token blocks stop) :
    (p.composeLayout plan s token).Ends (ended (p.fill s blocks {}) stop)
      ((goneParts blocks stop).flatMap (Part.notes p s)) := by
  have hends := p.composeLayout_ends plan s token
  rw [h.composed] at hends
  exact hends

theorem renderOrEmpty_parts (h : p.Goes plan s Target.all .own blocks stop) :
    (p.renderOrEmpty plan s).Ends ((Call.renderOrEmpty s).result p blocks stop)
      (((Call.renderOrEmpty s).parts p blocks stop).flatMap (Part.notes p s)) := by
  have hends : (p.render plan s).Ends _ _ := renderWithCancel_parts h
  rw [Call.parts, List.flatMap_append]
  rcases stop with _ | ⟨t, e | c | _⟩
  case some.error => exact hends.recover_error fun _ => rfl
  all_goals
    change Render.Ends _ _ (_ ++ [])
    rw [List.append_nil]
  case none => exact hends.recover_ok _
  all_goals exact hends.recover_halt nofun _

theorem renderLine_parts (h : p.Goes plan s [t] .own blocks stop) :
    (p.renderLine (plan t) t s).Ends (ended (p.paint ((p.fill s blocks {}).line t)) stop)
      ((goneParts blocks stop).flatMap (Part.notes p s)) := by
  have hempty : p.paint (({} : Layout.Lines).line t) = "" := by cases t <;> rfl
  cases h with
  | pass hnone hrest =>
    cases hrest
    have hline : (p.composeTarget (plan t) t s .own).Ends _ [] := composeTarget_unconfigured hnone
    have hends := renderLine_ends hline
    rw [← hempty] at hends
    exact hends
  | @halt _ _ _ h hsome he =>
    have hnotes : (goneParts [] (some (t, h))).flatMap (Part.notes p s) =
        (p.registry.unknownIn (p.config.modulesFor t)).map .logged := List.append_nil _
    rw [hnotes]
    exact renderLine_ends (composeTarget_halted hsome (Prod.ext he (Registry.notes_of_error he)))
  | @block _ _ _ _ found _ _ hsome he hrest =>
    cases hrest
    have hline : (p.fill s [⟨t, found⟩] {}).line t = p.lineOf s found :=
      Layout.Lines.line_set_self ..
    have hnotes : (goneParts [⟨t, found⟩] none).flatMap (Part.notes p s) =
        Block.notes p s ⟨t, found⟩ := List.append_nil _
    rw [hline, hnotes]
    exact renderLine_ends (composeTarget_found hsome (Prod.ext he (Registry.notes_of_ok he)))

theorem Call.ends {c : Call} (h : p.Goes plan c.snapshot c.targets c.token blocks stop) :
    (c.run p plan).Ends (c.result p blocks stop)
      ((c.parts p blocks stop).flatMap (Part.notes p c.snapshot)) := by
  cases c with
  | render s => exact renderWithCancel_parts h
  | renderWithCancel s token => exact renderWithCancel_parts h
  | renderOrEmpty s => exact renderOrEmpty_parts h
  | renderLine t s => exact renderLine_parts h
  | composeLayout s token => exact composeLayout_parts h

theorem sound_goneParts (h : ∀ b ∈ blocks, b.Sound p s) :
    ∀ part ∈ goneParts blocks stop, part.Sound p s := by
  intro part hpart
  rcases List.mem_append.1 hpart with hpart | hpart
  · obtain ⟨b, hb, rfl⟩ := List.mem_map.1 hpart
    exact h b hb
  · cases stop with
    | none => cases hpart
    | some stop =>
      obtain rfl := List.mem_singleton.1 hpart
      trivial

theorem sound_lastParts : ∀ part ∈ p.lastParts s blocks stop, part.Sound p s := by
  rcases stop with _ | ⟨t, (_ | _) | c | _⟩ <;> simp [lastParts, Part.Sound]

theorem sound_promptParts (h : ∀ b ∈ blocks, b.Sound p s) :
    ∀ part ∈ p.promptParts s blocks stop, part.Sound p s :=
  List.forall_mem_cons.2 ⟨trivial,
    List.forall_mem_append.2 ⟨sound_goneParts h, sound_lastParts⟩⟩

theorem sound_failedParts : ∀ part ∈ failedParts stop, part.Sound p s := by
  rcases stop with _ | ⟨t, e | c | _⟩ <;> simp [failedParts, Part.Sound]

/-- Parts are as sound as the blocks among them. -/
theorem Call.sound_parts {c : Call} (h : ∀ b ∈ blocks, b.Sound p c.snapshot) :
    ∀ part ∈ c.parts p blocks stop, part.Sound p c.snapshot := by
  cases c with
  | render s => exact sound_promptParts h
  | renderWithCancel s token => exact sound_promptParts h
  | renderOrEmpty s => exact List.forall_mem_append.2 ⟨sound_promptParts h, sound_failedParts⟩
  | renderLine t s => exact sound_goneParts h
  | composeLayout s token => exact sound_goneParts h

end Pipeline
end ShellPrompt
