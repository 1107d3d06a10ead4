import ShellPrompt.Proofs.CommandLine.PromptLine
import ShellPrompt.Proofs.Pipeline.Marker

/-!
# ShellPrompt.Proofs.CommandLine.Marker

Where the prompt command shows a marker.

* `promptLine_standard`: without a configuration the line is that of the standard pipeline.
* `renderLine_marker`: a line which that pipeline renders shows the marker, if its module answers in
  time.
* `runPrompt_keeps_marker`: so does the left prompt on a terminal that has columns. One that is said
  to have none costs the whole line, also where nobody asked for that width.
-/

namespace ShellPrompt
namespace CommandLine

open Pipeline (along)

variable {a : Arguments} {shell : Shell}

/-- The columns a command assumes. -/
def assumedWidth (a : Arguments) (shell : Shell) : UInt16 :=
  (a.terminalWidth.or shell.detectedWidth).getD fallbackWidth

theorem assumedWidth_eq_zero_iff (h : a.terminalWidth ≠ some 0) :
    assumedWidth a shell = 0 ↔ a.terminalWidth = none ∧ shell.detectedWidth = some 0 := by
  unfold assumedWidth
  cases hgiven : a.terminalWidth with
  | some w =>
    rw [hgiven] at h
    exact iff_of_false (fun hzero => h (congrArg some hzero)) fun hnone => nomatch hnone.1
  | none =>
    cases shell.detectedWidth with
    | some w => simp
    | none => exact iff_of_false (by decide) fun hsome => nomatch hsome.2

theorem snapshot_refused (h : assumedWidth a shell = 0) :
    snapshot a shell = .error .zeroWidth := by
  rw [snapshot, Snapshot.ofFacts, dif_neg]
  exact not_not.2 h

theorem snapshot_taken (h : assumedWidth a shell ≠ 0) :
    ∃ s, snapshot a shell = .ok s ∧ s.toFacts = facts a shell :=
  ⟨⟨facts a shell, h⟩, (Snapshot.ofFacts_eq_ok_iff _ _).2 rfl, rfl⟩

theorem configPath_none (hconfig : a.config = none) (henv : shell.configEnv = none) :
    configPath a shell = none := by
  rw [configPath, hconfig, henv]
  rfl

/-- The pipeline of a command for which no configuration is named. -/
def standardPipeline (a : Arguments) : Pipeline := pipelineOf {} a Style.Sheet.defaults

theorem promptLine_standard (read : Path → Found) (h : configPath a shell = none) :
    ∃ told, ∀ plan result notes,
      (lineOrEmpty (standardPipeline a) plan a shell).Ends result notes →
      (promptLine plan read a shell).Ends result (told ++ notes) := by
  have hsheet : Style.Sheet.withOverrides (Config.chosen read (configPath a shell)).styles =
      .ok (Style.Sheet.defaults, []) := by
    rw [h]
    rfl
  have hbuilt := promptLine_built hsheet
  rwa [h] at hbuilt

theorem renderLine_marker (a : Arguments) (plan : Pipeline.Plan) (s : Snapshot) :
    ∃ notes, ((standardPipeline a).renderLine (plan .left) .left s).Ends (.error .waits) notes ∨
      ∃ line, ((standardPipeline a).renderLine (plan .left) .left s).Ends (.ok line) notes ∧
        ∀ i, ({} : Config).left[i]? = some "character" →
          (standardPipeline a).InTime plan s .left i → "❯".toList <:+: line.toList := by
  have hsome : (standardPipeline a).config.modulesFor .left ≠ [] := List.cons_ne_nil _ _
  rcases Registry.evaluated_reliable (reliable_pipelineOf {} a Style.Sheet.defaults) (plan .left)
    ((standardPipeline a).config.modulesFor .left) s (standardPipeline a).attainable_options with
    he | ⟨found, he⟩
  · exact ⟨_, .inl (Pipeline.renderLine_ends
      (Pipeline.composeTarget_halted hsome (Prod.ext he rfl)))⟩
  · refine ⟨_, .inr ⟨_, Pipeline.renderLine_ends
      (Pipeline.composeTarget_found hsome (Prod.ext he rfl)), ?_⟩⟩
    intro i hi hin
    have hstandard : ∀ name ∈ (underArguments {} a).left,
        ((underArguments {} a).module? name).getD {} = {} := fun _ _ => rfl
    obtain ⟨place, hkept, -, htext, -⟩ := Pipeline.lineOf_marker hstandard he hi hin
    have hinfix := Pipeline.infix_paint_remaining _ s found place hkept
    rwa [htext] at hinfix

/-- Without a configuration `runPrompt` shows the marker in the left prompt, along every fair
schedule and with any arguments and surroundings, unless `assumedWidth` is zero: then nothing is
written at all. Nobody need ask for that. A terminal that reports no columns is taken at its word,
and the standard width is kept for those that report nothing. -/
theorem runPrompt_keeps_marker (clock : Nat) (disk : Disk) {a : Arguments} {shell : Shell}
    (htarget : a.target = .left) (hconfig : a.config = none) (henv : shell.configEnv = none) :
    (a.terminalWidth ≠ some 0 → (assumedWidth a shell = 0 ↔
      a.terminalWidth = none ∧ shell.detectedWidth = some 0)) ∧
    (assumedWidth a shell = 0 →
      ∀ plan writer, (runPrompt plan clock disk a shell writer).1 = .ok (writer.put "")) ∧
    (assumedWidth a shell ≠ 0 → ∃ s, snapshot a shell = .ok s ∧ s.toFacts = facts a shell ∧
      (∀ actions, Evaluation.Fair actions → ∃ n line after, ∀ m, n ≤ m →
        runPrompt (along actions m) clock disk a shell .working = (.ok (.ok line), after)) ∧
      ∀ plan writer, (runPrompt plan clock disk a shell writer).1 = .error .waits ∨
        ∃ line, (runPrompt plan clock disk a shell writer).1 = .ok (writer.put line) ∧
          ∀ i, ({} : Config).left[i]? = some "character" →
            (standardPipeline a).InTime plan s .left i →
            "❯".toList <:+: line.toList ∧ line ≠ "") := by
  have hpath := configPath_none hconfig henv
  obtain ⟨told, hbuilt⟩ := promptLine_standard (filesSeen disk a).read hpath
  refine ⟨fun h => assumedWidth_eq_zero_iff h, ?refused, ?taken⟩
  case refused =>
    intro hzero plan writer
    rw [runPrompt_eq (hbuilt plan _ _ (lineOrEmpty_refused (snapshot_refused hzero) _ plan))]
    rfl
  case taken =>
    intro hwidth
    obtain ⟨s, hs, hfacts⟩ := snapshot_taken hwidth
    refine ⟨s, hs, hfacts, ?settles, ?shows⟩
    case settles =>
      intro actions hfair
      refine runPrompt_settles ?_ hfair clock
      rw [configOf, hpath]
      exact fun _ he => nomatch he
    case shows =>
      intro plan writer
      obtain ⟨notes, hwaits | ⟨line, hline, hmarker⟩⟩ := renderLine_marker a plan s
      · rw [← htarget] at hwaits
        rw [runPrompt_eq (hbuilt plan _ _ (lineOrEmpty_waits hs hwaits))]
        exact .inl rfl
      · rw [← htarget] at hline
        rw [runPrompt_eq (hbuilt plan _ _ (lineOrEmpty_line hs hline))]
        refine .inr ⟨line, rfl, fun i hi hin => ⟨hmarker i hi hin, ?_⟩⟩
        rintro rfl
        exact absurd (hmarker i hi hin).length_le (by decide)

/-- A shell on a terminal that reports no columns. -/
def unsizedShell : Shell := { cwd := ⟨[Path.slash]⟩, detectedWidth := some 0 }

theorem unsized_terminal_loses_marker :
    (runPrompt Pipeline.eager 0 Disk.empty {} unsizedShell .working).1 = .ok (.ok "") := by rfl

def cramped : Arguments := { terminalWidth := some 1 }

theorem inTime_cramped : (standardPipeline cramped).InTime Pipeline.eager
    ⟨facts cramped unsizedShell, by decide⟩ .left 5 := by
  exact Pipeline.inTime_of_evaluated rfl ⟨rfl, rfl⟩ (by decide +kernel)

/-- The width of the arguments goes before that of the terminal. -/
theorem runPrompt_keeps_marker_cramped :
    cramped.target = .left ∧ cramped.config = none ∧ unsizedShell.configEnv = none ∧
    assumedWidth cramped unsizedShell ≠ 0 ∧
    ∃ line, (runPrompt Pipeline.eager 0 Disk.empty cramped unsizedShell .working).1 =
      .ok (.ok line) ∧ "❯".toList <:+: line.toList := by
  have hwidth : assumedWidth cramped unsizedShell ≠ 0 := by decide
  obtain ⟨s, hs, -, -, hshows⟩ := (runPrompt_keeps_marker 0 Disk.empty
    (show cramped.target = .left from rfl) (show cramped.config = none from rfl)
    (show unsizedShell.configEnv = none from rfl)).2.2 hwidth
  obtain rfl : ⟨facts cramped unsizedShell, hwidth⟩ = s := Except.ok.inj hs
  have hends : (runPrompt Pipeline.eager 0 Disk.empty cramped unsizedShell .working).1.isOk =
      true := by decide +kernel
  rcases hshows Pipeline.eager .working with hwaits | ⟨line, hline, hmarker⟩
  · rw [hwaits] at hends
    cases hends
  · exact ⟨rfl, rfl, rfl, hwidth, line, hline, (hmarker 5 rfl inTime_cramped).1⟩

end CommandLine
end ShellPrompt
