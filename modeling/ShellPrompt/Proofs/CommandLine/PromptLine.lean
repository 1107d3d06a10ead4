import ShellPrompt.CommandLine.PromptLine
import ShellPrompt.Proofs.Pipeline.Rendering
import ShellPrompt.Proofs.Registry.Modules
import ShellPrompt.Proofs.Style.Cut

/-!
# ShellPrompt.Proofs.CommandLine.PromptLine

What the prompt command comes to.

* `Config.chosen`: the configuration in force, which there always is.
* `renderLine_reliable`, `renderLine_settles`: a line of reliable modules fails in no way, and along
  a fair schedule there is one.
* `promptLine_crashed`, `promptLine_built`: with the built-in modules only the styles decide.
* `runPrompt_degrades`: the command writes a line whatever it finds, unless a style string is a
  colour cut inside a character.
-/

namespace ShellPrompt

/-! ## The configuration -/

namespace Config

def chosen (read : Path → Found) : Option Path → Config
  | none => {}
  | some path =>
    match load path (read path) with
    | .ok c => c
    | .error _ => {}

theorem loadOrDefault_tells (read : Path → Found) (path : Option Path) :
    ∃ notes, ∀ w, (loadOrDefault read path).run w = (chosen read path, w.tellAll notes) := by
  cases path with
  | none => exact ⟨[], fun _ => rfl⟩
  | some path =>
    cases hload : load path (read path) with
    | ok c =>
      refine ⟨[], ?_⟩
      intro w
      rw [loadOrDefault, chosen, hload]
      rfl
    | error e =>
      refine ⟨[.logged (loadEvent path e)], ?_⟩
      intro w
      rw [loadOrDefault, chosen, hload]
      rfl

end Config

/-! ## One line -/

namespace Pipeline

def along (actions : Nat → Evaluation.Action) (n : Nat) : Plan :=
  fun _ _ _ => Evaluation.upTo actions n

variable {p : Pipeline}

theorem renderLine_reliable (h : p.registry.All Module.Reliable)
    (scheduler : Evaluation.Scheduler) (t : Target) (s : Snapshot) :
    ∃ notes, (p.renderLine scheduler t s).Ends (.error .waits) notes ∨
      ∃ line, (p.renderLine scheduler t s).Ends (.ok line) notes := by
  by_cases hnone : p.config.modulesFor t = []
  · exact ⟨_, .inr ⟨_, renderLine_ends (composeTarget_unconfigured hnone)⟩⟩
  · rcases Registry.evaluated_reliable h scheduler (p.config.modulesFor t) s p.attainable_options
      with he | ⟨found, he⟩
    · exact ⟨_, .inl (renderLine_ends (composeTarget_halted hnone (Prod.ext he rfl)))⟩
    · exact ⟨_, .inr ⟨_, renderLine_ends (composeTarget_found hnone (Prod.ext he rfl))⟩⟩

theorem renderLine_settles (h : p.registry.All Module.Reliable) (t : Target) (s : Snapshot)
    {actions : Nat → Evaluation.Action} (hfair : Evaluation.Fair actions) :
    ∃ n line notes, ∀ m, n ≤ m →
      (p.renderLine (along actions m t) t s).Ends (.ok line) notes := by
  by_cases hnone : p.config.modulesFor t = []
  · exact ⟨0, _, _, fun _ _ => renderLine_ends (composeTarget_unconfigured hnone)⟩
  · obtain ⟨n, found, notes, hall⟩ : ∃ n found notes, ∀ m, n ≤ m →
        p.evaluated (along actions m t) t s .own = (.ok (found, .own), notes) :=
      Registry.evaluated_settles (Registry.nameable_work h) (Registry.answering_work h)
        p.attainable_options hfair
    exact ⟨n, _, _, fun m hm => renderLine_ends (composeTarget_found hnone (hall m hm))⟩

end Pipeline

namespace CommandLine

open Pipeline (along)

def underArguments (config : Config) (a : Arguments) : Config :=
  { config with dialect := a.dialect.getD config.dialect }

/-- The pipeline of a command, given its styles: the built-in modules under a configuration. -/
def pipelineOf (config : Config) (a : Arguments) (sheet : Style.Sheet) : Pipeline :=
  Pipeline.built (underArguments config a) none sheet

theorem reliable_pipelineOf (config : Config) (a : Arguments) (sheet : Style.Sheet) :
    (pipelineOf config a sheet).registry.All Module.Reliable :=
  (Registry.all_withBuiltins _).configure _

variable {read : Path → Found} {a : Arguments} {shell : Shell}

theorem promptLine_crashed {c : Crash}
    (h : Style.Sheet.withOverrides (Config.chosen read (configPath a shell)).styles = .error c)
    (plan : Pipeline.Plan) :
    ∃ notes, (promptLine plan read a shell).Ends (.error (.crash c)) notes := by
  obtain ⟨notes, hload⟩ := Config.loadOrDefault_tells read (configPath a shell)
  have hbuild : (Pipeline.build (underArguments (Config.chosen read (configPath a shell)) a)
      none).Ends (.error (.crash c)) [] :=
    Pipeline.build_crashed (show Style.Sheet.withOverrides (underArguments _ a).styles = _ from h) _
  exact ⟨_, .watch hload (hbuild.bind_error _)⟩

def lineOrEmpty (p : Pipeline) (plan : Pipeline.Plan) (a : Arguments) (shell : Shell) :
    Render String :=
  recover
    (do
      let s ← checked (snapshot a shell)
      p.renderLine (plan a.target) a.target s)
    fun e => do
      log (failedEvent e)
      return ""

theorem promptLine_built {sheet : Style.Sheet} {errors : List Style.StyleError}
    (h : Style.Sheet.withOverrides (Config.chosen read (configPath a shell)).styles =
      .ok (sheet, errors)) :
    ∃ told, ∀ plan result notes,
      (lineOrEmpty (pipelineOf (Config.chosen read (configPath a shell)) a sheet) plan a
        shell).Ends result notes →
      (promptLine plan read a shell).Ends result (told ++ notes) := by
  obtain ⟨notes, hload⟩ := Config.loadOrDefault_tells read (configPath a shell)
  have hbuild := Pipeline.build_ok
    (show Style.Sheet.withOverrides (underArguments _ a).styles = _ from h) none
  refine ⟨notes ++ errors.map fun e => .logged (Pipeline.styleEvent e), ?_⟩
  intro plan result rest hr
  rw [List.append_assoc]
  exact .watch hload (hbuild.bind hr)

theorem lineOrEmpty_refused {e : PromptError} (he : snapshot a shell = .error e) (p : Pipeline)
    (plan : Pipeline.Plan) :
    (lineOrEmpty p plan a shell).Ends (.ok "") [.logged (failedEvent e)] := by
  intro w
  rw [lineOrEmpty, he]
  rfl

theorem lineOrEmpty_line {s : Snapshot} (hs : snapshot a shell = .ok s) {p : Pipeline}
    {plan : Pipeline.Plan} {line : String} {notes : List Note}
    (h : (p.renderLine (plan a.target) a.target s).Ends (.ok line) notes) :
    (lineOrEmpty p plan a shell).Ends (.ok line) notes := by
  rw [lineOrEmpty, hs]
  exact (Render.Ends.bind (.pure s) h).recover_ok _

theorem lineOrEmpty_waits {s : Snapshot} (hs : snapshot a shell = .ok s) {p : Pipeline}
    {plan : Pipeline.Plan} {notes : List Note}
    (h : (p.renderLine (plan a.target) a.target s).Ends (.error .waits) notes) :
    (lineOrEmpty p plan a shell).Ends (.error .waits) notes := by
  rw [lineOrEmpty, hs]
  exact (Render.Ends.bind (.pure s) h).recover_halt nofun _

/-! ## The command -/

/-- The files as they are when the command reads its configuration: a log file has been created. -/
def filesSeen (disk : Disk) (a : Arguments) : Disk :=
  match a.logFile.map disk.openAppend with
  | some (.ok (_, disk)) => disk
  | _ => disk

def configOf (disk : Disk) (a : Arguments) (shell : Shell) : Config :=
  Config.chosen (filesSeen disk a).read (configPath a shell)

/-- The files after a command that told that. -/
def filesAfter (clock : Nat) (disk : Disk) (a : Arguments) (notes : List Note) : Disk :=
  match a.logFile.map disk.openAppend with
  | some (.ok (target, disk)) =>
    let observers : Observers :=
      { logger := some (loggerOn (.onto disk logLimit target)), clock := clock }
    disk.store (((observers.tellAll notes).logger.bind fun l => l.sink.content?).getD []) target
  | _ => disk

/-- What is written and the files afterwards, as the line ends. -/
theorem runPrompt_eq {plan : Pipeline.Plan} {disk : Disk} {result : Except Halt String}
    {notes : List Note} (h : (promptLine plan (filesSeen disk a).read a shell).Ends result notes)
    (clock : Nat) (writer : Writer) :
    runPrompt plan clock disk a shell writer =
      (result.map writer.put, filesAfter clock disk a notes) := by
  unfold runPrompt filesAfter
  unfold filesSeen at h
  rcases hopen : a.logFile.map disk.openAppend with _ | e | ⟨target, disk'⟩
  all_goals simp only [hopen] at h ⊢
  · have hrun := h { clock := clock }
    simp only [Render.watchedBy] at hrun
    rw [hrun]
  · have hrun := h { clock := clock }
    simp only [Render.watchedBy] at hrun
    rw [hrun]
  · have hrun := h { logger := some (loggerOn (.onto disk' logLimit target)), clock := clock }
    simp only [Render.watchedBy] at hrun
    rw [hrun]

section

variable {disk : Disk}

theorem runPrompt_crashes
    (h : ∃ e ∈ (configOf disk a shell).styles, Style.Descriptor.Cuts e.2) (plan : Pipeline.Plan)
    (clock : Nat) (writer : Writer) :
    (runPrompt plan clock disk a shell writer).1 = .error (.crash .splitCharacter) := by
  obtain ⟨notes, hends⟩ := promptLine_crashed
    (Style.Sheet.withOverrides_eq_error_iff.2 ⟨rfl, h⟩) plan
  rw [runPrompt_eq hends]
  rfl

theorem runPrompt_uncut
    (h : ∀ e ∈ (configOf disk a shell).styles, ¬ Style.Descriptor.Cuts e.2)
    (plan : Pipeline.Plan) (clock : Nat) (writer : Writer) :
    (runPrompt plan clock disk a shell writer).1 = .error .waits ∨
      ∃ line, (runPrompt plan clock disk a shell writer).1 = .ok (writer.put line) := by
  obtain ⟨sheet, errors, hsheet⟩ := Style.Sheet.withOverrides_ok h
  obtain ⟨told, hbuilt⟩ := promptLine_built hsheet
  cases hs : snapshot a shell with
  | error e =>
    have hends := hbuilt plan _ _ (lineOrEmpty_refused hs _ plan)
    exact .inr ⟨"", by rw [runPrompt_eq hends]; rfl⟩
  | ok s =>
    obtain ⟨notes, hwaits | ⟨line, hline⟩⟩ := Pipeline.renderLine_reliable
      (reliable_pipelineOf (configOf disk a shell) a sheet) (plan a.target) a.target s
    · have hends := hbuilt plan _ _ (lineOrEmpty_waits hs hwaits)
      exact .inl (by rw [runPrompt_eq hends]; rfl)
    · have hends := hbuilt plan _ _ (lineOrEmpty_line hs hline)
      exact .inr ⟨line, by rw [runPrompt_eq hends]; rfl⟩

theorem runPrompt_settles
    (h : ∀ e ∈ (configOf disk a shell).styles, ¬ Style.Descriptor.Cuts e.2)
    {actions : Nat → Evaluation.Action} (hfair : Evaluation.Fair actions) (clock : Nat) :
    ∃ n line after, ∀ m, n ≤ m →
      runPrompt (along actions m) clock disk a shell .working = (.ok (.ok line), after) := by
  obtain ⟨sheet, errors, hsheet⟩ := Style.Sheet.withOverrides_ok h
  obtain ⟨told, hbuilt⟩ := promptLine_built hsheet
  cases hs : snapshot a shell with
  | error e =>
    exact ⟨0, "", _, fun m _ =>
      runPrompt_eq (hbuilt _ _ _ (lineOrEmpty_refused hs _ (along actions m))) clock .working⟩
  | ok s =>
    obtain ⟨n, line, notes, hall⟩ := Pipeline.renderLine_settles
      (reliable_pipelineOf (configOf disk a shell) a sheet) a.target s hfair
    exact ⟨n, line, _, fun m hm =>
      runPrompt_eq (hbuilt _ _ _ (lineOrEmpty_line hs (hall m hm))) clock .working⟩

end

/-- `runPrompt` crashes just where a configured style string is a colour that is cut inside a
character (`Cuts`), and reports no other failure of its own. Otherwise, along every fair schedule,
it writes one line, which may be empty. -/
theorem runPrompt_degrades (clock : Nat) (disk : Disk) (a : Arguments) (shell : Shell) :
    (∀ plan writer c, (runPrompt plan clock disk a shell writer).1 = .error (.crash c) ↔
      c = .splitCharacter ∧ ∃ e ∈ (configOf disk a shell).styles, Style.Descriptor.Cuts e.2) ∧
    (∀ plan writer e, (runPrompt plan clock disk a shell writer).1 ≠ .error (.error e)) ∧
    ((∀ e ∈ (configOf disk a shell).styles, ¬ Style.Descriptor.Cuts e.2) →
      ∀ actions, Evaluation.Fair actions → ∃ n line after, ∀ m, n ≤ m →
        runPrompt (along actions m) clock disk a shell .working = (.ok (.ok line), after)) := by
  by_cases h : ∃ e ∈ (configOf disk a shell).styles, Style.Descriptor.Cuts e.2
  · refine ⟨?_, ?_, ?_⟩
    · intro plan writer c
      rw [runPrompt_crashes h, Except.error.injEq, Halt.crash.injEq]
      exact ⟨fun hc => ⟨hc.symm, h⟩, fun hc => hc.1.symm⟩
    · intro plan writer e
      rw [runPrompt_crashes h]
      exact nofun
    · intro hnot
      obtain ⟨e, he, hcut⟩ := h
      exact absurd hcut (hnot e he)
  · have hnot : ∀ e ∈ (configOf disk a shell).styles, ¬ Style.Descriptor.Cuts e.2 :=
      fun e he hcut => h ⟨e, he, hcut⟩
    refine ⟨?_, ?_, fun _ actions hfair =>
      runPrompt_settles hnot hfair clock⟩
    · intro plan writer c
      refine iff_of_false ?_ fun hc => h hc.2
      intro hc
      rcases runPrompt_uncut hnot plan clock writer with hr | ⟨line, hr⟩
      all_goals
        rw [hr] at hc
        cases hc
    · intro plan writer e
      rcases runPrompt_uncut hnot plan clock writer with hr | ⟨line, hr⟩
      all_goals
        rw [hr]
        exact nofun

/-- Files among which a configuration has one style string. -/
def styledDisk (style : String) : Disk :=
  let text := "\x7b\"styles\":\x7b\"path\":\"" ++ style ++ "\"\x7d\x7d"
  Disk.empty.addFile [Text.Utf8.encode "prompt.json".toList] (Text.Utf8.encode text.toList)

def styledArguments : Arguments := { config := some "prompt.json" }

def rootShell : Shell := { cwd := ⟨[Path.slash]⟩ }

/-- Six bytes behind the hash sign, the second of them inside a character. -/
theorem cut_style_loses_prompt :
    (runPrompt Pipeline.eager 0 (styledDisk "#aéaé") styledArguments rootShell .working).1 =
      .error (.crash .splitCharacter) := by rfl

/-- Of the same bytes in another order no character is cut, and the style is only refused. -/
theorem runPrompt_degrades_uncut :
    (∀ e ∈ (configOf (styledDisk "#éaéa") styledArguments rootShell).styles,
      ¬ Style.Descriptor.Cuts e.2) ∧ Evaluation.Fair Evaluation.dovetail ∧
    ∃ n line after, ∀ m, n ≤ m →
      runPrompt (along Evaluation.dovetail m) 0 (styledDisk "#éaéa") styledArguments rootShell
        .working = (.ok (.ok line), after) := by
  have hstyles : (configOf (styledDisk "#éaéa") styledArguments rootShell).styles =
      [("path", "#éaéa")] := by rfl
  have huncut : ∀ e ∈ (configOf (styledDisk "#éaéa") styledArguments rootShell).styles,
      ¬ Style.Descriptor.Cuts e.2 := by
    rw [hstyles]
    intro e he hcut
    obtain rfl := List.mem_singleton.1 he
    have hparse := Style.Descriptor.parse_eq_crash_iff.2 ⟨rfl, hcut⟩
    have hrefused : Style.Descriptor.parse "#éaéa" = .error (.error ⟨"#éaéa", .hexDigit⟩) := by rfl
    rw [hrefused] at hparse
    cases hparse
  exact ⟨huncut, Evaluation.fair_dovetail, (runPrompt_degrades 0 (styledDisk "#éaéa")
    styledArguments rootShell).2.2 huncut Evaluation.dovetail Evaluation.fair_dovetail⟩

end CommandLine
end ShellPrompt
