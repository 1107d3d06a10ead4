import ShellPrompt.Config.Reading
import ShellPrompt.Proofs.Observers
import ShellPrompt.Proofs.Text.Utf8

/-!
# ShellPrompt.Proofs.Config.Loading

Loading a configuration, or else the standard one.

* `Holds` and `Fails`: what is found at a path either holds a configuration or is one of four
  failures (`load_cases`).
* `loadOrDefault_reports`: in the first case that configuration is loaded and nothing is told. In
  the second it is the standard one, whole, and the failure is reported once.
-/

namespace ShellPrompt
namespace Config

/-- A file whose bytes are a text, and the configuration it spells. -/
def Holds (found : Found) (c : Config) : Prop :=
  ∃ raw : String, found = .content (Text.Utf8.encode raw.toList) ∧ parse raw = .ok c

inductive Fails (path : Path) : Found → ConfigError → Prop where
  | missing : Fails path .missing (.missingPath path)
  | unreadable (e : FileError) : Fails path (.unreadable e) (.read e)
  | notText {bytes : Text.Bytes} (h : ∀ raw, bytes ≠ Text.Utf8.encode raw) :
    Fails path (.content bytes) (.read .notText)
  | refused {raw : String} {problem : Json.Problem} {place : Json.Place}
      (h : parse raw = .error (.parse problem place)) :
    Fails path (.content (Text.Utf8.encode raw.toList)) (.parse problem place)

variable {path : Path} {found : Found}

theorem load_encode (path : Path) (raw : String) :
    load path (.content (Text.Utf8.encode raw.toList)) = parse raw := by
  simp [load]

theorem load_notText {bytes : Text.Bytes} (h : ∀ raw, bytes ≠ Text.Utf8.encode raw) :
    load path (.content bytes) = .error (.read .notText) := by
  cases hdecode : Text.Utf8.decode? bytes with
  | none => rw [load, hdecode]
  | some raw => exact absurd (Text.Utf8.decode?_eq_some_iff.1 hdecode) (h raw)

theorem exists_problem {raw : String} {e : ConfigError} (h : parse raw = .error e) :
    ∃ problem place, e = .parse problem place := by
  unfold parse at h
  split at h
  · cases h
  · cases h
    exact ⟨_, _, rfl⟩

/-- By cases on what is found, and for bytes on whether they are a text. -/
theorem load_cases (path : Path) (found : Found) :
    (∃ c, Holds found c) ∨ ∃ e, Fails path found e := by
  cases found with
  | missing => exact .inr ⟨_, .missing⟩
  | unreadable e => exact .inr ⟨_, .unreadable e⟩
  | content bytes =>
    by_cases h : ∃ raw, bytes = Text.Utf8.encode raw
    · obtain ⟨raw, rfl⟩ := h
      rw [show raw = (String.ofList raw).toList from String.toList_ofList.symm]
      cases hparse : parse (String.ofList raw) with
      | ok c => exact .inl ⟨c, _, rfl, hparse⟩
      | error e =>
        obtain ⟨problem, place, rfl⟩ := exists_problem hparse
        exact .inr ⟨_, .refused hparse⟩
    · exact .inr ⟨_, .notText (not_exists.1 h)⟩

theorem Holds.load_eq {c : Config} (h : Holds found c) (path : Path) : load path found = .ok c := by
  obtain ⟨raw, rfl, hparse⟩ := h
  rw [load_encode, hparse]

theorem Fails.load_eq {e : ConfigError} (h : Fails path found e) : load path found = .error e := by
  cases h with
  | missing => rfl
  | unreadable e => rfl
  | notText h => exact load_notText h
  | refused h => rw [load_encode, h]

/-- What is logged about a failure. Only that nothing is found is a mere warning. -/
structure Reports (path : Path) (found : Found) (failure : ConfigError) (e : Log.Event) : Prop where
  target : e.target = "prompt::config"
  fields : e.fields = [("error", .string failure.message), ("path", .string path.display)]
  missing : found = .missing → e.level = .warn ∧ e.message = "config_path_missing"
  other : found ≠ .missing → e.level = .error ∧ e.message = "config_parse_failed"

theorem fields_loadEvent (path : Path) (e : ConfigError) : (loadEvent path e).fields =
    [("error", .string e.message), ("path", .string path.display)] := by
  have hsorted : ∀ a b : Json.Value,
      Table.ofList [("path", a), ("error", b)] = [("error", b), ("path", a)] := by
    intro a b
    simp [Table.ofList, Table.insert, Table.precedes]
  cases e <;> exact hsorted _ _

theorem Fails.reports {e : ConfigError} (h : Fails path found e) :
    Reports path found e (loadEvent path e) := by
  have hfields := fields_loadEvent path e
  cases h with
  | missing => exact ⟨rfl, hfields, fun _ => ⟨rfl, rfl⟩, fun h => absurd rfl h⟩
  | unreadable e => exact ⟨rfl, hfields, nofun, fun _ => ⟨rfl, rfl⟩⟩
  | notText h => exact ⟨rfl, hfields, nofun, fun _ => ⟨rfl, rfl⟩⟩
  | refused h => exact ⟨rfl, hfields, nofun, fun _ => ⟨rfl, rfl⟩⟩

theorem Holds.run_loadOrDefault {read : Path → Found} {c : Config} (h : Holds (read path) c)
    (w : Observers) : (loadOrDefault read (some path)).run w = (c, w) := by
  rw [loadOrDefault, h.load_eq path]
  rfl

theorem Fails.run_loadOrDefault {read : Path → Found} {e : ConfigError}
    (h : Fails path (read path) e) (w : Observers) :
    (loadOrDefault read (some path)).run w = ({}, w.log (loadEvent path e)) := by
  rw [loadOrDefault, h.load_eq]
  rfl

/-- Without a path, `loadOrDefault` gives the standard configuration and nothing is told. With one
it is the configuration that the file there `Holds`, and nothing is told either; or there is none,
and the standard one is given and the reason logged in one event, which `Reports` the failure. What
is loaded is the same whoever watches. -/
theorem loadOrDefault_reports (read : Path → Found) :
    (∀ w, (loadOrDefault read none).run w = ({}, w)) ∧
    (∀ path c, Holds (read path) c → ∀ w, (loadOrDefault read (some path)).run w = (c, w)) ∧
    (∀ path, (∀ c, ¬ Holds (read path) c) → ∃ failure e,
      Fails path (read path) failure ∧ Reports path (read path) failure e ∧
      (∀ w, (loadOrDefault read (some path)).run w = ({}, w.log e)) ∧
      ∀ w before level, w.logger = some ⟨.memory before, level⟩ →
        ((loadOrDefault read (some path)).run w).2.logger = some ⟨.memory (before ++
          if level.rank ≤ e.level.rank then [e.stamped w.clock] else []), level⟩) ∧
    ∀ path? w w', ((loadOrDefault read path?).run w).1 = ((loadOrDefault read path?).run w').1 := by
  refine ⟨fun w => rfl, fun path c h w => h.run_loadOrDefault w, fun path hnot => ?_, ?_⟩
  · obtain ⟨failure, h⟩ := (load_cases path (read path)).resolve_left (not_exists.2 hnot)
    refine ⟨failure, _, h, h.reports, h.run_loadOrDefault, fun w before level hlogger => ?_⟩
    rw [h.run_loadOrDefault]
    show w.logger.map _ = _
    rw [hlogger, Option.map_some, Log.Logger.log]
    by_cases hlevel : level.rank ≤ (loadEvent path failure).level.rank
    · simp [Log.Logger.enabled, hlevel, Log.Sink.record, Log.Event.stamped]
    · simp [Log.Logger.enabled, hlevel]
  · intro path? w w'
    cases path? with
    | none => rfl
    | some path =>
      rcases load_cases path (read path) with ⟨c, h⟩ | ⟨e, h⟩
      · rw [h.run_loadOrDefault, h.run_loadOrDefault]
      · rw [h.run_loadOrDefault, h.run_loadOrDefault]

/-- Files among which a configuration has one more member behind its separator. -/
def diskWith (member : String) : Disk :=
  let text := "\x7b\"separator\":\"|\"," ++ member ++ "\x7d"
  Disk.empty.addFile [Text.Utf8.encode "prompt.json".toList] (Text.Utf8.encode text.toList)

/-- A flag that is none costs the separator in front of it too. -/
theorem loadOrDefault_reports_late :
    let path : Path := .ofString "prompt.json"
    let w : Observers := { logger := some ⟨.memory [], .warn⟩, clock := 7 }
    ((loadOrDefault (diskWith "\"parallel\":false").read (some path)).run w) =
        ({ separator := "|", parallel := false }, w) ∧
      (∀ c, ¬ Holds ((diskWith "\"parallel\":0").read path) c) ∧
      ∃ e : Log.Event, e.message = "config_parse_failed" ∧
        ((loadOrDefault (diskWith "\"parallel\":0").read (some path)).run w).1 = {} ∧
        ((loadOrDefault (diskWith "\"parallel\":0").read (some path)).run w).2.logger =
          some ⟨.memory [e.stamped 7], .warn⟩ := by
  intro path w
  have hholds : Holds ((diskWith "\"parallel\":false").read path)
      { separator := "|", parallel := false } :=
    ⟨"\x7b\"separator\":\"|\",\"parallel\":false\x7d", by rfl, by rfl⟩
  have hnone : ∀ c, ¬ Holds ((diskWith "\"parallel\":0").read path) c := by
    intro c h
    have hload : (load path ((diskWith "\"parallel\":0").read path)).isOk = false := by rfl
    rw [h.load_eq] at hload
    cases hload
  obtain ⟨-, hheld, -, -⟩ := loadOrDefault_reports (diskWith "\"parallel\":false").read
  obtain ⟨-, -, hreported, -⟩ := loadOrDefault_reports (diskWith "\"parallel\":0").read
  obtain ⟨failure, e, -, hreport, hrun, hlogger⟩ := hreported path hnone
  have hother := hreport.other (by intro h; cases h)
  refine ⟨hheld path _ hholds w, hnone, e, hother.2, by rw [hrun w], ?_⟩
  rw [hlogger w [] .warn rfl, hother.1]
  rfl

end Config
end ShellPrompt
