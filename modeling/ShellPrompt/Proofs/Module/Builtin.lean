import ShellPrompt.Proofs.Registry.History
import ShellPrompt.Proofs.Registry.Outcomes

/-!
# ShellPrompt.Proofs.Module.Builtin

The built-in modules, and the registry that holds them.

* `mem_priorities`: each module gives its fragments one priority of its own; that of the input
  marker is the highest.
* `entries_withBuiltins`: the registry of a configuration holds these modules and no others, each
  under its settings. `mem_builtin_of_find?` and `find?_character` look into it.
-/

namespace ShellPrompt

namespace Module

variable {config : Config} {m : Module} {s : Snapshot} {f : Fragment}

/-- What a module's fragments are worth, whatever its options. -/
def priorities : List (String × Int32) :=
  [("directory", 70), ("vcs", 50), ("status", 80), ("duration", 30), ("jobs", 20),
    ("character", 100)]

theorem toInt_priorities : ∀ e ∈ priorities,
    e.2.toInt ≤ 100 ∧ (e.2.toInt = 100 ↔ e.1 = "character") := by decide

theorem eq_of_returns {name : String} {render : Snapshot → Option Fragment}
    (h : ((ofFragment name render).run s).ending = .returns (.ok (some f))) :
    render s = some f :=
  Except.ok.inj (Ending.returns.inj h)

theorem priority_vcs (h : Vcs.render s = some f) : f.priority = 50 := by
  unfold Vcs.render at h
  split at h
  · cases h
    rfl
  · cases h
    rfl
  · cases h

theorem priority_status {showSuccess : Bool} (h : Status.render showSuccess s = some f) :
    f.priority = 80 := by
  unfold Status.render at h
  split at h
  · cases h
    rfl
  · split at h
    · cases h
      rfl
    · cases h

theorem priority_duration {minimum : UInt64} (h : Duration.render minimum s = some f) :
    f.priority = 30 := by
  unfold Duration.render at h
  split at h
  · cases h
  · cases h
    rfl

theorem priority_jobs {threshold : Nat} {symbol : String}
    (h : Jobs.render threshold symbol s = some f) : f.priority = 20 := by
  simp only [Jobs.render] at h
  split at h
  · cases h
  · cases h
    rfl

theorem mem_priorities (hm : m ∈ builtin config)
    (h : (m.run s).ending = .returns (.ok (some f))) : (m.name, f.priority) ∈ priorities := by
  simp only [builtin, List.mem_cons, List.not_mem_nil, or_false] at hm
  rcases hm with rfl | rfl | rfl | rfl | rfl | rfl
  all_goals have hf := eq_of_returns h
  · cases hf
    exact List.mem_cons_self
  · rw [priority_vcs hf]
    decide
  · rw [priority_status hf]
    show ("status", (80 : Int32)) ∈ priorities
    decide
  · rw [priority_duration hf]
    show ("duration", (30 : Int32)) ∈ priorities
    decide
  · rw [priority_jobs hf]
    show ("jobs", (20 : Int32)) ∈ priorities
    decide
  · cases hf
    show ("character", (100 : Int32)) ∈ priorities
    decide

end Module

namespace Config

/-- The settings a configuration has for a name. -/
def settingsFor (c : Config) (name : String) : ModuleSettings :=
  ((c.module? name).map .ofConfig).getD .standard

theorem settingsFor_standard {c : Config} {name : String} (h : (c.module? name).getD {} = {}) :
    c.settingsFor name = .standard := by
  rw [settingsFor]
  cases hm : c.module? name with
  | none => rfl
  | some m =>
    rw [hm] at h
    rw [show m = {} from h]
    rfl

end Config

namespace Registry

theorem entries_withBuiltins (c : Config) :
    (withBuiltins c).entries = (Module.builtin c).map fun m => (m, c.settingsFor m.name) := by
  have hregistered : ((Module.builtin c).foldl register empty).entries =
      (Module.builtin c).map fun m => (m, .standard) := by rfl
  rw [withBuiltins, configure_eq, hregistered, List.map_map]
  rfl

variable {c : Config} {name : String} {m : Module} {settings : ModuleSettings}

theorem mem_builtin_of_find? (h : (withBuiltins c).find? name = some (m, settings)) :
    m ∈ Module.builtin c ∧ m.name = name ∧ settings = c.settingsFor name := by
  have hmem := List.mem_of_find?_eq_some h
  have hname : m.name = name := name_of_find? h
  rw [entries_withBuiltins] at hmem
  obtain ⟨m', hm', heq⟩ := List.mem_map.1 hmem
  cases heq
  exact ⟨hm', hname, by rw [hname]⟩

theorem find?_character (c : Config) : (withBuiltins c).find? "character" =
    some (Module.character ((c.module? "character").getD {}), c.settingsFor "character") := by
  rw [find?, entries_withBuiltins]
  rfl

end Registry

end ShellPrompt
