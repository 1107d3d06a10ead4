import Mathlib.Data.List.Induction
import Mathlib.Data.List.TakeWhile
import ShellPrompt.Registry

/-!
# ShellPrompt.Proofs.Registry.History

A registry as a function of its history.

A history is the list of calls a registry was made by. What it says of a name is read off the list:
the module registered under the name last, and the settings given last since the name was first
registered.

* `find?_register`, `find?_setSettings`, `find?_configure`: what one call does to an entry; the
  `names_*` say what it does to the order. `NamesNodup` is what makes a first match the only one.
* `names_afterAll`, `find?_afterAll`: a whole history, by induction on its end.
* `registry_remembers`: a registry is its history, and nothing else is in it.
-/

namespace ShellPrompt
namespace Registry

/-- A call that may change a registry. -/
inductive Call where
  | register (m : Module)
  | setSettings (name : String) (settings : ModuleSettings)
  | configure (c : Config)

/-- Settings for a name that is not there are refused, and the registry is kept. -/
def after (r : Registry) : Call → Registry
  | .register m => r.register m
  | .setSettings name settings => (r.setSettings? name settings).getD r
  | .configure c => r.configure c

def afterAll (r : Registry) (calls : List Call) : Registry := calls.foldl after r

theorem afterAll_append (r : Registry) (a b : List Call) :
    r.afterAll (a ++ b) = (r.afterAll a).afterAll b := List.foldl_append

theorem afterAll_concat (r : Registry) (calls : List Call) (c : Call) :
    r.afterAll (calls ++ [c]) = (r.afterAll calls).after c := afterAll_append r calls [c]

/-! ## What a history says -/

namespace Call

def registered? : Call → Option String
  | .register m => some m.name
  | _ => none

def module? (name : String) : Call → Option Module
  | .register m => if m.name = name then some m else none
  | _ => none

/-- A configuration without an entry for the name says nothing of its settings. -/
def settings? (name : String) : Call → Option ModuleSettings
  | .register _ => none
  | .setSettings other settings => if other = name then some settings else none
  | .configure c => (c.module? name).map .ofConfig

end Call

section History

variable (history : List Call) (name : String)

def registeredNames : List String := (history.filterMap Call.registered?).eraseDups

def lastModule? : Option Module := (history.filterMap (Call.module? name)).getLast?

/-- The history from the first registration of a name on. -/
def sinceRegistered : List Call := history.dropWhile fun c => c.registered? ≠ some name

def lastSettings : ModuleSettings :=
  (((sinceRegistered history name).filterMap (Call.settings? name)).getLast?).getD .standard

end History

/-- The registry one starts from: without modules, or with the built-in ones. -/
def origin : Option Config → Registry
  | none => empty
  | some c => withBuiltins c

def originCalls : Option Config → List Call
  | none => []
  | some c => (Module.builtin c).map .register ++ [.configure c]

/-! ## One call -/

def NamesNodup (r : Registry) : Prop := r.names.Nodup

theorem find?_cons (e : Module × ModuleSettings) (rest : List (Module × ModuleSettings))
    (name : String) : find? ⟨e :: rest⟩ name =
      if e.1.name = name then some e else find? ⟨rest⟩ name := by
  rw [find?, List.find?_cons]
  by_cases h : e.1.name = name
  · rw [beq_iff_eq.2 h, if_pos h]
  · rw [beq_eq_false_iff_ne.2 h, if_neg h]
    rfl

variable {r : Registry}

theorem contains_iff {name : String} : r.contains name = true ↔ name ∈ r.names := by
  simp [contains, find?, names, List.find?_isSome]

theorem find?_eq_none_iff {name : String} : r.find? name = none ↔ name ∉ r.names := by
  rw [← contains_iff, contains, Bool.not_eq_true, Option.isSome_eq_false_iff,
    Option.isNone_iff_eq_none]

section ModifyFirst

variable {name : String} {f : Module × ModuleSettings → Module × ModuleSettings}
  (hf : ∀ e, e.1.name = name → (f e).1.name = name) (entries : List (Module × ModuleSettings))

include hf

theorem names_modifyFirst : names ⟨modifyFirst name f entries⟩ = names ⟨entries⟩ := by
  induction entries with
  | nil => rfl
  | cons e rest ih =>
    simp only [names] at ih ⊢
    rw [modifyFirst]
    split
    case isTrue he => rw [List.map_cons, List.map_cons, hf e he, he]
    case isFalse => rw [List.map_cons, List.map_cons, ih]

theorem find?_modifyFirst (other : String) : find? ⟨modifyFirst name f entries⟩ other =
    if other = name then (find? ⟨entries⟩ other).map f else find? ⟨entries⟩ other := by
  induction entries with
  | nil => simp [find?, modifyFirst]
  | cons e rest ih =>
    rw [modifyFirst, find?_cons]
    split
    case isTrue he =>
      rw [find?_cons, hf e he, he]
      by_cases ho : other = name
      · simp [ho]
      · simp [ho, Ne.symm ho]
    case isFalse he =>
      rw [find?_cons, ih]
      by_cases hother : e.1.name = other
      · have ho : ¬ other = name := by rwa [← hother]
        rw [if_pos hother, if_pos hother, if_neg ho]
      · rw [if_neg hother, if_neg hother]

end ModifyFirst

/-- A module is put in place of the one of its name, or at the end. -/
theorem names_register (r : Registry) (m : Module) :
    (r.register m).names = if m.name ∈ r.names then r.names else r.names ++ [m.name] := by
  rw [register]
  by_cases h : m.name ∈ r.names
  · rw [if_pos (contains_iff.2 h), if_pos h]
    exact names_modifyFirst (f := fun e => (m, e.2)) (fun _ _ => rfl) r.entries
  · rw [if_neg (fun hc => h (contains_iff.1 hc)), if_neg h]
    simp [names]

/-- Settings outlive the module they were given for. -/
theorem find?_register (r : Registry) (m : Module) (name : String) :
    (r.register m).find? name =
      if name = m.name then some (m, (r.settings? name).getD .standard) else r.find? name := by
  rw [register]
  by_cases h : r.contains m.name = true
  · rw [if_pos h, find?_modifyFirst (f := fun e => (m, e.2)) (fun _ _ => rfl)]
    split
    case isTrue hn =>
      obtain ⟨e, he⟩ := Option.isSome_iff_exists.1 h
      rw [settings?, hn, he]
      rfl
    case isFalse => rfl
  · have hnone : r.find? m.name = none := by
      rw [find?_eq_none_iff]
      exact fun hmem => h (contains_iff.2 hmem)
    have hfound : find? ⟨r.entries ++ [(m, .standard)]⟩ name =
        (r.find? name).or (find? ⟨[(m, .standard)]⟩ name) := List.find?_append
    rw [if_neg h, hfound, find?_cons]
    by_cases hn : name = m.name
    · rw [hn, if_pos rfl, if_pos rfl, settings?, hnone]
      rfl
    · rw [if_neg (Ne.symm hn), if_neg hn]
      exact Option.or_none

theorem names_setSettings (r : Registry) (name : String) (settings : ModuleSettings) :
    (r.after (.setSettings name settings)).names = r.names := by
  rw [after, setSettings?]
  split
  · exact names_modifyFirst (f := fun e => (e.1, settings)) (fun _ h => h) r.entries
  · rfl

theorem find?_setSettings (r : Registry) (name other : String) (settings : ModuleSettings) :
    (r.after (.setSettings name settings)).find? other =
      if other = name then (r.find? other).map fun e => (e.1, settings) else r.find? other := by
  rw [after, setSettings?]
  split
  case isTrue =>
    exact find?_modifyFirst (f := fun e => (e.1, settings)) (fun _ h => h) r.entries other
  case isFalse h =>
    rw [Option.getD_none]
    split
    case isTrue hn =>
      have hnone : r.find? other = none := by
        rw [find?_eq_none_iff, hn]
        exact fun hmem => h (contains_iff.2 hmem)
      rw [hnone, Option.map_none]
    case isFalse => rfl

def configured (c : Config) (e : Module × ModuleSettings) : Module × ModuleSettings :=
  (e.1, ((c.module? e.1.name).map .ofConfig).getD e.2)

theorem configure_eq (r : Registry) (c : Config) :
    r.configure c = ⟨r.entries.map (configured c)⟩ := by
  rw [configure]
  congr 1
  refine List.map_congr_left fun e _ => ?_
  rw [configured]
  cases c.module? e.1.name <;> rfl

theorem names_configure (r : Registry) (c : Config) : (r.configure c).names = r.names := by
  rw [configure_eq, names, names, List.map_map]
  rfl

theorem find?_configure (r : Registry) (c : Config) (name : String) :
    (r.configure c).find? name = (r.find? name).map fun e =>
      (e.1, ((c.module? name).map .ofConfig).getD e.2) := by
  have hfound : (r.configure c).find? name = (r.find? name).map (configured c) := by
    rw [configure_eq, find?, find?, List.find?_map]
    rfl
  rw [hfound]
  cases hf : r.find? name with
  | none => rfl
  | some e =>
    have he : e.1.name = name := by simpa using List.find?_some hf
    rw [Option.map_some, Option.map_some, configured, he]

theorem configure_configure (r : Registry) (c : Config) :
    (r.configure c).configure c = r.configure c := by
  simp only [configure_eq, List.map_map]
  congr 1
  refine List.map_congr_left fun e _ => ?_
  simp only [Function.comp_apply, configured]
  cases c.module? e.1.name <;> rfl

theorem NamesNodup.after (h : r.NamesNodup) (c : Call) : (r.after c).NamesNodup := by
  rw [NamesNodup] at h ⊢
  cases c with
  | register m =>
    rw [Registry.after, names_register]
    split
    case isTrue => exact h
    case isFalse hnew =>
      refine List.nodup_append.2 ⟨h, by simp, ?_⟩
      rintro name hmem _ hm rfl
      exact hnew (List.mem_singleton.1 hm ▸ hmem)
  | setSettings name settings => rwa [names_setSettings]
  | configure c => rwa [Registry.after, names_configure]

theorem NamesNodup.afterAll (h : r.NamesNodup) (calls : List Call) :
    (r.afterAll calls).NamesNodup := by
  induction calls generalizing r with
  | nil => exact h
  | cons c rest ih => exact ih (h.after c)

/-- Where names are distinct, the first match is the only one. -/
theorem find?_of_mem (h : r.NamesNodup) {e : Module × ModuleSettings} (he : e ∈ r.entries) :
    r.find? e.1.name = some e := by
  obtain ⟨entries⟩ := r
  simp only [NamesNodup, names] at h he
  induction entries with
  | nil => cases he
  | cons first rest ih =>
    obtain ⟨hfirst, hrest⟩ := List.nodup_cons.1 h
    rw [find?_cons]
    rcases List.mem_cons.1 he with rfl | he
    · rw [if_pos rfl]
    · have hne : first.1.name ≠ e.1.name := by
        intro heq
        exact hfirst (List.mem_map.2 ⟨e, he, heq.symm⟩)
      rw [if_neg hne]
      exact ih hrest he

/-! ## Whole histories -/

theorem eraseDups_concat (names : List String) (name : String) : (names ++ [name]).eraseDups =
    if name ∈ names then names.eraseDups else names.eraseDups ++ [name] := by
  rw [List.eraseDups_append]
  by_cases h : name ∈ names
  · simp [List.removeAll, h]
  · simp [List.removeAll, h, List.eraseDups_cons]

/-- The order is that of the first registrations. -/
theorem names_afterAll (history : List Call) :
    (empty.afterAll history).names = registeredNames history := by
  induction history using List.reverseRecOn with
  | nil => rfl
  | append_singleton history c ih =>
    rw [afterAll_concat, registeredNames, List.filterMap_append]
    cases c with
    | register m =>
      have hmem : m.name ∈ registeredNames history ↔
          m.name ∈ history.filterMap Call.registered? := List.mem_eraseDups
      rw [after, names_register, ih]
      simp only [hmem]
      exact (eraseDups_concat _ _).symm
    | setSettings name settings =>
      rw [names_setSettings, ih]
      exact congrArg List.eraseDups (List.append_nil _).symm
    | configure c =>
      rw [after, names_configure, ih]
      exact congrArg List.eraseDups (List.append_nil _).symm

theorem lastModule?_concat (history : List Call) (c : Call) (name : String) :
    lastModule? (history ++ [c]) name = (c.module? name).or (lastModule? history name) := by
  rw [lastModule?, List.filterMap_append, List.getLast?_append]
  cases h : c.module? name <;> simp [h, lastModule?]

theorem Call.module?_eq_none_iff {c : Call} {name : String} :
    c.module? name = none ↔ c.registered? ≠ some name := by
  cases c <;> simp [Call.module?, Call.registered?]

theorem sinceRegistered_eq_nil_iff {history : List Call} {name : String} :
    sinceRegistered history name = [] ↔ lastModule? history name = none := by
  simp [sinceRegistered, lastModule?, List.dropWhile_eq_nil_iff, Call.module?_eq_none_iff]

/-- The call that first registers a name gives it no settings. -/
theorem lastSettings_concat (history : List Call) (c : Call) (name : String) :
    lastSettings (history ++ [c]) name =
      if lastModule? history name = none then .standard
      else (c.settings? name).getD (lastSettings history name) := by
  rw [lastSettings, sinceRegistered, List.dropWhile_append, ← sinceRegistered]
  by_cases h : lastModule? history name = none
  · have hfirst : (List.filterMap (Call.settings? name)
        ([c].dropWhile fun c => c.registered? ≠ some name)) = [] := by
      cases c with
      | register m => by_cases hm : m.name = name <;> simp [Call.registered?, Call.settings?, hm]
      | setSettings other settings => simp [Call.registered?]
      | configure c => simp [Call.registered?]
    rw [if_pos (List.isEmpty_iff.2 (sinceRegistered_eq_nil_iff.2 h)), if_pos h, hfirst]
    rfl
  · have hne : ¬ (sinceRegistered history name).isEmpty = true := by
      rw [List.isEmpty_iff, sinceRegistered_eq_nil_iff]
      exact h
    rw [if_neg hne, if_neg h, List.filterMap_append, List.getLast?_append]
    cases hc : c.settings? name <;> simp [hc, lastSettings]

/-- Under a name stands the module registered last, with the settings given last. -/
theorem find?_afterAll (history : List Call) (name : String) :
    (empty.afterAll history).find? name =
      (lastModule? history name).map fun m => (m, lastSettings history name) := by
  induction history using List.reverseRecOn with
  | nil => rfl
  | append_singleton history c ih =>
    rw [afterAll_concat, lastModule?_concat, lastSettings_concat]
    cases c with
    | register m =>
      rw [after, find?_register, Registry.settings?, ih]
      by_cases hn : name = m.name
      · subst hn
        cases lastModule? history m.name <;> simp [Call.module?, Call.settings?]
      · have hm : (Call.register m).module? name = none := if_neg (Ne.symm hn)
        rw [if_neg hn, hm, Option.none_or]
        cases lastModule? history name <;> simp [Call.settings?]
    | setSettings other settings =>
      rw [find?_setSettings, ih]
      by_cases hn : name = other
      · subst hn
        cases lastModule? history name <;> simp [Call.module?, Call.settings?]
      · have hs : (Call.setSettings other settings).settings? name = none := if_neg (Ne.symm hn)
        rw [if_neg hn, hs]
        cases lastModule? history name <;> simp [Call.module?]
    | configure c =>
      rw [after, find?_configure, ih]
      cases lastModule? history name <;> simp [Call.module?, Call.settings?]

theorem origin_eq (start : Option Config) :
    origin start = empty.afterAll (originCalls start) := by
  cases start with
  | none => rfl
  | some c =>
    rw [origin, withBuiltins, originCalls, afterAll_concat, afterAll, List.foldl_map]
    rfl

/-- A registry is its history. Names stand in the order of their first registrations, each once
(`registeredNames`), and under a name the module registered last is found and run (`lastModule?`),
with the settings given last since the name was first registered (`lastSettings`). There are no
other entries. A replacement takes over place and settings; settings for a name that is not there
are refused and change nothing; and taking a configuration twice in a row is taking it once. -/
theorem registry_remembers (start : Option Config) (calls : List Call) :
    let r := (origin start).afterAll calls
    let history := originCalls start ++ calls
    r.names = registeredNames history ∧ r.names.Nodup ∧
    (∀ name, r.find? name =
      (lastModule? history name).map fun m => (m, lastSettings history name)) ∧
    (∀ name, r.slot name =
      match lastModule? history name with
      | none => .unknown name
      | some m =>
        if (lastSettings history name).enabled then .runnable m (lastSettings history name)
        else .disabled name) ∧
    r.entries.map some = r.names.map r.find? ∧
    (∀ m, r.contains m.name = true →
      (r.register m).names = r.names ∧
      ∀ name, (r.register m).find? name =
        (r.find? name).map fun e => (if name = m.name then m else e.1, e.2)) ∧
    (∀ name settings,
      (r.setSettings? name settings).isSome = r.contains name ∧
      (r.contains name = false → r.after (.setSettings name settings) = r)) ∧
    ∀ c, (r.configure c).configure c = r.configure c := by
  intro r history
  have hr : r = empty.afterAll history := by
    rw [afterAll_append, ← origin_eq]
  have hnodup : r.NamesNodup := by
    rw [hr]
    exact NamesNodup.afterAll (show NamesNodup empty from List.nodup_nil) history
  have hfind : ∀ name, r.find? name =
      (lastModule? history name).map fun m => (m, lastSettings history name) := by
    rw [hr]
    exact find?_afterAll history
  refine ⟨?order, hnodup, hfind, ?slot, ?entries, ?replaced, ?refused, configure_configure r⟩
  case order =>
    rw [hr]
    exact names_afterAll history
  case slot =>
    intro name
    rw [slot, hfind]
    cases lastModule? history name <;> rfl
  case entries =>
    rw [names, List.map_map]
    exact List.map_congr_left fun e he => (find?_of_mem hnodup he).symm
  case replaced =>
    intro m hm
    refine ⟨by rw [names_register, if_pos (contains_iff.1 hm)], fun name => ?_⟩
    rw [find?_register]
    split
    case isTrue hn =>
      obtain ⟨e, he⟩ := Option.isSome_iff_exists.1 hm
      rw [Registry.settings?, hn, he]
      rfl
    case isFalse => exact Option.map_id'.symm
  case refused =>
    intro name settings
    rw [after, setSettings?]
    cases r.contains name <;> simp

end Registry
end ShellPrompt
