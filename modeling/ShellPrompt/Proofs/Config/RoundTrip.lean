import Mathlib.Logic.Relation
import ShellPrompt.Proofs.Config.Document
import ShellPrompt.Proofs.Text.Utf8

/-!
# ShellPrompt.Proofs.Config.RoundTrip

Printing a configuration and parsing the text gives it back, as long as no option holds a floating
number (`parse_text`). So the printed bytes, which the digest is made of, tell configurations apart.

They do not tell texts apart that say the same. `Reworded` lists what may differ between two
documents of one configuration: the order of members, keys that mean nothing, and values that are
what they would be anyway. How a document is spelled is left out of it altogether.
`round_trip` puts both together.
-/

namespace ShellPrompt
namespace Config

open Json

/-- The bytes a configuration is told by. -/
def digestInput (c : Config) : Text.Bytes := Text.Utf8.encode c.print

/-- No option of a module holds a floating number. -/
def Floatless (c : Config) : Prop := ∀ e ∈ c.modules, ∀ o ∈ e.2.options, ¬ o.2.HoldsFloat

theorem exact_iff {c : Config} : record.codec.Exact c ↔ c.Floatless := by
  simp [Record.codec, record, slots, modulesSlot, Codec.strings, Codec.string, Codec.name,
    Codec.bool, Codec.uint64, Codec.integer, Codec.table, ModuleConfig.record, ModuleConfig.slots,
    ModuleConfig.optionsSlot, Codec.option, Codec.int32, Codec.value, Floatless]

theorem spellsText_text {c : Config} (h : c.Floatless) : SpellsText (record.write c) c.text := by
  have hspells := record.codec.spells c (exact_iff.2 h)
  refine ⟨[], record.print c, [], blanks_nil, hspells, blanks_nil, ?_⟩
  rw [print_record, text, String.toList_ofList]
  simp

/-- What was parsed is found in the document it is printed as. -/
theorem ofDoc?_write {s : String} {c : Config} (h : parse s = .ok c) (hfloat : c.Floatless) :
    ofDoc? (record.write c) = some c := by
  rw [parse_eq_ok_iff] at h
  obtain ⟨⟨c', rest⟩, hread, hwhole⟩ := bind_eq_ok_iff.1 h
  simp only at hwhole
  split at hwhole
  · cases hwhole
    exact record.codec.returns maxDepth (by decide) _ _ _ hread (exact_iff.2 hfloat)
  · cases hwhole

theorem parse_text {s : String} {c : Config} (h : parse s = .ok c) (hfloat : c.Floatless) :
    parse c.text = .ok c :=
  (parse_iff (spellsText_text hfloat)).2 (ofDoc?_write h hfloat)

theorem text_inj {s s' : String} {c c' : Config} (h : parse s = .ok c) (h' : parse s' = .ok c')
    (hfloat : c.Floatless) (hfloat' : c'.Floatless) : c.text = c'.text ↔ c = c' := by
  constructor
  · intro htext
    have hparse := parse_text h hfloat
    rw [htext, parse_text h' hfloat'] at hparse
    cases hparse
    rfl
  · rintro rfl
    rfl

theorem digestInput_eq_iff {c c' : Config} : c.digestInput = c'.digestInput ↔ c.text = c'.text := by
  rw [digestInput, digestInput, Text.Utf8.encode_inj, text, text, String.ofList_inj]

/-! ## Other words for the same -/

/-- How deep the fields of a configuration may nest. -/
def fieldDepth : Nat := 126

/-- How deep the fields of a module's settings may nest, inside the table of modules. -/
def settingDepth : Nat := 124

/-- The second pair of documents is alike but for the settings of one module, for which it has the
first pair. -/
inductive InEntry (d d' : Doc) : Doc → Doc → Prop where
  | object (key : Units) (before after : List Member) (front back : List Member) :
      InEntry d d'
        (.object (front ++ (units "modules", .object (before ++ (key, d) :: after)) :: back))
        (.object (front ++ (units "modules", .object (before ++ (key, d') :: after)) :: back))
  | array (key : Units) (before after : List Member) (front back : List Doc)
      (place : front.length = 8) :
      InEntry d d'
        (.array (front ++ .object (before ++ (key, d) :: after) :: back))
        (.array (front ++ .object (before ++ (key, d') :: after) :: back))

inductive Reworded : Doc → Doc → Prop where
  | order {d d' : Doc} : Reordered d d' → Reworded d d'
  | field {d d' : Doc} : record.Reworded fieldDepth d d' → Reworded d d'
  | setting {d d' e e' : Doc} : ModuleConfig.record.Reworded settingDepth d d' →
      InEntry d d' e e' → Reworded e e'

theorem view_modules {d d' : Doc}
    (h : ModuleConfig.record.view (settingDepth + 1) d =
      ModuleConfig.record.view (settingDepth + 1) d')
    (key : Units) (before after : List Member) :
    modulesSlot.codec.view fieldDepth (.object (before ++ (key, d) :: after)) =
      modulesSlot.codec.view fieldDepth (.object (before ++ (key, d') :: after)) :=
  table?_congr h before after

theorem ofDoc?_inEntry {d d' e e' : Doc}
    (h : ModuleConfig.record.view (settingDepth + 1) d =
      ModuleConfig.record.view (settingDepth + 1) d')
    (hentry : InEntry d d' e e') : ofDoc? e = ofDoc? e' := by
  cases hentry with
  | object key before after front back =>
    refine Record.view_member_congr (fun s hs hkey => ?_) front back
    obtain rfl := Record.slot_eq hs modulesSlot_mem (units_inj.1 hkey).symm
    exact view_modules h key before after
  | array key before after front back place =>
    refine Record.onto_congr front (fun s hs => ?_) _ back
    have hslot : record.slots[front.length]? = some modulesSlot := by
      rw [place]
      rfl
    obtain rfl := Option.some.inj (hslot.symm.trans hs)
    exact view_modules h key before after

theorem ofDoc?_reworded {d d' : Doc} (h : Reworded d d') : ofDoc? d = ofDoc? d' := by
  cases h with
  | order h => exact Record.steady_record maxDepth _ _ h
  | field h => exact Record.view_reworded h
  | setting h hentry => exact ofDoc?_inEntry (Record.view_reworded h) hentry

theorem ofDoc?_eqvGen {d d' : Doc} (h : Relation.EqvGen Reworded d d') : ofDoc? d = ofDoc? d' := by
  induction h with
  | rel d d' h => exact ofDoc?_reworded h
  | refl d => rfl
  | symm d d' _ ih => exact ih.symm
  | trans d d' d'' _ _ ih ih' => exact ih.trans ih'

/-- What `parse` reads is read back from `Config.text`. That text, and with it `digestInput`, tells
a configuration from any other, and stays the same however the document is `Reworded` and spelled.
-/
theorem round_trip :
    (∀ s c, parse s = .ok c → c.Floatless →
      parse c.text = .ok c ∧
        ∀ s' c', parse s' = .ok c' → c'.Floatless →
          (c.text = c'.text ↔ c = c') ∧ (c.digestInput = c'.digestInput ↔ c = c')) ∧
      (∀ d d' s s', Relation.EqvGen Reworded d d' → SpellsText d s → SpellsText d' s' →
        ∀ c, parse s = .ok c ↔ parse s' = .ok c) ∧
      ∀ c : Config, c.digest = Digest.short c.digestInput := by
  refine ⟨?_, ?_, fun c => rfl⟩
  · intro s c h hfloat
    refine ⟨parse_text h hfloat, fun s' c' h' hfloat' => ?_⟩
    have htext := text_inj h h' hfloat hfloat'
    exact ⟨htext, digestInput_eq_iff.trans htext⟩
  · intro d d' s s' h hs hs' c
    rw [parse_iff hs, parse_iff hs', ofDoc?_eqvGen h]

/-- Settings of the module `vcs`, and nothing else. -/
def vcsDoc (settings : List Member) : Doc :=
  .object [(units "modules", .object [(units "vcs", .object settings)])]

def vcsText (settings : String) : String :=
  String.ofList ("\x7b\"modules\":\x7b\"vcs\":\x7b".toList ++
    (settings.toList ++ "\x7d\x7d\x7d".toList))

theorem spellsText_vcs {ms : List Member} {settings : String} {t : List Char}
    (ht : settings.toList = t) (h : SpellsMembers ms t) :
    SpellsText (vcsDoc ms) (vcsText settings) := by
  subst ht
  have hvcs : SpellsMember (units "vcs", .object ms) _ :=
    .intro (spellsUnits_units _) blanks_nil blanks_nil (.object h)
  have hmodules : SpellsMember (units "modules", .object [(units "vcs", .object ms)]) _ :=
    .intro (spellsUnits_units _) blanks_nil blanks_nil
      (.object (.cons blanks_nil hvcs (.nil blanks_nil)))
  refine ⟨[], _, [], blanks_nil, .object (.cons blanks_nil hmodules (.nil blanks_nil)),
    blanks_nil, ?_⟩
  refine String.toList_ofList.trans ?_
  simp only [List.append_assoc, List.cons_append, List.nil_append, List.append_nil]
  rfl

/-- Two options, not in the order of their keys. -/
def optionDocs : List Member :=
  [(units "b", .array [.number false ['1'], .null]), (units "a", .object [])]

def optionText : String := "\"options\":\x7b\"b\":[1,null],\"a\":\x7b\x7d\x7d"

def optionTable : Table Value := [("a", .object []), ("b", .array [.number (.int 1), .null])]

def vcsConfig : Config := { modules := [("vcs", { options := optionTable })] }

theorem spellsMembers_options :
    SpellsMembers [(units "options", .object optionDocs)] optionText.toList := by
  have hlist : SpellsMember (units "b", .array [.number false ['1'], .null]) _ :=
    .intro (spellsUnits_units _) blanks_nil blanks_nil (.array (.cons blanks_nil
      (.positive (unsigned_decimal 1)) (.cons blanks_nil blanks_nil .null (.nil blanks_nil))))
  have hempty : SpellsMember (units "a", .object []) _ :=
    .intro (spellsUnits_units _) blanks_nil blanks_nil (.object (.nil blanks_nil))
  have hoptions : SpellsMember (units "options", .object optionDocs) _ :=
    .intro (spellsUnits_units _) blanks_nil blanks_nil (.object (.cons blanks_nil hlist
      (.cons blanks_nil blanks_nil hempty (.nil blanks_nil))))
  exact .cons blanks_nil hoptions (.nil blanks_nil)

theorem view_options : ModuleConfig.optionsSlot.codec.view settingDepth (.object optionDocs) =
    some optionTable := by
  have hone : number? false ['1'] = some (.int 1) :=
    number?_int (z := 1) ⟨by decide, by decide⟩
  -- the values lie one level below the table of options
  have hlist : value? 123 (.array [.number false ['1'], .null]) =
      some (.array [.number (.int 1), .null]) := by
    simp [value?, hone]
  have hempty : value? 123 (.object []) = some (.object []) := by rfl
  refine (Codec.view_table .value 123 optionDocs).trans ?_
  rw [table?_eq]
  unfold Codec.value
  simp only [optionDocs, List.mapM_cons, pair?, text?_units, hlist, hempty]
  rfl

theorem ofDoc?_vcs :
    ofDoc? (vcsDoc [(units "options", .object optionDocs)]) = some vcsConfig := by
  have hentry : ModuleConfig.record.view (settingDepth + 1)
      (.object [(units "options", .object optionDocs)]) = some { options := optionTable } :=
    Record.view_field ModuleConfig.optionsSlot_mem view_options
  have hmodules := (Codec.view_table ModuleConfig.record.codec (settingDepth + 1) _).trans
    (table?_single hentry "vcs")
  exact Record.view_field modulesSlot_mem hmodules

/-- The member `"parallel": false`, alone. -/
def sequentialDoc : Doc := .object [(units "parallel", .bool false)]

/-- The same behind an unknown key and a table of modules that is empty anyway. -/
def wordyDoc : Doc :=
  .object [(units "later", .array []), (units "modules", .object []),
    (units "parallel", .bool false)]

def sequentialText : String := "\x7b\"parallel\":false\x7d"

def wordyText : String :=
  "\x7b\"later\":[ ],\n\"modules\":\x7b\x7d,\"\\u0070arallel\":false\x7d "

theorem spellsText_sequential : SpellsText sequentialDoc sequentialText :=
  ⟨[], _, [], blanks_nil,
    .object (.cons blanks_nil (.intro (spellsUnits_units _) blanks_nil blanks_nil .false)
      (.nil blanks_nil)), blanks_nil, by rfl⟩

theorem spellsText_wordy : SpellsText wordyDoc wordyText := by
  have hp : SpellsUnits (units "parallel") _ :=
    .hex (a := '0') (b := '0') (c := '7') (d := '0') (by rfl) (spellsUnits_units "arallel")
  have hspace : Blanks [' '] := by simp [Blanks, isBlank]
  have hbreak : Blanks ['\n'] := by simp [Blanks, isBlank]
  have hlater : SpellsMember (units "later", .array []) _ :=
    .intro (spellsUnits_units _) blanks_nil blanks_nil (.array (.nil hspace))
  have hmodules : SpellsMember (units "modules", .object []) _ :=
    .intro (spellsUnits_units _) blanks_nil blanks_nil (.object (.nil blanks_nil))
  have hparallel : SpellsMember (units "parallel", .bool false) _ :=
    .intro hp blanks_nil blanks_nil .false
  exact ⟨[], _, [' '], blanks_nil, .object (.cons blanks_nil hlater
    (.cons blanks_nil hbreak hmodules
      (.cons blanks_nil blanks_nil hparallel (.nil blanks_nil)))), hspace, rfl⟩

theorem reworded_wordy : Relation.EqvGen Reworded sequentialDoc wordyDoc := by
  have hunknown : record.Idle fieldDepth [(units "parallel", .bool false)]
      (units "later", .array []) :=
    .unknown _ (by simp [record, slots, modulesSlot])
  have hgiven : given modulesSlot.name
      [(units "later", .array []), (units "parallel", .bool false)] = [] :=
    given_eq_nil (by simp [units_inj, modulesSlot])
  have hinitial : record.Idle fieldDepth
      [(units "later", .array []), (units "parallel", .bool false)]
      (units "modules", .object []) :=
    .initial modulesSlot_mem hgiven rfl
  have hdifferent : units "modules" ≠ units "later" := by simp [units_inj]
  have hlater := Reworded.field (.member [] _ hunknown)
  have hmodules := Reworded.field (.member [] _ hinitial)
  have hswap : Reworded _ wordyDoc :=
    .order (.swap [] [(units "parallel", .bool false)] hdifferent)
  exact .trans _ _ _ (.rel _ _ hlater) (.trans _ _ _ (.rel _ _ hmodules) (.rel _ _ hswap))

theorem floatless_vcs : vcsConfig.Floatless := by
  intro e he o ho hfloat
  obtain rfl := List.mem_singleton.1 he
  rcases List.mem_pair.1 ho with rfl | rfl
  · cases hfloat with
    | member hm _ => cases hm
  · cases hfloat with
    | item hv hfloat =>
      rcases List.mem_pair.1 hv with rfl | rfl <;> cases hfloat

theorem round_trip_wordy :
    parse (vcsText optionText) = .ok vcsConfig ∧ vcsConfig.Floatless ∧
      parse vcsConfig.text = .ok vcsConfig ∧
      Relation.EqvGen Reworded sequentialDoc wordyDoc ∧ SpellsText sequentialDoc sequentialText ∧
      SpellsText wordyDoc wordyText ∧ parse wordyText = .ok { parallel := false } ∧
      vcsConfig.digestInput ≠ ({ parallel := false } : Config).digestInput := by
  have hvcs : parse (vcsText optionText) = .ok vcsConfig := 
    (parse_iff (spellsText_vcs rfl spellsMembers_options)).2 ofDoc?_vcs
  have hsequential : parse sequentialText = .ok { parallel := false } := by rfl
  have hwordy : parse wordyText = .ok { parallel := false } :=
    (round_trip.2.1 _ _ _ _ reworded_wordy spellsText_sequential spellsText_wordy _).1 hsequential
  obtain ⟨htext, hother⟩ := round_trip.1 _ _ hvcs floatless_vcs
  have hdigest := (hother _ _ hwordy (by simp [Floatless])).2
  refine ⟨hvcs, floatless_vcs, htext, reworded_wordy, spellsText_sequential, spellsText_wordy,
    hwordy, fun heq => ?_⟩
  have hparallel : vcsConfig.parallel = false := congrArg parallel (hdigest.1 heq)
  cases hparallel

end Config
end ShellPrompt
