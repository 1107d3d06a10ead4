import ShellPrompt.Proofs.Config.RoundTrip

/-!
# ShellPrompt.Proofs.Config.Members

What one more member, or one fewer, does to a configuration. A member under a key that is no field,
be it of the configuration or of a module's settings, changes nothing if its key is a text, and the
text is refused otherwise: keys are read before they are found to be unknown. Its value is passed
over, whatever it is. A field whose member is taken away goes back to its default, alone.
`frame` states this for every place and every document.
-/

namespace ShellPrompt
namespace Config

open Json

/-- A document that has these members as the settings of a module, everything else given. -/
def settingsIn (front back before after : List Member) (name : String) (settings : List Member) :
    Doc :=
  .object (front ++
    (units "modules", .object (before ++ (units name, .object settings) :: after)) :: back)

theorem ofDoc?_insert_field {key : Units} (hkey : ∀ f ∈ fields, key ≠ units f.name) {d : Doc}
    {before after : List Member} {c : Config} :
    ofDoc? (.object (before ++ (key, d) :: after)) = some c ↔
      ofDoc? (.object (before ++ after)) = some c ∧ ∃ text, key = units text :=
  Record.view_insert_iff (r := record) hkey

section Settings

variable {front back before after : List Member} {name : String}

/-- The settings of a module that has an entry are what its members say. -/
theorem ofDoc?_settingsIn {ms : List Member} {c : Config}
    (hname : ∀ m ∈ after, m.1 ≠ units name)
    (h : ofDoc? (settingsIn front back before after name ms) = some c) :
    ∃ m, ModuleConfig.record.view (settingDepth + 1) (.object ms) = some m ∧
      c.module? name = some m ∧ ∀ ms' m',
        ModuleConfig.record.view (settingDepth + 1) (.object ms') = some m' →
        ofDoc? (settingsIn front back before after name ms') =
          some { c with modules := Table.insert name m' c.modules } := by
  obtain ⟨-, htable⟩ := Record.view_member modulesSlot_mem h
  obtain ⟨m, hm, hget, hreplace⟩ := table?_member hname htable
  refine ⟨m, hm, hget, fun ms' m' hm' => ?_⟩
  exact Record.view_replace modulesSlot_mem h (hreplace _ m' hm')

theorem ofDoc?_insert_setting {key : Units} (hkey : ∀ f ∈ moduleFields, key ≠ units f.name)
    {d : Doc} {ms ms' : List Member} {c : Config} :
    ofDoc? (settingsIn front back before after name (ms ++ (key, d) :: ms')) = some c ↔
      ofDoc? (settingsIn front back before after name (ms ++ ms')) = some c ∧
        ∃ text, key = units text := by
  -- the settings with the member are those without it, as soon as the key is a text
  have hview : ∀ text, key = units text →
      ofDoc? (settingsIn front back before after name (ms ++ (key, d) :: ms')) =
        ofDoc? (settingsIn front back before after name (ms ++ ms')) := by
    intro text htext
    have hsettings : ModuleConfig.record.view (settingDepth + 1) (.object (ms ++ (key, d) :: ms')) =
        ModuleConfig.record.view (settingDepth + 1) (.object (ms ++ ms')) := by
      apply Option.ext
      intro m
      rw [Record.view_insert_iff hkey, and_iff_left ⟨text, htext⟩]
    exact ofDoc?_inEntry hsettings (.object (units name) before after front back)
  constructor
  · intro h
    obtain ⟨-, htable⟩ := Record.view_member modulesSlot_mem h
    obtain ⟨m, hm⟩ := exists_view_of_table? htable
    obtain ⟨-, text, htext⟩ := (Record.view_insert_iff hkey).1 hm
    exact ⟨hview text htext ▸ h, text, htext⟩
  · rintro ⟨h, text, htext⟩
    rw [hview text htext, h]

end Settings

/-- To `parse`, a member whose key is the name of none of the `fields` or `moduleFields` changes
nothing, unless its key is no text. Without a member of one of the `slots` its field is left at the
default and all others alone. -/
theorem frame :
    (∀ before after key d s s' c, (∀ f ∈ fields, key ≠ units f.name) →
      SpellsText (.object (before ++ after)) s →
      SpellsText (.object (before ++ (key, d) :: after)) s' → parse s = .ok c →
      ∀ c', parse s' = .ok c' ↔ c' = c ∧ ∃ text, key = units text) ∧
    (∀ front back before after name ms ms' key d s s' c,
      (∀ f ∈ moduleFields, key ≠ units f.name) →
      SpellsText (settingsIn front back before after name (ms ++ ms')) s →
      SpellsText (settingsIn front back before after name (ms ++ (key, d) :: ms')) s' →
      parse s = .ok c → ∀ c', parse s' = .ok c' ↔ c' = c ∧ ∃ text, key = units text) ∧
    (∀ slot ∈ slots, ∀ before after d s s' c,
      SpellsText (.object (before ++ (units slot.name, d) :: after)) s →
      SpellsText (.object (before ++ after)) s' → parse s = .ok c →
      parse s' = .ok (slot.set c (slot.get {}))) ∧
    (∀ slot ∈ ModuleConfig.slots, ∀ front back before after name ms ms' d s s' c,
      (∀ m ∈ before ++ after, m.1 ≠ units name) →
      SpellsText (settingsIn front back before after name (ms ++ (units slot.name, d) :: ms')) s →
      SpellsText (settingsIn front back before after name (ms ++ ms')) s' → parse s = .ok c →
      ∃ m, c.module? name = some m ∧ parse s' = .ok { c with
        modules := Table.insert name (slot.set m (slot.get {})) c.modules }) := by
  refine ⟨?_, ?_, ?_, ?_⟩
  · intro before after key d s s' c hkey hs hs' hc c'
    rw [parse_iff hs] at hc
    rw [parse_iff hs', ofDoc?_insert_field hkey, hc]
    refine and_congr_left fun _ => ?_
    exact ⟨fun h => (Option.some.inj h).symm, fun h => congrArg some h.symm⟩
  · intro front back before after name ms ms' key d s s' c hkey hs hs' hc c'
    rw [parse_iff hs] at hc
    rw [parse_iff hs', ofDoc?_insert_setting hkey, hc]
    refine and_congr_left fun _ => ?_
    exact ⟨fun h => (Option.some.inj h).symm, fun h => congrArg some h.symm⟩
  · intro slot hslot before after d s s' c hs hs' hc
    rw [parse_iff hs] at hc
    rw [parse_iff hs']
    exact Record.view_erase hslot hc
  · intro slot hslot front back before after name ms ms' d s s' c hname hs hs' hc
    rw [parse_iff hs] at hc
    have hlater : ∀ m ∈ after, m.1 ≠ units name := fun m hm =>
      hname m (List.mem_append_right _ hm)
    obtain ⟨m, hm, hget, hreplace⟩ := ofDoc?_settingsIn hlater hc
    refine ⟨m, hget, (parse_iff hs').2 (hreplace _ _ ?_)⟩
    exact Record.view_erase hslot hm

theorem units_ne_of_notMem {α : Type} {fields : List (RecordField α)} {key : String}
    (h : key ∉ fields.map RecordField.name) : ∀ f ∈ fields, units key ≠ units f.name := by
  intro f hf heq
  exact h (List.mem_map.2 ⟨f, hf, (units_inj.1 heq).symm⟩)

def disabledVcs : Config := { modules := [("vcs", { enabled := false })] }

/-- The setting is one that was unknown, or the only one, and in the end the table goes. -/
theorem frame_vcs :
    parse (vcsText "\"enabled\":false") = .ok disabledVcs ∧
      parse (vcsText "\"width\":1e999,\"enabled\":false") = .ok disabledVcs ∧
      parse (vcsText "") = .ok { modules := [("vcs", {})] } ∧
      parse "\x7b\x7d" = .ok {} := by
  have hmore : AllDigits ['9', '9'] := by simp [AllDigits]
  have hpower : Power ['e', '9', '9', '9'] := .power (c := '9') (.inl rfl) .none rfl hmore
  have hlarge : Unsigned ['1', 'e', '9', '9', '9'] := .parts (whole_decimal 1) .none hpower
  have hwidth : SpellsMember (units "width", .number false ['1', 'e', '9', '9', '9']) _ :=
    .intro (spellsUnits_units _) blanks_nil blanks_nil (.positive hlarge)
  have henabled : SpellsMember (units "enabled", .bool false) _ :=
    .intro (spellsUnits_units _) blanks_nil blanks_nil .false
  have hone : SpellsText (vcsDoc [(units "enabled", .bool false)])
      (vcsText "\"enabled\":false") :=
    spellsText_vcs (by rfl) (.cons blanks_nil henabled (.nil blanks_nil))
  have htwo : SpellsText (vcsDoc [(units "width", _), (units "enabled", .bool false)])
      (vcsText "\"width\":1e999,\"enabled\":false") :=
    spellsText_vcs (by rfl)
      (.cons blanks_nil hwidth (.cons blanks_nil blanks_nil henabled (.nil blanks_nil)))
  have hnone : SpellsText (vcsDoc []) (vcsText "") := spellsText_vcs (by rfl) (.nil blanks_nil)
  have hempty : SpellsText (.object []) "\x7b\x7d" :=
    ⟨[], _, [], blanks_nil, .object (.nil blanks_nil), blanks_nil, rfl⟩
  have hunknown : ∀ f ∈ moduleFields, units "width" ≠ units f.name :=
    units_ne_of_notMem (by decide)
  have hparse : parse (vcsText "\"enabled\":false") = .ok disabledVcs := by rfl
  obtain ⟨-, hinsert, herase, herase'⟩ := frame
  refine ⟨hparse, ?_, ?_, ?_⟩
  · exact (hinsert [] [] [] [] "vcs" [] _ _ _ _ _ _ hunknown hone htwo hparse _).2 ⟨rfl, _, rfl⟩
  · obtain ⟨m, hm, hparse'⟩ := herase' _ (List.mem_of_getElem? (i := 0) rfl) [] [] [] [] "vcs" [] []
      _ _ _ _ (by simp) hone hnone hparse
    cases hm
    exact hparse'
  · exact herase modulesSlot modulesSlot_mem [] [] _ _ _ _ hone hempty hparse

/-- A member whose key is a high surrogate that stands alone. -/
def halfKeyed : Member := ([0xD800], .number false ['1'])

def halfKeyedText : String := "\x7b\"\\ud800\":1\x7d"

theorem spellsText_halfKeyed : SpellsText (.object [halfKeyed]) halfKeyedText := by
  have hkey : SpellsUnits [0xD800] _ :=
    .hex (a := 'd') (b := '8') (c := '0') (d := '0') (by rfl) .nil
  have hmember : SpellsMember halfKeyed _ :=
    .intro hkey blanks_nil blanks_nil (.positive (unsigned_decimal 1))
  exact ⟨[], _, [], blanks_nil, .object (.cons blanks_nil hmember (.nil blanks_nil)), blanks_nil,
    rfl⟩

theorem halfKeyed_ne (text : String) : halfKeyed.1 ≠ units text := by
  intro heq
  have htext : text? halfKeyed.1 = none := by rfl
  rw [heq, text?_units] at htext
  cases htext

/-- Nothing is said under the key of no field, and yet it is refused. -/
theorem lone_surrogate_is_refused :
    SpellsText (.object []) "\x7b\x7d" ∧ parse "\x7b\x7d" = .ok {} ∧
      (∀ f ∈ fields, halfKeyed.1 ≠ units f.name) ∧
      SpellsText (.object [halfKeyed]) halfKeyedText ∧ ∀ c, parse halfKeyedText ≠ .ok c := by
  have hunknown : ∀ f ∈ fields, halfKeyed.1 ≠ units f.name := fun f _ => halfKeyed_ne f.name
  refine ⟨⟨[], _, [], blanks_nil, .object (.nil blanks_nil), blanks_nil, rfl⟩, by rfl, hunknown,
    spellsText_halfKeyed, fun c hc => ?_⟩
  have hdoc : ofDoc? (.object ([] ++ halfKeyed :: [])) = some c :=
    (parse_iff spellsText_halfKeyed).1 hc
  obtain ⟨-, text, htext⟩ := (ofDoc?_insert_field hunknown).1 hdoc
  exact halfKeyed_ne text htext

end Config
end ShellPrompt
