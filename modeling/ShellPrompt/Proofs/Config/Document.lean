import ShellPrompt.Config.Reading
import ShellPrompt.Proofs.Json.Rewording

/-!
# ShellPrompt.Proofs.Config.Document

Configurations as records of JSON. What is parsed from a text is what its document holds
(`Config.parse_iff`), and what is printed is what the records print (`print_record`).
-/

namespace ShellPrompt

open Json

/-! ## Module settings -/

namespace ModuleConfig

theorem string_write_ne_null (s : String) : Codec.string.write s ≠ .null := nofun

theorem int32_write_ne_null (n : Int32) : Codec.int32.write n ≠ .null := nofun

def optionsSlot : Slot ModuleConfig :=
  ⟨"options", .table .value, options, fun c v => { c with options := v }⟩

def slots : List (Slot ModuleConfig) := [
  ⟨"enabled", .bool, enabled, fun c v => { c with enabled := v }⟩,
  ⟨"style", .option .string string_write_ne_null, style, fun c v => { c with style := v }⟩,
  ⟨"priority", .option .int32 int32_write_ne_null, priority, fun c v => { c with priority := v }⟩,
  optionsSlot]

theorem get_set : ∀ s ∈ slots, ∀ a b, s.get (s.set a b) = b := by simp [slots, optionsSlot]

theorem get_set_of_ne : ∀ s ∈ slots, ∀ s' ∈ slots, s'.name ≠ s.name →
    ∀ a b, s'.get (s.set a b) = s'.get a := by simp [slots, optionsSlot]

theorem eq_of_slots (c c' : ModuleConfig) (h : ∀ s ∈ slots, s.get c = s.get c') : c = c' := by
  simp only [slots, optionsSlot, List.forall_mem_cons] at h
  cases c
  cases c'
  simp_all

theorem depth_slots : ∀ s ∈ slots, s.codec.depth ≤ 1 := by
  simp [slots, optionsSlot, Codec.bool, Codec.option, Codec.string, Codec.int32, Codec.integer,
    Codec.table, Codec.value]

theorem default_returns (n : Nat) (hn : 1 ≤ n) : ∀ s ∈ slots, s.Returns n {} := by
  intro s hs _
  obtain ⟨n, rfl⟩ : ∃ m, n = m + 1 := ⟨n - 1, by omega⟩
  simp only [slots, List.mem_cons, List.not_mem_nil, or_false] at hs
  rcases hs with rfl | rfl | rfl | rfl <;> rfl

def record : Record ModuleConfig where
  title := "ModuleConfig"
  slots := slots
  initial := {}
  distinct := by decide
  get_set := get_set
  get_set_of_ne := get_set_of_ne
  ext := eq_of_slots
  depth := 1
  depth_le := depth_slots
  initial_returns := default_returns

theorem optionsSlot_mem : optionsSlot ∈ record.slots := by simp [record, slots]

theorem fields_record : record.fields = Config.moduleFields := rfl

theorem read_record : record.read = Config.readModule := rfl

theorem print_record (c : ModuleConfig) : record.print c = Config.printModule c := by
  obtain ⟨enabled, style, priority, options⟩ := c
  have hoptions : (Codec.table .value).print options = (Value.object options).print :=
    (Value.print_object options).symm
  unfold Config.printModule
  rw [← hoptions]
  cases style <;> cases priority <;> rfl

end ModuleConfig

namespace Config

/-! ## Configurations -/

theorem lookup_dialect (d : Style.Dialect) : dialects.lookup d.name = some d := by
  cases d <;> rfl

def modulesSlot : Slot Config :=
  ⟨"modules", .table ModuleConfig.record.codec, modules, fun c v => { c with modules := v }⟩

def slots : List (Slot Config) := [
  ⟨"left", .strings, left, fun c v => { c with left := v }⟩,
  ⟨"right", .strings, right, fun c v => { c with right := v }⟩,
  ⟨"bottom", .strings, bottom, fun c v => { c with bottom := v }⟩,
  ⟨"separator", .string, separator, fun c v => { c with separator := v }⟩,
  ⟨"dialect", .name dialects Style.Dialect.name lookup_dialect, dialect,
    fun c v => { c with dialect := v }⟩,
  ⟨"parallel", .bool, parallel, fun c v => { c with parallel := v }⟩,
  ⟨"module_timeout_ms", .uint64, moduleTimeoutMs, fun c v => { c with moduleTimeoutMs := v }⟩,
  ⟨"styles", .table .string, styles, fun c v => { c with styles := v }⟩,
  modulesSlot]

theorem get_set : ∀ s ∈ slots, ∀ a b, s.get (s.set a b) = b := by simp [slots, modulesSlot]

theorem get_set_of_ne : ∀ s ∈ slots, ∀ s' ∈ slots, s'.name ≠ s.name →
    ∀ a b, s'.get (s.set a b) = s'.get a := by simp [slots, modulesSlot]

theorem eq_of_slots (c c' : Config) (h : ∀ s ∈ slots, s.get c = s.get c') : c = c' := by
  simp only [slots, modulesSlot, List.forall_mem_cons] at h
  cases c
  cases c'
  simp_all

theorem depth_slots : ∀ s ∈ slots, s.codec.depth ≤ 3 := by
  simp [slots, Codec.strings, Codec.string, Codec.name, Codec.bool, Codec.uint64, Codec.integer,
    Codec.table, Record.codec, ModuleConfig.record, modulesSlot]

theorem default_returns (n : Nat) (hn : 3 ≤ n) : ∀ s ∈ slots, s.Returns n {} := by
  intro s hs _
  obtain ⟨n, rfl⟩ : ∃ m, n = m + 1 := ⟨n - 1, by omega⟩
  simp only [slots, List.mem_cons, List.not_mem_nil, or_false] at hs
  rcases hs with rfl | rfl | rfl | rfl | rfl | rfl | rfl | rfl | rfl
  · exact Codec.viewStrings_write n _
  · exact Codec.viewStrings_write n _
  · exact Codec.viewStrings_write n _
  · exact text?_units " "
  · exact Codec.viewName_write (lookup_dialect .ansi) (n + 1)
  · rfl
  · exact Codec.view_uint64 (n + 1) 200
  · rfl
  · rfl

def record : Record Config where
  title := "PromptConfig"
  slots := slots
  initial := {}
  distinct := by decide
  get_set := get_set
  get_set_of_ne := get_set_of_ne
  ext := eq_of_slots
  depth := 3
  depth_le := depth_slots
  initial_returns := default_returns

theorem modulesSlot_mem : modulesSlot ∈ record.slots := by simp [record, slots]

theorem fields_record : record.fields = fields := rfl

theorem read_record : record.read maxDepth = readConfig := rfl

theorem print_record (c : Config) : record.print c = c.print := by
  have hmodules : (Codec.table ModuleConfig.record.codec).print c.modules =
      printObject (c.modules.map fun e => (e.1, printModule e.2)) :=
    congrArg printObject (List.map_congr_left fun e _ => by
      rw [← ModuleConfig.print_record]
      rfl)
  unfold print
  rw [← hmodules]
  rfl

/-! ## Parsing -/

/-- The configuration a document holds. -/
def ofDoc? (d : Doc) : Option Config := record.view maxDepth d

theorem parse_eq_ok_iff {text : String} {c : Config} :
    parse text = .ok c ↔ whole readConfig text.toList = .ok c := by
  unfold parse
  cases whole readConfig text.toList <;> simp

/-- A text is parsed to what its document holds. -/
theorem parse_iff {d : Doc} {text : String} (h : SpellsText d text) {c : Config} :
    parse text = .ok c ↔ ofDoc? d = some c := by
  rw [parse_eq_ok_iff, ← read_record, ← toOption_eq_some_iff,
    toOption_whole (Record.reads_record maxDepth) h]
  rfl

end Config
end ShellPrompt
