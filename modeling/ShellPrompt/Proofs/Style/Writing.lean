import ShellPrompt.Proofs.Style.StyleWords

/-!
# ShellPrompt.Proofs.Style.Writing

Styles written as words, and read back.

* `Has`: what there is to say of a style. A style is what it has (`eq_of_has`).
* `Writes`: words, in any letter case, that say all of it and nothing else, whatever their order
  and however often.
* `parse_written`: laid out with blanks they are read as the style they write.
-/

namespace ShellPrompt
namespace Style

namespace Descriptor

open Item (Spelled)

def Has (d : Descriptor) : Item → Prop
  | .bold => d.bold = true
  | .dimmed => d.dimmed = true
  | .italic => d.italic = true
  | .underline => d.underline = true
  | .clear => False
  | .fg c => d.fg = some c
  | .bg c => d.bg = some c

theorem not_has_plain (item : Item) : ¬ plain.Has item := by
  cases item <;> simp [Has, plain]

theorem eq_of_has {d e : Descriptor} (h : ∀ item, d.Has item ↔ e.Has item) : d = e := by
  have hfg : d.fg = e.fg := Option.ext fun c => h (.fg c)
  have hbg : d.bg = e.bg := Option.ext fun c => h (.bg c)
  have hbold : d.bold = e.bold := Bool.eq_iff_iff.2 (h .bold)
  have hdimmed : d.dimmed = e.dimmed := Bool.eq_iff_iff.2 (h .dimmed)
  have hitalic : d.italic = e.italic := Bool.eq_iff_iff.2 (h .italic)
  have hunderline : d.underline = e.underline := Bool.eq_iff_iff.2 (h .underline)
  cases d
  cases e
  simp_all

/-- No colour is replaced by another as long as all that is said belongs to one style. -/
theorem has_put {d e : Descriptor} {item : Item} (hitem : e.Has item)
    (hd : ∀ other, d.Has other → e.Has other) (other : Item) :
    (item.put d).Has other ↔ other = item ∨ d.Has other := by
  have hcolour : ∀ {x y : Option Colour} {c c' : Colour}, y = some c → (x = some c' → y = some c') →
      (some c = some c' ↔ c' = c ∨ x = some c') := by
    rintro x _ c c' rfl hx
    rw [Option.some.injEq] at hx ⊢
    exact ⟨fun heq => .inl heq.symm, fun h => h.elim Eq.symm hx⟩
  cases item with
  | clear => exact hitem.elim
  | bold | dimmed | italic | underline => cases other <;> simp [Has, Item.put]
  | fg c =>
    cases other with
    | fg c' => simpa [Has, Item.put] using hcolour hitem (hd (.fg c'))
    | bold | dimmed | italic | underline | clear | bg c' => simp [Has, Item.put]
  | bg c =>
    cases other with
    | bg c' => simpa [Has, Item.put] using hcolour hitem (hd (.bg c'))
    | bold | dimmed | italic | underline | clear | fg c' => simp [Has, Item.put]

theorem has_foldl_put {d e : Descriptor} {items : List Item} (hitems : ∀ item ∈ items, e.Has item)
    (hd : ∀ other, d.Has other → e.Has other) (other : Item) :
    (items.foldl Item.put d).Has other ↔ other ∈ items ∨ d.Has other := by
  induction items generalizing d with
  | nil => simp
  | cons item rest ih =>
    obtain ⟨hitem, hrest⟩ := List.forall_mem_cons.1 hitems
    have hput := has_put hitem hd
    have hnext : ∀ other, (item.put d).Has other → e.Has other := by
      intro other hother
      rcases (hput other).1 hother with rfl | hother
      · exact hitem
      · exact hd other hother
    rw [List.foldl_cons, ih hrest hnext, hput, List.mem_cons]
    tauto

/-- Neither the order in which a style is said counts nor how often. -/
theorem foldl_put_eq {d : Descriptor} {items : List Item}
    (h : ∀ item, item ∈ items ↔ d.Has item) : items.foldl Item.put plain = d := by
  refine eq_of_has fun item => ?_
  rw [has_foldl_put (fun item => (h item).1) (fun other hother => absurd hother
    (not_has_plain other)), h]
  simp [not_has_plain]

/-! ## Words for a style -/

/-- Words that say of a style what it has. Each may be any word for that, in any letter case. -/
structure Writes (d : Descriptor) (ws : List (List Char)) : Prop where
  sound : ∀ word ∈ ws, ∃ item, d.Has item ∧ Spelled (word.map Char.toLower) item
  complete : ∀ item, d.Has item → ∃ word ∈ ws, Spelled (word.map Char.toLower) item

theorem spellsByte_hexByte (b : UInt8) :
    Colour.SpellsByte ((Text.Numeral.hexByte b).map Char.toLower) b := by
  have hchar : ∀ n < 16, Text.Numeral.hexDigit? (Text.Numeral.hexChar n) = some n := by decide
  have hlt := b.toNat_lt
  refine ⟨_, _, b.toNat / 16, b.toNat % 16, rfl, ?_, ?_, (Nat.div_add_mod ..).symm⟩
  · rw [Colour.hexDigit?_toLower, hchar _ (by omega)]
  · rw [Colour.hexDigit?_toLower, hchar _ (by omega)]

theorem toLower_of_isDigit {c : Char} (h : c.isDigit = true) : c.toLower = c := by
  have hdigit : 0x30 ≤ c.toNat ∧ c.toNat ≤ 0x39 := Char.isDigit_iff_toNat.1 h
  rw [← Char.toNat_inj, Text.toNat_toLower, if_neg (by omega)]

theorem spellsIndex_decimal (i : UInt8) :
    Colour.SpellsIndex ((Text.Numeral.decimal i.toNat).map Char.toLower) i := by
  have hdigits : ∀ c ∈ Text.Numeral.decimal i.toNat, c.isDigit = true := fun c hc =>
    Nat.isDigit_of_mem_toDigits (by decide) (by decide) hc
  rw [List.map_congr_left fun c hc => toLower_of_isDigit (hdigits c hc), List.map_id']
  exact ⟨Nat.toDigits_ne_nil, hdigits, Nat.ofDigitChars_ten_toDigits⟩

theorem exists_spelled_colour {c : Colour} (h : c ≠ .reset) :
    ∃ word : List Char, Colour.Spelled (word.map Char.toLower) c := by
  cases c with
  | reset => exact absurd rfl h
  | named hue bright =>
    have hname : ∃ name ∈ hue.names,
        ((if bright then "bright-" else "") ++ name).toList.map Char.toLower =
          ((if bright then "bright-" else "") ++ name).toList := by
      cases hue <;> cases bright <;> decide
    obtain ⟨name, hmem, hlower⟩ := hname
    exact ⟨_, hlower ▸ Colour.Spelled.name hmem⟩
  | palette i => exact ⟨_, .index (spellsIndex_decimal i)⟩
  | rgb r g b =>
    refine ⟨'#' :: (Text.Numeral.hexByte r ++ Text.Numeral.hexByte g ++ Text.Numeral.hexByte b), ?_⟩
    rw [List.map_cons, List.map_append, List.map_append]
    exact .hex (spellsByte_hexByte r) (spellsByte_hexByte g) (spellsByte_hexByte b)

theorem exists_spelled {item : Item} (hclear : item ≠ .clear) (hfg : item ≠ .fg .reset)
    (hbg : item ≠ .bg .reset) : ∃ word : List Char, Spelled (word.map Char.toLower) item := by
  cases item with
  | bold => exact ⟨"bold".toList, .inl ⟨"bold", by decide, rfl⟩⟩
  | dimmed => exact ⟨"dim".toList, .inl ⟨"dim", by decide, rfl⟩⟩
  | italic => exact ⟨"italic".toList, .inl ⟨"italic", by decide, rfl⟩⟩
  | underline => exact ⟨"underline".toList, .inl ⟨"underline", by decide, rfl⟩⟩
  | clear => exact absurd rfl hclear
  | fg c =>
    obtain ⟨word, hword⟩ := exists_spelled_colour (c := c) (by rintro rfl; exact hfg rfl)
    exact ⟨word, .inr (.bare hword)⟩
  | bg c =>
    obtain ⟨word, hword⟩ := exists_spelled_colour (c := c) (by rintro rfl; exact hbg rfl)
    exact ⟨"bg:".toList ++ word, .inr (by rw [List.map_append]; exact .bg hword)⟩

theorem not_spelled_reset (word : List Char) :
    ¬ Spelled word (.fg .reset) ∧ ¬ Spelled word (.bg .reset) := by
  have hkeyword : ∀ e ∈ Item.keywords, e.2 ≠ .fg .reset ∧ e.2 ≠ .bg .reset := by decide
  have hcolour : ∀ word, ¬ Colour.Spelled word .reset := fun _ => nofun
  constructor
  · rintro (⟨k, hk, -⟩ | h)
    · exact (hkeyword _ hk).1 rfl
    · cases h with
      | bare hc => exact hcolour _ hc
      | fg hc => exact hcolour _ hc
  · rintro (⟨k, hk, -⟩ | h)
    · exact (hkeyword _ hk).2 rfl
    · cases h with
      | bg hc => exact hcolour _ hc

/-- All that a style has. -/
theorem exists_items (d : Descriptor) : ∃ items : List Item, ∀ item, item ∈ items ↔ d.Has item := by
  let items : List Item := [.bold, .dimmed, .italic, .underline] ++ (d.fg.map .fg).toList ++
    (d.bg.map .bg).toList
  have hitems : ∀ item, d.Has item → item ∈ items := by
    intro item hhas
    cases item <;> simp_all [Has, items]
  classical
  refine ⟨items.filter fun item => decide (d.Has item), fun item => ?_⟩
  rw [List.mem_filter, decide_eq_true_iff, and_iff_right_iff_imp]
  exact hitems item

/-- There are words for every style but those whose colour is the default of the terminal. -/
theorem exists_writes_iff (d : Descriptor) :
    (∃ ws, Writes d ws) ↔ d.fg ≠ some .reset ∧ d.bg ≠ some .reset := by
  constructor
  · rintro ⟨ws, h⟩
    constructor
    · intro hfg
      obtain ⟨word, -, hspelled⟩ := h.complete (.fg .reset) hfg
      exact (not_spelled_reset _).1 hspelled
    · intro hbg
      obtain ⟨word, -, hspelled⟩ := h.complete (.bg .reset) hbg
      exact (not_spelled_reset _).2 hspelled
  · rintro ⟨hfg, hbg⟩
    have hword : ∀ item, ∃ word : List Char, d.Has item → Spelled (word.map Char.toLower) item := by
      intro item
      by_cases hhas : d.Has item
      · have hclear : item ≠ .clear := by rintro rfl; exact hhas
        obtain ⟨word, hword⟩ := exists_spelled hclear (by rintro rfl; exact hfg hhas)
          (by rintro rfl; exact hbg hhas)
        exact ⟨word, fun _ => hword⟩
      · exact ⟨[], fun h => absurd h hhas⟩
    choose word hword using hword
    obtain ⟨items, hitems⟩ := exists_items d
    refine ⟨items.map word, ?_, ?_⟩
    · intro w hw
      obtain ⟨item, hitem, rfl⟩ := List.mem_map.1 hw
      have hhas := (hitems item).1 hitem
      exact ⟨item, hhas, hword item hhas⟩
    · intro item hhas
      exact ⟨word item, List.mem_map_of_mem ((hitems item).2 hhas), hword item hhas⟩

/-! ## Reading them back -/

theorem isWord_lower {word : List Char} :
    Text.IsWord (word.map Char.toLower) ↔ Text.IsWord word := by
  simp [Text.IsWord, Text.Unbroken, Text.isBlank_toLower]

theorem isWord_of_spelled_colour {word : List Char} {c : Colour} (h : Colour.Spelled word c) :
    Text.IsWord word := by
  refine ⟨?_, fun ch hch => (h.isWordChar ch hch).isBlank⟩
  cases h with
  | hex => exact List.cons_ne_nil _ _
  | index hi => exact hi.1
  | name hname =>
    obtain ⟨ch, rest, hword, -⟩ := Colour.exists_letter _ hname
    exact hword ▸ List.cons_ne_nil _ _

theorem isWord_of_spelled {word : List Char} {item : Item} (h : Spelled word item) :
    Text.IsWord word := by
  rcases h with ⟨k, hk, rfl⟩ | h
  · have hall : ∀ e ∈ Item.keywords, Text.IsWord e.1.toList := by decide
    exact hall _ hk
  · obtain ⟨mark, hmark, colour, c, rfl, hc⟩ := h.exists_mark
    have hall : ∀ mark ∈ Item.layerMarks, Text.Unbroken mark := by decide
    have hcolour := isWord_of_spelled_colour hc
    exact ⟨List.append_ne_nil_of_right_ne_nil _ hcolour.1,
      List.forall_mem_append.2 ⟨hall mark hmark, hcolour.2⟩⟩

theorem exists_mem_of_forall₂ {α β : Type} {R : α → β → Prop} {xs : List α} {ys : List β}
    (h : List.Forall₂ R xs ys) {x : α} (hx : x ∈ xs) : ∃ y ∈ ys, R x y := by
  induction h with
  | nil => cases hx
  | cons hxy hrest ih =>
    rcases List.mem_cons.1 hx with rfl | hx
    · exact ⟨_, List.mem_cons_self, hxy⟩
    · obtain ⟨y, hy, hxy⟩ := ih hx
      exact ⟨y, List.mem_cons_of_mem _ hy, hxy⟩

theorem parse_of_writes {d : Descriptor} {ws : List (List Char)} {text : String}
    (h : Writes d ws) (htext : Text.Spaced ws text.toList) : parse text = .ok d := by
  have hws : ∀ word ∈ ws, Text.IsWord word := by
    intro word hword
    obtain ⟨item, -, hspelled⟩ := h.sound word hword
    exact isWord_lower.1 (isWord_of_spelled hspelled)
  obtain ⟨items, hitems⟩ : ∃ items, List.Forall₂ (fun word item => d.Has item ∧
      Spelled (word.map Char.toLower) item) ws items := exists_items_iff.2 h.sound
  have hread : List.Forall₂ Item.Reads (wordsOf text.toList) items := by
    rw [wordsOf, Text.words_spaced htext hws, List.forall₂_map_left_iff]
    exact hitems.imp fun _ _ hitem => .inl hitem.2
  have hmem : ∀ item, item ∈ items ↔ d.Has item := by
    intro item
    constructor
    · intro hitem
      obtain ⟨word, -, hhas, -⟩ := exists_mem_of_forall₂ hitems.flip hitem
      exact hhas
    · intro hhas
      obtain ⟨word, hword, hspelled⟩ := h.complete item hhas
      obtain ⟨other, hother, -, hspelled'⟩ := exists_mem_of_forall₂ hitems hword
      rwa [reads_unique (.inl hspelled) (.inl hspelled')]
  exact parse_eq_ok_iff.2 ⟨items, hread, foldl_put_eq hmem⟩

/-- `parse` gets a style back from any words that write it (`Writes`), in any order, letter case and
spacing, and however often they are repeated. There are such words whenever its colours have words.
-/
theorem parse_written (d : Descriptor) :
    ((∃ ws, Writes d ws) ↔ d.fg ≠ some .reset ∧ d.bg ≠ some .reset) ∧
      ∀ ws text, Writes d ws → Text.Spaced ws text.toList → parse text = .ok d :=
  ⟨exists_writes_iff d, fun _ _ => parse_of_writes⟩

/-- A tabulator, a no-break space and an ideographic space, and a word said twice. -/
theorem parse_written_magenta : ∃ ws d,
    Writes d ws ∧ Text.Spaced ws "Magenta\tBOLD\u00a0bg:#Ff8800\u3000bold ".toList ∧
      d = { fg := some (.named .purple false), bg := some (.rgb 255 136 0), bold := true } ∧
        parse "Magenta\tBOLD\u00a0bg:#Ff8800\u3000bold " = .ok d := by
  have hbold : Spelled "bold".toList .bold := .inl ⟨"bold", by decide, rfl⟩
  have hfg : Spelled "magenta".toList (.fg (.named .purple false)) :=
    .inr (.bare (@Colour.Spelled.name .purple false "magenta" (by decide)))
  have hbyte : Colour.SpellsByte ['f', 'f'] 255 ∧ Colour.SpellsByte ['8', '8'] 136 ∧
      Colour.SpellsByte ['0', '0'] 0 :=
    ⟨⟨'f', 'f', 15, 15, rfl, rfl, rfl, rfl⟩, ⟨'8', '8', 8, 8, rfl, rfl, rfl, rfl⟩,
      ⟨'0', '0', 0, 0, rfl, rfl, rfl, rfl⟩⟩
  have hbg : Spelled "bg:#ff8800".toList (.bg (.rgb 255 136 0)) :=
    .inr (.bg (.hex hbyte.1 hbyte.2.1 hbyte.2.2))
  let d : Descriptor :=
    { fg := some (.named .purple false), bg := some (.rgb 255 136 0), bold := true }
  let ws := ["Magenta".toList, "BOLD".toList, "bg:#Ff8800".toList, "bold".toList]
  have hwrites : Writes d ws := by
    constructor
    case sound =>
      simp only [ws, List.forall_mem_cons]
      exact ⟨⟨.fg (.named .purple false), rfl, hfg⟩, ⟨.bold, rfl, hbold⟩,
        ⟨.bg (.rgb 255 136 0), rfl, hbg⟩, ⟨.bold, rfl, hbold⟩, nofun⟩
    case complete =>
      intro item hhas
      cases item with
      | bold => exact ⟨"BOLD".toList, by simp [ws], hbold⟩
      | fg c =>
        cases hhas
        exact ⟨"Magenta".toList, by simp [ws], hfg⟩
      | bg c =>
        cases hhas
        exact ⟨"bg:#Ff8800".toList, by simp [ws], hbg⟩
      | dimmed | italic | underline => cases hhas
      | clear => exact hhas.elim
  have hspaced : Text.Spaced ws "Magenta\tBOLD\u00a0bg:#Ff8800\u3000bold ".toList := by
    have htext : "Magenta\tBOLD\u00a0bg:#Ff8800\u3000bold ".toList =
        [] ++ "Magenta".toList ++ (['\t'] ++ "BOLD".toList ++ (['\u00a0'] ++ "bg:#Ff8800".toList ++
          (['\u3000'] ++ "bold".toList ++ [' ']))) := rfl
    rw [htext]
    exact .word (by decide) (.word (by decide) (.word (by decide) (.word (by decide)
      (.blanks (by decide)) (by decide)) (by decide)) (by decide)) (by decide)
  exact ⟨ws, d, hwrites, hspaced, rfl, (parse_written d).2 ws _ hwrites hspaced⟩

end Descriptor
end Style
end ShellPrompt
