import ShellPrompt.Proofs.Style.Cut
import ShellPrompt.Proofs.Text.Blank

/-!
# ShellPrompt.Proofs.Style.ColourWords

The words that are read as colours.

`Spelled` is the grammar: `#` and six hexadecimal digits, a number up to 255 in decimal digits, or a
name. A plus sign in front of a number is read as well, both in front of an index and where the
first digit of a channel should be, and `Signed` are the words with such a sign. There are no others
(`ofWord_eq_ok_iff`).
-/

namespace ShellPrompt
namespace Style

open Text.Numeral (hexDigit? decimal? hexadecimal? dropPlus)
open Text.Utf8 (size)

/-- What a hue may be called. -/
def Hue.names : Hue → List String
  | .black => ["black"]
  | .red => ["red"]
  | .green => ["green"]
  | .yellow => ["yellow"]
  | .blue => ["blue"]
  | .purple => ["purple", "magenta"]
  | .cyan => ["cyan"]
  | .white => ["white"]

namespace Colour

/-! ## The grammar -/

/-- Two hexadecimal digits and the byte they spell. -/
def SpellsByte (pair : List Char) (b : UInt8) : Prop :=
  ∃ high low m n, pair = [high, low] ∧ hexDigit? high = some m ∧ hexDigit? low = some n ∧
    b.toNat = 16 * m + n

/-- A plus sign where the first digit should be. -/
def SignsByte (pair : List Char) (b : UInt8) : Prop :=
  ∃ low, pair = ['+', low] ∧ hexDigit? low = some b.toNat

def ReadsByte (pair : List Char) (b : UInt8) : Prop := SpellsByte pair b ∨ SignsByte pair b

/-- Decimal digits and the number they denote. -/
def SpellsIndex (digits : List Char) (i : UInt8) : Prop :=
  digits ≠ [] ∧ (∀ c ∈ digits, c.isDigit = true) ∧ Nat.ofDigitChars 10 digits 0 = i.toNat

inductive Spelled : List Char → Colour → Prop
  | hex {red green blue : List Char} {r g b : UInt8} (hr : SpellsByte red r)
      (hg : SpellsByte green g) (hb : SpellsByte blue b) :
      Spelled ('#' :: (red ++ green ++ blue)) (.rgb r g b)
  | index {digits : List Char} {i : UInt8} (h : SpellsIndex digits i) : Spelled digits (.palette i)
  | name {hue : Hue} {bright : Bool} {name : String} (h : name ∈ hue.names) :
      Spelled ((if bright then "bright-" else "") ++ name).toList (.named hue bright)

inductive Signed : List Char → Colour → Prop
  | hex {red green blue : List Char} {r g b : UInt8} (hr : ReadsByte red r)
      (hg : ReadsByte green g) (hb : ReadsByte blue b) (hsign : '+' ∈ red ++ green ++ blue) :
      Signed ('#' :: (red ++ green ++ blue)) (.rgb r g b)
  | index {digits : List Char} {i : UInt8} (h : SpellsIndex digits i) :
      Signed ('+' :: digits) (.palette i)

/-! ## Channels -/

theorem hexDigit?_lt {c : Char} {n : Nat} (h : hexDigit? c = some n) : n < 16 := by
  simp only [hexDigit?] at h
  repeat' split at h
  all_goals simp only [Option.some.injEq, reduceCtorEq] at h
  all_goals omega

theorem hexDigit?_plus : hexDigit? '+' = none := by decide

theorem channel?_digits {high low : Char} {m n : Nat} (hm : hexDigit? high = some m)
    (hn : hexDigit? low = some n) : channel? [high, low] = some (UInt8.ofNat (16 * m + n)) := by
  have hdrop : dropPlus [high, low] = [high, low] := by
    unfold dropPlus
    split
    case h_1 _ heq =>
      cases heq
      rw [hexDigit?_plus] at hm
      cases hm
    case h_2 => rfl
  simp [channel?, hdrop, hexadecimal?, hm, hn]

theorem channel?_plus {low : Char} {n : Nat} (hn : hexDigit? low = some n) :
    channel? ['+', low] = some (UInt8.ofNat n) := by
  simp [channel?, dropPlus, hexadecimal?, hn]

theorem channel?_eq_some_iff {pair : List Char} {b : UInt8} (hsize : size pair = 2) :
    channel? pair = some b ↔ ReadsByte pair b := by
  constructor
  · intro h
    obtain ⟨high, low, rfl, hhigh, hlow⟩ := (channel?_isSome_iff hsize).1 (by rw [h]; rfl)
    obtain ⟨n, hn⟩ := Option.isSome_iff_exists.1 hlow
    have hlt := hexDigit?_lt hn
    rcases hhigh with rfl | hhigh
    · rw [channel?_plus hn, Option.some.injEq] at h
      refine .inr ⟨low, rfl, ?_⟩
      rw [← h, Text.Utf8.toNat_byte (by omega), hn]
    · obtain ⟨m, hm⟩ := Option.isSome_iff_exists.1 hhigh
      have := hexDigit?_lt hm
      rw [channel?_digits hm hn, Option.some.injEq] at h
      refine .inl ⟨high, low, m, n, rfl, hm, hn, ?_⟩
      rw [← h, Text.Utf8.toNat_byte (by omega)]
  · rintro (⟨high, low, m, n, rfl, hm, hn, hb⟩ | ⟨low, rfl, hn⟩)
    · rw [channel?_digits hm hn, ← hb, UInt8.ofNat_toNat]
    · rw [channel?_plus hn, UInt8.ofNat_toNat]

theorem ReadsByte.spellsChannel {pair : List Char} {b : UInt8} (h : ReadsByte pair b) :
    SpellsChannel pair := by
  rcases h with ⟨high, low, m, n, rfl, hm, hn, -⟩ | ⟨low, rfl, hn⟩
  · exact (spellsChannel_iff high low).2 ⟨.inr (by rw [IsHex, hm]; rfl), by rw [IsHex, hn]; rfl⟩
  · exact (spellsChannel_iff '+' low).2 ⟨.inl rfl, by rw [IsHex, hn]; rfl⟩

theorem channel_reads_iff {digits rest : List Char} {b : UInt8} :
    channel digits = .ok (b, rest) ↔ ∃ pair, digits = pair ++ rest ∧ ReadsByte pair b := by
  rw [channel_eq_ok_iff]
  constructor
  · rintro ⟨pair, rfl, hsize, hvalue⟩
    exact ⟨pair, rfl, (channel?_eq_some_iff hsize).1 hvalue⟩
  · rintro ⟨pair, rfl, h⟩
    have hsize := h.spellsChannel.size_eq
    exact ⟨pair, rfl, hsize, (channel?_eq_some_iff hsize).2 h⟩

theorem eq_nil_of_size {text : List Char} (h : size text = 0) : text = [] := by
  cases text with
  | nil => rfl
  | cons c rest =>
    have := c.utf8Size_pos
    rw [Text.Utf8.size_cons] at h
    omega

theorem ofHex_eq_ok_iff {digits : List Char} {c : Colour} :
    ofHex digits = .ok c ↔ ∃ red green blue r g b, digits = red ++ green ++ blue ∧
      ReadsByte red r ∧ ReadsByte green g ∧ ReadsByte blue b ∧ c = .rgb r g b := by
  have hread : ∀ {red green blue : List Char} {r g b : UInt8} (rest : List Char),
      ReadsByte red r → ReadsByte green g → ReadsByte blue b →
        size (red ++ (green ++ (blue ++ rest))) = 6 + size rest := by
    intro red green blue r g b rest hr hg hb
    simp only [Text.Utf8.size_append, hr.spellsChannel.size_eq, hg.spellsChannel.size_eq,
      hb.spellsChannel.size_eq]
    omega
  constructor
  · intro h
    rw [ofHex] at h
    split at h
    case isTrue => cases h
    case isFalse hsize =>
      rw [Decidable.not_not] at hsize
      cases hr : channel digits with
      | error fault => simp [bind, Except.bind, hr] at h
      | ok first =>
        cases hg : channel first.2 with
        | error fault => simp [bind, Except.bind, hr, hg] at h
        | ok second =>
          cases hb : channel second.2 with
          | error fault => simp [bind, Except.bind, hr, hg, hb] at h
          | ok third =>
            obtain ⟨red, rfl, hred⟩ := channel_reads_iff.1 hr
            obtain ⟨green, hgreen, hgreen'⟩ := channel_reads_iff.1 hg
            obtain ⟨blue, hblue, hblue'⟩ := channel_reads_iff.1 hb
            simp only [bind, Except.bind, hr, hg, hb, pure, Except.pure, Except.ok.injEq] at h
            rw [hgreen, hblue, hread _ hred hgreen' hblue'] at hsize
            have hrest : third.2 = [] := eq_nil_of_size (by omega)
            exact ⟨red, green, blue, first.1, second.1, third.1,
              by rw [hgreen, hblue, hrest]; simp, hred, hgreen', hblue', h.symm⟩
  · rintro ⟨red, green, blue, r, g, b, rfl, hr, hg, hb, rfl⟩
    have hsize := hread [] hr hg hb
    have hred : channel (red ++ (green ++ blue)) = .ok (r, green ++ blue) :=
      channel_reads_iff.2 ⟨red, rfl, hr⟩
    have hgreen : channel (green ++ blue) = .ok (g, blue) :=
      channel_reads_iff.2 ⟨green, rfl, hg⟩
    have hblue : channel blue = .ok (b, []) :=
      channel_reads_iff.2 ⟨blue, (List.append_nil blue).symm, hb⟩
    rw [List.append_nil] at hsize
    rw [List.append_assoc, ofHex, if_neg (by simp [hsize])]
    simp only [bind, Except.bind, hred, hgreen, hblue, pure, Except.pure]

/-! ## Indices and names -/

theorem decimal?_eq_some_iff {digits : List Char} {n : Nat} : decimal? digits = some n ↔
    digits ≠ [] ∧ (∀ c ∈ digits, c.isDigit = true) ∧ Nat.ofDigitChars 10 digits 0 = n := by
  rw [decimal?]
  split
  case isTrue h =>
    rw [Option.some.injEq]
    exact ⟨fun hn => ⟨h.1, List.all_eq_true.1 h.2, hn⟩, fun hn => hn.2.2⟩
  case isFalse h =>
    simp only [reduceCtorEq, false_iff]
    exact fun hdigits => h ⟨hdigits.1, List.all_eq_true.2 hdigits.2.1⟩

theorem ofIndex?_eq_some_iff {word : List Char} {c : Colour} : ofIndex? word = some c ↔
    ∃ i, SpellsIndex (dropPlus word) i ∧ c = .palette i := by
  rw [ofIndex?, Text.Numeral.unsigned?]
  cases hn : decimal? (dropPlus word) with
  | none =>
    simp only [reduceCtorEq, false_iff]
    rintro ⟨i, hi, -⟩
    rw [decimal?_eq_some_iff.2 hi] at hn
    cases hn
  | some n =>
    obtain ⟨hne, hdigits, hvalue⟩ := decimal?_eq_some_iff.1 hn
    have hindex : ∀ i, SpellsIndex (dropPlus word) i ↔ n = i.toNat := by
      intro i
      rw [SpellsIndex, hvalue]
      exact ⟨fun h => h.2.2, fun h => ⟨hne, hdigits, h⟩⟩
    simp only [hindex]
    split
    case isTrue hlt =>
      have hn := Text.Utf8.toNat_byte hlt
      constructor
      · intro h
        exact ⟨UInt8.ofNat n, hn.symm, (Option.some.inj h).symm⟩
      · rintro ⟨i, rfl, rfl⟩
        rw [UInt8.ofNat_toNat]
    case isFalse hlt =>
      simp only [reduceCtorEq, false_iff]
      rintro ⟨i, rfl, -⟩
      exact hlt i.toNat_lt

theorem spellsIndex_dropPlus_iff {word : List Char} {i : UInt8} :
    SpellsIndex (dropPlus word) i ↔
      SpellsIndex word i ∨ ∃ digits, word = '+' :: digits ∧ SpellsIndex digits i := by
  unfold dropPlus
  split
  case h_1 digits =>
    have hplus : ¬ SpellsIndex ('+' :: digits) i := fun h =>
      absurd (h.2.1 '+' List.mem_cons_self) (by decide)
    constructor
    · exact fun h => .inr ⟨digits, rfl, h⟩
    · rintro (h | ⟨digits', heq, h⟩)
      · exact absurd h hplus
      · rwa [(List.cons.inj heq).2]
  case h_2 hne =>
    constructor
    · exact .inl
    · rintro (h | ⟨digits, rfl, -⟩)
      · exact h
      · exact absurd rfl (hne digits)

theorem hue_ofWord?_eq_some_iff {word : List Char} {hue : Hue} :
    Hue.ofWord? word = some hue ↔ ∃ name ∈ hue.names, word = name.toList := by
  constructor
  · intro h
    have hword : ∀ name : String, String.ofList word = name → word = name.toList := by
      rintro name rfl
      exact String.toList_ofList.symm
    unfold Hue.ofWord? at h
    split at h
    all_goals cases h
    all_goals
      rename_i heq
      refine ⟨_, ?_, hword _ heq⟩
      decide
  · rintro ⟨name, hname, rfl⟩
    have hall : ∀ name ∈ hue.names, Hue.ofWord? name.toList = some hue := by
      cases hue <;> decide
    exact hall name hname

theorem ofName?_eq_some_iff {word : List Char} {c : Colour} : ofName? word = some c ↔
    ∃ hue bright, ∃ name ∈ hue.names,
      word = ((if bright then "bright-" else "") ++ name).toList ∧ c = .named hue bright := by
  constructor
  · intro h
    rw [ofName?] at h
    split at h
    case h_1 rest hafter =>
      obtain ⟨hue, hhue, rfl⟩ := Option.map_eq_some_iff.1 h
      obtain ⟨name, hname, rfl⟩ := hue_ofWord?_eq_some_iff.1 hhue
      rw [after?_eq_some_iff] at hafter
      exact ⟨hue, true, name, hname, by rw [hafter, String.toList_append]; rfl, rfl⟩
    case h_2 =>
      obtain ⟨hue, hhue, rfl⟩ := Option.map_eq_some_iff.1 h
      obtain ⟨name, hname, rfl⟩ := hue_ofWord?_eq_some_iff.1 hhue
      exact ⟨hue, false, name, hname, by rw [String.toList_append]; rfl, rfl⟩
  · rintro ⟨hue, bright, name, hname, rfl, rfl⟩
    have hall : ∀ name ∈ hue.names,
        ofName? ((if bright then "bright-" else "") ++ name).toList = some (.named hue bright) := by
      cases hue <;> cases bright <;> decide
    exact hall name hname

/-! ## Words -/

/-- Names begin with a letter, which no number does. -/
theorem exists_letter (bright : Bool) {hue : Hue} {name : String} (h : name ∈ hue.names) :
    ∃ c rest, ((if bright then "bright-" else "") ++ name).toList = c :: rest ∧
      0x61 ≤ c.toNat := by
  have hall : ∀ name ∈ hue.names, (((if bright then "bright-" else "") ++ name).toList.head?).any
      (fun c => 0x61 ≤ c.toNat) = true := by
    cases hue <;> cases bright <;> decide
  obtain ⟨c, hc, hletter⟩ := (Option.any_eq_true _ _).1 (hall name h)
  obtain ⟨rest, hrest⟩ := List.head?_eq_some_iff.1 hc
  exact ⟨c, rest, hrest, of_decide_eq_true hletter⟩

theorem ofIndex?_of_name {word : List Char} {c : Colour} (h : ofName? word = some c) :
    ofIndex? word = none := by
  obtain ⟨hue, bright, name, hname, rfl, -⟩ := ofName?_eq_some_iff.1 h
  obtain ⟨c, rest, hword, hletter⟩ := exists_letter bright hname
  rw [hword, Option.eq_none_iff_forall_ne_some]
  intro colour hindex
  obtain ⟨i, hi, -⟩ := ofIndex?_eq_some_iff.1 hindex
  rcases spellsIndex_dropPlus_iff.1 hi with ⟨-, hdigits, -⟩ | ⟨digits, heq, -⟩
  · have hdigit : c.toNat ≤ 0x39 :=
      (Char.isDigit_iff_toNat.1 (hdigits c List.mem_cons_self)).2
    omega
  · cases heq
    exact absurd hletter (by decide)

theorem ofWord_of_index {word : List Char} {c : Colour} (h : ofIndex? word = some c) :
    ofWord word = .ok c := by
  unfold ofWord
  split
  case h_1 digits =>
    obtain ⟨i, hi, -⟩ := ofIndex?_eq_some_iff.1 h
    exact absurd (hi.2.1 '#' List.mem_cons_self) (by decide)
  case h_2 => rw [h]

theorem ofWord_of_name {word : List Char} {c : Colour} (h : ofName? word = some c) :
    ofWord word = .ok c := by
  have hindex := ofIndex?_of_name h
  unfold ofWord
  split
  case h_1 digits =>
    obtain ⟨hue, bright, name, hname, heq, -⟩ := ofName?_eq_some_iff.1 h
    obtain ⟨c, rest, hword, hletter⟩ := exists_letter bright hname
    cases heq.trans hword
    exact absurd hletter (by decide)
  case h_2 => rw [hindex, h]

theorem ReadsByte.spells {pair : List Char} {b : UInt8} (h : ReadsByte pair b)
    (hsign : '+' ∉ pair) : SpellsByte pair b := by
  rcases h with h | ⟨low, rfl, -⟩
  · exact h
  · exact absurd List.mem_cons_self hsign

/-- Beside the words of the grammar those with a plus sign in front of a number are read, and no
others. -/
theorem ofWord_eq_ok_iff {word : List Char} {c : Colour} :
    ofWord word = .ok c ↔ Spelled word c ∨ Signed word c := by
  constructor
  · intro h
    unfold ofWord at h
    split at h
    case h_1 digits =>
      obtain ⟨red, green, blue, r, g, b, rfl, hr, hg, hb, rfl⟩ := ofHex_eq_ok_iff.1 h
      by_cases hsign : '+' ∈ red ++ green ++ blue
      · exact .inr (.hex hr hg hb hsign)
      · simp only [List.mem_append, not_or] at hsign
        exact .inl (.hex (hr.spells hsign.1.1) (hg.spells hsign.1.2) (hb.spells hsign.2))
    case h_2 =>
      cases hindex : ofIndex? word with
      | some c' =>
        rw [hindex, Except.ok.injEq] at h
        obtain ⟨i, hi, rfl⟩ := ofIndex?_eq_some_iff.1 hindex
        subst h
        rcases spellsIndex_dropPlus_iff.1 hi with hi | ⟨digits, rfl, hi⟩
        · exact .inl (.index hi)
        · exact .inr (.index hi)
      | none =>
        cases hname : ofName? word with
        | some c' =>
          rw [hindex, hname, Except.ok.injEq] at h
          obtain ⟨hue, bright, name, hmem, rfl, rfl⟩ := ofName?_eq_some_iff.1 hname
          subst h
          exact .inl (.name hmem)
        | none =>
          rw [hindex, hname] at h
          cases h
  · rintro (h | h)
    · cases h with
      | hex hr hg hb =>
        exact ofHex_eq_ok_iff.2 ⟨_, _, _, _, _, _, rfl, .inl hr, .inl hg, .inl hb, rfl⟩
      | index hi =>
        exact ofWord_of_index (ofIndex?_eq_some_iff.2
          ⟨_, spellsIndex_dropPlus_iff.2 (.inl hi), rfl⟩)
      | name hname => exact ofWord_of_name (ofName?_eq_some_iff.2 ⟨_, _, _, hname, rfl, rfl⟩)
    · cases h with
      | hex hr hg hb => exact ofHex_eq_ok_iff.2 ⟨_, _, _, _, _, _, rfl, hr, hg, hb, rfl⟩
      | index hi =>
        exact ofWord_of_index (ofIndex?_eq_some_iff.2
          ⟨_, spellsIndex_dropPlus_iff.2 (.inr ⟨_, rfl, hi⟩), rfl⟩)

/-! ## Characters -/

/-- The characters of numbers and names. -/
def IsWordChar (c : Char) : Prop :=
  c.toNat = 0x23 ∨ c.toNat = 0x2D ∨ 0x30 ≤ c.toNat ∧ c.toNat ≤ 0x39 ∨
    0x41 ≤ c.toNat ∧ c.toNat ≤ 0x5A ∨ 0x61 ≤ c.toNat ∧ c.toNat ≤ 0x7A

instance (c : Char) : Decidable (IsWordChar c) := inferInstanceAs (Decidable (_ ∨ _))

theorem isWordChar_hexDigit {c : Char} {n : Nat} (h : hexDigit? c = some n) : IsWordChar c := by
  simp only [hexDigit?] at h
  unfold IsWordChar
  repeat' split at h
  all_goals first
    | omega
    | cases h

theorem SpellsByte.isWordChar {pair : List Char} {b : UInt8} (h : SpellsByte pair b) :
    ∀ c ∈ pair, IsWordChar c := by
  obtain ⟨high, low, m, n, rfl, hm, hn, -⟩ := h
  simp [isWordChar_hexDigit hm, isWordChar_hexDigit hn]

theorem SpellsIndex.isWordChar {digits : List Char} {i : UInt8} (h : SpellsIndex digits i) :
    ∀ c ∈ digits, IsWordChar c := fun c hc =>
  .inr (.inr (.inl (Char.isDigit_iff_toNat.1 (h.2.1 c hc))))

theorem Spelled.isWordChar {word : List Char} {c : Colour} (h : Spelled word c) :
    ∀ ch ∈ word, IsWordChar ch := by
  cases h with
  | hex hr hg hb =>
    simp only [List.forall_mem_cons, List.forall_mem_append]
    exact ⟨by decide, ⟨hr.isWordChar, hg.isWordChar⟩, hb.isWordChar⟩
  | index hi => exact hi.isWordChar
  | @name hue bright name hname =>
    have hall : ∀ name ∈ hue.names,
        (((if bright then "bright-" else "") ++ name).toList.all (IsWordChar ·)) = true := by
      cases hue <;> cases bright <;> decide
    exact fun ch hch => of_decide_eq_true (List.all_eq_true.1 (hall name hname) ch hch)

theorem ReadsByte.isWordChar_or {pair : List Char} {b : UInt8} (h : ReadsByte pair b) :
    ∀ c ∈ pair, IsWordChar c ∨ c = '+' := by
  rcases h with h | ⟨low, rfl, hn⟩
  · exact fun c hc => .inl (h.isWordChar c hc)
  · simp [isWordChar_hexDigit hn]

theorem Signed.isWordChar_or {word : List Char} {c : Colour} (h : Signed word c) :
    ∀ ch ∈ word, IsWordChar ch ∨ ch = '+' := by
  cases h with
  | hex hr hg hb =>
    simp only [List.forall_mem_cons, List.forall_mem_append]
    exact ⟨.inl (by decide), ⟨hr.isWordChar_or, hg.isWordChar_or⟩, hb.isWordChar_or⟩
  | index hi =>
    exact List.forall_mem_cons.2 ⟨.inr rfl, fun c hc => .inl (hi.isWordChar c hc)⟩

theorem IsWordChar.isBlank {c : Char} (h : IsWordChar c) : Text.isBlank c = false :=
  Text.isBlank_graphic (by unfold IsWordChar at h; omega) (by unfold IsWordChar at h; omega)

/-! ## Letter case -/

theorem hexDigit?_toLower (c : Char) : hexDigit? c.toLower = hexDigit? c := by
  have h := Text.toNat_toLower c
  simp only [hexDigit?]
  rw [h]
  split
  case isTrue hupper =>
    by_cases hsix : c.toNat ≤ 0x46
    · rw [if_neg (by omega), if_pos (by omega), if_neg (by omega), if_neg (by omega),
        if_pos (by omega)]
      exact congrArg some (by omega)
    · rw [if_neg (by omega), if_neg (by omega), if_neg (by omega), if_neg (by omega),
        if_neg (by omega), if_neg (by omega)]
  case isFalse => rfl

theorem toLower_eq_plus_iff (c : Char) : c.toLower = '+' ↔ c = '+' := by
  have h := Text.toNat_toLower c
  have hplus : '+'.toNat = 0x2B := rfl
  rw [← Char.toNat_inj, ← Char.toNat_inj, h]
  split <;> omega

theorem readsByte_pair (high low : Char) (b : UInt8) : ReadsByte [high, low] b ↔
    (∃ m n, hexDigit? high = some m ∧ hexDigit? low = some n ∧ b.toNat = 16 * m + n) ∨
      high = '+' ∧ hexDigit? low = some b.toNat := by
  constructor
  · rintro (⟨_, _, m, n, hpair, h⟩ | ⟨_, hpair, h⟩)
    · cases hpair
      exact .inl ⟨m, n, h⟩
    · cases hpair
      exact .inr ⟨rfl, h⟩
  · rintro (⟨m, n, h⟩ | ⟨rfl, h⟩)
    · exact .inl ⟨high, low, m, n, rfl, h⟩
    · exact .inr ⟨low, rfl, h⟩

theorem readsByte_toLower {pair : List Char} {b : UInt8} :
    ReadsByte (pair.map Char.toLower) b ↔ ReadsByte pair b := by
  match pair with
  | [high, low] =>
    simp only [List.map_cons, List.map_nil, readsByte_pair, hexDigit?_toLower,
      toLower_eq_plus_iff]
  | [] | [_] | _ :: _ :: _ :: _ => simp [ReadsByte, SpellsByte, SignsByte]

/-! ## Signs -/

theorem Spelled.plus_notMem {word : List Char} {c : Colour} (h : Spelled word c) :
    '+' ∉ word := fun hmem => absurd (h.isWordChar '+' hmem) (by decide)

theorem Signed.plus_mem {word : List Char} {c : Colour} (h : Signed word c) : '+' ∈ word := by
  cases h with
  | hex _ _ _ hsign => exact List.mem_cons_of_mem _ hsign
  | index => exact List.mem_cons_self

end Colour
end Style
end ShellPrompt
