import Mathlib.Data.List.Forall2
import ShellPrompt.Proofs.Style.ColourWords
import ShellPrompt.Proofs.Text.Blank

/-!
# ShellPrompt.Proofs.Style.StyleWords

Style strings, word by word.

Every word that is read says one thing (`Item`), and a style string says what its words say one
after the other (`parse_eq_ok_iff`). `Item.Spelled` is the grammar of words, `Item.Signed` are the
words that are read beside it.

`lawful_iff`: a style string is read as the grammar says unless the program stops at a colour cut
inside a character, or reads the whole string with a signed number in it.
-/

namespace ShellPrompt
namespace Style

/-! ## Items -/

/-- What a word says of a style. -/
inductive Item where
  | bold
  | dimmed
  | italic
  | underline
  | clear
  | fg (c : Colour)
  | bg (c : Colour)
deriving DecidableEq

namespace Item

def put (d : Descriptor) : Item → Descriptor
  | .bold => { d with bold := true }
  | .dimmed => { d with dimmed := true }
  | .italic => { d with italic := true }
  | .underline => { d with underline := true }
  | .clear => .plain
  | .fg c => { d with fg := some c }
  | .bg c => { d with bg := some c }

theorem put_plain_inj {i j : Item} (h : i.put .plain = j.put .plain) : i = j := by
  cases i <;> cases j <;> simp_all [put, Descriptor.plain]

def keywords : List (String × Item) :=
  [("bold", .bold), ("dimmed", .dimmed), ("dim", .dimmed), ("italic", .italic),
    ("underline", .underline), ("none", .clear)]

/-- Words for a colour, with the mark of the layer. The foreground needs none. -/
inductive Layered (Names : List Char → Colour → Prop) : List Char → Item → Prop
  | bare {word : List Char} {c : Colour} (h : Names word c) : Layered Names word (.fg c)
  | fg {word : List Char} {c : Colour} (h : Names word c) :
      Layered Names ("fg:".toList ++ word) (.fg c)
  | bg {word : List Char} {c : Colour} (h : Names word c) :
      Layered Names ("bg:".toList ++ word) (.bg c)

theorem Layered.mono {Names Names' : List Char → Colour → Prop} {word : List Char} {item : Item}
    (h : Layered Names word item) (himp : ∀ word c, Names word c → Names' word c) :
    Layered Names' word item := by
  cases h with
  | bare hc => exact .bare (himp _ _ hc)
  | fg hc => exact .fg (himp _ _ hc)
  | bg hc => exact .bg (himp _ _ hc)

def layerMarks : List (List Char) := [[], "fg:".toList, "bg:".toList]

theorem Layered.exists_mark {Names : List Char → Colour → Prop} {word : List Char} {item : Item}
    (h : Layered Names word item) :
    ∃ mark ∈ layerMarks, ∃ colour c, word = mark ++ colour ∧ Names colour c := by
  cases h with
  | bare hc => exact ⟨[], by decide, _, _, rfl, hc⟩
  | fg hc => exact ⟨"fg:".toList, by decide, _, _, rfl, hc⟩
  | bg hc => exact ⟨"bg:".toList, by decide, _, _, rfl, hc⟩

/-- The grammar of words in lower case. -/
def Spelled (word : List Char) (item : Item) : Prop :=
  (∃ k, (k, item) ∈ keywords ∧ word = k.toList) ∨ Layered Colour.Spelled word item

def Signed (word : List Char) (item : Item) : Prop := Layered Colour.Signed word item

def Reads (word : List Char) (item : Item) : Prop := Spelled word item ∨ Signed word item

end Item

namespace Descriptor

open Item (Layered Spelled Signed Reads)

theorem keywords_eq : keywords = Item.keywords.map Prod.fst := rfl

theorem applyWord_keyword {k : String} {item : Item} (h : (k, item) ∈ Item.keywords)
    (d : Descriptor) : applyWord d k.toList = .ok (item.put d) := by
  simp only [Item.keywords, List.mem_cons, List.not_mem_nil, or_false, Prod.mk.injEq] at h
  rcases h with ⟨rfl, rfl⟩ | ⟨rfl, rfl⟩ | ⟨rfl, rfl⟩ | ⟨rfl, rfl⟩ | ⟨rfl, rfl⟩ | ⟨rfl, rfl⟩ <;> rfl

/-- No keyword is taken for a colour. -/
theorem paintWord_keyword {k : String} {item : Item} (h : (k, item) ∈ Item.keywords)
    (d d' : Descriptor) : paintWord d k.toList ≠ .ok d' := by
  simp only [Item.keywords, List.mem_cons, List.not_mem_nil, or_false, Prod.mk.injEq] at h
  rcases h with ⟨rfl, rfl⟩ | ⟨rfl, rfl⟩ | ⟨rfl, rfl⟩ | ⟨rfl, rfl⟩ | ⟨rfl, rfl⟩ | ⟨rfl, rfl⟩ <;>
    exact nofun

theorem colon_notMem {word : List Char} {c : Colour} (h : Colour.ofWord word = .ok c) :
    ':' ∉ word := by
  intro hmem
  rcases Colour.ofWord_eq_ok_iff.1 h with h | h
  · exact absurd (h.isWordChar ':' hmem) (by decide)
  · exact absurd (h.isWordChar_or ':' hmem) (by decide)

theorem paintWord_eq_ok_iff {d d' : Descriptor} {word : List Char} : paintWord d word = .ok d' ↔
    ∃ item, Layered (fun w c => Colour.ofWord w = .ok c) word item ∧ item.put d = d' := by
  constructor
  · intro h
    unfold paintWord at h
    split at h
    case h_1 colour hbg =>
      obtain ⟨c, hc, rfl⟩ := map_eq_ok_iff.1 h
      obtain rfl := Colour.after?_eq_some_iff.1 hbg
      exact ⟨.bg c, .bg hc, rfl⟩
    case h_2 =>
      obtain ⟨c, hc, rfl⟩ := map_eq_ok_iff.1 h
      cases hfg : Colour.after? "fg:".toList word with
      | none =>
        rw [hfg] at hc
        exact ⟨.fg c, .bare hc, rfl⟩
      | some colour =>
        rw [hfg] at hc
        obtain rfl := Colour.after?_eq_some_iff.1 hfg
        exact ⟨.fg c, .fg hc, rfl⟩
  · rintro ⟨item, h, rfl⟩
    have hmark : ∀ {mark word : List Char} {c : Colour}, ':' ∈ mark →
        Colour.ofWord word = .ok c → Colour.after? mark word = none := by
      intro mark word c hcolon hc
      rw [Option.eq_none_iff_forall_ne_some]
      intro rest hrest
      obtain rfl := Colour.after?_eq_some_iff.1 hrest
      exact colon_notMem hc (List.mem_append_left _ hcolon)
    cases h with
    | bare hc =>
      rw [paintWord, hmark (by decide) hc, hmark (by decide) hc]
      exact map_eq_ok_iff.2 ⟨_, hc, rfl⟩
    | @fg word c hc =>
      have hbg : Colour.after? "bg:".toList ("fg:".toList ++ word) = none := rfl
      rw [paintWord, hbg, Colour.after?_append]
      exact map_eq_ok_iff.2 ⟨_, hc, rfl⟩
    | bg hc =>
      rw [paintWord, Colour.after?_append]
      exact map_eq_ok_iff.2 ⟨_, hc, rfl⟩

theorem layered_iff {word : List Char} {item : Item} :
    Layered (fun w c => Colour.ofWord w = .ok c) word item ↔
      Layered Colour.Spelled word item ∨ Layered Colour.Signed word item := by
  constructor
  · intro h
    cases h with
    | bare hc => exact (Colour.ofWord_eq_ok_iff.1 hc).imp .bare .bare
    | fg hc => exact (Colour.ofWord_eq_ok_iff.1 hc).imp .fg .fg
    | bg hc => exact (Colour.ofWord_eq_ok_iff.1 hc).imp .bg .bg
  · rintro (h | h)
    · exact h.mono fun _ _ hc => Colour.ofWord_eq_ok_iff.2 (.inl hc)
    · exact h.mono fun _ _ hc => Colour.ofWord_eq_ok_iff.2 (.inr hc)

theorem applyWord_of_reads {word : List Char} {item : Item} (h : Reads word item)
    (d : Descriptor) : applyWord d word = .ok (item.put d) := by
  have hlayered : Layered (fun w c => Colour.ofWord w = .ok c) word item →
      applyWord d word = .ok (item.put d) := by
    intro hitem
    have hpainted : paintWord d word = .ok (item.put d) :=
      paintWord_eq_ok_iff.2 ⟨item, hitem, rfl⟩
    rcases applyWord_cases word with ⟨k, hk, rfl, -⟩ | hpaint
    · obtain ⟨⟨k, item'⟩, hitem', rfl⟩ := List.mem_map.1 (keywords_eq ▸ hk)
      exact absurd hpainted (paintWord_keyword hitem' d _)
    · rw [hpaint, hpainted]
  rcases h with (⟨k, hk, rfl⟩ | h) | h
  · exact applyWord_keyword hk d
  · exact hlayered (layered_iff.2 (.inl h))
  · exact hlayered (layered_iff.2 (.inr h))

/-- A word is read as what it says. -/
theorem applyWord_eq_ok_iff {d d' : Descriptor} {word : List Char} :
    applyWord d word = .ok d' ↔ ∃ item, Reads word item ∧ item.put d = d' := by
  constructor
  · intro h
    rcases applyWord_cases word with ⟨k, hk, rfl, -⟩ | hpaint
    · obtain ⟨⟨k, item⟩, hitem, rfl⟩ := List.mem_map.1 (keywords_eq ▸ hk)
      rw [applyWord_keyword hitem, Except.ok.injEq] at h
      exact ⟨item, .inl (.inl ⟨k, hitem, rfl⟩), h⟩
    · rw [hpaint] at h
      obtain ⟨item, hitem, hput⟩ := paintWord_eq_ok_iff.1 h
      exact ⟨item, (layered_iff.1 hitem).imp .inr id, hput⟩
  · rintro ⟨item, hread, rfl⟩
    exact applyWord_of_reads hread d

/-- A word says one thing. -/
theorem reads_unique {word : List Char} {i j : Item} (hi : Reads word i) (hj : Reads word j) :
    i = j := by
  have h := applyWord_of_reads hi plain
  rw [applyWord_of_reads hj plain] at h
  exact Item.put_plain_inj (Except.ok.inj h).symm

/-! ## Style strings -/

theorem applyWords_eq_ok_iff {d d' : Descriptor} {words : List (List Char)} :
    applyWords d words = .ok d' ↔
      ∃ items, List.Forall₂ Reads words items ∧ items.foldl Item.put d = d' := by
  induction words generalizing d with
  | nil => simp [applyWords]
  | cons word rest ih =>
    constructor
    · intro h
      cases hword : applyWord d word with
      | error fault =>
        rw [applyWords, hword] at h
        cases h
      | ok next =>
        rw [applyWords, hword] at h
        obtain ⟨items, hitems, hfold⟩ := ih.1 h
        obtain ⟨item, hitem, rfl⟩ := applyWord_eq_ok_iff.1 hword
        exact ⟨item :: items, .cons hitem hitems, hfold⟩
    · rintro ⟨items, hitems, hfold⟩
      cases hitems with
      | cons hitem hitems =>
        rw [applyWords, applyWord_of_reads hitem]
        exact ih.2 ⟨_, hitems, hfold⟩

theorem parse_eq_ok_iff_applyWords {raw : String} {d : Descriptor} :
    parse raw = .ok d ↔ applyWords plain (wordsOf raw.toList) = .ok d := by
  rw [parse]
  cases applyWords plain (wordsOf raw.toList) with
  | ok d => simp
  | error fault => cases fault <;> simp

/-- A style string is read as what its words say, one after the other. -/
theorem parse_eq_ok_iff {raw : String} {d : Descriptor} : parse raw = .ok d ↔
    ∃ items, List.Forall₂ Reads (wordsOf raw.toList) items ∧ items.foldl Item.put plain = d := by
  rw [parse_eq_ok_iff_applyWords, applyWords_eq_ok_iff]

/-- An error names the whole string, whatever word it is about. -/
theorem parse_eq_error_iff {raw : String} {e : StyleError} :
    parse raw = .error (.error e) ↔
      applyWords plain (wordsOf raw.toList) = .error (.error e.reason) ∧ e.style = raw := by
  rw [parse]
  cases applyWords plain (wordsOf raw.toList) with
  | ok d => simp
  | error fault =>
    cases fault with
    | crash c => simp
    | error reason =>
      simp only [Except.error.injEq, Fault.error.injEq]
      constructor
      · rintro rfl
        exact ⟨rfl, rfl⟩
      · rintro ⟨rfl, rfl⟩
        rfl

/-! ## The grammar and the program -/

/-- What the grammar asks for: a string of its words is read as what they say, and any other is
refused, by its full text. -/
structure Lawful (raw : String) : Prop where
  reads : ∀ items, List.Forall₂ Spelled (wordsOf raw.toList) items →
    parse raw = .ok (items.foldl Item.put plain)
  refuses : (∃ word ∈ wordsOf raw.toList, ∀ item, ¬ Spelled word item) →
    ∃ reason, parse raw = .error (.error ⟨raw, reason⟩)

/-- Every word is read, and one of them has a sign in front of a number. -/
def Signs (raw : String) : Prop :=
  (∀ word ∈ wordsOf raw.toList, ∃ item, Reads word item) ∧
    ∃ word ∈ wordsOf raw.toList, ∃ item, Signed word item

theorem plus_notMem_of_spelled {word : List Char} {item : Item} (h : Spelled word item) :
    '+' ∉ word := by
  rcases h with ⟨k, hk, rfl⟩ | h
  · have hall : ∀ e ∈ Item.keywords, '+' ∉ e.1.toList := by decide
    exact hall _ hk
  · obtain ⟨mark, hmark, colour, c, rfl, hc⟩ := h.exists_mark
    have hall : ∀ mark ∈ Item.layerMarks, '+' ∉ mark := by decide
    exact fun hmem => (List.mem_append.1 hmem).elim (hall mark hmark) hc.plus_notMem

theorem plus_mem_of_signed {word : List Char} {item : Item} (h : Signed word item) :
    '+' ∈ word := by
  obtain ⟨mark, -, colour, c, rfl, hc⟩ := h.exists_mark
  exact List.mem_append_right _ hc.plus_mem

theorem exists_items_iff {R : List Char → Item → Prop} {words : List (List Char)} :
    (∃ items, List.Forall₂ R words items) ↔ ∀ word ∈ words, ∃ item, R word item := by
  induction words with
  | nil => simp
  | cons word rest ih =>
    rw [List.forall_mem_cons, ← ih]
    constructor
    · rintro ⟨items, hitems⟩
      cases hitems with
      | cons hitem hitems => exact ⟨⟨_, hitem⟩, _, hitems⟩
    · rintro ⟨⟨item, hitem⟩, items, hitems⟩
      exact ⟨item :: items, .cons hitem hitems⟩

/-- The grammar has no plus sign, so no string that is read may hold one. -/
theorem not_lawful_of_plus {raw : String} {d : Descriptor} {word : List Char}
    (hparse : parse raw = .ok d) (hword : word ∈ wordsOf raw.toList) (hplus : '+' ∈ word) :
    ¬ Lawful raw := by
  intro h
  obtain ⟨reason, hreason⟩ := h.refuses ⟨word, hword, fun item hspelled =>
    plus_notMem_of_spelled hspelled hplus⟩
  rw [hparse] at hreason
  cases hreason

/-- Where the program stops, the grammar is not kept to either way. -/
theorem not_lawful_of_crash {raw : String} {c : Crash} (hparse : parse raw = .error (.crash c)) :
    ¬ Lawful raw := by
  intro h
  by_cases hall : ∀ word ∈ wordsOf raw.toList, ∃ item, Spelled word item
  · obtain ⟨items, hitems⟩ := exists_items_iff.2 hall
    rw [h.reads items hitems] at hparse
    cases hparse
  · have hword : ∃ word ∈ wordsOf raw.toList, ∀ item, ¬ Spelled word item := by
      simpa using hall
    obtain ⟨reason, hreason⟩ := h.refuses hword
    rw [hreason] at hparse
    cases hparse

theorem lawful_iff (raw : String) : Lawful raw ↔ ¬ Cuts raw ∧ ¬ Signs raw := by
  constructor
  · intro h
    constructor
    · exact fun hcuts => not_lawful_of_crash (parse_eq_crash_iff.2 ⟨rfl, hcuts⟩) h
    · rintro ⟨hread, word, hword, item, hsigned⟩
      obtain ⟨items, hitems⟩ := exists_items_iff.2 hread
      exact not_lawful_of_plus (parse_eq_ok_iff.2 ⟨items, hitems, rfl⟩) hword
        (plus_mem_of_signed hsigned) h
  · rintro ⟨hcuts, hsigns⟩
    constructor
    case reads =>
      exact fun items hitems => parse_eq_ok_iff.2 ⟨items, hitems.imp fun _ _ => .inl, rfl⟩
    case refuses =>
      rintro ⟨word, hword, hunspelled⟩
      cases hparse : parse raw with
      | ok d =>
        obtain ⟨items, hitems, -⟩ := parse_eq_ok_iff.1 hparse
        have hread := exists_items_iff.1 ⟨items, hitems⟩
        obtain ⟨item, hitem⟩ := hread word hword
        exact absurd ⟨hread, word, hword, item, hitem.resolve_left (hunspelled item)⟩ hsigns
      | error fault =>
        cases fault with
        | error e =>
          have hstyle := (parse_eq_error_iff.1 hparse).2
          exact ⟨e.reason, by rw [← hstyle]⟩
        | crash c => exact absurd (parse_eq_crash_iff.1 hparse).2 hcuts

/-! ## Hexadecimal words -/

theorem wordsOf_word {word : List Char} (h : Text.IsWord word) :
    wordsOf word = [word.map Char.toLower] := by
  rw [wordsOf, Text.words_word h, List.map_singleton]

theorem applyWord_hex (d : Descriptor) (digits : List Char) :
    applyWord d ('#' :: digits) = (Colour.ofHex digits).map fun c => { d with fg := some c } := by
  rcases applyWord_cases ('#' :: digits) with ⟨k, hk, heq, -⟩ | hpaint
  · have hhead : ∀ k ∈ keywords, k.toList.head? ≠ some '#' := by decide
    exact absurd (by rw [← heq]; rfl) (hhead k hk)
  · rw [hpaint]
    rfl

/-- A word behind `#` is read if it is three channels, the first digit of each perhaps a sign. -/
theorem parse_hex_iff {rest : List Char} (h : Text.Unbroken rest)
    {d : Descriptor} : parse (String.ofList ('#' :: rest)) = .ok d ↔
      ∃ red green blue r g b, rest = red ++ green ++ blue ∧ Colour.ReadsByte red r ∧
        Colour.ReadsByte green g ∧ Colour.ReadsByte blue b ∧
          d = { fg := some (.rgb r g b) } := by
  have hword : Text.IsWord ('#' :: rest) := ⟨nofun, List.forall_mem_cons.2 ⟨by decide, h⟩⟩
  have hparse : parse (String.ofList ('#' :: rest)) = .ok d ↔
      ∃ c, Colour.ofHex (rest.map Char.toLower) = .ok c ∧ { fg := some c } = d := by
    have hlower : '#'.toLower = '#' := rfl
    have hone : applyWords plain ['#' :: rest.map Char.toLower] =
        applyWord plain ('#' :: rest.map Char.toLower) := by
      rw [applyWords]
      split <;> simp_all [applyWords]
    rw [parse_eq_ok_iff_applyWords, String.toList_ofList, wordsOf_word hword, List.map_cons,
      hlower, hone, applyWord_hex, map_eq_ok_iff]
    rfl
  rw [hparse]
  constructor
  · rintro ⟨c, hc, rfl⟩
    obtain ⟨red, green, blue, r, g, b, hrest, hr, hg, hb, rfl⟩ := Colour.ofHex_eq_ok_iff.1 hc
    obtain ⟨redGreen, blue, rfl, hredGreen, rfl⟩ := List.map_eq_append_iff.1 hrest
    obtain ⟨red, green, rfl, rfl, rfl⟩ := List.map_eq_append_iff.1 hredGreen
    exact ⟨red, green, blue, r, g, b, rfl, Colour.readsByte_toLower.1 hr,
      Colour.readsByte_toLower.1 hg, Colour.readsByte_toLower.1 hb, rfl⟩
  · rintro ⟨red, green, blue, r, g, b, rfl, hr, hg, hb, rfl⟩
    refine ⟨.rgb r g b, Colour.ofHex_eq_ok_iff.2 ⟨red.map Char.toLower, green.map Char.toLower,
      blue.map Char.toLower, r, g, b, by simp, Colour.readsByte_toLower.2 hr,
      Colour.readsByte_toLower.2 hg, Colour.readsByte_toLower.2 hb, rfl⟩, rfl⟩

/-- `parse` keeps to the grammar (`Lawful`) in every string but two kinds: those it stops at
(`Cuts`), and those it reads with a signed number in them (`Signs`). So behind `#` it wants six
digits, but takes a plus sign for the first of two. -/
theorem parse_keeps_grammar (raw : String) :
    (Lawful raw ↔ ¬ Cuts raw ∧ ¬ Signs raw) ∧
      ∀ rest, raw.toList = '#' :: rest → Text.Unbroken rest → ∀ d,
        (parse raw = .ok d ↔
          ∃ red green blue r g b, rest = red ++ green ++ blue ∧ Colour.ReadsByte red r ∧
            Colour.ReadsByte green g ∧ Colour.ReadsByte blue b ∧
              d = { fg := some (.rgb r g b) }) := by
  refine ⟨lawful_iff raw, fun rest hraw hrest d => ?_⟩
  rw [← parse_hex_iff hrest, ← hraw, String.ofList_toList]

/-- Digits of either case. -/
theorem parse_keeps_grammar_orange :
    "#Ff8800".toList = '#' :: "Ff8800".toList ∧ Text.Unbroken "Ff8800".toList ∧
      parse "#Ff8800" = .ok { fg := some (.rgb 255 136 0) } := by
  have hraw : "#Ff8800".toList = '#' :: "Ff8800".toList := rfl
  have hrest : Text.Unbroken "Ff8800".toList := by decide
  refine ⟨hraw, hrest, ((parse_keeps_grammar "#Ff8800").2 _ hraw hrest _).2 ⟨['F', 'f'],
    ['8', '8'], ['0', '0'], 255, 136, 0, rfl, ?_, ?_, ?_, rfl⟩⟩
  · exact .inl ⟨'F', 'f', 15, 15, rfl, rfl, rfl, rfl⟩
  · exact .inl ⟨'8', '8', 8, 8, rfl, rfl, rfl, rfl⟩
  · exact .inl ⟨'0', '0', 0, 0, rfl, rfl, rfl, rfl⟩

/-- Signs pass for digits, an index may carry one, and a colour of two wide characters ends the
program. -/
theorem signed_numbers_are_read :
    parse "#+f+1+2" = .ok { fg := some (.rgb 15 1 2) } ∧ ¬ Lawful "#+f+1+2" ∧
      parse "+5" = .ok { fg := some (.palette 5) } ∧ ¬ Lawful "+5" ∧
        parse "#日本" = .error (.crash .splitCharacter) ∧ ¬ Lawful "#日本" := by
  have hhex : parse "#+f+1+2" = .ok { fg := some (.rgb 15 1 2) } := by decide
  have hindex : parse "+5" = .ok { fg := some (.palette 5) } := by decide
  have hcrash : parse "#日本" = .error (.crash .splitCharacter) := by decide
  have hhexWords : wordsOf "#+f+1+2".toList = ["#+f+1+2".toList] := by decide
  have hindexWords : wordsOf "+5".toList = ["+5".toList] := by decide
  exact ⟨hhex, not_lawful_of_plus hhex (hhexWords ▸ List.mem_singleton_self _) (by decide),
    hindex, not_lawful_of_plus hindex (hindexWords ▸ List.mem_singleton_self _) (by decide),
    hcrash, not_lawful_of_crash hcrash⟩

end Descriptor
end Style
end ShellPrompt
