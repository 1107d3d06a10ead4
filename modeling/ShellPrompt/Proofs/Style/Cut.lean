import ShellPrompt.Proofs.Text.Utf8
import ShellPrompt.Style.Sheet

/-!
# ShellPrompt.Proofs.Style.Cut

The style strings that stop the program.

A hexadecimal colour is measured and cut in bytes. If it has six of them, but the second or the
fourth lies inside a character, the cut goes through that character.

* `Colour.Cut`: the digits of which that is true, with the channels before the cut in order.
* `Descriptor.Cuts`: a style string with such a colour behind words that can be read.
* `Sheet.overlay_eq_error_iff`: only these stop the building of a sheet.
-/

namespace ShellPrompt
namespace Style

open Text.Utf8 (size Boundary)

namespace Colour

def IsHex (c : Char) : Prop := (Text.Numeral.hexDigit? c).isSome = true

/-- Two characters that are read as a channel. A plus sign may stand for the first digit. -/
def SpellsChannel (pair : List Char) : Prop :=
  ∃ a b, pair = [a, b] ∧ (a = '+' ∨ IsHex a) ∧ IsHex b

/-- Six bytes are cut inside a character, at the second byte or, behind a channel, at the fourth. -/
def Cut (digits : List Char) : Prop :=
  size digits = 6 ∧ (¬ Boundary 2 digits ∨
    ∃ pair rest, digits = pair ++ rest ∧ SpellsChannel pair ∧ ¬ Boundary 2 rest)

theorem hexDigit?_size {c : Char} (h : IsHex c) : c.utf8Size = 1 := by
  have hlt : c.toNat < 0x80 := by
    simp only [IsHex, Text.Numeral.hexDigit?] at h
    repeat' split at h
    · omega
    · omega
    · omega
    · cases h
  have hval : c.val ≤ 0x7f := by
    rw [UInt32.le_iff_toNat_le]
    exact Nat.le_of_lt_succ hlt
  simp [Char.utf8Size, hval]

theorem SpellsChannel.size_eq {pair : List Char} (h : SpellsChannel pair) : size pair = 2 := by
  obtain ⟨a, b, rfl, ha, hb⟩ := h
  have hone : a.utf8Size = 1 := by
    rcases ha with rfl | ha
    · rfl
    · exact hexDigit?_size ha
  simp [hone, hexDigit?_size hb]

theorem spellsChannel_iff (a b : Char) :
    SpellsChannel [a, b] ↔ (a = '+' ∨ IsHex a) ∧ IsHex b := by
  constructor
  · rintro ⟨a', b', hab, h⟩
    cases hab
    exact h
  · exact fun h => ⟨a, b, rfl, h⟩

theorem hexadecimal?_isSome_iff (digits : List Char) :
    (Text.Numeral.hexadecimal? digits).isSome = true ↔ digits ≠ [] ∧ ∀ c ∈ digits, IsHex c := by
  have hfold : ∀ (rest : List Char) (acc : Option Nat),
      (rest.foldl (fun acc c => acc.bind fun n =>
        (Text.Numeral.hexDigit? c).map fun d => 16 * n + d) acc).isSome = true ↔
      acc.isSome = true ∧ ∀ c ∈ rest, IsHex c := by
    intro rest
    induction rest with
    | nil => simp
    | cons c rest ih =>
      intro acc
      rw [List.foldl_cons, ih, List.forall_mem_cons, ← and_assoc]
      refine and_congr_left fun _ => ?_
      cases acc <;> simp [IsHex]
  cases digits with
  | nil => simp [Text.Numeral.hexadecimal?]
  | cons c rest => simpa [Text.Numeral.hexadecimal?] using hfold (c :: rest) (some 0)

/-- Two bytes of whole characters are read as a channel just where they spell one. -/
theorem channel?_isSome_iff {pair : List Char} (hsize : size pair = 2) :
    (channel? pair).isSome = true ↔ SpellsChannel pair := by
  rw [channel?, Option.isSome_map, hexadecimal?_isSome_iff]
  match pair with
  | [] => cases hsize
  | [c] =>
    have hnot : ¬ IsHex c := fun h => by
      have := hexDigit?_size h
      simp [this] at hsize
    have hplus : Text.Numeral.dropPlus [c] ⊆ [c] := by
      unfold Text.Numeral.dropPlus
      split
      · rename_i heq
        cases heq
        exact List.nil_subset _
      · exact List.Subset.refl _
    constructor
    · rintro ⟨hne, hall⟩
      obtain ⟨d, hd⟩ := List.exists_mem_of_ne_nil _ hne
      obtain rfl := List.mem_singleton.1 (hplus hd)
      exact absurd (hall d hd) hnot
    · rintro ⟨a, b, hab, -⟩
      cases hab
  | [a, b] =>
    by_cases ha : a = '+'
    · subst ha
      simp [Text.Numeral.dropPlus, spellsChannel_iff]
    · have hdrop : Text.Numeral.dropPlus [a, b] = [a, b] := by
        unfold Text.Numeral.dropPlus
        split
        · rename_i heq
          cases heq
          exact absurd rfl ha
        · rfl
      simp [hdrop, spellsChannel_iff, ha]
  | a :: b :: c :: rest =>
    have := a.utf8Size_pos
    have := b.utf8Size_pos
    have := c.utf8Size_pos
    simp only [Text.Utf8.size_cons] at hsize
    omega

theorem channel_eq_crash_iff {digits : List Char} {c : Crash} :
    channel digits = .error (.crash c) ↔ c = .splitCharacter ∧ ¬ Boundary 2 digits := by
  rw [← Text.Utf8.splitAt?_eq_none_iff, channel]
  cases hsplit : Text.Utf8.splitAt? 2 digits with
  | none => simp [eq_comm]
  | some r =>
    cases hvalue : channel? r.1 with
    | none => simp [hvalue]
    | some value => simp [hvalue]

/-- A channel that is read, and what is left. -/
theorem channel_eq_ok_iff {digits rest : List Char} {value : UInt8} :
    channel digits = .ok (value, rest) ↔
      ∃ pair, digits = pair ++ rest ∧ size pair = 2 ∧ channel? pair = some value := by
  constructor
  · intro h
    rw [channel] at h
    cases hsplit : Text.Utf8.splitAt? 2 digits with
    | none => simp [hsplit] at h
    | some r =>
      obtain ⟨pair, rest'⟩ := r
      obtain ⟨rfl, hsize⟩ := Text.Utf8.splitAt?_eq_some_iff.1 hsplit
      cases hvalue : channel? pair with
      | none => simp [hsplit, hvalue] at h
      | some v =>
        simp only [hsplit, hvalue, Except.ok.injEq, Prod.mk.injEq] at h
        obtain ⟨rfl, rfl⟩ := h
        exact ⟨pair, rfl, hsize, hvalue⟩
  · rintro ⟨pair, rfl, hsize, hvalue⟩
    have hsplit := Text.Utf8.splitAt?_append pair rest
    rw [hsize] at hsplit
    simp only [channel, hsplit, hvalue]

theorem channel_eq_ok {digits rest : List Char} {value : UInt8}
    (h : channel digits = .ok (value, rest)) :
    ∃ pair, digits = pair ++ rest ∧ SpellsChannel pair := by
  obtain ⟨pair, rfl, hsize, hvalue⟩ := channel_eq_ok_iff.1 h
  exact ⟨pair, rfl, (channel?_isSome_iff hsize).1 (by rw [hvalue]; rfl)⟩

/-- Text that starts with a channel is read. -/
theorem channel_append {pair : List Char} (h : SpellsChannel pair) (rest : List Char) :
    ∃ value, channel (pair ++ rest) = .ok (value, rest) := by
  obtain ⟨value, hvalue⟩ := Option.isSome_iff_exists.1 ((channel?_isSome_iff h.size_eq).2 h)
  exact ⟨value, channel_eq_ok_iff.2 ⟨pair, rfl, h.size_eq, hvalue⟩⟩

/-- Behind a channel, the next cut decides. -/
theorem cut_append_iff {pair rest : List Char} (h : SpellsChannel pair)
    (hsize : size (pair ++ rest) = 6) : Cut (pair ++ rest) ↔ ¬ Boundary 2 rest := by
  constructor
  · rintro ⟨-, hfirst | ⟨pair', rest', heq, h', hsecond⟩⟩
    · exact absurd ⟨pair, rest, rfl, h.size_eq⟩ hfirst
    · obtain ⟨-, rfl⟩ := Text.Utf8.eq_of_append_eq heq (h.size_eq.trans h'.size_eq.symm)
      exact hsecond
  · exact fun hsecond => ⟨hsize, .inr ⟨pair, rest, rfl, h, hsecond⟩⟩

theorem ofHex_eq_crash_iff {digits : List Char} {c : Crash} :
    ofHex digits = .error (.crash c) ↔ c = .splitCharacter ∧ Cut digits := by
  by_cases hsize : size digits = 6
  · rw [ofHex, if_neg (fun h => h hsize)]
    cases hr : channel digits with
    | error fault =>
      have hcut : Cut digits ↔ ¬ Boundary 2 digits := by
        refine ⟨?_, fun h => ⟨hsize, .inl h⟩⟩
        rintro ⟨-, h | ⟨pair, rest, rfl, h, -⟩⟩
        · exact h
        · obtain ⟨value, hvalue⟩ := channel_append h rest
          rw [hvalue] at hr
          cases hr
      rw [hcut, ← channel_eq_crash_iff, hr]
      simp only [bind, Except.bind, Except.error.injEq]
    | ok r =>
      obtain ⟨r, rest⟩ := r
      obtain ⟨pair, rfl, hpair⟩ := channel_eq_ok hr
      rw [cut_append_iff hpair hsize, ← channel_eq_crash_iff]
      cases hg : channel rest with
      | error fault => simp only [bind, Except.bind, hg, Except.error.injEq]
      | ok g =>
        obtain ⟨g, rest'⟩ := g
        obtain ⟨pair', rfl, hpair'⟩ := channel_eq_ok hg
        have hlast : Boundary 2 rest' := by
          have hend := Text.Utf8.boundary_size rest'
          rw [Text.Utf8.size_append, Text.Utf8.size_append, hpair.size_eq, hpair'.size_eq] at hsize
          rwa [show size rest' = 2 by omega] at hend
        have hb : channel rest' ≠ .error (.crash c) := fun h =>
          (channel_eq_crash_iff.1 h).2 hlast
        cases hblue : channel rest' with
        | error fault => simpa [bind, Except.bind, hg, hblue] using hb
        | ok b => simp [bind, Except.bind, hg, hblue, pure, Except.pure]
  · rw [ofHex, if_pos hsize]
    constructor
    · intro h
      cases h
    · exact fun h => absurd h.2.1 hsize

theorem ofWord_eq_crash_iff {word : List Char} {c : Crash} :
    ofWord word = .error (.crash c) ↔
      c = .splitCharacter ∧ ∃ digits, word = '#' :: digits ∧ Cut digits := by
  unfold ofWord
  split
  case h_1 digits =>
    rw [ofHex_eq_crash_iff]
    exact and_congr_right fun _ =>
      ⟨fun h => ⟨digits, rfl, h⟩, fun ⟨_, heq, h⟩ => (List.cons.inj heq).2 ▸ h⟩
  case h_2 hne =>
    constructor
    · intro h
      split at h
      · cases h
      · split at h <;> cases h
    · rintro ⟨-, digits, rfl, -⟩
      exact absurd rfl (hne digits)

theorem after?_append (mark rest : List Char) : after? mark (mark ++ rest) = some rest := by
  simp [after?]

theorem after?_eq_some_iff {mark word rest : List Char} :
    after? mark word = some rest ↔ word = mark ++ rest := by
  constructor
  · intro h
    rw [after?] at h
    split at h
    · rename_i hp
      cases h
      obtain ⟨rest, rfl⟩ := List.isPrefixOf_iff_prefix.1 hp
      simp
    · cases h
  · rintro rfl
    exact after?_append mark rest

end Colour

namespace Descriptor

/-- A colour word, of either layer, with digits that are cut inside a character. -/
def CutWord (word : List Char) : Prop :=
  ∃ mark ∈ ["", "fg:", "bg:"], ∃ digits, word = mark.toList ++ '#' :: digits ∧ Colour.Cut digits

/-- A word that can be read, whatever was read before it. -/
def Readable (word : List Char) : Prop := ∀ d, ∃ d', applyWord d word = .ok d'

/-- The first word that is not read is a colour that is cut inside a character. -/
def Cuts (raw : String) : Prop :=
  ∃ before word behind, wordsOf raw.toList = before ++ word :: behind ∧
    (∀ w ∈ before, Readable w) ∧ CutWord word

theorem map_eq_error_iff {α β ε : Type} {f : α → β} {x : Except ε α} {e : ε} :
    x.map f = .error e ↔ x = .error e := by
  cases x <;> simp [Except.map]

theorem map_eq_ok_iff {α β ε : Type} {f : α → β} {x : Except ε α} {b : β} :
    x.map f = .ok b ↔ ∃ a, x = .ok a ∧ f a = b := by
  cases x <;> simp [Except.map]

theorem paintWord_eq_crash_iff {d : Descriptor} {word : List Char} {c : Crash} :
    paintWord d word = .error (.crash c) ↔ c = .splitCharacter ∧ CutWord word := by
  unfold paintWord
  split
  case h_1 colour hbg =>
    obtain rfl := Colour.after?_eq_some_iff.1 hbg
    rw [map_eq_error_iff, Colour.ofWord_eq_crash_iff]
    simp [CutWord]
  case h_2 hbg =>
    have hbg' : ∀ rest, word ≠ "bg:".toList ++ rest := fun rest h => by
      rw [Colour.after?_eq_some_iff.2 h] at hbg
      cases hbg
    rw [map_eq_error_iff, Colour.ofWord_eq_crash_iff]
    cases hfg : Colour.after? "fg:".toList word with
    | some colour =>
      obtain rfl := Colour.after?_eq_some_iff.1 hfg
      simp [CutWord]
    | none =>
      have hfg' : ∀ rest, word ≠ "fg:".toList ++ rest := fun rest h => by
        rw [Colour.after?_eq_some_iff.2 h] at hfg
        cases hfg
      refine and_congr_right fun _ => ⟨?_, ?_⟩
      · rintro ⟨digits, h, hcut⟩
        exact ⟨"", by simp, digits, h, hcut⟩
      · rintro ⟨mark, hmark, digits, h, hcut⟩
        simp only [List.mem_cons, List.not_mem_nil, or_false] at hmark
        rcases hmark with rfl | rfl | rfl
        · exact ⟨digits, h, hcut⟩
        · exact absurd h (hfg' _)
        · exact absurd h (hbg' _)

/-- The words that are no colours. -/
def keywords : List String := ["bold", "dimmed", "dim", "italic", "underline", "none"]

/-- A word is a keyword, which can always be read, or a colour word. -/
theorem applyWord_cases (word : List Char) :
    (∃ k ∈ keywords, word = k.toList ∧ Readable word) ∨
      ∀ d, applyWord d word = paintWord d word := by
  by_cases hk : String.ofList word ∈ keywords
  · refine .inl ⟨_, hk, by simp, ?_⟩
    intro d
    simp only [keywords, List.mem_cons, List.not_mem_nil, or_false] at hk
    rcases hk with hk | hk | hk | hk | hk | hk
    all_goals simp [applyWord, hk]
  · refine .inr ?_
    intro d
    simp only [keywords, List.mem_cons, List.not_mem_nil, or_false, not_or] at hk
    unfold applyWord
    split
    all_goals simp_all

theorem not_cutWord_keyword {k : String} (hk : k ∈ keywords) : ¬ CutWord k.toList := by
  rintro ⟨mark, hmark, digits, h, -⟩
  simp only [keywords, List.mem_cons, List.not_mem_nil, or_false] at hk hmark
  rcases hmark with rfl | rfl | rfl <;> rcases hk with rfl | rfl | rfl | rfl | rfl | rfl <;>
    simp at h

theorem applyWord_eq_crash_iff {d : Descriptor} {word : List Char} {c : Crash} :
    applyWord d word = .error (.crash c) ↔ c = .splitCharacter ∧ CutWord word := by
  rcases applyWord_cases word with ⟨k, hk, rfl, hread⟩ | hpaint
  · obtain ⟨d', hd'⟩ := hread d
    rw [hd']
    exact iff_of_false nofun fun h => not_cutWord_keyword hk h.2
  · rw [hpaint, paintWord_eq_crash_iff]

/-- Whether a word can be read does not depend on the words before it. -/
theorem readable_of_ok {d d' : Descriptor} {word : List Char} (h : applyWord d word = .ok d') :
    Readable word := by
  rcases applyWord_cases word with ⟨k, hk, rfl, hread⟩ | hpaint
  · exact hread
  · intro e
    rw [hpaint] at h ⊢
    unfold paintWord at h ⊢
    split at h
    · obtain ⟨colour, hc, -⟩ := map_eq_ok_iff.1 h
      exact ⟨_, by rw [hc]; rfl⟩
    · obtain ⟨colour, hc, -⟩ := map_eq_ok_iff.1 h
      exact ⟨_, by simp only [hc]; rfl⟩

theorem applyWords_eq_crash_iff {d : Descriptor} {words : List (List Char)} {c : Crash} :
    applyWords d words = .error (.crash c) ↔ c = .splitCharacter ∧
      ∃ before word behind, words = before ++ word :: behind ∧
        (∀ w ∈ before, Readable w) ∧ CutWord word := by
  induction words generalizing d with
  | nil => exact iff_of_false nofun (by rintro ⟨-, before, word, behind, h, -⟩; simp at h)
  | cons first rest ih =>
    cases hfirst : applyWord d first with
    | ok d' =>
      have hread := readable_of_ok hfirst
      have hcut : ¬ CutWord first := fun h => by
        rw [applyWord_eq_crash_iff.2 ⟨rfl, h⟩] at hfirst
        cases hfirst
      have hrest : applyWords d (first :: rest) = applyWords d' rest := by rw [applyWords, hfirst]
      rw [hrest, ih]
      refine and_congr_right fun _ => ⟨?_, ?_⟩
      · rintro ⟨before, word, behind, rfl, hall, hw⟩
        exact ⟨first :: before, word, behind, rfl,
          List.forall_mem_cons.2 ⟨hread, hall⟩, hw⟩
      · rintro ⟨before, word, behind, heq, hall, hw⟩
        cases before with
        | nil => cases heq; exact absurd hw hcut
        | cons b before =>
          cases heq
          exact ⟨before, word, behind, rfl, (List.forall_mem_cons.1 hall).2, hw⟩
    | error fault =>
      have hunread : ¬ Readable first := fun h => by
        obtain ⟨d', hd'⟩ := h d
        rw [hd'] at hfirst
        cases hfirst
      have hrest : applyWords d (first :: rest) = applyWord d first := by
        rw [applyWords, hfirst]
      rw [hrest, applyWord_eq_crash_iff]
      refine and_congr_right fun _ => ⟨?_, ?_⟩
      · exact fun h => ⟨[], first, rest, rfl, by simp, h⟩
      · rintro ⟨before, word, behind, heq, hall, hw⟩
        cases before with
        | nil => cases heq; exact hw
        | cons b before =>
          cases heq
          exact absurd (hall _ (List.mem_cons_self ..)) hunread

theorem parse_eq_crash_iff {raw : String} {c : Crash} :
    parse raw = .error (.crash c) ↔ c = .splitCharacter ∧ Cuts raw := by
  rw [Cuts, ← applyWords_eq_crash_iff (d := plain), parse]
  cases applyWords plain (wordsOf raw.toList) with
  | ok d => simp
  | error fault => cases fault <;> simp

end Descriptor

namespace Sheet

/-- A sheet cannot be built if one of its overrides stops the program, wherever that stands. -/
theorem overlay_eq_error_iff {sheet : Sheet} {overrides : List (String × String)} {c : Crash} :
    overlay sheet overrides = .error c ↔
      c = .splitCharacter ∧ ∃ e ∈ overrides, Descriptor.Cuts e.2 := by
  induction overrides generalizing sheet with
  | nil => simp [overlay]
  | cons e rest ih =>
    obtain ⟨tag, raw⟩ := e
    have hraw : ∀ c, Descriptor.parse raw = .error (.crash c) ↔
        c = .splitCharacter ∧ Descriptor.Cuts raw := fun _ => Descriptor.parse_eq_crash_iff
    simp only [List.mem_cons, exists_eq_or_imp, and_or_left, ← hraw, overlay]
    cases hp : Descriptor.parse raw with
    | ok style => simpa using ih
    | error fault =>
      cases fault with
      | error e => simpa [Descriptor.map_eq_error_iff] using ih
      | crash c' =>
        obtain ⟨rfl, -⟩ := Descriptor.parse_eq_crash_iff.1 hp
        simp only [Except.error.injEq, Fault.crash.injEq]
        exact ⟨.inl, fun h => h.elim id fun h => h.1.symm⟩

theorem withOverrides_eq_error_iff {overrides : Table String} {c : Crash} :
    withOverrides overrides = .error c ↔
      c = .splitCharacter ∧ ∃ e ∈ overrides, Descriptor.Cuts e.2 :=
  overlay_eq_error_iff

theorem withOverrides_ok {overrides : Table String}
    (h : ∀ e ∈ overrides, ¬ Descriptor.Cuts e.2) :
    ∃ sheet errors, withOverrides overrides = .ok (sheet, errors) := by
  cases hsheet : withOverrides overrides with
  | ok r => exact ⟨r.1, r.2, rfl⟩
  | error c =>
    obtain ⟨-, e, he, hcut⟩ := withOverrides_eq_error_iff.1 hsheet
    exact absurd hcut (h e he)

end Sheet
end Style
end ShellPrompt
