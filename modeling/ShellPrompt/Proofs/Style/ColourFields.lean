import ShellPrompt.Proofs.Fields.Format
import ShellPrompt.Proofs.Style.Cut
import ShellPrompt.Style.Markup

/-!
# ShellPrompt.Proofs.Style.ColourFields

What is visible of a text with colour fields.

A field is a name in braces. `IsName` says that some style is written with it, `isName` decides it,
and `visible` is what a text shows when every such field is taken for a mark.

A text is not told from the marks around it: `apply` writes both in one syntax and escapes nothing.
`visible_apply` says how far that goes. The marks show nothing, and what a text shows behind them
is what it shows alone, so a text is shown as it is exactly if it holds no field.
-/

namespace ShellPrompt
namespace Style
namespace Xonsh

open Template (untilClosing)

/-! ## Names of fields -/

/-- A name that some style is written with, or that ends every style. -/
def IsName (name : List Char) : Prop :=
  name = "RESET".toList ∨
    ∃ d : Descriptor, foregroundField d = field name ∨ backgroundField d = field name

/-- The attributes in front of a colour, each with what joins it to the next. -/
def marking (d : Descriptor) : List Char := (attributes d).flatMap (· ++ ['_'])

def attributed : List Descriptor :=
  [false, true].flatMap fun bold => [false, true].flatMap fun dimmed =>
    [false, true].flatMap fun italic => [false, true].map fun underline =>
      { bold, dimmed, italic, underline }

/-- What may stand in front of a colour. -/
def marks : List (List Char) := "BACKGROUND_".toList :: attributed.map marking

/-- The colours that have a name of their own. -/
def namedColours : List Colour :=
  .reset :: [Hue.black, .red, .green, .yellow, .blue, .purple, .cyan, .white].flatMap
    fun hue => [.named hue false, .named hue true]

def isHexChar (c : Char) : Bool := "0123456789abcdef".toList.contains c

def isColour : List Char → Bool
  | ['#', a, b, c, d, e, f] => [a, b, c, d, e, f].all isHexChar
  | name => (namedColours.filterMap colour?).contains name

def isName (name : List Char) : Bool :=
  name == "RESET".toList || marks.any fun mark => (Colour.after? mark name).any isColour

theorem isHexChar_hexChar {n : Nat} (h : n < 16) : isHexChar (Text.Numeral.hexChar n) = true := by
  have hall : ∀ n < 16, isHexChar (Text.Numeral.hexChar n) = true := by decide
  exact hall n h

theorem exists_hexChar {c : Char} (h : isHexChar c = true) :
    ∃ n < 16, Text.Numeral.hexChar n = c := by
  have hall : "0123456789abcdef".toList = (List.range 16).map Text.Numeral.hexChar := rfl
  obtain ⟨n, hn, heq⟩ := List.mem_map.1 (hall ▸ List.contains_iff_mem.1 h)
  exact ⟨n, List.mem_range.1 hn, heq⟩

theorem exists_hexByte {a b : Char} (ha : isHexChar a = true) (hb : isHexChar b = true) :
    ∃ byte, Text.Numeral.hexByte byte = [a, b] := by
  obtain ⟨high, hhigh, rfl⟩ := exists_hexChar ha
  obtain ⟨low, hlow, rfl⟩ := exists_hexChar hb
  refine ⟨UInt8.ofNat (16 * high + low), ?_⟩
  have hbyte : (UInt8.ofNat (16 * high + low)).toNat = 16 * high + low :=
    Text.Utf8.toNat_byte (by omega)
  have hdiv : (16 * high + low) / 16 = high := by omega
  have hmod : (16 * high + low) % 16 = low := by omega
  rw [Text.Numeral.hexByte, hbyte, hdiv, hmod]

theorem isColour_iff {name : List Char} : isColour name = true ↔ ∃ c, colour? c = some name := by
  constructor
  · intro h
    unfold isColour at h
    split at h
    case h_1 a b c d e f =>
      simp only [List.all_cons, List.all_nil, Bool.and_true, Bool.and_eq_true] at h
      obtain ⟨ha, hb, hc, hd, he, hf⟩ := h
      obtain ⟨red, hred⟩ := exists_hexByte ha hb
      obtain ⟨green, hgreen⟩ := exists_hexByte hc hd
      obtain ⟨blue, hblue⟩ := exists_hexByte he hf
      exact ⟨.rgb red green blue, by rw [colour?, hred, hgreen, hblue]; rfl⟩
    case h_2 =>
      obtain ⟨c, -, hc⟩ := List.mem_filterMap.1 (List.contains_iff_mem.1 h)
      exact ⟨c, hc⟩
  · rintro ⟨c, hc⟩
    cases c with
    | reset => cases hc; decide
    | named hue bright => cases hc; cases hue <;> cases bright <;> decide
    | palette i => cases hc
    | rgb r g b =>
      cases hc
      have hhigh : ∀ byte : UInt8, isHexChar (Text.Numeral.hexChar (byte.toNat / 16)) = true :=
        fun byte => isHexChar_hexChar (by have := byte.toNat_lt; omega)
      have hlow : ∀ byte : UInt8, isHexChar (Text.Numeral.hexChar (byte.toNat % 16)) = true :=
        fun byte => isHexChar_hexChar (by omega)
      simp [Text.Numeral.hexByte, isColour, hhigh, hlow]

theorem mem_attributed (bold dimmed italic underline : Bool) :
    { bold, dimmed, italic, underline } ∈ attributed := by
  cases bold <;> cases dimmed <;> cases italic <;> cases underline <;> decide

theorem marking_mem (d : Descriptor) : marking d ∈ marks :=
  List.mem_cons_of_mem _
    (List.mem_map.2 ⟨_, mem_attributed d.bold d.dimmed d.italic d.underline, rfl⟩)

theorem intercalate_concat (gap last : List Char) (parts : List (List Char)) :
    gap.intercalate (parts ++ [last]) = parts.flatMap (· ++ gap) ++ last := by
  induction parts with
  | nil => simp
  | cons part parts ih =>
    obtain ⟨next, rest, hnext⟩ := List.exists_cons_of_ne_nil
      (show parts ++ [last] ≠ [] by simp)
    rw [List.cons_append, hnext, List.intercalate_cons_cons, ← hnext, ih]
    simp

theorem field_inj {a b : List Char} : field a = field b ↔ a = b := by
  simp [field]

theorem foregroundField_of_colour {d : Descriptor} {name : List Char}
    (h : d.fg.bind colour? = some name) : foregroundField d = field (marking d ++ name) := by
  rw [foregroundField, h]
  exact congrArg field (intercalate_concat ['_'] name (attributes d))

theorem backgroundField_of_colour {d : Descriptor} {name : List Char}
    (h : d.bg.bind colour? = some name) :
    backgroundField d = field ("BACKGROUND_".toList ++ name) := by
  rw [backgroundField, h]

theorem foregroundField_cases (d : Descriptor) :
    foregroundField d = [] ∨
      ∃ c name, colour? c = some name ∧ foregroundField d = field (marking d ++ name) := by
  cases hfg : d.fg.bind colour? with
  | some name =>
    obtain ⟨c, -, hc⟩ := Option.bind_eq_some_iff.1 hfg
    exact .inr ⟨c, name, hc, foregroundField_of_colour hfg⟩
  | none =>
    rw [foregroundField, hfg]
    split
    case h_1 => exact .inl rfl
    case h_2 => exact .inr ⟨.reset, _, rfl, congrArg field (intercalate_concat ['_'] _ _)⟩

theorem backgroundField_cases (d : Descriptor) :
    backgroundField d = [] ∨ ∃ c name, colour? c = some name ∧
      backgroundField d = field ("BACKGROUND_".toList ++ name) := by
  cases hbg : d.bg.bind colour? with
  | some name =>
    obtain ⟨c, -, hc⟩ := Option.bind_eq_some_iff.1 hbg
    exact .inr ⟨c, name, hc, backgroundField_of_colour hbg⟩
  | none =>
    rw [backgroundField, hbg]
    exact .inl rfl

theorem isName_cases {name : List Char} : IsName name ↔ name = "RESET".toList ∨
    ∃ mark ∈ marks, ∃ colour, name = mark ++ colour ∧ ∃ c, colour? c = some colour := by
  have hfield : ∀ a, ([] : List Char) ≠ field a := fun _ => nofun
  refine or_congr Iff.rfl ⟨?_, ?_⟩
  · rintro ⟨d, h | h⟩
    · rcases foregroundField_cases d with hnil | ⟨c, colour, hc, heq⟩
      · exact absurd (hnil.symm.trans h) (hfield _)
      · exact ⟨_, marking_mem d, colour, field_inj.1 (h.symm.trans heq), c, hc⟩
    · rcases backgroundField_cases d with hnil | ⟨c, colour, hc, heq⟩
      · exact absurd (hnil.symm.trans h) (hfield _)
      · exact ⟨_, List.mem_cons_self, colour, field_inj.1 (h.symm.trans heq), c, hc⟩
  · rintro ⟨mark, hmark, colour, rfl, c, hc⟩
    rcases List.mem_cons.1 hmark with rfl | hmark
    · exact ⟨{ bg := some c }, .inr (backgroundField_of_colour hc)⟩
    · obtain ⟨d, -, rfl⟩ := List.mem_map.1 hmark
      exact ⟨{ d with fg := some c }, .inl (foregroundField_of_colour hc)⟩

theorem isName_iff {name : List Char} : isName name = true ↔ IsName name := by
  simp only [isName, isName_cases, Bool.or_eq_true, beq_iff_eq, List.any_eq_true,
    Option.any_eq_true, Colour.after?_eq_some_iff, isColour_iff]

instance (name : List Char) : Decidable (IsName name) := decidable_of_iff _ isName_iff

/-! ## Names and braces -/

def Braceless (text : List Char) : Prop := '\x7b' ∉ text ∧ '\x7d' ∉ text

instance (text : List Char) : Decidable (Braceless text) :=
  inferInstanceAs (Decidable (_ ∧ _))

theorem Braceless.append {a b : List Char} (ha : Braceless a) (hb : Braceless b) :
    Braceless (a ++ b) := by
  simp_all [Braceless]

theorem braceless_colour {c : Colour} {name : List Char} (h : colour? c = some name) :
    Braceless name := by
  cases c with
  | reset => cases h; decide
  | named hue bright => cases h; cases hue <;> cases bright <;> decide
  | palette i => cases h
  | rgb r g b =>
    cases h
    have hdigit : ∀ n < 16, Braceless [Text.Numeral.hexChar n] := by decide
    have hbyte : ∀ byte, Braceless (Text.Numeral.hexByte byte) := fun byte =>
      (hdigit (byte.toNat / 16) (by have := byte.toNat_lt; omega)).append
        (hdigit (byte.toNat % 16) (by omega))
    exact ((show Braceless ['#'] by decide).append (hbyte r)).append (hbyte g) |>.append (hbyte b)

theorem IsName.braceless {name : List Char} (h : IsName name) : Braceless name := by
  have hmarks : ∀ mark ∈ marks, Braceless mark := by decide
  rcases isName_cases.1 h with rfl | ⟨mark, hmark, colour, rfl, c, hc⟩
  · decide
  · exact (hmarks mark hmark).append (braceless_colour hc)

/-! ## What is visible -/

/-- A text without its fields. A brace that begins no field is shown. -/
def visible : List Char → List Char
  | [] => []
  | '\x7b' :: text =>
    match _h : untilClosing text with
    | some (name, rest) => if IsName name then visible rest else '\x7b' :: visible text
    | none => '\x7b' :: visible text
  | c :: rest => c :: visible rest
termination_by text => text.length
decreasing_by
  · rw [Template.eq_of_untilClosing _h]; simp only [List.length_cons, List.length_append]; omega
  all_goals simp only [List.length_cons]; omega

theorem visible_field {name : List Char} (h : IsName name) (rest : List Char) :
    visible (field name ++ rest) = visible rest := by
  have htext : field name ++ rest = '\x7b' :: (name ++ '\x7d' :: rest) := by simp [field]
  rw [htext, visible]
  split
  case h_1 found behind hfound =>
    rw [Template.untilClosing_append h.braceless.2] at hfound
    cases hfound
    exact if_pos h
  case h_2 hnone =>
    rw [Template.untilClosing_append h.braceless.2] at hnone
    cases hnone

/-- No field begins here. -/
def Shown (text : List Char) : Prop := ∀ name rest, IsName name → text ≠ field name ++ rest

theorem visible_shown {c : Char} {rest : List Char} (h : Shown (c :: rest)) :
    visible (c :: rest) = c :: visible rest := by
  by_cases hbrace : c = '\x7b'
  · subst hbrace
    rw [visible]
    split
    case h_1 name behind hfound =>
      refine if_neg fun hname => h name behind hname ?_
      rw [Template.eq_of_untilClosing hfound]
      simp [field]
    case h_2 => rfl
  · rw [visible]
    exact hbrace

/-- A text is nothing, begins with a field, or begins with a character that is shown. -/
theorem fields_induction {motive : List Char → Prop} (nil : motive [])
    (field : ∀ name rest, IsName name → motive rest → motive (field name ++ rest))
    (shown : ∀ c rest, Shown (c :: rest) → motive rest → motive (c :: rest)) (text : List Char) :
    motive text := by
  match text with
  | [] => exact nil
  | c :: rest =>
    by_cases h : ∃ name behind, IsName name ∧ c :: rest = Xonsh.field name ++ behind
    case pos =>
      obtain ⟨name, behind, hname, heq⟩ := h
      rw [heq]
      exact field name behind hname (fields_induction nil field shown behind)
    case neg =>
      refine shown c rest (fun name behind hname heq => h ⟨name, behind, hname, heq⟩) ?_
      exact fields_induction nil field shown rest
termination_by text.length
decreasing_by
  · rw [heq]; simp only [Xonsh.field, List.length_append, List.length_cons]; omega
  · simp only [List.length_cons]; omega

/-- What stands before an opening brace is shown as it is alone. -/
theorem visible_append_open (text tail : List Char) :
    visible (text ++ '\x7b' :: tail) = visible text ++ visible ('\x7b' :: tail) := by
  induction text using fields_induction with
  | nil => rw [visible]; rfl
  | field name rest hname ih => rw [List.append_assoc, visible_field hname, visible_field hname, ih]
  | shown c rest hshown ih =>
    -- a field that began here would have to end here, for its name holds no brace
    have hlonger : Shown (c :: rest ++ '\x7b' :: tail) := by
      intro name behind hname heq
      rcases List.append_eq_append_iff.1 heq with ⟨more, hfield, hmore⟩ | ⟨more, hrest, -⟩
      · cases more with
        | nil => exact hshown name [] hname (by simp [hfield])
        | cons c' more =>
          obtain ⟨rfl, -⟩ := List.cons.inj hmore
          have htail : name ++ ['\x7d'] = rest ++ '\x7b' :: more := (List.cons.inj hfield).2
          have hmem : '\x7b' ∈ name ++ ['\x7d'] := by simp [htail]
          simp [hname.braceless.1] at hmem
      · exact hshown name more hname hrest
    rw [List.cons_append] at hlonger ⊢
    rw [visible_shown hlonger, visible_shown hshown, ih, List.cons_append]

theorem length_visible_le (text : List Char) : (visible text).length ≤ text.length := by
  induction text using fields_induction with
  | nil => simp [visible]
  | field name rest hname ih => rw [visible_field hname, List.length_append]; omega
  | shown c rest hshown ih => rw [visible_shown hshown, List.length_cons, List.length_cons]; omega

/-- Somewhere in the text stands a field. -/
def HoldsField (text : List Char) : Prop :=
  ∃ before name behind, IsName name ∧ text = before ++ field name ++ behind

theorem visible_eq_self_iff (text : List Char) : visible text = text ↔ ¬ HoldsField text := by
  constructor
  · rintro h ⟨before, name, behind, hname, rfl⟩
    have hopen : field name ++ behind = '\x7b' :: (name ++ '\x7d' :: behind) := by simp [field]
    have hbefore := length_visible_le before
    have hbehind := length_visible_le behind
    rw [List.append_assoc, hopen, visible_append_open, ← hopen, visible_field hname] at h
    have hlength := congrArg List.length h
    simp only [field, List.length_append, List.length_cons] at hlength
    omega
  · intro h
    induction text using fields_induction with
    | nil => rw [visible]
    | field name rest hname ih => exact absurd ⟨[], name, rest, hname, rfl⟩ h
    | shown c rest hshown ih =>
      have hrest : ¬ HoldsField rest := by
        rintro ⟨before, name, behind, hname, rfl⟩
        exact h ⟨c :: before, name, behind, hname, rfl⟩
      rw [visible_shown hshown, ih hrest]

/-! ## Styled texts -/

/-- A field, or nothing. -/
def IsMark (mark : List Char) : Prop := mark = [] ∨ ∃ name, IsName name ∧ mark = field name

theorem isMark_foregroundField (d : Descriptor) : IsMark (foregroundField d) := by
  rcases foregroundField_cases d with hnil | ⟨c, colour, -, heq⟩
  · exact .inl hnil
  · exact .inr ⟨_, .inr ⟨d, .inl heq⟩, heq⟩

theorem isMark_backgroundField (d : Descriptor) : IsMark (backgroundField d) := by
  rcases backgroundField_cases d with hnil | ⟨c, colour, -, heq⟩
  · exact .inl hnil
  · exact .inr ⟨_, .inr ⟨d, .inr heq⟩, heq⟩

theorem visible_mark {mark : List Char} (h : IsMark mark) (rest : List Char) :
    visible (mark ++ rest) = visible rest := by
  rcases h with rfl | ⟨name, hname, rfl⟩
  · rfl
  · exact visible_field hname rest

theorem visible_wrap (text : List Char) (d : Descriptor) :
    visible (wrap text d) = visible text := by
  have hreset : visible (field "RESET".toList) = [] := by
    have hfield := visible_field (.inl rfl : IsName "RESET".toList) []
    rwa [List.append_nil, visible] at hfield
  have hopen : ∃ tail, field "RESET".toList = '\x7b' :: tail := ⟨_, rfl⟩
  obtain ⟨tail, htail⟩ := hopen
  rw [wrap, List.append_assoc, List.append_assoc, visible_mark (isMark_foregroundField d),
    visible_mark (isMark_backgroundField d), htail, visible_append_open, ← htail, hreset,
    List.append_nil]

theorem visible_apply (text : String) (d : Descriptor) :
    visible (Dialect.xonsh.apply text d).toList = visible text.toList := by
  unfold Dialect.apply
  split
  case isTrue => rfl
  case isFalse => rw [String.toList_ofList, visible_wrap]

/-- Marks of `xonsh` show nothing and a text shows behind them what it shows alone, so under every
style it is shown as it is exactly if it holds no field (`HoldsField`). Of texts without fields,
those that are written alike are the same. -/
theorem shows_apply_xonsh :
    (∀ (text : String) (d : Descriptor),
      visible (Dialect.xonsh.apply text d).toList = visible text.toList ∧
        (visible (Dialect.xonsh.apply text d).toList = text.toList ↔ ¬ HoldsField text.toList)) ∧
    ∀ (text text' : String) (d d' : Descriptor), ¬ HoldsField text.toList →
      ¬ HoldsField text'.toList →
        Dialect.xonsh.apply text d = Dialect.xonsh.apply text' d' → text = text' := by
  refine ⟨fun text d => ⟨visible_apply text d, ?_⟩, fun text text' d d' h h' heq => ?_⟩
  · rw [visible_apply, visible_eq_self_iff]
  · have hvisible := visible_apply text d
    rw [heq, visible_apply, (visible_eq_self_iff _).2 h, (visible_eq_self_iff _).2 h'] at hvisible
    exact (String.toList_inj.1 hvisible).symm

/-- Braces alone forge nothing: such texts are shown as they are, and told apart even where their
styles are not. -/
theorem shows_apply_xonsh_branch :
    let text := "fix/\x7bred\x7d"
    let other := "fix/\x7bblue\x7d"
    let d : Descriptor := { fg := some (.palette 3), bold := true }
    let d' : Descriptor := { fg := some (.palette 200), bold := true }
    ¬ HoldsField text.toList ∧ ¬ HoldsField other.toList ∧
      visible (Dialect.xonsh.apply text d).toList = text.toList ∧
      Dialect.xonsh.apply text d = Dialect.xonsh.apply text d' ∧
      Dialect.xonsh.apply text d ≠ Dialect.xonsh.apply other d' := by
  intro text other d d'
  have hred : ¬ IsName ['r', 'e', 'd'] := by decide
  have hblue : ¬ IsName ['b', 'l', 'u', 'e'] := by decide
  have hfields : ¬ HoldsField text.toList := by
    rw [← visible_eq_self_iff]
    simp [text, visible, Template.untilClosing, hred]
  have hfields' : ¬ HoldsField other.toList := by
    rw [← visible_eq_self_iff]
    simp [other, visible, Template.untilClosing, hblue]
  refine ⟨hfields, hfields', (shows_apply_xonsh.1 text d).2.2 hfields, rfl, fun hsame => ?_⟩
  exact absurd (shows_apply_xonsh.2 text other d d' hfields hfields' hsame) (by decide)

/-- A text that holds fields is taken for marks, and for another text in another style. -/
theorem forged_fields :
    visible (Dialect.xonsh.apply "\x7bRED\x7d" .plain).toList ≠ "\x7bRED\x7d".toList ∧
      Dialect.xonsh.apply "\x7bRED\x7dx\x7bRESET\x7d" .plain =
        Dialect.xonsh.apply "x" { fg := some (.named .red false) } ∧
      "\x7bRED\x7dx\x7bRESET\x7d" ≠ "x" := by
  have hred : IsName "RED".toList := by decide
  have happly : (Dialect.xonsh.apply "\x7bRED\x7d" .plain).toList = field "RED".toList ++ [] :=
    rfl
  refine ⟨?_, rfl, by decide⟩
  rw [happly, visible_field hred, visible]
  exact nofun

end Xonsh
end Style
end ShellPrompt
