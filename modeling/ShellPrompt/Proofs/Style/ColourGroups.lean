import ShellPrompt.Proofs.Style.ColourFields

/-!
# ShellPrompt.Proofs.Style.ColourGroups

Styled texts with colour fields, read back.

Around a text without braces the only braces are those of the fields. So the names of the groups and
the text between them can be read off in one way (`Parts.write_inj`), the attributes and the colour
off the name of a group (`marking_append_inj`), and the colour off its own name (`colour?_inj`).

Two things leave no trace. Palette colours have no field, and where attributes name a colour they
name the default if there is no other: `foreColour` and `backColour` are what is left of a style.
`reads_apply_xonsh` says that two styled texts are written alike just where that is the same.
-/

namespace ShellPrompt
namespace Style
namespace Xonsh

/-! ## What is written of a style -/

/-- A colour that has a field. -/
def fielded : Option Colour → Option Colour
  | some (.palette _) => none
  | layer => layer

/-- The colour of the foreground group. Attributes name the default where there is no other. -/
def foreColour (d : Descriptor) : Option Colour :=
  if d.bold || d.dimmed || d.italic || d.underline then some ((fielded d.fg).getD .reset)
  else fielded d.fg

def backColour (d : Descriptor) : Option Colour := fielded d.bg

/-- The name of a group, a colour behind its mark. -/
def groupName (mark : List Char) (layer : Option Colour) : Option (List Char) :=
  layer.bind fun c => (colour? c).map (mark ++ ·)

def foreName (d : Descriptor) : Option (List Char) := groupName (marking d) (foreColour d)

def backName (d : Descriptor) : Option (List Char) :=
  groupName "BACKGROUND_".toList (backColour d)

theorem groupName_eq_some_iff {mark name : List Char} {layer : Option Colour} :
    groupName mark layer = some name ↔
      ∃ c colour, layer = some c ∧ colour? c = some colour ∧ name = mark ++ colour := by
  rw [groupName, Option.bind_eq_some_iff]
  refine exists_congr fun c => ?_
  rw [Option.map_eq_some_iff]
  exact ⟨fun ⟨hc, colour, hcolour, hname⟩ => ⟨colour, hc, hcolour, hname.symm⟩,
    fun ⟨colour, hc, hcolour, hname⟩ => ⟨hc, colour, hcolour, hname.symm⟩⟩

theorem fielded_cases (layer : Option Colour) :
    (fielded layer = none ∧ layer.bind colour? = none) ∨
      ∃ c name, fielded layer = some c ∧ layer.bind colour? = some name ∧
        colour? c = some name := by
  cases layer with
  | none => exact .inl ⟨rfl, rfl⟩
  | some c =>
    cases c with
    | palette i => exact .inl ⟨rfl, rfl⟩
    | reset => exact .inr ⟨_, _, rfl, rfl, rfl⟩
    | named hue bright => exact .inr ⟨_, _, rfl, rfl, rfl⟩
    | rgb r g b => exact .inr ⟨_, _, rfl, rfl, rfl⟩

theorem fielded_some {c : Colour} (h : ∀ i, c ≠ .palette i) : fielded (some c) = some c := by
  cases c with
  | palette i => exact absurd rfl (h i)
  | _ => rfl

theorem foreColour_of_fielded {d : Descriptor} {c : Colour} (h : fielded d.fg = some c) :
    foreColour d = some c := by
  rw [foreColour, h]
  split <;> rfl

theorem attributes_eq_nil_iff (d : Descriptor) :
    attributes d = [] ↔ (d.bold || d.dimmed || d.italic || d.underline) = false := by
  obtain ⟨fg, bg, bold, dimmed, italic, underline⟩ := d
  cases bold <;> cases dimmed <;> cases italic <;> cases underline <;> simp [attributes]

theorem foregroundField_eq (d : Descriptor) :
    foregroundField d = ((foreName d).map field).getD [] := by
  rcases fielded_cases d.fg with ⟨hfielded, hname⟩ | ⟨c, name, hfielded, hname, hc⟩
  · rw [foregroundField, hname, foreName, foreColour, hfielded]
    by_cases hplain : attributes d = []
    · rw [hplain, if_neg (by simp [(attributes_eq_nil_iff d).1 hplain])]
      rfl
    · have hmarked := mt (attributes_eq_nil_iff d).2 hplain
      rw [Bool.not_eq_false] at hmarked
      rw [if_pos hmarked]
      split
      case h_1 _ hnil => exact absurd hnil hplain
      case h_2 => exact congrArg field (intercalate_concat ['_'] _ _)
  · rw [foregroundField_of_colour hname, foreName, foreColour_of_fielded hfielded,
      groupName_eq_some_iff.2 ⟨c, name, rfl, hc, rfl⟩]
    rfl

theorem backgroundField_eq (d : Descriptor) :
    backgroundField d = ((backName d).map field).getD [] := by
  rcases fielded_cases d.bg with ⟨hfielded, hname⟩ | ⟨c, name, hfielded, hname, hc⟩
  · rw [backgroundField, hname, backName, backColour, hfielded]
    rfl
  · rw [backgroundField_of_colour hname, backName, backColour, hfielded,
      groupName_eq_some_iff.2 ⟨c, name, rfl, hc, rfl⟩]
    rfl

/-! ## Names told apart -/

theorem hexByte_inj {a b : UInt8} (h : Text.Numeral.hexByte a = Text.Numeral.hexByte b) :
    a = b := by
  have hchar : ∀ m < 16, ∀ n < 16, Text.Numeral.hexChar m = Text.Numeral.hexChar n → m = n := by
    decide
  have ha := a.toNat_lt
  have hb := b.toNat_lt
  simp only [Text.Numeral.hexByte, List.cons.injEq, and_true] at h
  have hhigh := hchar _ (by omega) _ (by omega) h.1
  have hlow := hchar _ (by omega) _ (by omega) h.2
  exact UInt8.toNat_inj.1 (by omega)

/-- A colour has a name of its own, or is written in digits behind `#`. -/
theorem colour?_cases {c : Colour} {name : List Char} (h : colour? c = some name) :
    c ∈ namedColours ∨ ∃ r g b, c = .rgb r g b ∧
      name = '#' :: (Text.Numeral.hexByte r ++ Text.Numeral.hexByte g ++
        Text.Numeral.hexByte b) := by
  cases c with
  | reset => exact .inl (by decide)
  | named hue bright => exact .inl (by cases hue <;> cases bright <;> decide)
  | palette i => cases h
  | rgb r g b =>
    cases h
    exact .inr ⟨r, g, b, rfl, rfl⟩

theorem colour?_inj {c c' : Colour} {name : List Char} (h : colour? c = some name)
    (h' : colour? c' = some name) : c = c' := by
  have hnamed : ∀ c ∈ namedColours, ∀ c' ∈ namedColours, colour? c = colour? c' → c = c' := by
    decide
  have hsign : ∀ c ∈ namedColours, (colour? c).bind List.head? ≠ some '#' := by decide
  rcases colour?_cases h with hc | ⟨r, g, b, rfl, hname⟩ <;>
    rcases colour?_cases h' with hc' | ⟨r', g', b', rfl, hname'⟩
  · exact hnamed c hc c' hc' (h.trans h'.symm)
  · exact absurd (by rw [h, hname']; rfl) (hsign c hc)
  · exact absurd (by rw [h', hname]; rfl) (hsign c' hc')
  · rw [hname, List.cons.injEq] at hname'
    obtain ⟨hrg, hb⟩ := List.append_inj' hname'.2 rfl
    obtain ⟨hr, hg⟩ := List.append_inj' hrg rfl
    rw [hexByte_inj hr, hexByte_inj hg, hexByte_inj hb]

/-- The marks in front of a colour. -/
def frontMarks : List (List Char) :=
  ["BOLD_".toList, "FAINT_".toList, "ITALIC_".toList, "UNDERLINE_".toList, "BACKGROUND_".toList]

/-- No colour is called what begins with a mark. -/
theorem mark_not_isPrefix {c : Colour} {name mark : List Char} (h : colour? c = some name)
    (hmark : mark ∈ frontMarks) : ¬ mark <+: name := by
  have hnamed : ∀ c ∈ namedColours, ∀ mark ∈ frontMarks,
      (colour? c).all (fun name => !mark.isPrefixOf name) = true := by
    decide
  have hsign : ∀ mark ∈ frontMarks, mark.head? ≠ some '#' ∧ mark ≠ [] := by decide
  rcases colour?_cases h with hc | ⟨r, g, b, -, rfl⟩
  · have hname := hnamed c hc mark hmark
    rw [h, Option.all_some, Bool.not_eq_true', ← Bool.not_eq_true, List.isPrefixOf_iff_prefix]
      at hname
    exact hname
  · obtain ⟨first, rest, rfl⟩ := List.exists_cons_of_ne_nil (hsign mark hmark).2
    rw [List.cons_prefix_cons]
    rintro ⟨rfl, -⟩
    exact (hsign _ hmark).1 rfl

section Optional

variable {mark other rest rest' : List Char} {b b' : Bool}

theorem optional_append_inj (h : ¬ mark <+: rest) (h' : ¬ mark <+: rest')
    (heq : (if b then mark else []) ++ rest = (if b' then mark else []) ++ rest') :
    b = b' ∧ rest = rest' := by
  cases b <;> cases b'
  case false.false => exact ⟨rfl, heq⟩
  case false.true => exact absurd ⟨rest', heq.symm⟩ h
  case true.false => exact absurd ⟨rest, heq⟩ h'
  case true.true => exact ⟨rfl, List.append_cancel_left heq⟩

/-- Two letters tell the marks apart. -/
theorem optional_not_isPrefix {m₁ m₂ o₁ o₂ : Char} {ms os : List Char} (hne : (m₁, m₂) ≠ (o₁, o₂))
    (h : ¬ m₁ :: m₂ :: ms <+: rest) :
    ¬ m₁ :: m₂ :: ms <+: (if b then o₁ :: o₂ :: os else []) ++ rest := by
  cases b
  case false => exact h
  case true =>
    simp only [if_true, List.cons_append, List.cons_prefix_cons]
    exact fun hprefix => hne (Prod.ext hprefix.1 hprefix.2.1)

end Optional

theorem marking_eq (d : Descriptor) :
    marking d = (if d.bold then "BOLD_".toList else []) ++
      ((if d.dimmed then "FAINT_".toList else []) ++
        ((if d.italic then "ITALIC_".toList else []) ++
          if d.underline then "UNDERLINE_".toList else [])) := by
  obtain ⟨fg, bg, bold, dimmed, italic, underline⟩ := d
  cases bold <;> cases dimmed <;> cases italic <;> cases underline <;> rfl

def SameAttributes (d d' : Descriptor) : Prop :=
  d.bold = d'.bold ∧ d.dimmed = d'.dimmed ∧ d.italic = d'.italic ∧ d.underline = d'.underline

theorem marking_append_inj {d d' : Descriptor} {c c' : Colour} {name name' : List Char}
    (hc : colour? c = some name) (hc' : colour? c' = some name')
    (h : marking d ++ name = marking d' ++ name') : SameAttributes d d' ∧ c = c' := by
  have hmark : ∀ mark ∈ frontMarks, ¬ mark <+: name := fun _ => mark_not_isPrefix hc
  have hmark' : ∀ mark ∈ frontMarks, ¬ mark <+: name' := fun _ => mark_not_isPrefix hc'
  simp only [frontMarks, List.forall_mem_cons] at hmark hmark'
  obtain ⟨hb, hf, hi, hu, -⟩ := hmark
  obtain ⟨hb', hf', hi', hu', -⟩ := hmark'
  simp only [marking_eq, List.append_assoc] at h
  -- each mark is taken off in turn: neither those behind it nor a colour begin with it
  obtain ⟨hbold, h⟩ := optional_append_inj
    (optional_not_isPrefix (by decide) (optional_not_isPrefix (by decide)
      (optional_not_isPrefix (by decide) hb)))
    (optional_not_isPrefix (by decide) (optional_not_isPrefix (by decide)
      (optional_not_isPrefix (by decide) hb'))) h
  obtain ⟨hdimmed, h⟩ := optional_append_inj
    (optional_not_isPrefix (by decide) (optional_not_isPrefix (by decide) hf))
    (optional_not_isPrefix (by decide) (optional_not_isPrefix (by decide) hf')) h
  obtain ⟨hitalic, h⟩ := optional_append_inj (optional_not_isPrefix (by decide) hi)
    (optional_not_isPrefix (by decide) hi') h
  obtain ⟨hunderline, rfl⟩ := optional_append_inj hu hu' h
  exact ⟨⟨hbold, hdimmed, hitalic, hunderline⟩, colour?_inj hc hc'⟩

/-! ## Parts -/

/-- A styled text taken apart: the names of its two groups, and the text in front of the reset. -/
structure Parts where
  fore : Option (List Char)
  back : Option (List Char)
  text : List Char

namespace Parts

def names (p : Parts) : List (List Char) := p.fore.toList ++ p.back.toList

def write (p : Parts) : List Char := p.names.flatMap field ++ (p.text ++ field "RESET".toList)

end Parts

/-- Attributes and a colour. -/
def IsFore (name : List Char) : Prop :=
  ∃ (d : Descriptor) (c : Colour) (colour : List Char),
    colour? c = some colour ∧ name = marking d ++ colour

/-- The mark of the background and a colour. -/
def IsBack (name : List Char) : Prop :=
  ∃ (c : Colour) (colour : List Char), colour? c = some colour ∧
    name = "BACKGROUND_".toList ++ colour

/-- The names are those of a foreground and a background group, and the text has no braces. -/
structure Parts.Formed (p : Parts) : Prop where
  fore : ∀ name ∈ p.fore, IsFore name
  back : ∀ name ∈ p.back, IsBack name
  text : Braceless p.text

/-- What closes every styled text is the name of no group. -/
theorem append_ne_reset {mark colour : List Char} {c : Colour} (hmark : mark ∈ marks)
    (hc : colour? c = some colour) : mark ++ colour ≠ "RESET".toList := by
  intro heq
  have hmarks : ∀ mark ∈ marks, (Colour.after? mark "RESET".toList).any isColour = false := by
    decide
  have hreset := hmarks mark hmark
  rw [← heq, Colour.after?_append, Option.any_some, isColour_iff.2 ⟨c, hc⟩] at hreset
  cases hreset

theorem IsFore.isGroup {name : List Char} (h : IsFore name) :
    Braceless name ∧ name ≠ "RESET".toList := by
  obtain ⟨d, c, colour, hc, rfl⟩ := h
  exact ⟨(isName_cases.2 (.inr ⟨_, marking_mem d, colour, rfl, c, hc⟩)).braceless,
    append_ne_reset (marking_mem d) hc⟩

theorem IsBack.isGroup {name : List Char} (h : IsBack name) :
    Braceless name ∧ name ≠ "RESET".toList := by
  obtain ⟨c, colour, hc, rfl⟩ := h
  exact ⟨(isName_cases.2 (.inr ⟨_, List.mem_cons_self, colour, rfl, c, hc⟩)).braceless,
    append_ne_reset List.mem_cons_self hc⟩

theorem IsFore.not_isBack {name : List Char} (h : IsFore name) : ¬ IsBack name := by
  obtain ⟨d, c, colour, hc, rfl⟩ := h
  rintro ⟨c', colour', -, heq⟩
  have hprefix : "BACKGROUND_".toList <+: marking d ++ colour := ⟨colour', heq.symm⟩
  rw [marking_eq] at hprefix
  simp only [List.append_assoc] at hprefix
  exact optional_not_isPrefix (by decide) (optional_not_isPrefix (by decide)
    (optional_not_isPrefix (by decide) (optional_not_isPrefix (by decide)
      (mark_not_isPrefix hc (show "BACKGROUND_".toList ∈ frontMarks by decide))))) hprefix

/-! ## Reading back -/

theorem field_append_inj {name name' rest rest' : List Char} (h : Braceless name)
    (h' : Braceless name') (heq : field name ++ rest = field name' ++ rest') :
    name = name' ∧ rest = rest' := by
  have htext : ∀ name rest, field name ++ rest = '\x7b' :: (name ++ '\x7d' :: rest) := by
    simp [field]
  rw [htext, htext, List.cons.injEq] at heq
  have hread := congrArg Template.untilClosing heq.2
  rw [Template.untilClosing_append h.2, Template.untilClosing_append h'.2] at hread
  cases hread
  exact ⟨rfl, rfl⟩

/-- A text in front of the reset is not taken for a group. -/
theorem text_append_ne {text name rest : List Char} (htext : Braceless text)
    (hname : Braceless name) (hreset : name ≠ "RESET".toList) :
    text ++ field "RESET".toList ≠ field name ++ rest := by
  intro heq
  cases text with
  | nil =>
    rw [List.nil_append, ← List.append_nil (field "RESET".toList)] at heq
    exact hreset (field_append_inj (by decide) hname heq).1.symm
  | cons c text =>
    have hc : c = '\x7b' := (List.cons.inj heq).1
    exact htext.1 (hc ▸ List.mem_cons_self)

/-- A row of groups and a text are read back from left to right. -/
theorem row_inj {names names' : List (List Char)} {text text' : List Char}
    (h : ∀ name ∈ names, Braceless name ∧ name ≠ "RESET".toList)
    (h' : ∀ name ∈ names', Braceless name ∧ name ≠ "RESET".toList)
    (htext : Braceless text) (htext' : Braceless text')
    (heq : names.flatMap field ++ (text ++ field "RESET".toList) =
      names'.flatMap field ++ (text' ++ field "RESET".toList)) :
    names = names' ∧ text = text' := by
  induction names generalizing names' with
  | nil =>
    cases names' with
    | nil => exact ⟨rfl, List.append_cancel_right heq⟩
    | cons name' names' =>
      obtain ⟨hclosed, hreset⟩ := h' name' List.mem_cons_self
      rw [List.flatMap_cons, List.append_assoc] at heq
      exact absurd heq (text_append_ne htext hclosed hreset)
  | cons name names ih =>
    obtain ⟨⟨hclosed, hreset⟩, hnames⟩ := List.forall_mem_cons.1 h
    cases names' with
    | nil =>
      rw [List.flatMap_cons, List.append_assoc] at heq
      exact absurd heq.symm (text_append_ne htext' hclosed hreset)
    | cons name' names' =>
      obtain ⟨⟨hclosed', -⟩, hnames'⟩ := List.forall_mem_cons.1 h'
      rw [List.flatMap_cons, List.flatMap_cons, List.append_assoc, List.append_assoc] at heq
      obtain ⟨rfl, hrest⟩ := field_append_inj hclosed hclosed' heq
      obtain ⟨rfl, rfl⟩ := ih hnames hnames' hrest
      exact ⟨rfl, rfl⟩

namespace Parts

variable {p q : Parts}

theorem Formed.isGroup (h : p.Formed) :
    ∀ name ∈ p.names, Braceless name ∧ name ≠ "RESET".toList := by
  intro name hname
  rcases List.mem_append.1 hname with hfore | hback
  · exact (h.fore name (Option.mem_toList.1 hfore)).isGroup
  · exact (h.back name (Option.mem_toList.1 hback)).isGroup

/-- The names of the groups tell by themselves which group they are of. -/
theorem Formed.eq_of_names (hp : p.Formed) (hq : q.Formed) (h : p.names = q.names) :
    p.fore = q.fore ∧ p.back = q.back := by
  obtain ⟨fore, back, text⟩ := p
  obtain ⟨fore', back', text'⟩ := q
  simp only [Parts.names] at h
  have hother : ∀ {name}, fore = some name → back' ≠ some name := fun hname hback =>
    (hp.fore _ hname).not_isBack (hq.back _ hback)
  have hother' : ∀ {name}, fore' = some name → back ≠ some name := fun hname hback =>
    (hq.fore _ hname).not_isBack (hp.back _ hback)
  cases fore <;> cases fore' <;> cases back <;> cases back' <;> simp_all

theorem write_inj (hp : p.Formed) (hq : q.Formed) : p.write = q.write ↔ p = q := by
  constructor
  · intro h
    obtain ⟨hnames, htext⟩ := row_inj hp.isGroup hq.isGroup hp.text hq.text h
    obtain ⟨hfore, hback⟩ := hp.eq_of_names hq hnames
    cases p
    cases q
    cases hfore
    cases hback
    cases htext
    rfl
  · rintro rfl
    rfl

end Parts

/-- The parts a text is written in under a style. -/
def parts (text : List Char) (d : Descriptor) : Parts := ⟨foreName d, backName d, text⟩

theorem formed_parts {text : List Char} (h : Braceless text) (d : Descriptor) :
    (parts text d).Formed := by
  constructor
  case fore =>
    intro name hname
    obtain ⟨c, colour, -, hcolour, rfl⟩ := groupName_eq_some_iff.1 hname
    exact ⟨d, c, colour, hcolour, rfl⟩
  case back =>
    intro name hname
    obtain ⟨c, colour, -, hcolour, rfl⟩ := groupName_eq_some_iff.1 hname
    exact ⟨c, colour, hcolour, rfl⟩
  case text => exact h

theorem write_parts (text : List Char) (d : Descriptor) : (parts text d).write = wrap text d := by
  rw [wrap, foregroundField_eq, backgroundField_eq, Parts.write, Parts.names, parts]
  cases foreName d <;> cases backName d <;> simp

/-! ## Styles told apart -/

/-- Nothing of what is written tells the styles apart. -/
structure Alike (d d' : Descriptor) : Prop where
  attributes : SameAttributes d d'
  fore : foreColour d = foreColour d'
  back : backColour d = backColour d'

theorem marking_congr {d d' : Descriptor} (h : SameAttributes d d') : marking d = marking d' := by
  obtain ⟨hbold, hdimmed, hitalic, hunderline⟩ := h
  rw [marking_eq, marking_eq, hbold, hdimmed, hitalic, hunderline]

/-- A layer with a field is written in a group. -/
theorem groupName_cases (mark : List Char) {layer : Option Colour} (h : fielded layer = layer) :
    (layer = none ∧ groupName mark layer = none) ∨ ∃ c colour, layer = some c ∧
      colour? c = some colour ∧ groupName mark layer = some (mark ++ colour) := by
  rcases fielded_cases layer with ⟨hnone, -⟩ | ⟨c, colour, hc, -, hcolour⟩
  · obtain rfl := h.symm.trans hnone
    exact .inl ⟨rfl, rfl⟩
  · obtain rfl := h.symm.trans hc
    exact .inr ⟨c, colour, rfl, hcolour, groupName_eq_some_iff.2 ⟨c, colour, rfl, hcolour, rfl⟩⟩

theorem fielded_fielded (layer : Option Colour) : fielded (fielded layer) = fielded layer := by
  cases layer with
  | none => rfl
  | some c => cases c <;> rfl

theorem fielded_foreColour (d : Descriptor) : fielded (foreColour d) = foreColour d := by
  rw [foreColour]
  split
  case isTrue =>
    rcases fielded_cases d.fg with ⟨hnone, -⟩ | ⟨c, -, hc, -⟩
    · rw [hnone]
      rfl
    · have hfielded := fielded_fielded d.fg
      rw [hc] at hfielded ⊢
      exact hfielded
  case isFalse => exact fielded_fielded d.fg

theorem sameAttributes_plain {d : Descriptor} (h : foreColour d = none) :
    SameAttributes d .plain := by
  rw [foreColour] at h
  split at h
  case isTrue => cases h
  case isFalse hmarked =>
    simp only [Bool.or_eq_true, not_or, Bool.not_eq_true] at hmarked
    obtain ⟨⟨⟨hbold, hdimmed⟩, hitalic⟩, hunderline⟩ := hmarked
    exact ⟨hbold, hdimmed, hitalic, hunderline⟩

theorem foreName_eq_iff {d d' : Descriptor} :
    foreName d = foreName d' ↔ SameAttributes d d' ∧ foreColour d = foreColour d' := by
  constructor
  · intro h
    rw [foreName, foreName] at h
    rcases groupName_cases (marking d) (fielded_foreColour d) with
        ⟨hfore, hname⟩ | ⟨c, colour, hfore, hc, hname⟩ <;>
      rcases groupName_cases (marking d') (fielded_foreColour d') with
        ⟨hfore', hname'⟩ | ⟨c', colour', hfore', hc', hname'⟩ <;>
      rw [hname, hname'] at h
    · obtain ⟨hbold, hdimmed, hitalic, hunderline⟩ := sameAttributes_plain hfore
      obtain ⟨hbold', hdimmed', hitalic', hunderline'⟩ := sameAttributes_plain hfore'
      exact ⟨⟨hbold.trans hbold'.symm, hdimmed.trans hdimmed'.symm, hitalic.trans hitalic'.symm,
        hunderline.trans hunderline'.symm⟩, hfore.trans hfore'.symm⟩
    · cases h
    · cases h
    · obtain ⟨hsame, rfl⟩ := marking_append_inj hc hc' (Option.some.inj h)
      exact ⟨hsame, hfore.trans hfore'.symm⟩
  · rintro ⟨hsame, hfore⟩
    rw [foreName, foreName, hfore, marking_congr hsame]

theorem backName_eq_iff {d d' : Descriptor} :
    backName d = backName d' ↔ backColour d = backColour d' := by
  constructor
  · intro h
    rw [backName, backName] at h
    rcases groupName_cases "BACKGROUND_".toList (fielded_fielded d.bg) with
        ⟨hback, hname⟩ | ⟨c, colour, hback, hc, hname⟩ <;>
      rcases groupName_cases "BACKGROUND_".toList (fielded_fielded d'.bg) with
        ⟨hback', hname'⟩ | ⟨c', colour', hback', hc', hname'⟩ <;>
      rw [backColour, backColour, hname, hname'] at h
    · exact hback.trans hback'.symm
    · cases h
    · cases h
    · obtain rfl := List.append_cancel_left (Option.some.inj h)
      obtain rfl := colour?_inj hc hc'
      exact hback.trans hback'.symm
  · intro h
    rw [backName, backName, h]

theorem parts_eq_iff {text text' : List Char} {d d' : Descriptor} :
    parts text d = parts text' d' ↔ text = text' ∧ Alike d d' := by
  rw [parts, parts, Parts.mk.injEq, foreName_eq_iff, backName_eq_iff]
  constructor
  · rintro ⟨⟨hsame, hfore⟩, hback, htext⟩
    exact ⟨htext, hsame, hfore, hback⟩
  · rintro ⟨htext, hsame, hfore, hback⟩
    exact ⟨⟨hsame, hfore⟩, hback, htext⟩

theorem toList_apply {text : String} {d : Descriptor} (htext : text ≠ "") (hd : d ≠ .plain) :
    (Dialect.xonsh.apply text d).toList = wrap text.toList d := by
  have hplain : (d.isPlain || text.isEmpty) = false := by
    simpa [Descriptor.isPlain, htext] using hd
  rw [Dialect.apply, hplain]
  exact String.toList_ofList

/-- What `xonsh` writes of a styled text is the `parts` it was written in and no others, so it is
written as another one just where the texts are the same and nothing of the styles tells them apart
(`Alike`). A colour with a field is told from every other, in either layer and with whatever
attributes. -/
theorem reads_apply_xonsh :
    (∀ (text : String) (d : Descriptor), text ≠ "" → Braceless text.toList → d ≠ .plain →
      (parts text.toList d).Formed ∧ ∀ p : Parts, p.Formed →
        (p.write = (Dialect.xonsh.apply text d).toList ↔ p = parts text.toList d)) ∧
    (∀ (text text' : String) (d d' : Descriptor), text ≠ "" → text' ≠ "" →
      Braceless text.toList → Braceless text'.toList → d ≠ .plain → d' ≠ .plain →
        (Dialect.xonsh.apply text d = Dialect.xonsh.apply text' d' ↔
          text = text' ∧ Alike d d')) ∧
    ∀ (text text' : String) (d d' : Descriptor) (c c' : Colour), text ≠ "" → text' ≠ "" →
      Braceless text.toList → Braceless text'.toList →
      (∀ i, c ≠ .palette i) → (∀ i, c' ≠ .palette i) → c ≠ c' →
        Dialect.xonsh.apply text { d with fg := some c } ≠
            Dialect.xonsh.apply text' { d' with fg := some c' } ∧
          Dialect.xonsh.apply text { d with bg := some c } ≠
            Dialect.xonsh.apply text' { d' with bg := some c' } := by
  have hsame : ∀ (text text' : String) (d d' : Descriptor), text ≠ "" → text' ≠ "" →
      Braceless text.toList → Braceless text'.toList → d ≠ .plain → d' ≠ .plain →
        (Dialect.xonsh.apply text d = Dialect.xonsh.apply text' d' ↔
          text = text' ∧ Alike d d') := by
    intro text text' d d' htext htext' hbraces hbraces' hd hd'
    rw [← String.toList_inj, toList_apply htext hd, toList_apply htext' hd', ← write_parts,
      ← write_parts, Parts.write_inj (formed_parts hbraces d) (formed_parts hbraces' d'),
      parts_eq_iff, String.toList_inj]
  have hfg : ∀ (d : Descriptor) (c : Colour), { d with fg := some c } ≠ Descriptor.plain :=
    fun _ _ h => nomatch congrArg Descriptor.fg h
  have hbg : ∀ (d : Descriptor) (c : Colour), { d with bg := some c } ≠ Descriptor.plain :=
    fun _ _ h => nomatch congrArg Descriptor.bg h
  refine ⟨fun text d htext hbraces hd => ⟨formed_parts hbraces d, fun p hp => ?_⟩, hsame,
    fun text text' d d' c c' htext htext' hbraces hbraces' hc hc' hne => ⟨?fore, ?back⟩⟩
  · rw [toList_apply htext hd, ← write_parts, Parts.write_inj hp (formed_parts hbraces d)]
  case fore =>
    intro heq
    have hfore := ((hsame _ _ _ _ htext htext' hbraces hbraces' (hfg d c) (hfg d' c')).1 heq).2.fore
    rw [foreColour_of_fielded (fielded_some hc), foreColour_of_fielded (fielded_some hc')] at hfore
    exact hne (Option.some.inj hfore)
  case back =>
    intro heq
    have hback := ((hsame _ _ _ _ htext htext' hbraces hbraces' (hbg d c) (hbg d' c')).1 heq).2.back
    rw [backColour, backColour, fielded_some hc, fielded_some hc'] at hback
    exact hne (Option.some.inj hback)

/-- Bold in a palette colour is written as bold in the default, and read as that. -/
theorem reads_apply_xonsh_main :
    let text := "main"
    let d : Descriptor := { fg := some (.palette 3), bg := some (.named .blue true), bold := true }
    let d' : Descriptor := { fg := some .reset, bg := some (.named .blue true), bold := true }
    text ≠ "" ∧ Braceless text.toList ∧ d ≠ .plain ∧ d' ≠ .plain ∧
      (∀ p : Parts, p.Formed →
        (p.write = (Dialect.xonsh.apply text d).toList ↔ p = parts text.toList d)) ∧
      Dialect.xonsh.apply text d = Dialect.xonsh.apply text d' ∧
      Dialect.xonsh.apply text { d with fg := some (.named .red true) } ≠
        Dialect.xonsh.apply text { d' with fg := some (.rgb 255 0 0) } := by
  intro text d d'
  have htext : text ≠ "" := by decide
  have hbraces : Braceless text.toList := by decide
  have hd : d ≠ .plain := by decide
  have hd' : d' ≠ .plain := by decide
  have halike : Alike d d' := ⟨⟨rfl, rfl, rfl, rfl⟩, rfl, rfl⟩
  have hred : ∀ i, Colour.named .red true ≠ .palette i := nofun
  have hrgb : ∀ i, Colour.rgb 255 0 0 ≠ .palette i := nofun
  have hne : Colour.named .red true ≠ .rgb 255 0 0 := nofun
  have hread := (reads_apply_xonsh.1 text d htext hbraces hd).2
  have hsame := (reads_apply_xonsh.2.1 text text d d' htext htext hbraces hbraces hd hd').2
    ⟨rfl, halike⟩
  have htold := (reads_apply_xonsh.2.2 text text d d' _ _ htext htext hbraces hbraces hred hrgb
    hne).1
  exact ⟨htext, hbraces, hd, hd', hread, hsame, htold⟩

end Xonsh
end Style
end ShellPrompt
