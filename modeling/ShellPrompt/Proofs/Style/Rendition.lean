import ShellPrompt.Proofs.Style.Markup

/-!
# ShellPrompt.Proofs.Style.Rendition

What a terminal shows of a styled text.

`Terminal` adds two things to the machine that tells sequences from text: what a control sequence
holds, and the rendition in force, which `m` selects. Every character is shown in the rendition it
meets.

* `read_sgr`: a selection works from every state, those inside unfinished sequences included.
* `read_opening`, `read_closing`: the marks around a text select the rendition of its style and
  undo it.
* `shows_apply_ansi`: a text under a style takes the columns it takes alone, and is shown in that
  style alone.
-/

namespace ShellPrompt
namespace Style

open Text.Numeral (decimal)
open Text.EscapeSequence (State isInvisible strip stripFrom after)

/-! ## Renditions -/

/-- A colour as a terminal knows it. -/
inductive Ink where
  | standard
  | palette (index : Nat)
  | rgb (r g b : Nat)
deriving DecidableEq

structure Rendition where
  fg : Ink := .standard
  bg : Ink := .standard
  bold : Bool := false
  faint : Bool := false
  italic : Bool := false
  underline : Bool := false
deriving DecidableEq

namespace Rendition

/-- What one parameter selects. A terminal passes over those it does not know. -/
def set (r : Rendition) : Nat → Rendition
  | 0 => {}
  | 1 => { r with bold := true }
  | 2 => { r with faint := true }
  | 3 => { r with italic := true }
  | 4 => { r with underline := true }
  | 22 => { r with bold := false, faint := false }
  | 23 => { r with italic := false }
  | 24 => { r with underline := false }
  | 39 => { r with fg := .standard }
  | 49 => { r with bg := .standard }
  | n =>
    if 30 ≤ n ∧ n ≤ 37 then { r with fg := .palette (n - 30) }
    else if 40 ≤ n ∧ n ≤ 47 then { r with bg := .palette (n - 40) }
    else if 90 ≤ n ∧ n ≤ 97 then { r with fg := .palette (n - 90 + 8) }
    else if 100 ≤ n ∧ n ≤ 107 then { r with bg := .palette (n - 100 + 8) }
    else r

/-- Reads parameters from left to right. Behind 38 and 48 stands the description of a colour; one
that cannot be read ends the selection. -/
def select (r : Rendition) : List Nat → Rendition
  | [] => r
  | 38 :: 5 :: i :: rest => select { r with fg := .palette i } rest
  | 38 :: 2 :: red :: green :: blue :: rest => select { r with fg := .rgb red green blue } rest
  | 38 :: _ => r
  | 48 :: 5 :: i :: rest => select { r with bg := .palette i } rest
  | 48 :: 2 :: red :: green :: blue :: rest => select { r with bg := .rgb red green blue } rest
  | 48 :: _ => r
  | n :: rest => select (r.set n) rest

/-- A parameter that is left out is zero. -/
def number? (digits : List Char) : Option Nat :=
  if digits = [] then some 0 else Text.Numeral.decimal? digits

def numbers? (parameters : List Char) : Option (List Nat) := (parameters.splitOn ';').mapM number?

/-- A selection with a parameter that is no number selects nothing. -/
def apply (r : Rendition) (parameters : List Char) : Rendition :=
  ((numbers? parameters).map r.select).getD r

end Rendition

def Colour.ink : Colour → Ink
  | .reset => .standard
  | .named hue bright => .palette (hue.index + if bright then 8 else 0)
  | .palette i => .palette i.toNat
  | .rgb r g b => .rgb r.toNat g.toNat b.toNat

/-- A style put over a rendition. -/
def Descriptor.over (d : Descriptor) (r : Rendition) : Rendition where
  fg := (d.fg.map Colour.ink).getD r.fg
  bg := (d.bg.map Colour.ink).getD r.bg
  bold := d.bold || r.bold
  faint := d.dimmed || r.faint
  italic := d.italic || r.italic
  underline := d.underline || r.underline

/-- The colours and attributes of a style, and nothing else. -/
def Descriptor.rendition (d : Descriptor) : Rendition := d.over {}

/-! ## Terminals -/

structure Terminal where
  state : State := .ground
  /-- What the control sequence being read holds so far. -/
  held : List Char := []
  rendition : Rendition := {}
deriving DecidableEq

namespace Terminal

/-- What a control sequence keeps of its characters, parameters and intermediates. -/
def kept (c : Char) : List Char := if 0x20 ≤ c.toNat ∧ c.toNat ≤ 0x3F then [c] else []

def step (t : Terminal) (c : Char) : List (Char × Rendition) × Terminal :=
  let next := Text.EscapeSequence.step t.state c
  (next.1.map (·, t.rendition),
    { state := next.2
      held := if t.state = .control ∧ next.2 = .control then t.held ++ kept c else []
      rendition := if t.state = .control ∧ c = 'm' then t.rendition.apply t.held else t.rendition })

/-- What is shown of a text, and the terminal after it. -/
def read (t : Terminal) : List Char → List (Char × Rendition) × Terminal
  | [] => ([], t)
  | c :: rest => ((t.step c).1 ++ ((t.step c).2.read rest).1, ((t.step c).2.read rest).2)

theorem read_append (t : Terminal) (a b : List Char) :
    t.read (a ++ b) = ((t.read a).1 ++ ((t.read a).2.read b).1, ((t.read a).2.read b).2) := by
  induction a generalizing t with
  | nil => rfl
  | cons c rest ih => simp only [List.cons_append, read, ih, List.append_assoc]

/-! ## Selections -/

theorem kept_parameter {c : Char} (h : Ansi.isParameter c = true) : kept c = [c] := by
  simp only [Ansi.isParameter, Bool.and_eq_true, decide_eq_true_eq] at h
  exact if_pos ⟨by omega, h.2⟩

theorem read_parameters {held parameters : List Char} {r : Rendition}
    (h : parameters.all Ansi.isParameter = true) :
    read ⟨.control, held, r⟩ parameters = ([], ⟨.control, held ++ parameters, r⟩) := by
  induction parameters generalizing held with
  | nil => rw [List.append_nil]; rfl
  | cons c rest ih =>
    rw [List.all_cons, Bool.and_eq_true] at h
    have hm : c ≠ 'm' := by rintro rfl; cases h.1
    have hstep : step ⟨.control, held, r⟩ c = ([], ⟨.control, held ++ [c], r⟩) := by
      simp [step, Ansi.step_parameter h.1, kept_parameter h.1, hm]
    rw [read, hstep, ih h.2, List.append_assoc]
    rfl

/-- A selection takes hold wherever the terminal was left. -/
theorem read_sgr (t : Terminal) {parameters : List Char}
    (h : parameters.all Ansi.isParameter = true) :
    t.read (Ansi.sgr parameters) = ([], ⟨.ground, [], t.rendition.apply parameters⟩) := by
  have hescape : t.step '\x1b' = ([], ⟨.escape, [], t.rendition⟩) := by
    simp [step, Text.EscapeSequence.step]
  have hbracket : ∀ r, step ⟨.escape, [], r⟩ '[' = ([], ⟨.control, [], r⟩) := fun _ => rfl
  have hfinal : ∀ held r, step ⟨.control, held, r⟩ 'm' = ([], ⟨.ground, [], r.apply held⟩) :=
    fun _ _ => rfl
  rw [Ansi.sgr, List.cons_append, List.cons_append, read, read, hescape, hbracket, read_append,
    read_parameters h]
  simp [read, hfinal]

end Terminal

namespace Rendition

theorem number?_decimal (n : Nat) : number? (decimal n) = some n := by
  have hne : decimal n ≠ [] := Nat.toDigits_ne_nil
  rw [number?, if_neg hne, Text.Numeral.decimal?_decimal]

theorem semicolon_not_mem_decimal (n : Nat) : ';' ∉ decimal n := by
  intro h
  cases Nat.isDigit_of_mem_toDigits (by omega) (by omega) h

theorem numbers?_decimal (n : Nat) : numbers? (decimal n) = some [n] := by
  rw [numbers?, List.splitOn_eq_singleton (semicolon_not_mem_decimal n), List.mapM_cons,
    number?_decimal]
  rfl

theorem numbers?_cons (n : Nat) (rest : List Char) :
    numbers? (decimal n ++ ';' :: rest) = (numbers? rest).map (n :: ·) := by
  rw [numbers?, List.splitOn_append_cons_self_of_not_mem (semicolon_not_mem_decimal n),
    List.mapM_cons, number?_decimal, numbers?]
  cases (rest.splitOn ';').mapM number? <;> rfl

/-- The numbers that describe a colour, behind the one that names the layer. -/
def description : Colour → List Nat
  | .reset => []
  | .named hue bright => [5, hue.index + if bright then 8 else 0]
  | .palette i => [5, i.toNat]
  | .rgb r g b => [2, r.toNat, g.toNat, b.toNat]

theorem numbers?_layer (layer : Nat) (c : Colour) :
    numbers? (decimal layer ++ Ansi.colourParameters c) = some (layer :: description c) := by
  have hfive : ∀ n, ";5;".toList ++ decimal n = ';' :: (decimal 5 ++ ';' :: decimal n) :=
    fun _ => rfl
  have htwo : ∀ rest, ";2;".toList ++ rest = ';' :: (decimal 2 ++ ';' :: rest) := fun _ => rfl
  cases c with
  | reset => rw [Ansi.colourParameters, List.append_nil, numbers?_decimal]; rfl
  | named hue bright =>
    rw [Ansi.colourParameters, hfive, numbers?_cons, numbers?_cons, numbers?_decimal]
    rfl
  | palette i =>
    rw [Ansi.colourParameters, hfive, numbers?_cons, numbers?_cons, numbers?_decimal]
    rfl
  | rgb r g b =>
    rw [Ansi.colourParameters, List.append_assoc, List.append_assoc, htwo, numbers?_cons,
      numbers?_cons, List.cons_append, numbers?_cons, numbers?_cons, numbers?_decimal]
    rfl

end Rendition

namespace Terminal

/-! ## Marks around a text -/

theorem read_layer (t : Terminal) (layer : Nat) (c : Colour) :
    t.read (Ansi.sgr (decimal layer ++ Ansi.colourParameters c)) =
      ([], ⟨.ground, [], t.rendition.select (layer :: Rendition.description c)⟩) := by
  have hall : (decimal layer ++ Ansi.colourParameters c).all Ansi.isParameter = true := by
    rw [List.all_append, Ansi.all_isParameter_decimal, Ansi.all_isParameter_colour]
    rfl
  rw [read_sgr t hall, Rendition.apply, Rendition.numbers?_layer]
  rfl

theorem read_foreground (t : Terminal) (c : Colour) :
    t.read (Ansi.foreground c) = ([], ⟨.ground, [], { t.rendition with fg := c.ink }⟩) := by
  cases c with
  | reset => exact read_sgr t rfl
  | _ => exact read_layer t 38 _

theorem read_background (t : Terminal) (c : Colour) :
    t.read (Ansi.background c) = ([], ⟨.ground, [], { t.rendition with bg := c.ink }⟩) := by
  cases c with
  | reset => exact read_sgr t rfl
  | _ => exact read_layer t 48 _

theorem read_foreground? (layer : Option Colour) (r : Rendition) :
    read ⟨.ground, [], r⟩ ((layer.map Ansi.foreground).getD []) =
      ([], ⟨.ground, [], { r with fg := (layer.map Colour.ink).getD r.fg }⟩) := by
  cases layer with
  | none => rfl
  | some c => exact read_foreground _ c

theorem read_background? (layer : Option Colour) (r : Rendition) :
    read ⟨.ground, [], r⟩ ((layer.map Ansi.background).getD []) =
      ([], ⟨.ground, [], { r with bg := (layer.map Colour.ink).getD r.bg }⟩) := by
  cases layer with
  | none => rfl
  | some c => exact read_background _ c

theorem read_attribute {a : Char} (ha : Ansi.isParameter a = true) (set : Bool) (r : Rendition) :
    read ⟨.ground, [], r⟩ ((if set then [a] else []).flatMap fun a => Ansi.sgr [a]) =
      ([], ⟨.ground, [], if set then r.apply [a] else r⟩) := by
  cases set with
  | false => rfl
  | true =>
    have hall : [a].all Ansi.isParameter = true := by rw [List.all_cons, ha]; rfl
    exact read_sgr _ hall

theorem read_opening (d : Descriptor) (r : Rendition) :
    read ⟨.ground, [], r⟩ (Ansi.opening d) = ([], ⟨.ground, [], d.over r⟩) := by
  rw [Ansi.opening, Ansi.attributes]
  simp only [List.flatMap_append, read_append, read_background?, read_foreground?,
    read_attribute (show Ansi.isParameter '1' = true from rfl),
    read_attribute (show Ansi.isParameter '2' = true from rfl),
    read_attribute (show Ansi.isParameter '3' = true from rfl),
    read_attribute (show Ansi.isParameter '4' = true from rfl), List.append_nil]
  obtain ⟨fg, bg, bold, dimmed, italic, underline⟩ := d
  cases bold <;> cases dimmed <;> cases italic <;> cases underline <;> rfl

/-- From the rendition of a style, in whatever state the text has left the terminal. -/
theorem read_closing {t : Terminal} {d : Descriptor} (hd : d ≠ .plain)
    (ht : t.rendition = d.rendition) : t.read (Ansi.closing d) = ([], {}) := by
  unfold Ansi.closing
  split
  case isFalse => exact read_sgr t rfl
  case isTrue hnone =>
    have hflags : d.bold = false ∧ d.dimmed = false ∧ d.italic = false ∧ d.underline = false := by
      simpa [Ansi.attributes] using hnone
    have hbg : "49".toList.all Ansi.isParameter = true := rfl
    have hfg : "39".toList.all Ansi.isParameter = true := rfl
    obtain ⟨fg, bg, bold, dimmed, italic, underline⟩ := d
    obtain ⟨rfl, rfl, rfl, rfl⟩ := hflags
    cases bg with
    | none =>
      cases fg with
      | none => exact absurd rfl hd
      | some c =>
        simp only [Option.isSome_none, Option.isSome_some, Bool.false_eq_true, if_false, if_true,
          List.nil_append, read_sgr _ hfg, ht]
        rfl
    | some c =>
      cases fg with
      | none =>
        simp only [Option.isSome_none, Option.isSome_some, Bool.false_eq_true, if_false, if_true,
          List.append_nil, read_sgr _ hbg, ht]
        rfl
      | some c' =>
        simp only [Option.isSome_some, if_true, read_append, read_sgr _ hbg, read_sgr _ hfg, ht]
        rfl

/-! ## Styled texts -/

/-- A text is read in the rendition of its style, and whatever it leaves behind is undone, unless it
selects renditions itself. -/
theorem read_wrap (text : List Char) {d : Descriptor} (hd : d ≠ .plain)
    (htext : (read ⟨.ground, [], d.rendition⟩ text).2.rendition = d.rendition) :
    read {} (Ansi.wrap text d) = ((read ⟨.ground, [], d.rendition⟩ text).1, {}) := by
  have hopening : read {} (Ansi.opening d) = ([], ⟨.ground, [], d.rendition⟩) := read_opening d {}
  rw [Ansi.wrap, read_append, read_append, hopening]
  dsimp only
  rw [read_closing hd htext, List.append_nil, List.nil_append]

theorem read_visible {text : List Char} (h : ∀ c ∈ text, isInvisible c.toNat = false)
    (r : Rendition) :
    read ⟨.ground, [], r⟩ text = (text.map (·, r), ⟨.ground, [], r⟩) := by
  induction text with
  | nil => rfl
  | cons c rest ih =>
    obtain ⟨hc, hrest⟩ := List.forall_mem_cons.1 h
    have hescape : (c.toNat == 0x1B) = false := by
      rw [beq_eq_false_iff_ne]
      intro heq
      rw [heq] at hc
      cases hc
    have hstep : step ⟨.ground, [], r⟩ c = ([(c, r)], ⟨.ground, [], r⟩) := by
      simp [step, Text.EscapeSequence.step, Text.EscapeSequence.ground, hescape, hc]
    rw [read, hstep, ih hrest]
    rfl

end Terminal

namespace Dialect

/-- Whatever stands in a text, a style of `ansi` takes no columns and hides nothing of it. A text
without sequences and control characters is shown in its `rendition`, character by character, and
behind it the `Terminal` is as it was. -/
theorem shows_apply_ansi (text : String) (d : Descriptor) :
    strip (ansi.apply text d).toList = strip text.toList ∧
      displayWidth (ansi.apply text d) = displayWidth text ∧
      ((∀ c ∈ text.toList, isInvisible c.toNat = false) →
        Terminal.read {} (ansi.apply text d).toList = (text.toList.map (·, d.rendition), {})) := by
  have hstrip : strip (ansi.apply text d).toList = strip text.toList :=
    strip_apply (by decide) text d
  refine ⟨hstrip, ?_, fun hvisible => ?_⟩
  · rw [displayWidth, Text.width, hstrip]
    rfl
  · have hread := Terminal.read_visible hvisible d.rendition
    unfold apply
    split
    case isTrue hplain =>
      rw [Bool.or_eq_true, isPlain_iff, String.isEmpty_iff] at hplain
      rcases hplain with rfl | rfl
      · exact hread
      · rfl
    case isFalse hstyled =>
      rw [Bool.or_eq_true, not_or, isPlain_iff] at hstyled
      rw [String.toList_ofList, Terminal.read_wrap _ hstyled.1 (by rw [hread]), hread]

/-- Colours over which nothing else is set are undone layer by layer, attributes all at once. -/
theorem shows_apply_ansi_branch :
    let text := "main ✔"
    let layers : Descriptor := { fg := some (.rgb 255 136 0), bg := some (.palette 236) }
    let marked : Descriptor := { fg := some (.named .red true), bold := true, underline := true }
    (∀ c ∈ text.toList, isInvisible c.toNat = false) ∧
      Terminal.read {} (ansi.apply text layers).toList =
        (text.toList.map (·, { fg := .rgb 255 136 0, bg := .palette 236 }), {}) ∧
      Terminal.read {} (ansi.apply text marked).toList =
        (text.toList.map (·, { fg := .palette 9, bold := true, underline := true }), {}) := by
  intro text layers marked
  have htext : text.toList = ['m', 'a', 'i', 'n', ' ', '✔'] := String.toList_ofList
  have hvisible : ∀ c ∈ text.toList, isInvisible c.toNat = false := by
    rw [htext]
    simp [isInvisible]
  exact ⟨hvisible, (shows_apply_ansi text layers).2.2 hvisible,
    (shows_apply_ansi text marked).2.2 hvisible⟩

end Dialect
end Style
end ShellPrompt
