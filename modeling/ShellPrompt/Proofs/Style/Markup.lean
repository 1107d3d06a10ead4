import ShellPrompt.Proofs.Text.Width
import ShellPrompt.Style.Markup

/-!
# ShellPrompt.Proofs.Style.Markup

Styles take no columns.

* `Marker`: characters that show nothing and end every sequence they find, as terminal sequences
  around a text do (`marker_opening`, `marker_closing`).
* `strip_paint`: a painted text shows what the text shows, in every dialect but xonsh, whose fields
  are text to a terminal.
* `Resolver.Closes`, `closed_paint`: in `ansi` a text under a style ends its sequences even where it
  does not itself.
-/

namespace ShellPrompt
namespace Style

open Text.EscapeSequence (State Closed after strip stripFrom stripFrom_append after_append)

structure Marker (text : List Char) : Prop where
  silent : ∀ s, stripFrom s text = []
  settles : text ≠ [] → ∀ s, after s text = .ground

namespace Marker

variable {a b : List Char}

theorem nil : Marker [] := ⟨fun _ => rfl, fun h => absurd rfl h⟩

theorem append (ha : Marker a) (hb : Marker b) : Marker (a ++ b) := by
  constructor
  · intro s
    rw [stripFrom_append, ha.silent, hb.silent]
    rfl
  · intro hne s
    rw [after_append]
    by_cases hnil : b = []
    · subst hnil
      exact ha.settles (by simpa using hne) s
    · exact hb.settles hnil _

theorem flatMap {α : Type} {f : α → List Char} {xs : List α} (h : ∀ x ∈ xs, Marker (f x)) :
    Marker (xs.flatMap f) := by
  induction xs with
  | nil => exact nil
  | cons x rest ih =>
    obtain ⟨hx, hrest⟩ := List.forall_mem_cons.1 h
    rw [List.flatMap_cons]
    exact hx.append (ih hrest)

theorem ite {c : Prop} [Decidable c] (ha : Marker a) : Marker (if c then a else []) := by
  split
  · exact ha
  · exact nil

theorem after_ground (ha : Marker a) : after .ground a = .ground := by
  by_cases hnil : a = []
  · rw [hnil]
    rfl
  · exact ha.settles hnil _

end Marker

/-! ## Terminal sequences -/

namespace Ansi

/-- The characters parameters are written in, digits and the semicolon among them. -/
def isParameter (c : Char) : Bool := 0x30 ≤ c.toNat && c.toNat ≤ 0x3F

theorem step_parameter {c : Char} (h : isParameter c = true) :
    Text.EscapeSequence.step .control c = ([], .control) := by
  simp only [isParameter, Bool.and_eq_true, decide_eq_true_eq] at h
  obtain ⟨hlow, hhigh⟩ := h
  have hesc : (c.toNat == 0x1B) = false := by simp; omega
  have hcancel : (c.toNat == 0x18 || c.toNat == 0x1A) = false := by simp; omega
  have hfeed : (c.toNat == 0x0A) = false := by simp; omega
  have hfinal : ¬ (0x40 ≤ c.toNat) := by omega
  simp [Text.EscapeSequence.step, Text.EscapeSequence.keepLineFeed, Text.EscapeSequence.control,
    hesc, hcancel, hfeed, hfinal]

theorem read_parameters {parameters : List Char} (h : parameters.all isParameter = true) :
    stripFrom .control parameters = [] ∧ after .control parameters = .control := by
  induction parameters with
  | nil => exact ⟨rfl, rfl⟩
  | cons c rest ih =>
    rw [List.all_cons, Bool.and_eq_true] at h
    obtain ⟨hstrip, hafter⟩ := ih h.2
    rw [stripFrom, after, step_parameter h.1]
    exact ⟨hstrip, hafter⟩

theorem marker_sgr {parameters : List Char} (h : parameters.all isParameter = true) :
    Marker (sgr parameters) := by
  obtain ⟨hstrip, hafter⟩ := read_parameters h
  have hopen : ∀ s, Text.EscapeSequence.step s '\x1b' = ([], .escape) := fun _ => rfl
  have hbracket : Text.EscapeSequence.step .escape '[' = ([], .control) := rfl
  constructor
  · intro s
    rw [sgr, List.cons_append, List.cons_append, stripFrom, stripFrom, hopen, hbracket,
      stripFrom_append, hstrip, hafter]
    rfl
  · intro _ s
    rw [sgr, List.cons_append, List.cons_append, after, after, hopen, hbracket, after_append,
      hafter]
    rfl

theorem all_isParameter_decimal (n : Nat) : (Text.Numeral.decimal n).all isParameter = true := by
  rw [List.all_eq_true]
  intro c hc
  have hdigit := Nat.isDigit_of_mem_toDigits (by decide) (by decide) hc
  simp only [Char.isDigit, Bool.and_eq_true, decide_eq_true_eq, ge_iff_le,
    UInt32.le_iff_toNat_le] at hdigit
  have hlow : 0x30 ≤ c.toNat := hdigit.1
  have hhigh : c.toNat ≤ 0x39 := hdigit.2
  simp only [isParameter, Bool.and_eq_true, decide_eq_true_eq]
  omega

theorem all_isParameter_colour (colour : Colour) :
    (colourParameters colour).all isParameter = true := by
  cases colour with
  | reset => rfl
  | named hue bright => rw [colourParameters, List.all_append, all_isParameter_decimal]; rfl
  | palette i => rw [colourParameters, List.all_append, all_isParameter_decimal]; rfl
  | rgb r g b =>
    simp only [colourParameters, List.all_append, List.all_cons, all_isParameter_decimal]
    rfl

/-- A layer is chosen by its number and what describes the colour. -/
theorem marker_layer {layer : List Char} (h : layer.all isParameter = true) (colour : Colour) :
    Marker (sgr (layer ++ colourParameters colour)) :=
  marker_sgr (by rw [List.all_append, h, all_isParameter_colour]; rfl)

theorem marker_background (colour : Colour) : Marker (background colour) := by
  cases colour with
  | reset => exact marker_sgr rfl
  | _ => exact marker_layer rfl _

theorem marker_foreground (colour : Colour) : Marker (foreground colour) := by
  cases colour with
  | reset => exact marker_sgr rfl
  | _ => exact marker_layer rfl _

theorem isParameter_attribute {d : Descriptor} {c : Char} (h : c ∈ attributes d) :
    isParameter c = true := by
  simp only [attributes, List.mem_append, List.mem_ite_nil_right, List.mem_singleton] at h
  rcases h with ((⟨-, rfl⟩ | ⟨-, rfl⟩) | ⟨-, rfl⟩) | ⟨-, rfl⟩ <;> rfl

theorem marker_opening (d : Descriptor) : Marker (opening d) := by
  have hlayer : ∀ {f : Colour → List Char}, (∀ c, Marker (f c)) → ∀ layer : Option Colour,
      Marker ((layer.map f).getD []) := by
    intro f hf layer
    cases layer with
    | none => exact .nil
    | some c => exact hf c
  refine ((hlayer marker_background d.bg).append (hlayer marker_foreground d.fg)).append
    (.flatMap fun c hc => marker_sgr ?_)
  rw [List.all_cons, isParameter_attribute hc]
  rfl

theorem marker_closing (d : Descriptor) : Marker (closing d) := by
  unfold closing
  split
  case isTrue => exact (marker_sgr rfl).ite.append (marker_sgr rfl).ite
  case isFalse => exact marker_sgr rfl

theorem closing_ne_nil {d : Descriptor} (h : d ≠ .plain) : closing d ≠ [] := by
  intro hnil
  refine h ?_
  obtain ⟨fg, bg, bold, dimmed, italic, underline⟩ := d
  cases bold <;> cases dimmed <;> cases italic <;> cases underline <;> cases fg <;> cases bg <;>
    first
    | rfl
    | cases hnil

theorem strip_wrap (text : List Char) (d : Descriptor) : strip (wrap text d) = strip text := by
  rw [strip, wrap, stripFrom_append, stripFrom_append, (marker_opening d).silent,
    (marker_opening d).after_ground, (marker_closing d).silent, List.append_nil]
  rfl

theorem closed_wrap (text : List Char) {d : Descriptor} (h : d ≠ .plain) :
    Closed (wrap text d) := by
  rw [Closed, wrap, after_append]
  exact (marker_closing d).settles (closing_ne_nil h) _

end Ansi

/-! ## Painted texts -/

namespace Dialect

theorem strip_apply {dialect : Dialect} (h : dialect ≠ .xonsh) (text : String) (d : Descriptor) :
    strip (dialect.apply text d).toList = strip text.toList := by
  unfold apply
  split
  case isTrue => rfl
  case isFalse =>
    cases dialect with
    | plain => rfl
    | ansi => rw [String.toList_ofList, Ansi.strip_wrap]
    | xonsh => exact absurd rfl h

theorem isPlain_iff {d : Descriptor} : d.isPlain = true ↔ d = .plain := by
  simp [Descriptor.isPlain]

theorem closed_apply {dialect : Dialect} (h : dialect ≠ .xonsh) {text : String}
    (htext : Closed text.toList) (d : Descriptor) : Closed (dialect.apply text d).toList := by
  unfold apply
  split
  case isTrue => exact htext
  case isFalse hstyled =>
    rw [Bool.or_eq_true, not_or, isPlain_iff] at hstyled
    cases dialect with
    | plain => exact htext
    | ansi =>
      rw [String.toList_ofList]
      exact Ansi.closed_wrap _ hstyled.1
    | xonsh => exact absurd rfl h

/-- Under a style a text need not end its sequences itself. -/
theorem closed_apply_ansi (text : String) {d : Descriptor} (h : d ≠ .plain) :
    Closed (ansi.apply text d).toList := by
  unfold apply
  split
  case isTrue hplain =>
    rw [Bool.or_eq_true, isPlain_iff] at hplain
    rcases hplain with hplain | hempty
    · exact absurd hplain h
    · rw [String.isEmpty_iff.1 hempty]
      rfl
  case isFalse =>
    rw [String.toList_ofList]
    exact Ansi.closed_wrap _ h

end Dialect

namespace Resolver

variable {r : Resolver}

theorem strip_paint (h : r.dialect ≠ .xonsh) (text : String) (style : Option String) :
    strip (r.paint text style).toList = strip text.toList := by
  cases style with
  | none => rfl
  | some tag => exact Dialect.strip_apply h text _

theorem displayWidth_paint (h : r.dialect ≠ .xonsh) (text : String) (style : Option String) :
    displayWidth (r.paint text style) = displayWidth text := by
  rw [displayWidth, Text.width, strip_paint h]
  rfl

/-- The text ends its sequences, or the marks around it do. -/
def Closes (r : Resolver) (text : String) (style : Option String) : Prop :=
  Closed text.toList ∨ r.dialect = .ansi ∧ ∃ tag, style = some tag ∧ r.resolve tag ≠ .plain

theorem closed_paint (h : r.dialect ≠ .xonsh) {text : String} {style : Option String}
    (hcloses : r.Closes text style) : Closed (r.paint text style).toList := by
  rcases hcloses with htext | ⟨hansi, tag, rfl, hstyle⟩
  · cases style with
    | none => exact htext
    | some tag => exact Dialect.closed_apply h htext _
  · rw [paint, hansi]
    exact Dialect.closed_apply_ansi text hstyle

end Resolver
end Style
end ShellPrompt
