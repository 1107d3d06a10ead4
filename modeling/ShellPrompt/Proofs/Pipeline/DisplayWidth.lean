import Mathlib.Tactic.Ring
import ShellPrompt.Proofs.Layout
import ShellPrompt.Proofs.Pipeline.Rendering
import ShellPrompt.Proofs.Style.Markup

/-!
# ShellPrompt.Proofs.Pipeline.DisplayWidth

Lines as wide as they were laid out.

A line is laid out by the columns its fragments and separators take alone, and shown as one text.

* `pieces`: the painted fragments of a line with the separators between them.
* `displayWidth_paint`: what is shown is wider than what was laid out by the drift of the pieces.
* `displayWidth_rendered`: the lines of a rendered prompt, and when they have no drift.
-/

namespace ShellPrompt
namespace Pipeline

open Text.EscapeSequence (Closed strip)
open Text.Width (Inert Steady drift)

/-- The painted fragments of a line with the separators between them. -/
def pieces (p : Pipeline) (line : Layout.Line) : List (List Char) :=
  (line.fragments.map fun f => (p.resolver.paint f.text f.style).toList).intersperse
    p.config.separator.toList

variable {p : Pipeline} {plan : Plan} {s : Snapshot} {token : Token}

theorem toList_paint (line : Layout.Line) : (p.paint line).toList = (p.pieces line).flatten := by
  rw [paint, String.toList_intercalate, List.map_map]
  rfl

theorem sum_width_intersperse (gap : List Char) (texts : List (List Char)) :
    ((texts.intersperse gap).map fun text => (Text.width text : Int)).sum =
      (texts.map fun text => (Text.width text : Int)).sum +
        ((texts.length - 1 : Nat) * Text.width gap : Nat) := by
  induction texts with
  | nil => simp
  | cons text rest ih =>
    cases rest with
    | nil => simp
    | cons other rest =>
      rw [List.intersperse_cons_cons, List.map_cons, List.map_cons, List.sum_cons, List.sum_cons,
        ih]
      simp only [List.map_cons, List.sum_cons, List.length_cons, Nat.add_sub_cancel]
      push_cast
      ring

/-- Painting takes no columns, so a line takes those of its fragments and separators, but for what
they make of each other. -/
theorem displayWidth_paint (h : p.config.dialect ≠ .xonsh) (line : Layout.Line) :
    (displayWidth (p.paint line) : Int) =
      Layout.lineWidth (displayWidth p.config.separator) line.fragments +
        drift .ground (p.pieces line) := by
  have hfragments : (line.fragments.map fun f =>
      (Text.width (p.resolver.paint f.text f.style).toList : Int)).sum =
        ((line.fragments.map Fragment.width).sum : Nat) := by
    induction line.fragments with
    | nil => rfl
    | cons f rest ih =>
      have hpainted := Style.Resolver.displayWidth_paint (r := p.resolver) h f.text f.style
      rw [displayWidth] at hpainted
      rw [List.map_cons, List.map_cons, List.sum_cons, List.sum_cons, ih, hpainted]
      exact (Int.natCast_add _ _).symm
  rw [displayWidth, toList_paint, Text.Width.width_flatten, pieces, sum_width_intersperse,
    Layout.lineWidth_eq, List.map_map, List.length_map]
  simp only [Function.comp_def, hfragments, displayWidth, Int.natCast_add]

/-! ## Without drift -/

theorem drift_short {line : Layout.Line} (h : line.fragments.length ≤ 1) :
    drift .ground (p.pieces line) = 0 := by
  rw [pieces]
  rcases hf : line.fragments with _ | ⟨f, _ | ⟨g, rest⟩⟩
  · rfl
  · exact Text.Width.drift_singleton _
  · rw [hf] at h
    simp at h

theorem mem_intersperse {α : Type} {x gap : α} {xs : List α} (h : x ∈ xs.intersperse gap) :
    x = gap ∨ x ∈ xs := by
  induction xs with
  | nil => cases h
  | cons first rest ih =>
    cases rest with
    | nil => exact .inr h
    | cons second rest =>
      rw [List.intersperse_cons_cons, List.mem_cons, List.mem_cons] at h
      rcases h with rfl | rfl | h
      · exact .inr List.mem_cons_self
      · exact .inl rfl
      · exact (ih h).imp_right (List.mem_cons_of_mem first)

theorem mem_pieces {line : Layout.Line} {piece : List Char} (h : piece ∈ p.pieces line) :
    piece = p.config.separator.toList ∨
      ∃ f ∈ line.fragments, piece = (p.resolver.paint f.text f.style).toList := by
  refine (mem_intersperse h).imp_right fun hpainted => ?_
  obtain ⟨f, hf, rfl⟩ := List.mem_map.1 hpainted
  exact ⟨f, hf, rfl⟩

theorem drift_pieces (h : p.config.dialect ≠ .xonsh) {line : Layout.Line}
    (hends : ∀ f ∈ line.fragments, p.resolver.Closes f.text f.style)
    (hgap : Closed p.config.separator.toList)
    (hseams : Inert (strip p.config.separator.toList) ∨
      Steady (strip p.config.separator.toList) ∧
        ∀ f ∈ line.fragments, Steady (strip f.text.toList)) :
    drift .ground (p.pieces line) = 0 := by
  refine Text.Width.drift_eq_zero ?closed ?seamless
  case closed =>
    intro piece hpiece
    rcases mem_pieces hpiece with rfl | ⟨f, hf, rfl⟩
    · exact hgap
    · exact Style.Resolver.closed_paint h (hends f hf)
  case seamless =>
    rcases hseams with hinert | ⟨hsteady, hall⟩
    · exact Text.Width.seamless_intersperse hgap hinert _
    · refine Text.Width.seamless_of_steady fun piece hpiece => ?_
      rcases mem_pieces hpiece with rfl | ⟨f, hf, rfl⟩
      · exact hsteady
      · rw [Style.Resolver.strip_paint h]
        exact hall f hf

/-! ## Rendered lines -/

theorem line_composeLayout {lines : Layout.Lines} (t : Target)
    (h : (p.composeLayout plan s token).Gives (.ok lines)) :
    (p.config.modulesFor t = [] → lines.line t = {}) ∧
      (lines.line t = {} ∨ ∃ found, lines.line t = p.lineOf s found) := by
  obtain ⟨hnone, hsome⟩ := line_of_composeLayout t h
  refine ⟨hnone, ?_⟩
  by_cases hnames : p.config.modulesFor t = []
  · exact .inl (hnone hnames)
  · obtain ⟨token', found, after, -, hfitted⟩ := hsome hnames
    exact .inr ⟨found, hfitted⟩

/-- The lines of a rendered prompt are those of its layout. Each is wider than laid out by the
`drift` of its `pieces`, and the two widths are the same just where that is none: so it is for a
line of one fragment, and wherever fragments and separator end their escape sequences and either the
separator keeps its neighbours apart (`Inert`) or every piece is `Steady` and does not mind what
follows. Where the drift is not positive a line is wider than the terminal only if a lone fragment
is. -/
theorem displayWidth_rendered (h : p.config.dialect ≠ .xonsh) (plan : Plan) (s : Snapshot)
    (token : Token) :
    (∀ out, (p.renderWithCancel plan s token).Gives (.ok out) ↔
      ∃ lines, (p.composeLayout plan s token).Gives (.ok lines) ∧ out = p.output lines) ∧
    ∀ lines t, (p.composeLayout plan s token).Gives (.ok lines) →
      let line := lines.line t
      let shown := (p.output lines).line t
      (displayWidth shown : Int) = line.width + drift .ground (p.pieces line) ∧
      (displayWidth shown = line.width ↔ drift .ground (p.pieces line) = 0) ∧
      (line.fragments.length ≤ 1 → drift .ground (p.pieces line) = 0) ∧
      ((∀ f ∈ line.fragments, p.resolver.Closes f.text f.style) →
        Closed p.config.separator.toList →
        (Inert (strip p.config.separator.toList) ∨ Steady (strip p.config.separator.toList) ∧
          ∀ f ∈ line.fragments, Steady (strip f.text.toList)) →
        drift .ground (p.pieces line) = 0) ∧
      (drift .ground (p.pieces line) ≤ 0 → s.termWidth.toNat < displayWidth shown →
        line.fragments.length = 1) := by
  refine ⟨renderWithCancel_gives_iff, fun lines t hlines => ?_⟩
  obtain ⟨-, hline⟩ := line_composeLayout t hlines
  have hshown : (displayWidth ((p.output lines).line t) : Int) =
      (lines.line t).width + drift .ground (p.pieces (lines.line t)) := by
    have hempty := fun t => (line_composeLayout t hlines).1
    rw [line_output p lines hempty, displayWidth_paint h]
    rcases hline with hnone | ⟨found, hfitted⟩
    · rw [hnone]
      rfl
    · rw [hfitted]
      rfl
  have hfits : (lines.line t).width ≤ s.termWidth.toNat ∨
      (lines.line t).fragments.length = 1 := by
    rcases hline with hnone | ⟨found, hfitted⟩
    · rw [hnone]
      exact .inl (Nat.zero_le _)
    · rw [hfitted]
      exact Layout.fit_done _ _ _
  refine ⟨hshown, ?_, drift_short, drift_pieces h, ?_⟩
  · omega
  · intro hdrift hwide
    exact hfits.resolve_left (by omega)

/-- A heart, and a fragment that asks for what stands before it to be shown as an emoji. -/
def hearts (separator : String) : Pipeline where
  config := {
    left := ["mood", "count"]
    separator := separator
    dialect := .plain }
  registry := {
    entries := [
      (⟨"mood", fun _ => { ending := .returns (.ok (some { text := "❤" })) }⟩, {}),
      (⟨"count", fun _ => { ending := .returns (.ok (some { text := "\ufe0f3" })) }⟩, {})] }
  sheet := {}
  digest := ""

def heartsLine (width : Nat) : Layout.Line where
  fragments := [{ text := "❤", module := "mood" }, { text := "\ufe0f3", module := "count" }]
  width := width

/-- A space between the two keeps them apart. -/
theorem displayWidth_rendered_hearts :
    ((hearts " ").composeLayout eager ⟨{ termWidth := 3 }, by decide⟩ .own).Gives
        (.ok { left := heartsLine 3 }) ∧
      displayWidth ((hearts " ").output { left := heartsLine 3 }).left = 3 := by
  have hlayout : ((hearts " ").composeLayout eager ⟨{ termWidth := 3 }, by decide⟩ .own).Gives
      (.ok { left := heartsLine 3 }) := by
    rw [((hearts " ").composeLayout_ends eager _ .own).gives_iff]
    decide +kernel
  obtain ⟨-, hlines⟩ := displayWidth_rendered (p := hearts " ") (by decide) eager
    ⟨{ termWidth := 3 }, by decide⟩ .own
  obtain ⟨-, hwidth, -, hapart, -⟩ := hlines _ .left hlayout
  refine ⟨hlayout, hwidth.2 (hapart ?ends rfl (.inl ?inert))⟩
  case ends =>
    intro f hf
    rcases List.mem_cons.1 hf with rfl | hf
    · exact .inl rfl
    · obtain rfl := List.mem_singleton.1 hf
      exact .inl rfl
  case inert =>
    have hspace : Text.Width.Plain ' ' := ⟨by decide, by decide⟩
    exact Text.Width.inert_of_plain (show _ = some ' ' from rfl) hspace (show _ = some ' ' from rfl)
      hspace

/-- Without a separator the line is laid out two columns wide, which the terminal has, and takes
three. -/
theorem selector_widens_line :
    ((hearts "").composeLayout eager ⟨{ termWidth := 2 }, by decide⟩ .own).Gives
        (.ok { left := heartsLine 2 }) ∧
      ((hearts "").render eager ⟨{ termWidth := 2 }, by decide⟩).Gives
        (.ok { left := "❤\ufe0f3" }) ∧
      displayWidth "❤\ufe0f3" = 3 := by
  rw [((hearts "").composeLayout_ends eager _ .own).gives_iff, render,
    ((hearts "").renderWithCancel_ends eager _ .own).gives_iff]
  decide +kernel

end Pipeline
end ShellPrompt
