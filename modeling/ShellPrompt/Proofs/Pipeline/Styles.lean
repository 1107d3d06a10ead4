import ShellPrompt.Proofs.Pipeline.Rendering
import ShellPrompt.Proofs.Style.Overlay

/-!
# ShellPrompt.Proofs.Pipeline.Styles

A configured style string that cannot be read, seen from the pipeline that is built with it.

`faulty_style_harmless`: its tag keeps the default style, every other tag has the style it would
have without it, and the logger of the pipeline is told of it once.
-/

namespace ShellPrompt

namespace Style

/-- A tag without an entry leaves a text as it is, and so does no tag. -/
theorem Resolver.paint_eq (r : Resolver) (text : String) (tag : Option String) :
    r.paint text tag =
      match tag.bind r.sheet.get? with
      | some d => r.dialect.apply text d
      | none => text := by
  cases tag with
  | none => rfl
  | some tag =>
    rw [paint, resolve, Option.bind_some]
    cases r.sheet.get? tag with
    | some d => rfl
    | none => rfl

end Style

namespace Pipeline

open Style (Descriptor Sheet StyleError)
open Style.Descriptor (parse)

/-- No logger leaves errors out. -/
theorem logger_logAll_styles {w : Observers} {before : List Log.Event} {level : Log.Level}
    (h : w.logger = some ⟨.memory before, level⟩) (errors : List StyleError) :
    (w.logAll (errors.map styleEvent)).logger =
      some ⟨.memory (before ++ errors.map fun e => (styleEvent e).stamped w.clock), level⟩ := by
  have hrank : level.rank ≤ Log.Level.error.rank := by cases level <;> decide
  have hkept : ∀ e ∈ (errors.map styleEvent).map (Log.Event.stamped w.clock),
      decide (level.rank ≤ e.level.rank) = true := by
    intro e he
    rw [List.map_map] at he
    obtain ⟨error, -, rfl⟩ := List.mem_map.1 he
    exact decide_eq_true hrank
  rw [Observers.logger_logAll, h, Option.map_some, Log.Logger.foldl_log_memory,
    List.filter_eq_self.2 hkept, List.map_map]
  rfl

/-- Style strings that cannot be read harm nothing else. In a configuration whose style strings all
settle (`Settles`), the sheet `Shows` them: a tag with a string that can be read has that style,
every other tag its default style or none, and the strings that cannot be read are reported in the
order of their tags. Without one of these, or with another string in its place, no other tag looks
different, nor does its own unless the other string can be read. `build` logs each report once, in
that order, and its pipeline paints with these styles. -/
theorem faulty_style_harmless {config : Config} (hsorted : Table.Sorted config.styles)
    (hsettled : ∀ e ∈ config.styles, Descriptor.Settles e.2) :
    ∃ sheet errors, Sheet.withOverrides config.styles = .ok (sheet, errors) ∧
      sheet.Shows config.styles ∧ Sheet.Lists errors config.styles ∧
      (∀ before tag raw after, config.styles = before ++ (tag, raw) :: after →
        (∀ d, parse raw ≠ .ok d) →
        (∃ sheet' errors', Sheet.withOverrides (before ++ after) = .ok (sheet', errors') ∧
          ∀ other, sheet'.get? other = sheet.get? other) ∧
        ∀ raw', Descriptor.Settles raw' →
          ∃ sheet' errors',
            Sheet.withOverrides (before ++ (tag, raw') :: after) = .ok (sheet', errors') ∧
            ∀ other, (other = tag → ∀ d, parse raw' ≠ .ok d) →
              sheet'.get? other = sheet.get? other) ∧
      ∀ registry, ∃ p : Pipeline,
        (∀ w : Observers,
          (build config registry).watchedBy w = (.ok p, w.logAll (errors.map styleEvent)) ∧
          ∀ before level, w.logger = some ⟨.memory before, level⟩ →
            (w.logAll (errors.map styleEvent)).logger = some
              ⟨.memory (before ++ errors.map fun e => (styleEvent e).stamped w.clock), level⟩) ∧
        (∀ e, (styleEvent e).message = "style_invalid") ∧
        ∀ text tag, p.resolver.paint text tag =
          match tag.bind sheet.get? with
          | some d => config.dialect.apply text d
          | none => text := by
  obtain ⟨sheet, errors, hsheet⟩ := Sheet.exists_withOverrides hsettled
  refine ⟨sheet, errors, hsheet, Sheet.shows_withOverrides hsorted hsheet,
    Sheet.lists_withOverrides hsorted hsheet, ?_, ?_⟩
  · intro before tag raw after hsplit hraw
    rw [hsplit] at hsorted hsettled hsheet
    exact Sheet.exists_same hsorted hsettled hsheet hraw
  · intro registry
    refine ⟨built config registry sheet, fun w => ⟨?_, ?_⟩, fun _ => rfl, fun text tag => ?_⟩
    · have hends := build_ok hsheet registry w
      rw [hends, ← Observers.tellAll_logged, List.map_map]
      rfl
    · intro before level hlogger
      exact logger_logAll_styles hlogger errors
    · exact Style.Resolver.paint_eq _ text tag

/-- Two of four style strings cannot be read: one for a tag without a default, one for a tag with
one. -/
def patchy : Config where
  styles := [("custom", "green"), ("error", "underline bright-red"), ("mood", "#12345"),
    ("path", "glitter")]

theorem faulty_style_harmless_patchy :
    Table.Sorted patchy.styles ∧ (∀ e ∈ patchy.styles, Descriptor.Settles e.2) ∧
      ∃ sheet, Sheet.withOverrides patchy.styles =
          .ok (sheet, [⟨"#12345", .hexLength⟩, ⟨"glitter", .unknownWord "glitter"⟩]) ∧
        sheet.get? "custom" = some { fg := some (.named .green false) } ∧
        sheet.get? "error" = some { fg := some (.named .red true), underline := true } ∧
        sheet.get? "mood" = none ∧
        sheet.get? "path" = some { bold := true, fg := some (.named .cyan false) } ∧
        ∃ sheet' errors', Sheet.withOverrides
            ([("custom", "green"), ("error", "underline bright-red"), ("mood", "#12345")] ++ []) =
            .ok (sheet', errors') ∧
          ∀ other, sheet'.get? other = sheet.get? other := by
  have hcustom : parse "green" = .ok { fg := some (.named .green false) } := by rfl
  have herror : parse "underline bright-red" =
      .ok { fg := some (.named .red true), underline := true } := by rfl
  have hmood : parse "#12345" = .error (.error ⟨"#12345", .hexLength⟩) := by rfl
  have hpath : parse "glitter" = .error (.error ⟨"glitter", .unknownWord "glitter"⟩) := by rfl
  have hsorted : Table.Sorted patchy.styles := by
    simp only [Table.Sorted]
    decide
  have hsettled : ∀ e ∈ patchy.styles, Descriptor.Settles e.2 := by
    simp [patchy, Descriptor.Settles, hcustom, herror, hmood, hpath]
  obtain ⟨sheet, errors, hsheet, ⟨hread, hother⟩, -, hsame, -⟩ :=
    faulty_style_harmless hsorted hsettled
  have herrors : (Sheet.withOverrides patchy.styles).map Prod.snd =
      .ok [⟨"#12345", .hexLength⟩, ⟨"glitter", .unknownWord "glitter"⟩] := by rfl
  rw [hsheet] at herrors
  cases herrors
  refine ⟨hsorted, hsettled, sheet, hsheet, hread _ _ _ rfl hcustom, hread _ _ _ rfl herror,
    ?_, ?_, ?_⟩
  · exact hother "mood" fun raw d hraw => by simp [← Option.some.inj hraw, hmood]
  · exact hother "path" fun raw d hraw => by simp [← Option.some.inj hraw, hpath]
  · exact (hsame _ "path" "glitter" [] rfl (by simp [hpath])).1

end Pipeline
end ShellPrompt
