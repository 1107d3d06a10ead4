import ShellPrompt.Proofs.Style.Cut
import ShellPrompt.Proofs.Table

/-!
# ShellPrompt.Proofs.Style.Overlay

What a sheet looks up after it was overlaid with configured style strings.

* `get?_overlay`: the configured string of a tag, where it can be read, and the entry below it
  otherwise. So a string that cannot be read might as well be missing (`exists_same`).
* `errors_overlay`: what is reported, in the order of the entries.
* `builtinStyles`: the default sheet is itself such an overlay, of style strings that can all be
  read.
-/

namespace ShellPrompt
namespace Style

namespace Descriptor

/-- The program does not stop when it reads the string, whether it can be read or not. -/
def Settles (raw : String) : Prop := ∀ c, parse raw ≠ .error (.crash c)

/-- What a style string is read as, if it can be read. -/
def read? (raw : String) : Option Descriptor :=
  match parse raw with
  | .ok d => some d
  | .error _ => none

/-- What is reported of a style string that cannot be read. -/
def error? (raw : String) : Option StyleError :=
  match parse raw with
  | .error (.error e) => some e
  | _ => none

theorem read?_eq_some_iff {raw : String} {d : Descriptor} :
    read? raw = some d ↔ parse raw = .ok d := by
  unfold read?
  cases parse raw <;> simp

theorem read?_eq_none_iff {raw : String} : read? raw = none ↔ ∀ d, parse raw ≠ .ok d := by
  unfold read?
  cases parse raw <;> simp

theorem error?_eq_some_iff {raw : String} {e : StyleError} :
    error? raw = some e ↔ parse raw = .error (.error e) := by
  unfold error?
  rcases parse raw with (e' | c) | d <;> simp

end Descriptor

namespace Sheet

open Descriptor (read? error?)

variable {sheet sheet' : Sheet} {overrides overrides' : Table String}
  {errors errors' : List StyleError}

theorem get?_insert (sheet : Sheet) (tag other : String) (style : Descriptor) :
    (sheet.insert tag style).get? other = if other = tag then some style else sheet.get? other :=
  Table.get?_insert tag other style sheet.styles

/-- What one entry does to a sheet and to what is reported. -/
theorem overlay_cons_eq_ok {tag raw : String} {rest : List (String × String)}
    (h : overlay sheet ((tag, raw) :: rest) = .ok (sheet', errors)) :
    (∃ style, Descriptor.parse raw = .ok style ∧
        overlay (sheet.insert tag style) rest = .ok (sheet', errors)) ∨
      ∃ e later, Descriptor.parse raw = .error (.error e) ∧
        overlay sheet rest = .ok (sheet', later) ∧ errors = e :: later := by
  rw [overlay] at h
  cases hraw : Descriptor.parse raw with
  | ok style =>
    rw [hraw] at h
    exact .inl ⟨style, rfl, h⟩
  | error fault =>
    rw [hraw] at h
    cases fault with
    | crash c => cases h
    | error e =>
      obtain ⟨⟨sheet'', later⟩, hrest, heq⟩ := Descriptor.map_eq_ok_iff.1 h
      cases heq
      exact .inr ⟨e, later, rfl, hrest, rfl⟩

/-- An override that can be read wins over the sheet below, any other leaves it as it is. -/
theorem get?_overlay (hsorted : Table.Sorted overrides)
    (h : overlay sheet overrides = .ok (sheet', errors)) (tag : String) :
    sheet'.get? tag = ((Table.get? tag overrides).bind read?).or (sheet.get? tag) := by
  induction overrides generalizing sheet errors with
  | nil =>
    cases h
    rfl
  | cons e rest ih =>
    obtain ⟨key, raw⟩ := e
    have hkey := hsorted.get?_rest
    have hrest := (List.pairwise_cons.1 hsorted).2
    rcases overlay_cons_eq_ok h with ⟨style, hraw, hnext⟩ | ⟨e, later, hraw, hnext, -⟩
    · have hread : read? raw = some style := Descriptor.read?_eq_some_iff.2 hraw
      rw [ih hrest hnext, get?_insert]
      by_cases htag : tag = key <;> simp [Table.get?, htag, hkey, hread]
    · have hread : read? raw = none := Descriptor.read?_eq_none_iff.2 (by simp [hraw])
      rw [ih hrest hnext]
      by_cases htag : tag = key <;> simp [Table.get?, htag, hkey, hread]

theorem errors_overlay (h : overlay sheet overrides = .ok (sheet', errors)) :
    errors = (Table.choose error? overrides).map Prod.snd := by
  induction overrides generalizing sheet errors with
  | nil =>
    cases h
    rfl
  | cons e rest ih =>
    obtain ⟨key, raw⟩ := e
    rcases overlay_cons_eq_ok h with ⟨style, hraw, hnext⟩ | ⟨e, later, hraw, hnext, rfl⟩
    · have herror : error? raw = none := by simp [error?, hraw]
      simpa [Table.choose, herror] using ih hnext
    · have herror : error? raw = some e := Descriptor.error?_eq_some_iff.2 hraw
      simpa [Table.choose, herror] using ih hnext

theorem exists_withOverrides (h : ∀ e ∈ overrides, Descriptor.Settles e.2) :
    ∃ sheet errors, withOverrides overrides = .ok (sheet, errors) :=
  withOverrides_ok fun e he hcut => h e he _ (Descriptor.parse_eq_crash_iff.2 ⟨rfl, hcut⟩)

theorem get?_withOverrides (hsorted : Table.Sorted overrides)
    (h : withOverrides overrides = .ok (sheet, errors)) (tag : String) :
    sheet.get? tag = ((Table.get? tag overrides).bind read?).or (defaults.get? tag) :=
  get?_overlay hsorted h tag

/-- A tag with an override that can be read has that style, any other its default style or none. -/
def Shows (sheet : Sheet) (overrides : Table String) : Prop :=
  (∀ tag raw d, Table.get? tag overrides = some raw → Descriptor.parse raw = .ok d →
    sheet.get? tag = some d) ∧
  ∀ tag, (∀ raw d, Table.get? tag overrides = some raw → Descriptor.parse raw ≠ .ok d) →
    sheet.get? tag = defaults.get? tag

/-- The errors of the overrides that cannot be read, in ascending order of their tags. -/
def Lists (errors : List StyleError) (overrides : Table String) : Prop :=
  ∃ failing : Table StyleError, failing.Sorted ∧ errors = failing.map Prod.snd ∧
    ∀ tag e, Table.get? tag failing = some e ↔
      ∃ raw, Table.get? tag overrides = some raw ∧ Descriptor.parse raw = .error (.error e)

theorem shows_withOverrides (hsorted : Table.Sorted overrides)
    (h : withOverrides overrides = .ok (sheet, errors)) : sheet.Shows overrides := by
  have hget := get?_withOverrides hsorted h
  constructor
  · intro tag raw d hraw hd
    rw [hget, hraw, Option.bind_some, Descriptor.read?_eq_some_iff.2 hd, Option.some_or]
  · intro tag hnone
    rw [hget]
    cases hraw : Table.get? tag overrides with
    | none => rfl
    | some raw =>
      have hread := Descriptor.read?_eq_none_iff.2 fun d => hnone raw d hraw
      rw [Option.bind_some, hread, Option.none_or]

theorem lists_withOverrides (hsorted : Table.Sorted overrides)
    (h : withOverrides overrides = .ok (sheet, errors)) : Lists errors overrides := by
  refine ⟨Table.choose error? overrides, hsorted.choose _, errors_overlay h, fun tag e => ?_⟩
  simp only [hsorted.get?_choose, Option.bind_eq_some_iff, Descriptor.error?_eq_some_iff]

/-! ## Entries that cannot be read -/

section Entries

variable {before after : Table String} {tag raw raw' other : String}

/-- What cannot be read may as well be missing, and no entry matters for another tag. -/
theorem get?_without (hsorted : Table.Sorted (before ++ (tag, raw) :: after))
    (h : withOverrides (before ++ (tag, raw) :: after) = .ok (sheet, errors))
    (h' : withOverrides (before ++ after) = .ok (sheet', errors'))
    (hother : other = tag → read? raw = none) : sheet'.get? other = sheet.get? other := by
  have hsublist : (before ++ after).Sublist (before ++ (tag, raw) :: after) := by simp
  obtain ⟨hbefore, hafter⟩ := hsorted.get?_middle
  rw [get?_withOverrides hsorted h, get?_withOverrides (hsorted.sublist hsublist) h',
    Table.get?_append, Table.get?_append]
  by_cases htag : other = tag
  · have hraw := hother htag
    subst htag
    simp [Table.get?, hbefore, hafter, hraw]
  · simp [Table.get?, htag]

/-- Where a string cannot be read, its place may be empty or hold another string: no tag looks
different, its own apart where the other string can be read. -/
theorem exists_same (hsorted : Table.Sorted (before ++ (tag, raw) :: after))
    (hsettled : ∀ e ∈ before ++ (tag, raw) :: after, Descriptor.Settles e.2)
    (h : withOverrides (before ++ (tag, raw) :: after) = .ok (sheet, errors))
    (hraw : ∀ d, Descriptor.parse raw ≠ .ok d) :
    (∃ sheet' errors', withOverrides (before ++ after) = .ok (sheet', errors') ∧
      ∀ other, sheet'.get? other = sheet.get? other) ∧
    ∀ raw', Descriptor.Settles raw' →
      ∃ sheet' errors', withOverrides (before ++ (tag, raw') :: after) = .ok (sheet', errors') ∧
        ∀ other, (other = tag → ∀ d, Descriptor.parse raw' ≠ .ok d) →
          sheet'.get? other = sheet.get? other := by
  obtain ⟨hbefore, hrest⟩ := List.forall_mem_append.1 hsettled
  have hafter := (List.forall_mem_cons.1 hrest).2
  obtain ⟨without, errors', hwithout⟩ :=
    exists_withOverrides (List.forall_mem_append.2 ⟨hbefore, hafter⟩)
  have hsame : ∀ other, without.get? other = sheet.get? other := fun other =>
    get?_without hsorted h hwithout fun _ => Descriptor.read?_eq_none_iff.2 hraw
  refine ⟨⟨without, errors', hwithout, hsame⟩, fun raw' hraw' => ?_⟩
  have hentries : ∀ e ∈ before ++ (tag, raw') :: after, Descriptor.Settles e.2 :=
    List.forall_mem_append.2 ⟨hbefore, List.forall_mem_cons.2 ⟨hraw', hafter⟩⟩
  obtain ⟨changed, errors'', hchanged⟩ := exists_withOverrides hentries
  refine ⟨changed, errors'', hchanged, fun other hother => ?_⟩
  have hread : other = tag → read? raw' = none := fun htag =>
    Descriptor.read?_eq_none_iff.2 (hother htag)
  rw [← hsame other, get?_without (hsorted.replace raw') hchanged hwithout hread]

end Entries

/-! ## The default sheet -/

/-- The style strings of the built-in tags. -/
def builtinStyles : List (String × String) :=
  [("error", "bold red"), ("success", "bold green"), ("path", "bold cyan"),
    ("git-clean", "bold purple"), ("git-dirty", "bold yellow"), ("duration", "yellow"),
    ("jobs", "bold blue"), ("muted", "bright-black")]

/-- All of them can be read. -/
example : overlay empty builtinStyles = .ok (defaults, []) := by rfl

end Sheet
end Style
end ShellPrompt
