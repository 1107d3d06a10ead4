import ShellPrompt.Proofs.Path

/-!
# ShellPrompt.Proofs.Path.Tilde

Where a path that is written with a leading tilde leads.

Behind `~/` a path is joined to the home directory, so it leads below it (`expandTilde_leads`),
unless a second slash makes the rest a path of its own from the root, for which the home directory
is forgotten (`doubled_slash_leaves_home`). Any other path is meant as written.
-/

namespace ShellPrompt
namespace Path

open Text (Bytes)

namespace Component

/-- Components behind others. A dot is a component only at the beginning of a path. -/
def behind (base cs : List Component) : List Component :=
  if base = [] then cs else base ++ cs.filter (· ≠ .current)

end Component

/-- What follows the tilde, as a relative path. -/
def relative (rest : List Char) : Path := ⟨Text.Utf8.encode (rest.dropWhile (· == '/'))⟩

/-! ## Beginning at the root or not -/

theorem isAbsolute_encode (text : List Char) :
    isAbsolute ⟨Text.Utf8.encode text⟩ = true ↔ text.head? = some '/' := by
  cases text with
  | nil => simp [isAbsolute]
  | cons c rest =>
    obtain ⟨b, bs, hbytes⟩ := List.exists_cons_of_ne_nil (String.utf8EncodeChar_ne_nil (c := c))
    have hb : b = slash ↔ c = '/' := by
      constructor
      · rintro rfl
        have hmem : slash ∈ String.utf8EncodeChar c := by rw [hbytes]; exact List.mem_cons_self
        exact Char.toNat_inj.1 (Text.Utf8.eq_singleton_of_mem hmem (by decide)).2
      · rintro rfl
        exact (List.cons.inj hbytes).1.symm
    simp [isAbsolute, Text.Utf8.encode_cons, hbytes, hb]

theorem isAbsolute_relative (rest : List Char) : (relative rest).isAbsolute = false := by
  rw [← Bool.not_eq_true, relative, isAbsolute_encode]
  intro hhead
  have hnot := List.head?_dropWhile_not (· == '/') rest
  rw [hhead] at hnot
  cases hnot

/-- Slashes in front name nothing. -/
theorem named_relative (rest : List Char) :
    named (relative rest).bytes = named (Text.Utf8.encode rest) := by
  induction rest with
  | nil => rfl
  | cons c rest ih =>
    by_cases hc : c = '/'
    · subst hc
      exact ih.trans (named_slash [] _).symm
    · simp [relative, hc]

theorem relative_of_head? {rest : List Char} (h : rest.head? ≠ some '/') :
    relative rest = ⟨Text.Utf8.encode rest⟩ := by
  cases rest with
  | nil => rfl
  | cons c rest =>
    have hc : c ≠ '/' := fun hc => h (by rw [hc]; rfl)
    simp [relative, hc]

/-! ## Components behind others -/

theorem filter_components {p : Path} (h : p.isAbsolute = false) :
    p.components.filter (· ≠ .current) = named p.bytes := by
  have hnamed : (named p.bytes).filter (· ≠ .current) = named p.bytes := by
    refine List.filter_eq_self.2 fun c hc => ?_
    rcases mem_named hc with rfl | hnormal
    · rfl
    · cases c <;> simp_all [Component.isNormal]
  have hlead : p.lead.filter (· ≠ .current) = [] := by
    rw [lead, if_neg (by simp [h])]
    split <;> rfl
  rw [components_eq, List.filter_append, hlead, hnamed, List.nil_append]

theorem behind_relative {base : Path} (hbase : base.bytes ≠ []) (rest : List Char) :
    Component.behind base.components (relative rest).components =
      base.components ++ named (Text.Utf8.encode rest) := by
  rw [Component.behind, if_neg (components_ne_nil hbase),
    filter_components (isAbsolute_relative rest), named_relative]

theorem root_notMem_components {p : Path} (h : p.isAbsolute = false) :
    Component.root ∉ p.components := by
  have hlead : Component.root ∉ p.lead := by
    rw [lead, if_neg (by simp [h])]
    split <;> simp
  have hnamed : Component.root ∉ named p.bytes := fun hmem => by
    rcases mem_named hmem with hroot | hroot <;> cases hroot
  rw [components_eq, List.mem_append, not_or]
  exact ⟨hlead, hnamed⟩

theorem behind_nil (cs : List Component) : Component.behind [] cs = cs := rfl

theorem prefix_behind (base cs : List Component) : base <+: Component.behind base cs := by
  unfold Component.behind
  split
  case isTrue h => rw [h]; exact List.nil_prefix
  case isFalse => exact List.prefix_append _ _

/-- A relative path below another one has its components behind those of the other one. -/
theorem components_join_encode (base : Path) {rest : List Char} (hrest : rest.head? ≠ some '/') :
    (base.join ⟨Text.Utf8.encode rest⟩).components =
      Component.behind base.components (relative rest).components := by
  have habsolute : isAbsolute ⟨Text.Utf8.encode rest⟩ = false := by
    rw [← Bool.not_eq_true, isAbsolute_encode]
    exact hrest
  by_cases hbase : base.bytes = []
  · obtain ⟨bytes⟩ := base
    obtain rfl : bytes = [] := hbase
    rw [relative_of_head? hrest, join, if_neg (by simp [habsolute]), if_pos (.inl rfl)]
    rfl
  · rw [components_join_relative hbase habsolute, behind_relative hbase]

/-- A path from the root has the components of the relative one behind those of another path only
if this is the root. -/
theorem components_slash_eq_behind_iff {base : Path} {rest : List Char} :
    components ⟨Text.Utf8.encode ('/' :: rest)⟩ =
        Component.behind base.components (relative ('/' :: rest)).components ↔
      base.components = [.root] := by
  have hroot : components ⟨Text.Utf8.encode ('/' :: rest)⟩ =
      [.root] ++ named (Text.Utf8.encode rest) := components_slash _
  by_cases hbase : base.bytes = []
  · have hnone : base.components = [] := congrArg (fun bytes => components ⟨bytes⟩) hbase
    rw [hnone, behind_nil, hroot]
    refine iff_of_false (fun heq => ?_) nofun
    refine root_notMem_components (isAbsolute_relative ('/' :: rest)) ?_
    rw [← heq]
    exact List.mem_cons_self
  · have hnamed : named (Text.Utf8.encode ('/' :: rest)) = named (Text.Utf8.encode rest) :=
      named_slash [] _
    rw [behind_relative hbase, hroot, hnamed, List.append_cancel_right_eq]
    exact eq_comm

/-! ## Written with a tilde -/

theorem join_isAbsolute {base rest : Path} (h : rest.isAbsolute = true) : base.join rest = rest :=
  if_pos h

theorem expandTilde_other {raw : String} {home : Option Path}
    (h : home = none ∨ raw ≠ "~" ∧ ¬ "~/".toList <+: raw.toList) :
    expandTilde raw home = ofString raw := by
  unfold expandTilde
  split
  case h_1 htilde =>
    exact absurd (String.toList_inj.1 htilde) (h.resolve_left nofun).1
  case h_2 rest home hbelow =>
    refine absurd ?_ (h.resolve_left nofun).2
    rw [hbelow]
    exact ⟨rest, rfl⟩
  case h_3 => rfl

/-- `expandTilde` takes what follows `~/` below the home directory, with its components behind those
of that directory (`Component.behind`), unless it begins with a slash: then it is a path of its own
from the root, and the components are others but for a home directory that is the root. What is
neither a tilde nor begins with `~/` is meant as written, and without a home directory everything
is. -/
theorem expandTilde_leads (raw : String) (home : Option Path) :
    (∀ base rest, home = some base → raw.toList = '~' :: '/' :: rest →
      ((expandTilde raw home).components =
          Component.behind base.components (relative rest).components ↔
        rest.head? ≠ some '/' ∨ base.components = [.root]) ∧
      (rest.head? ≠ some '/' → base.components <+: (expandTilde raw home).components) ∧
      (rest.head? = some '/' → (expandTilde raw home).bytes = Text.Utf8.encode rest)) ∧
    (home = none ∨ raw ≠ "~" ∧ ¬ "~/".toList <+: raw.toList →
      (expandTilde raw home).bytes = Text.Utf8.encode raw.toList) := by
  refine ⟨?_, fun h => congrArg Path.bytes (expandTilde_other h)⟩
  rintro base rest rfl hraw
  have hbelow : expandTilde raw (some base) = base.join ⟨Text.Utf8.encode rest⟩ := by
    rw [← String.ofList_toList (s := raw), hraw, expandTilde_below]
  rw [hbelow]
  by_cases hslash : rest.head? = some '/'
  · have hjoin : base.join ⟨Text.Utf8.encode rest⟩ = ⟨Text.Utf8.encode rest⟩ :=
      join_isAbsolute ((isAbsolute_encode rest).2 hslash)
    refine ⟨?_, fun hnot => absurd hslash hnot, fun _ => congrArg Path.bytes hjoin⟩
    obtain ⟨rest, rfl⟩ := List.head?_eq_some_iff.1 hslash
    rw [hjoin, components_slash_eq_behind_iff]
    exact ⟨.inr, fun h => h.resolve_left fun hnot => hnot rfl⟩
  · have hcomponents := components_join_encode base hslash
    refine ⟨iff_of_true hcomponents (.inl hslash), fun _ => ?_, fun h => absurd h hslash⟩
    rw [hcomponents]
    exact prefix_behind _ _

/-- Dots, repeated slashes and another tilde further on change nothing. -/
theorem expandTilde_leads_dotted :
    (expandTilde "~/.//src/..//~/" (some (ofString "/home/dev/"))).components =
        Component.behind (ofString "/home/dev/").components
          (relative ".//src/..//~/".toList).components ∧
      (expandTilde "~/.//src/..//~/" (some (ofString "/home/dev/"))).components =
        (ofString "/home/dev/src/../~").components ∧
      (expandTilde "~~/src" (some (ofString "/home/dev/"))).bytes =
        Text.Utf8.encode "~~/src".toList := by
  have hbelow := ((expandTilde_leads "~/.//src/..//~/" (some (ofString "/home/dev/"))).1
    (ofString "/home/dev/") ".//src/..//~/".toList rfl rfl).1.2 (.inl (by decide))
  exact ⟨hbelow, hbelow.trans (by decide),
    (expandTilde_leads "~~/src" _).2 (.inr ⟨by decide, by decide⟩)⟩

/-- A second slash behind the tilde, and the path begins at the root. -/
theorem doubled_slash_leaves_home :
    expandTilde "~//etc" (some (ofString "/home/dev")) = ofString "/etc" ∧
      (expandTilde "~//etc" (some (ofString "/home/dev"))).components ≠
        Component.behind (ofString "/home/dev").components (relative "/etc".toList).components := by
  decide

end Path
end ShellPrompt
