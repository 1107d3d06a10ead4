import ShellPrompt.Module.Builtin
import ShellPrompt.Proofs.Path

/-!
# ShellPrompt.Proofs.Module.Directory

The working directory as it is shown, read back by `Path.expandTilde`.

Showing drops the components that are no names. The root is in the anchor, but a step to the parent
directory is lost, and an empty home directory is the base of every path while nothing lies below
it. `expandTilde_render` says that nothing else is: with these two exceptions the text leads to the
directory it was made from.
-/

namespace ShellPrompt

namespace Path

theorem stripBase?_eq_some_iff {base p : Path} {rest : List Component} :
    base.stripBase? p = some rest ↔ p.components = base.components ++ rest := by
  unfold stripBase?
  constructor
  · intro h
    split at h
    case isTrue hbase =>
      cases h
      obtain ⟨rest, hrest⟩ := List.isPrefixOf_iff_prefix.1 hbase
      rw [← hrest, List.drop_left]
    case isFalse => cases h
  · intro h
    rw [h, if_pos (List.isPrefixOf_iff_prefix.2 (List.prefix_append _ _)), List.drop_left]

end Path

namespace Module
namespace Directory

open ShellPrompt.Path (Component IsText IsName names expandTilde)

/-- Names that can be shown and read back. -/
def Showable (cs : List Component) : Prop := ∀ name, .normal name ∈ cs → IsName name ∧ IsText name

theorem Showable.of_sublist {cs cs' : List Component} (h : Showable cs) (hsub : cs'.Sublist cs) :
    Showable cs' :=
  fun name hname => h name (hsub.subset hname)

theorem showable_components {p : Path} (h : IsText p.bytes) : Showable p.components := by
  intro name hname
  obtain ⟨hisName, hsegment⟩ := Path.isName_of_mem_named (Path.mem_named_of_mem_components hname)
  exact ⟨hisName, h.segment hsegment⟩

/-! ## The names by themselves -/

/-- The names with slashes between them. -/
def joined (cs : List Component) : List Char := ("/".intercalate (names cs)).toList

theorem encode_joined (cs : List Component) :
    Text.Utf8.encode (joined cs) =
      [Path.slash].intercalate ((names cs).map fun s => Text.Utf8.encode s.toList) := by
  have hslash : Text.Utf8.encode "/".toList = [Path.slash] := rfl
  rw [joined, String.toList_intercalate, Text.Utf8.encode_intercalate, hslash, List.map_map]
  rfl

section Names

variable {cs : List Component} (h : Showable cs)

include h

theorem map_normal_names :
    ((names cs).map fun s => Text.Utf8.encode s.toList).map Component.normal =
      cs.filter Component.isNormal := by
  rw [List.map_map]
  exact Path.map_names fun name hname => (h name hname).2

theorem isName_names : ∀ n ∈ (names cs).map fun s => Text.Utf8.encode s.toList, IsName n := by
  intro n hn
  have hmem : Component.normal n ∈ cs.filter Component.isNormal := by
    rw [← map_normal_names h]
    exact List.mem_map_of_mem hn
  exact (h n (List.mem_filter.1 hmem).1).1

theorem lead_joined : Path.lead ⟨Text.Utf8.encode (joined cs)⟩ = [] := by
  rw [encode_joined]
  exact Path.lead_joined (isName_names h)

theorem named_joined :
    Path.named (Text.Utf8.encode (joined cs)) = cs.filter Component.isNormal := by
  rw [encode_joined, Path.named_joined (isName_names h), map_normal_names h]

theorem components_joined :
    Path.components ⟨Text.Utf8.encode (joined cs)⟩ = cs.filter Component.isNormal := by
  rw [encode_joined, Path.components_joined (isName_names h), map_normal_names h]

theorem filter_eq_nil (hnames : names cs = []) : cs.filter Component.isNormal = [] := by
  rw [← map_normal_names h, hnames]
  rfl

end Names

/-! ## Behind an anchor -/

theorem expandTilde_shown_home (cs : List Component) (home : Path) :
    expandTilde (shown 0 .home (names cs)) (some home) =
      if names cs = [] then home else home.join ⟨Text.Utf8.encode (joined cs)⟩ := by
  unfold shown
  split
  case isTrue => rfl
  case isFalse =>
    have htext : Anchor.home.lead ++ "/".intercalate (names cs) =
        String.ofList ('~' :: '/' :: joined cs) := by
      rw [← String.toList_inj, String.toList_append, String.toList_ofList]
      rfl
    rw [if_neg (by simp), htext, Path.expandTilde_below]

section Anchors

variable {cs : List Component} (h : Showable cs)

include h

theorem components_shown_home {home : Path} (hhome : home.bytes ≠ []) :
    (expandTilde (shown 0 .home (names cs)) (some home)).components =
      home.components ++ cs.filter Component.isNormal := by
  rw [expandTilde_shown_home]
  split
  case isTrue hnames => rw [filter_eq_nil h hnames, List.append_nil]
  case isFalse => rw [Path.components_join hhome (lead_joined h), components_joined h]

/-- What lies below the empty path does not begin at the root. -/
theorem components_shown_nowhere :
    (expandTilde (shown 0 .home (names cs)) (some ⟨[]⟩)).components =
      cs.filter Component.isNormal := by
  rw [expandTilde_shown_home]
  split
  case isTrue hnames =>
    rw [filter_eq_nil h hnames]
    rfl
  case isFalse =>
    have hjoin : Path.join ⟨[]⟩ ⟨Text.Utf8.encode (joined cs)⟩ =
        ⟨Text.Utf8.encode (joined cs)⟩ := by
      simp [Path.join]
    rw [hjoin, components_joined h]

theorem components_shown_root (home : Option Path) :
    (expandTilde (shown 0 .root (names cs)) home).components =
      .root :: cs.filter Component.isNormal := by
  unfold shown
  split
  case isTrue hnames =>
    rw [filter_eq_nil h hnames]
    exact congrArg Path.components (Path.expandTilde_root [] home)
  case isFalse =>
    have htext : Anchor.root.lead ++ "/".intercalate (names cs) =
        String.ofList ('/' :: joined cs) := by
      rw [← String.toList_inj, String.toList_append, String.toList_ofList]
      rfl
    rw [if_neg (by simp), htext, Path.expandTilde_root, Path.components_slash, named_joined h]

end Anchors

/-! ## Back to the directory -/

/-- An anchor stands for some first components of the directory; what follows it are the others,
save that the root is shown in the anchor and still counted as following it. -/
theorem anchored_cases (cwd : Path) (home : Option Path) (habsolute : cwd.isAbsolute = true) :
    (∃ base rest, home = some base ∧ cwd.components = base.components ++ rest ∧
        anchored cwd home = (.home, rest)) ∨
      (¬ ∃ base, home = some base ∧ base.components <+: cwd.components) ∧
        anchored cwd home = (.root, cwd.components) := by
  unfold anchored
  split
  case h_1 rest hstrip =>
    obtain ⟨base, rfl, hbase⟩ := Option.bind_eq_some_iff.1 hstrip
    exact .inl ⟨base, rest, rfl, Path.stripBase?_eq_some_iff.1 hbase, rfl⟩
  case h_2 hstrip =>
    rw [if_pos habsolute]
    refine .inr ⟨?_, rfl⟩
    rintro ⟨base, rfl, rest, hrest⟩
    have hsome := Path.stripBase?_eq_some_iff.2 hrest.symm
    rw [Option.bind_some, hsome] at hstrip
    cases hstrip

/-- Of what the segments name, only the steps to the parent are no names. -/
theorem filter_isNormal {cs : List Component} (h : ∀ c ∈ cs, c = .parent ∨ c.isNormal = true) :
    cs.filter Component.isNormal = cs.filter (· ≠ .parent) := by
  refine List.filter_congr fun c hc => ?_
  rcases h c hc with rfl | hnormal
  · rfl
  · cases c <;> simp_all [Component.isNormal]

/-- Unless the home directory is empty, the text leads to the directory, less the steps to the
parent behind what the anchor stands for. -/
theorem exists_components {cwd : Path} {home : Option Path} (habsolute : cwd.isAbsolute = true)
    (htext : IsText cwd.bytes) (hhome : home ≠ some ⟨[]⟩) :
    ∃ base, cwd.components = base ++ (anchored cwd home).2 ∧
      (expandTilde (text 0 cwd home) home).components =
        base ++ (anchored cwd home).2.filter (· ≠ .parent) := by
  have hcwd : cwd.components = .root :: Path.named cwd.bytes := by
    rw [Path.components_eq, Path.lead_of_isAbsolute habsolute]
    rfl
  have hshow := showable_components htext
  unfold text
  rcases anchored_cases cwd home habsolute with ⟨base, rest, rfl, hsplit, heq⟩ | ⟨-, heq⟩
  · have hbytes : base.bytes ≠ [] := fun hnil => hhome (by rw [← hnil])
    -- the base is not empty, so it takes the root
    obtain ⟨c, others, hbase⟩ := List.exists_cons_of_ne_nil (Path.components_ne_nil hbytes)
    have hnamed : ∀ c ∈ rest, c = .parent ∨ c.isNormal = true := by
      rw [hcwd, hbase, List.cons_append] at hsplit
      exact fun c hc => Path.mem_named (by rw [(List.cons.inj hsplit).2]; simp [hc])
    have hrest : Showable rest :=
      hshow.of_sublist (by rw [hsplit]; exact List.sublist_append_right _ _)
    refine ⟨base.components, by rw [heq, hsplit], ?_⟩
    simp only [heq, components_shown_home hrest hbytes, filter_isNormal hnamed]
  · refine ⟨[], by rw [heq, List.nil_append], ?_⟩
    have hroot : cwd.components.filter (· ≠ .parent) =
        .root :: cwd.components.filter Component.isNormal := by
      have hnot : ¬ Component.root.isNormal = true := by simp [Component.isNormal]
      rw [hcwd, List.filter_cons_of_pos (by decide), List.filter_cons_of_neg hnot,
        filter_isNormal fun c hc => Path.mem_named hc]
    simp only [heq, components_shown_root hshow, List.nil_append, hroot]

/-- Below an empty home directory nothing begins at the root. -/
theorem components_nowhere {cwd : Path} (habsolute : cwd.isAbsolute = true)
    (htext : IsText cwd.bytes) :
    (expandTilde (text 0 cwd (some ⟨[]⟩)) (some ⟨[]⟩)).components ≠ cwd.components := by
  have hshow := showable_components htext
  have hroot : Component.root ∈ cwd.components := by
    rw [Path.components_eq, Path.lead_of_isAbsolute habsolute]
    simp
  have hanchored : anchored cwd (some ⟨[]⟩) = (.home, cwd.components) := rfl
  intro heq
  unfold text at heq
  simp only [hanchored, components_shown_nowhere hshow] at heq
  rw [← heq] at hroot
  cases (List.mem_filter.1 hroot).2

/-- The tilde is shown where the home directory's components begin those of the directory. -/
theorem head?_text {cwd : Path} {home : Option Path} (habsolute : cwd.isAbsolute = true) :
    (text 0 cwd home).toList.head? = some '~' ↔
      ∃ base, home = some base ∧ base.components <+: cwd.components := by
  have hshown : ∀ anchor ns, anchor ≠ Anchor.relative →
      (shown 0 anchor ns).toList.head? = anchor.alone.toList.head? := by
    intro anchor ns hanchor
    unfold shown
    split
    · rfl
    rw [if_neg (by simp), String.toList_append]
    cases anchor with
    | home => rfl
    | root => rfl
    | relative => exact absurd rfl hanchor
  unfold text
  rcases anchored_cases cwd home habsolute with ⟨base, rest, rfl, hsplit, heq⟩ | ⟨hnone, heq⟩
  · simp only [heq, hshown .home _ nofun]
    exact ⟨fun _ => ⟨base, rfl, rest, hsplit.symm⟩, fun _ => rfl⟩
  · simp only [heq, hshown .root _ nofun]
    exact ⟨nofun, fun h => absurd h hnone⟩

/-- Shown in full by `directory`, an absolute directory is found again from its text by
`expandTilde`, exactly if no step to the parent follows what the anchor stands for (`anchored`) and
the home directory is not the empty path. The text begins with a tilde exactly where the home
directory's components begin those of the directory. -/
theorem expandTilde_render {c : ModuleConfig}
    (hlimit : c.optionUInt64? "truncation_length" = some 0) {s : Snapshot}
    (habsolute : s.cwd.isAbsolute = true) (htext : IsText s.cwd.bytes) :
    ∃ fragment, ((directory c).run s).ending = .returns (.ok (some fragment)) ∧
      ((expandTilde fragment.text s.home).components = s.cwd.components ↔
        s.home ≠ some ⟨[]⟩ ∧ Component.parent ∉ (anchored s.cwd s.home).2) ∧
      (fragment.text.toList.head? = some '~' ↔
        ∃ base, s.home = some base ∧ base.components <+: s.cwd.components) := by
  have hzero : limitOf c = 0 := by simp [limitOf, hlimit]
  refine ⟨_, rfl, ?_, ?_⟩
  · rw [hzero]
    by_cases hhome : s.home = some ⟨[]⟩
    · rw [hhome]
      exact ⟨fun h => absurd h (components_nowhere habsolute htext), fun h => absurd rfl h.1⟩
    · obtain ⟨base, hsplit, hback⟩ := exists_components habsolute htext hhome
      dsimp only
      rw [hback, hsplit, List.append_cancel_left_eq, List.filter_eq_self]
      simp only [decide_eq_true_eq]
      exact ⟨fun h => ⟨hhome, fun hmem => h _ hmem rfl⟩, fun h c hc heq => h.2 (heq ▸ hc)⟩
  · rw [hzero]
    exact head?_text habsolute

/-- Settings under which no name is dropped. -/
def inFull : ModuleConfig := { options := [("truncation_length", .nat 0)] }

def standing (cwd home : String) : Snapshot where
  cwd := Path.ofString cwd
  home := some (Path.ofString home)
  termWidth_ne_zero := by decide

/-- Repeated and trailing slashes are not shown, and not missed. -/
theorem expandTilde_render_slashes :
    let s := standing "/home/dev//src/./app" "/home/dev/"
    inFull.optionUInt64? "truncation_length" = some 0 ∧ s.cwd.isAbsolute = true ∧
      IsText s.cwd.bytes ∧ s.home ≠ some ⟨[]⟩ ∧
      Component.parent ∉ (anchored s.cwd s.home).2 ∧
      ∃ fragment, ((directory inFull).run s).ending = .returns (.ok (some fragment)) ∧
        fragment.text.toList.head? = some '~' ∧
        (expandTilde fragment.text s.home).components = s.cwd.components := by
  intro s
  have hlimit : inFull.optionUInt64? "truncation_length" = some 0 := by rfl
  have habsolute : s.cwd.isAbsolute = true := by rfl
  have htext : IsText s.cwd.bytes := ⟨_, rfl⟩
  have hhome : s.home ≠ some ⟨[]⟩ := by decide
  have hparent : Component.parent ∉ (anchored s.cwd s.home).2 := by decide
  have hbase : ∃ base, s.home = some base ∧ base.components <+: s.cwd.components :=
    ⟨_, rfl, by decide⟩
  obtain ⟨fragment, hrun, hback, htilde⟩ := expandTilde_render hlimit habsolute htext
  exact ⟨hlimit, habsolute, htext, hhome, hparent, fragment, hrun, htilde.2 hbase,
    hback.2 ⟨hhome, hparent⟩⟩

/-- A step to the parent directory is left out of what is shown, and below an empty home directory
the root is. -/
theorem shown_elsewhere :
    text 0 (Path.ofString "/srv/../etc") none = "/srv/etc" ∧
      (expandTilde "/srv/etc" none).components ≠ (Path.ofString "/srv/../etc").components ∧
      text 0 (Path.ofString "/srv/app") (some (Path.ofString "")) = "~/srv/app" ∧
      (expandTilde "~/srv/app" (some (Path.ofString ""))).components ≠
        (Path.ofString "/srv/app").components := by
  refine ⟨by rfl, by decide, by rfl, by decide⟩

end Directory
end Module
end ShellPrompt
