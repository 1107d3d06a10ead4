import ShellPrompt.Proofs.Layout.DropOrder
import ShellPrompt.Proofs.Module.Builtin
import ShellPrompt.Proofs.Pipeline.Serving
import ShellPrompt.Proofs.Registry.Modules

/-!
# ShellPrompt.Proofs.Pipeline.Marker

The input marker stays.

* `infix_paint`: a kept fragment is there to be read in the painted line.
* `IsMarker.last`: the leftmost input marker is the last to give way among fragments worth no more
  than it. `lineOf_marker`: those of built-in modules under standard settings are.
* `marker_stays`: so a narrow terminal costs a prompt anything but its marker.
-/

namespace ShellPrompt

/-! ## Painting -/

namespace Style

theorem Ansi.infix_wrap (text : List Char) (d : Descriptor) : text <:+: wrap text d :=
  List.infix_append _ _ _

theorem Xonsh.infix_wrap (text : List Char) (d : Descriptor) : text <:+: wrap text d :=
  List.infix_append _ _ _

theorem Dialect.infix_apply (dialect : Dialect) (text : String) (d : Descriptor) :
    text.toList <:+: (dialect.apply text d).toList := by
  unfold Dialect.apply
  split
  case isTrue => exact List.infix_refl _
  case isFalse =>
    cases dialect with
    | plain => exact List.infix_refl _
    | ansi =>
      rw [String.toList_ofList]
      exact Ansi.infix_wrap _ d
    | xonsh =>
      rw [String.toList_ofList]
      exact Xonsh.infix_wrap _ d

theorem Resolver.infix_paint (r : Resolver) (text : String) (tag : Option String) :
    text.toList <:+: (r.paint text tag).toList := by
  cases tag with
  | none => exact List.infix_refl _
  | some tag => exact r.dialect.infix_apply text (r.resolve tag)

end Style

theorem infix_intercalate {α : Type} {x gap : List α} {xs : List (List α)} (h : x ∈ xs) :
    x <:+: gap.intercalate xs := by
  induction xs with
  | nil => cases h
  | cons y rest ih =>
    cases rest with
    | nil =>
      have hxy : x = y := List.mem_singleton.1 h
      rw [List.intercalate_singleton]
      exact hxy ▸ List.infix_refl x
    | cons z rest =>
      rw [List.intercalate_cons_cons]
      rcases List.mem_cons.1 h with rfl | h
      · rw [List.append_assoc]
        exact (List.prefix_append _ _).isInfix
      · exact (ih h).trans (List.suffix_append _ _).isInfix

namespace Pipeline

theorem infix_paint (p : Pipeline) {line : Layout.Line} {f : Fragment} (h : f ∈ line.fragments) :
    f.text.toList <:+: (p.paint line).toList := by
  rw [paint, String.toList_intercalate, List.map_map]
  exact (p.resolver.infix_paint f.text f.style).trans
    (infix_intercalate (List.mem_map.2 ⟨f, h, rfl⟩))

theorem infix_paint_remaining (p : Pipeline) (s : Snapshot) (found : List Outcome) :
    let fs := found.filterMap Outcome.fragment?
    ∀ place ∈ Layout.remaining fs (p.lineOf s found).dropped.length,
      (fs.get place).text.toList <:+: (p.paint (p.lineOf s found)).toList := by
  intro fs place hplace
  refine p.infix_paint ?_
  rw [show (p.lineOf s found).fragments = _ from (Layout.compose_places _ _ _).2.1]
  exact List.mem_map.2 ⟨place, hplace, rfl⟩

end Pipeline

/-! ## Fragments -/

namespace Registry

section

variable {r : Registry} {s : Snapshot} {budget : Option UInt64} {name : String} {inTime : Prop}
  {x : Outcome} {f : Fragment}

theorem CallsFor.exists_fragment (hx : CallsFor r s budget name inTime x)
    (hf : x.fragment? = some f) : ∃ m settings own, r.Enabled name m settings ∧
      (m.run s).ending = .returns (.ok (some own)) ∧ f = settings.stamp m.name own := by
  cases hx with
  | @rendered m settings own he hin hend htext =>
    exact ⟨m, settings, own, he, hend, (Option.some.inj hf).symm⟩
  | _ => cases hf

/-- A fragment bears the name it was asked for under. -/
theorem CallsFor.module_eq (hx : CallsFor r s budget name inTime x)
    (hf : x.fragment? = some f) : f.module = name := by
  obtain ⟨m, settings, own, he, -, rfl⟩ := hx.exists_fragment hf
  exact name_of_find? he.1

end

theorem not_trips {r : Registry} (h : r.All Module.Reliable) (names : List String) (s : Snapshot)
    (scheduler : Evaluation.Scheduler) (o : Evaluation.Options) (token : Token) (name : String) :
    ¬ r.Trips names s scheduler o token name := by
  rintro ⟨i, m, settings, -, he, hname, -⟩
  obtain rfl := name_of_find? he.1
  exact (h _ (List.mem_of_find?_eq_some he.1)).2 hname

end Registry

namespace Pipeline

/-- The place of the leftmost input marker. -/
def IsMarker (fs : List Fragment) (i : Fin fs.length) : Prop :=
  (fs.get i).module = "character" ∧ ∀ j < i, (fs.get j).module ≠ "character"

theorem exists_isMarker {fs : List Fragment} {f : Fragment} (hf : f ∈ fs)
    (hmodule : f.module = "character") : ∃ i, IsMarker fs i := by
  obtain ⟨i, rfl⟩ := List.get_of_mem hf
  obtain ⟨least, hleast, hmin⟩ :=
    wellFounded_lt.has_min {i | (fs.get i).module = "character"} ⟨i, hmodule⟩
  exact ⟨least, hleast, fun j hj hother => hmin j hother hj⟩

theorem IsMarker.eq_length {fs before behind : List Fragment} {f : Fragment}
    {i : Fin fs.length} (h : IsMarker fs i) (hfs : fs = before ++ f :: behind)
    (hf : f.module = "character") (hbefore : ∀ g ∈ before, g.module ≠ "character") :
    i.val = before.length := by
  subst hfs
  refine Nat.le_antisymm (Nat.not_lt.1 fun hlt => ?_) (Nat.not_lt.1 fun hlt => ?_)
  · have hother := h.2 ⟨before.length, hlt.trans i.isLt⟩ hlt
    rw [List.get_eq_getElem, List.getElem_append_right (Nat.le_refl _)] at hother
    simp only [Nat.sub_self, List.getElem_cons_zero] at hother
    exact hother hf
  · have hmodule := h.1
    rw [List.get_eq_getElem, List.getElem_append_left hlt] at hmodule
    exact hbefore _ (List.getElem_mem hlt) hmodule

/-- Among fragments that are worth no more than a marker, and as much only if they are one, the
leftmost marker is the last to give way. -/
theorem IsMarker.last {fs : List Fragment} {i : Fin fs.length} (h : IsMarker fs i)
    (hworth : ∀ f ∈ fs, f.priority.toInt ≤ 100 ∧
      (f.priority.toInt = 100 ↔ f.module = "character")) (j : Fin fs.length) :
    Layout.GivesWay j i := by
  obtain ⟨hle, hiff⟩ := hworth (fs.get j) (List.get_mem fs j)
  have hi : (fs.get i).priority.toInt = 100 := (hworth (fs.get i) (List.get_mem fs i)).2.2 h.1
  by_cases hj : (fs.get j).module = "character"
  · exact .inr ⟨(hiff.2 hj).trans hi.symm, Fin.not_lt.1 fun hlt => h.2 j hlt hj⟩
  · exact .inl (hi ▸ lt_of_le_of_ne hle fun heq => hj (hiff.1 heq))

/-! ## Built-in modules -/

theorem registry_built (config : Config) (sheet : Style.Sheet) :
    (built config none sheet).registry = .withBuiltins config :=
  Registry.configure_configure _ _

theorem reliable_built (config : Config) (sheet : Style.Sheet) :
    (built config none sheet).registry.All Module.Reliable :=
  registry_built config sheet ▸ Registry.all_withBuiltins config

theorem exists_position {found : List Outcome} {f : Fragment}
    (hf : f ∈ found.filterMap Outcome.fragment?) :
    ∃ (i : Nat) (x : Outcome), found[i]? = some x ∧ x.fragment? = some f := by
  obtain ⟨x, hx, hxf⟩ := List.mem_filterMap.1 hf
  obtain ⟨i, hi⟩ := List.getElem?_of_mem hx
  exact ⟨i, x, hi, hxf⟩

section Builtin

variable {config : Config} {sheet : Style.Sheet} {s : Snapshot} {scheduler : Evaluation.Scheduler}
  {token after : Token} {found : List Outcome} {f : Fragment} {i : Nat}
  (hstandard : ∀ name ∈ config.left, (config.module? name).getD {} = {})
  (he : ((built config none sheet).evaluated scheduler .left s token).1 = .ok (found, after))

include hstandard he

/-- The fragment of a position is one of the name there, as its module made it. -/
theorem made_of_found {x : Outcome} (hx : found[i]? = some x) (hf : x.fragment? = some f) :
    config.left[i]? = some f.module ∧
      ∃ m, (Registry.withBuiltins config).find? f.module = some (m, .standard) ∧ ∃ own,
        (m.run s).ending = .returns (.ok (some own)) ∧ f = { own with module := m.name } := by
  obtain ⟨hlength, hall⟩ := callsFor_of_evaluated he
  obtain ⟨hlt, -⟩ := List.getElem?_eq_some_iff.1 hx
  have hname : config.left[i]? = some config.left[i] := List.getElem?_eq_getElem (hlength ▸ hlt)
  obtain ⟨x', hx', hcalls⟩ := hall i _ hname
  obtain rfl := Option.some.inj (hx.symm.trans hx')
  rw [hcalls.module_eq hf]
  refine ⟨hname, ?_⟩
  obtain ⟨m, settings, own, ⟨hfind, -⟩, hend, rfl⟩ := hcalls.exists_fragment hf
  rw [registry_built] at hfind
  obtain ⟨-, -, rfl⟩ := Registry.mem_builtin_of_find? hfind
  rw [Config.settingsFor_standard (hstandard _ (List.getElem_mem _))] at hfind ⊢
  exact ⟨m, hfind, own, hend, rfl⟩

/-- No module's fragments are worth more than the marker's, and no other's are worth as much. -/
theorem worth_of_found (hf : f ∈ found.filterMap Outcome.fragment?) :
    f.priority.toInt ≤ 100 ∧ (f.priority.toInt = 100 ↔ f.module = "character") := by
  obtain ⟨j, x, hx, hxf⟩ := exists_position hf
  obtain ⟨-, m, hfind, own, hend, rfl⟩ := made_of_found hstandard he hx hxf
  have hm := (Registry.mem_builtin_of_find? hfind).1
  exact Module.toInt_priorities _ (Module.mem_priorities hm hend)

/-- The marker asked for at a position is there if its module answers in time. -/
theorem exists_marker (hi : config.left[i]? = some "character")
    (hin : (built config none sheet).registry.InTime config.left s scheduler
      (built config none sheet).options token i) :
    ∃ f, found[i]? = some (.rendered f) ∧ f.module = "character" := by
  have hcharacter := hstandard _ (List.mem_of_getElem? hi)
  obtain ⟨x, hx, hcalls⟩ := (callsFor_of_evaluated he).2 i _ hi
  have hfind := Registry.find?_character config
  rw [Config.settingsFor_standard hcharacter, hcharacter, ← registry_built config sheet] at hfind
  have hsymbol : Module.Character.symbolOf {} ≠ "" := by decide
  rw [hcalls.unique (.rendered ⟨hfind, rfl⟩ hin rfl hsymbol)] at hx
  exact ⟨_, hx, rfl⟩

variable {place : Fin (found.filterMap Outcome.fragment?).length}

theorem IsMarker.text_eq (h : IsMarker _ place) :
    ((found.filterMap Outcome.fragment?).get place).text = Module.Character.defaultSymbol := by
  obtain ⟨j, x, hx, hxf⟩ := exists_position (List.get_mem _ place)
  obtain ⟨hj, m, hfind, own, hend, hmade⟩ := made_of_found hstandard he hx hxf
  rw [h.1] at hj hfind
  have hcharacter := hstandard _ (List.mem_of_getElem? hj)
  rw [Registry.find?_character, hcharacter] at hfind
  obtain rfl := (Prod.mk.inj (Option.some.inj hfind)).1
  rw [hmade, ← Option.some.inj (Module.eq_of_returns hend)]
  rfl

/-- The leftmost marker is that of the first name of its kind, if this one is in time. -/
theorem IsMarker.eq_first (h : IsMarker _ place) (hf : found[i]? = some (.rendered f))
    (hmodule : f.module = "character") (hfirst : ∀ j < i, config.left[j]? ≠ some "character") :
    place.val = ((found.take i).filterMap Outcome.fragment?).length := by
  obtain ⟨hlt, heq⟩ := List.getElem?_eq_some_iff.1 hf
  have hsplit : found.take i ++ .rendered f :: found.drop (i + 1) = found := by
    rw [← heq, List.getElem_cons_drop, List.take_append_drop]
  have hfs := congrArg (List.filterMap Outcome.fragment?) hsplit
  rw [List.filterMap_append] at hfs
  refine h.eq_length hfs.symm hmodule ?_
  intro g hg hother
  obtain ⟨j, x, hx, hxg⟩ := exists_position hg
  rw [List.getElem?_take] at hx
  split at hx
  case isTrue hj => exact hfirst j hj (hother ▸ (made_of_found hstandard he hx hxg).1)
  case isFalse => cases hx

/-- The line of built-in modules keeps the leftmost marker, with its symbol. -/
theorem lineOf_marker (hi : config.left[i]? = some "character")
    (hin : (built config none sheet).registry.InTime config.left s scheduler
      (built config none sheet).options token i) :
    let fs := found.filterMap Outcome.fragment?
    let line := (built config none sheet).lineOf s found
    ∃ place ∈ Layout.remaining fs line.dropped.length, IsMarker fs place ∧
      (fs.get place).text = Module.Character.defaultSymbol ∧
      ((∀ j < i, config.left[j]? ≠ some "character") →
        place.val = ((found.take i).filterMap Outcome.fragment?).length) := by
  intro fs line
  obtain ⟨f, hf, hmodule⟩ := exists_marker hstandard he hi hin
  have hmem : f ∈ fs := List.mem_filterMap.2 ⟨_, List.mem_of_getElem? hf, rfl⟩
  obtain ⟨place, hplace⟩ := exists_isMarker hmem hmodule
  have hlast := hplace.last fun g hg => worth_of_found hstandard he hg
  exact ⟨place, Layout.mem_remaining_of_last hlast _ _, hplace, hplace.text_eq hstandard he,
    hplace.eq_first hstandard he hf hmodule⟩

end Builtin

/-- A left target of built-in modules under standard settings that lists a marker shows one, on a
terminal of any width, if its module answers `InTime`: the line keeps the leftmost marker of all the
fragments (`IsMarker`), which is that of the first name of its kind if this is the one in time, and
its symbol is there to be read in the prompt. -/
theorem marker_stays {config : Config}
    (hstandard : ∀ name ∈ config.left, (config.module? name).getD {} = {}) {i : Nat}
    (hi : config.left[i]? = some "character") (sheet : Style.Sheet) (s : Snapshot) :
    let p := built config none sheet
    (∀ actions, Evaluation.Fair actions →
      ∃ n, ∀ m, n ≤ m → p.Returns (fun _ _ _ => Evaluation.upTo actions m) s) ∧
    ∀ plan, p.Returns plan s → p.InTime plan s .left i →
      ∃ found lines out,
        (p.evaluated (plan .left) .left s .own).1 = .ok (found, .own) ∧
        (p.composeLayout plan s .own).Gives (.ok lines) ∧
        (p.render plan s).Gives (.ok out) ∧ (p.renderOrEmpty plan s).Gives (.ok out) ∧
        (p.renderLine (plan .left) .left s).Gives (.ok out.left) ∧
        (let fs := found.filterMap Outcome.fragment?
        let kept := Layout.remaining fs lines.left.dropped.length
        lines.left.fragments = kept.map fs.get ∧
        ∃ place ∈ kept, IsMarker fs place ∧ (fs.get place).text = "❯" ∧
          ((∀ j < i, config.left[j]? ≠ some "character") →
            place.val = ((found.take i).filterMap Outcome.fragment?).length)) ∧
        "❯".toList <:+: out.left.toList ∧ out.left ≠ "" := by
  intro p
  have hreliable : p.registry.All Module.Reliable := reliable_built config sheet
  refine ⟨fun _ => exists_returns fun _ => Registry.answering_work hreliable, ?_⟩
  intro plan hr hin
  obtain ⟨found, hfound⟩ := exists_serves hr fun t name => Registry.not_trips hreliable _ _ _ _ _ _
  have hsome : p.config.modulesFor .left ≠ [] :=
    List.ne_nil_of_mem (List.mem_of_getElem? (show (p.config.modulesFor .left)[i]? = _ from hi))
  have he := hfound .left hsome
  have hlines : (p.linesFor s found).left = p.lineOf s (found .left) := by
    have hline := line_linesFor p s found .left
    rwa [if_neg hsome] at hline
  have hout : (p.output (p.linesFor s found)).left = p.paint (p.lineOf s (found .left)) := by
    have hline := line_prompt p s found .left
    rwa [if_neg hsome] at hline
  have hcomposed : (p.composed plan s Target.all {} .own).1 = .ok (p.linesFor s found) :=
    composed_served (fun t _ => hfound t) {}
  have hlayout := (p.composeLayout_ends plan s .own).gives
  rw [hcomposed] at hlayout
  obtain ⟨place, hkept, hplace, htext, hfirst⟩ := lineOf_marker hstandard he hi hin
  have hinfix := infix_paint_remaining p s (found .left) place hkept
  rw [htext, ← hout] at hinfix
  obtain ⟨hrender, hrenderOrEmpty⟩ := render_served hfound
  refine ⟨found .left, p.linesFor s found, p.output (p.linesFor s found), he, hlayout, hrender,
    hrenderOrEmpty, renderLine_served hfound .left, ?_, hinfix, ?_⟩
  · rw [hlines]
    exact ⟨(Layout.compose_places _ _ _).2.1, place, hkept, hplace, htext, hfirst⟩
  · intro hempty
    rw [hempty] at hinfix
    exact absurd hinfix.length_le (by decide)

/-- A module whose outcome is there to be looked at, and is no time-out, was in time. -/
theorem inTime_of_evaluated {p : Pipeline} {plan : Plan} {s : Snapshot} {t : Target} {i : Nat}
    {name : String} {m : Module} {settings : ModuleSettings}
    (hi : (p.config.modulesFor t)[i]? = some name) (he : p.registry.Enabled name m settings)
    (h : ((p.evaluated (plan t) t s .own).1.toOption.bind (·.1[i]?)).map Outcome.isTimeout =
      some false) : p.InTime plan s t i := by
  rcases hev : (p.evaluated (plan t) t s .own).1 with halt | ⟨found, after⟩
  · rw [hev] at h
    cases h
  · rw [hev] at h
    obtain ⟨x, hx, htimeout⟩ := Option.map_eq_some_iff.1 h
    exact inTime_of_not_isTimeout hev hi he hx htimeout

/-- Two markers on a terminal of one column. -/
def doublyMarked : Config := { left := ["directory", "character", "status", "character"] }

def crampedSnapshot : Snapshot := ⟨{ exitCode := 130, termWidth := 1 }, by decide⟩

theorem standard_doublyMarked :
    ∀ name ∈ doublyMarked.left, (doublyMarked.module? name).getD {} = {} := fun _ _ => rfl

theorem returns_doublyMarked :
    (built doublyMarked none Style.Sheet.defaults).Returns eager crampedSnapshot := by
  intro t hsome
  cases t with
  | left => exact nofun
  | right => exact absurd rfl hsome
  | bottom => exact absurd rfl hsome

theorem inTime_doublyMarked :
    (built doublyMarked none Style.Sheet.defaults).InTime eager crampedSnapshot .left 1 := by
  exact inTime_of_evaluated rfl ⟨rfl, rfl⟩ (by decide +kernel)

theorem marker_stays_doublyMarked :
    (∀ name ∈ doublyMarked.left, (doublyMarked.module? name).getD {} = {}) ∧
    doublyMarked.left[1]? = some "character" ∧
    let p := built doublyMarked none Style.Sheet.defaults
    p.Returns eager crampedSnapshot ∧ p.InTime eager crampedSnapshot .left 1 ∧
    ∃ lines out, (p.composeLayout eager crampedSnapshot .own).Gives (.ok lines) ∧
      (p.render eager crampedSnapshot).Gives (.ok out) ∧ lines.left.fragments ≠ [] ∧
      "❯".toList <:+: out.left.toList := by
  obtain ⟨found, lines, out, -, hlayout, hrender, -, -, ⟨hkept, place, hplace, -⟩, hinfix, -⟩ :=
    (marker_stays (i := 1) standard_doublyMarked rfl Style.Sheet.defaults crampedSnapshot).2 eager
      returns_doublyMarked inTime_doublyMarked
  refine ⟨standard_doublyMarked, rfl, returns_doublyMarked, inTime_doublyMarked, lines, out,
    hlayout, hrender, ?_, hinfix⟩
  rw [hkept]
  exact List.ne_nil_of_mem (List.mem_map.2 ⟨place, hplace, rfl⟩)

end Pipeline
end ShellPrompt
