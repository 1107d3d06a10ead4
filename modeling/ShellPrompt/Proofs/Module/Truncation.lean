import ShellPrompt.Proofs.Module.Directory

/-!
# ShellPrompt.Proofs.Module.Truncation

The working directory under different limits.

A limit that is less than the number of names drops the first names and the anchor with them
(`shown_of_lt`), any other drops nothing (`shown_of_not_lt`). So the text under a lower limit ends
the text under a higher one, and begins there where a name begins (`truncation_keeps_end`).
-/

namespace ShellPrompt
namespace Module
namespace Directory

open ShellPrompt.Path (Component names)

/-! ## Names as they are shown -/

/-- The names there are to show. -/
def namesOf (s : Snapshot) : List String := names (anchored s.cwd s.home).2

theorem anchored_suffix (cwd : Path) (home : Option Path) :
    (anchored cwd home).2 <:+ cwd.components := by
  unfold anchored
  split
  case h_1 rest hstrip =>
    obtain ⟨base, -, hbase⟩ := Option.bind_eq_some_iff.1 hstrip
    exact ⟨base.components, (Path.stripBase?_eq_some_iff.1 hbase).symm⟩
  case h_2 => exact List.suffix_rfl

theorem mem_names {cs : List Component} {n : String} (h : n ∈ names cs) :
    ∃ name, .normal name ∈ cs ∧ n = String.ofList (Text.Utf8.lossy name) := by
  obtain ⟨c, hc, heq⟩ := List.mem_filterMap.1 h
  cases c with
  | normal name => exact ⟨name, hc, (Option.some.inj heq).symm⟩
  | root | current | parent => cases heq

/-- A name is not empty and holds no slash, whatever its bytes. -/
def Whole (name : String) : Prop := name ≠ "" ∧ '/' ∉ name.toList

theorem whole_of_mem_namesOf {s : Snapshot} {name : String} (h : name ∈ namesOf s) :
    Whole name := by
  obtain ⟨bytes, hmem, rfl⟩ := mem_names h
  have hcwd := (anchored_suffix s.cwd s.home).subset hmem
  obtain ⟨hname, -⟩ := Path.isName_of_mem_named (Path.mem_named_of_mem_components hcwd)
  constructor
  · simpa using Text.Utf8.lossy_ne_nil hname.ne_nil
  · intro hslash
    rw [String.toList_ofList] at hslash
    exact hname.1 (Text.Utf8.mem_of_mem_lossy (by decide) (by decide) hslash)

/-! ## Limits -/

section Limits

variable {limit : Nat} {anchor : Anchor} {ns : List String}

theorem shown_of_lt (hpos : 0 < limit) (h : limit < ns.length) :
    shown limit anchor ns = "/".intercalate (ns.drop (ns.length - limit)) := by
  have hne : ns ≠ [] := List.ne_nil_of_length_pos (by omega)
  rw [shown, if_neg hne, if_pos ⟨hpos, h⟩]

theorem shown_of_not_lt (h : ¬ (0 < limit ∧ limit < ns.length)) :
    shown limit anchor ns = shown 0 anchor ns := by
  have hzero : ¬ (0 < 0 ∧ 0 < ns.length) := fun h => Nat.lt_irrefl 0 h.1
  rw [shown, shown, if_neg h, if_neg hzero]

/-- What may stand in front of names. -/
def markers : List String := ["~", "~/", "/", ".", ""]

theorem exists_marker (anchor : Anchor) (ns : List String) :
    ∃ marker ∈ markers, shown 0 anchor ns = marker ++ "/".intercalate ns := by
  unfold shown
  split
  case isTrue h =>
    refine ⟨anchor.alone, by cases anchor <;> decide, ?_⟩
    rw [h, String.intercalate_nil, String.append_empty]
  case isFalse =>
    rw [if_neg (by simp)]
    exact ⟨anchor.lead, by cases anchor <;> decide, rfl⟩

theorem intercalate_ne_empty (hne : ns ≠ []) (h : ∀ name ∈ ns, Whole name) :
    "/".intercalate ns ≠ "" := by
  obtain ⟨name, rest, rfl⟩ := List.exists_cons_of_ne_nil hne
  have hname := (h name List.mem_cons_self).1
  cases rest with
  | nil => simpa using hname
  | cons next rest => simp [String.intercalate_cons_cons]

theorem shown_ne_empty (h : ∀ name ∈ ns, Whole name) : shown limit anchor ns ≠ "" := by
  by_cases hcut : 0 < limit ∧ limit < ns.length
  · have hne : ns.drop (ns.length - limit) ≠ [] :=
      List.ne_nil_of_length_pos (by rw [List.length_drop]; omega)
    rw [shown_of_lt hcut.1 hcut.2]
    exact intercalate_ne_empty hne fun name hname => h name (List.mem_of_mem_drop hname)
  · rw [shown_of_not_lt hcut]
    by_cases hne : ns = []
    · rw [shown, if_pos hne]
      cases anchor <;> decide
    · obtain ⟨marker, -, hfull⟩ := exists_marker anchor ns
      rw [hfull, Ne, String.append_eq_empty_iff, not_and]
      exact fun _ => intercalate_ne_empty hne h

/-- Cut between the slashes, a text without a marker gives the names it shows. -/
theorem splitOn_intercalate (hne : ns ≠ []) (h : ∀ name ∈ ns, Whole name) :
    ("/".intercalate ns).toList.splitOn '/' = ns.map String.toList := by
  have hslash : ∀ l ∈ ns.map String.toList, '/' ∉ l := by
    simpa using fun name hname => (h name hname).2
  have hchar : "/".toList = ['/'] := rfl
  rw [String.toList_intercalate, hchar, List.splitOn_intercalate '/' hslash (by simpa using hne)]

end Limits

/-! ## Ends of a text -/

/-- `tail` is the whole text, or ends it and begins behind a slash. -/
def EndsAtName (text tail : String) : Prop :=
  ∃ front, text.toList = front ++ tail.toList ∧ (front = [] ∨ front.getLast? = some '/')

theorem EndsAtName.refl (text : String) : EndsAtName text text := ⟨[], rfl, .inl rfl⟩

section Ends

variable {m n : Nat} {anchor : Anchor} {ns : List String}

theorem exists_front (marker : String) (ns : List String) {k : Nat} (hpos : 0 < k)
    (h : k < ns.length) :
    ∃ front, (marker ++ "/".intercalate ns).toList =
        front ++ ("/".intercalate (ns.drop k)).toList ∧ front.getLast? = some '/' := by
  have htake : ns.take k ≠ [] := List.ne_nil_of_length_pos (by rw [List.length_take]; omega)
  have hdrop : ns.drop k ≠ [] := List.ne_nil_of_length_pos (by rw [List.length_drop]; omega)
  refine ⟨(marker ++ "/".intercalate (ns.take k) ++ "/").toList, ?_, by simp⟩
  conv => lhs; rw [← List.take_append_drop k ns]
  rw [String.intercalate_append_of_ne_nil htake hdrop]
  simp

/-- Something ahead of a name is dropped where names are. -/
theorem exists_dropped (anchor : Anchor) (hpos : 0 < n) (h : n < ns.length) :
    ∃ front, (shown 0 anchor ns).toList = front ++ (shown n anchor ns).toList ∧
      front.getLast? = some '/' := by
  obtain ⟨marker, -, hfull⟩ := exists_marker anchor ns
  rw [hfull, shown_of_lt hpos h]
  exact exists_front marker ns (by omega) (by omega)

theorem endsAtName_full (n : Nat) (anchor : Anchor) (ns : List String) :
    EndsAtName (shown 0 anchor ns) (shown n anchor ns) := by
  by_cases hcut : 0 < n ∧ n < ns.length
  · obtain ⟨front, heq, hlast⟩ := exists_dropped anchor hcut.1 hcut.2
    exact ⟨front, heq, .inr hlast⟩
  · rw [shown_of_not_lt hcut]
    exact .refl _

theorem endsAtName_shown (hpos : 0 < m) (hle : m ≤ n) :
    EndsAtName (shown n anchor ns) (shown m anchor ns) := by
  by_cases hn : n < ns.length
  · rcases Nat.eq_or_lt_of_le hle with rfl | hlt
    · exact .refl _
    · -- both are cut, and what the lower limit leaves is cut off what the higher one leaves
      have hdrop : ns.drop (ns.length - m) = (ns.drop (ns.length - n)).drop (n - m) := by
        rw [List.drop_drop]
        congr 1
        omega
      obtain ⟨front, heq, hlast⟩ := exists_front "" (ns.drop (ns.length - n))
        (show 0 < n - m by omega) (by rw [List.length_drop]; omega)
      rw [String.empty_append] at heq
      rw [shown_of_lt (by omega) hn, shown_of_lt hpos (by omega), hdrop]
      exact ⟨front, heq, .inr hlast⟩
  · have huncut : ¬ (0 < n ∧ n < ns.length) := fun h => hn h.2
    rw [shown_of_not_lt huncut]
    exact endsAtName_full m anchor ns

theorem shown_ne_iff : shown n anchor ns ≠ shown 0 anchor ns ↔ 0 < n ∧ n < ns.length := by
  refine ⟨fun hne => Decidable.byContradiction fun hcut => hne (shown_of_not_lt hcut), ?_⟩
  rintro ⟨hpos, h⟩ heq
  obtain ⟨front, hfull, hlast⟩ := exists_dropped anchor hpos h
  rw [heq] at hfull
  obtain rfl : front = [] := List.append_left_eq_self.1 hfull.symm
  cases hlast

end Ends

/-! ## The module -/

theorem text_eq (n : Nat) (s : Snapshot) :
    text n s.cwd s.home = shown n (anchored s.cwd s.home).1 (namesOf s) := rfl

/-- What `directory` shows under one limit ends what it shows under a higher one or under none, and
begins there with a name or is all of it (`EndsAtName`). A limit shows no more names than it says
besides a marker. It makes a difference exactly if there are more names, and then it shows just as
many and no marker. -/
theorem truncation_keeps_end (s : Snapshot) :
    (∀ c : ModuleConfig, ∃ f, ((directory c).run s).ending = .returns (.ok (some f)) ∧
        f.text = text (limitOf c) s.cwd s.home) ∧
      (∀ name ∈ namesOf s, Whole name) ∧
      (∀ n, text n s.cwd s.home ≠ "") ∧
      (∀ m n, 0 < m → m ≤ n → EndsAtName (text n s.cwd s.home) (text m s.cwd s.home)) ∧
      (∀ n, EndsAtName (text 0 s.cwd s.home) (text n s.cwd s.home)) ∧
      (∀ n, ∃ marker ∈ markers, ∃ kept, kept <:+ namesOf s ∧
        text n s.cwd s.home = marker ++ "/".intercalate kept ∧
        (n = 0 → kept = namesOf s) ∧ (0 < n → kept.length ≤ n)) ∧
      (∀ n, text n s.cwd s.home ≠ text 0 s.cwd s.home ↔ 0 < n ∧ n < (namesOf s).length) ∧
      ∀ n, 0 < n → n < (namesOf s).length → ∃ kept, kept <:+ namesOf s ∧ kept.length = n ∧
        text n s.cwd s.home = "/".intercalate kept ∧
        (text n s.cwd s.home).toList.splitOn '/' = kept.map String.toList := by
  have hwhole : ∀ name ∈ namesOf s, Whole name := fun name => whole_of_mem_namesOf
  simp only [text_eq]
  refine ⟨fun c => ⟨_, rfl, rfl⟩, hwhole, fun n => shown_ne_empty hwhole,
    fun m n hpos hle => endsAtName_shown hpos hle, fun n => endsAtName_full n _ _, ?_,
    fun n => shown_ne_iff, ?_⟩
  · intro n
    by_cases hcut : 0 < n ∧ n < (namesOf s).length
    · refine ⟨"", by decide, (namesOf s).drop ((namesOf s).length - n), List.drop_suffix _ _, ?_,
        by omega, fun _ => ?_⟩
      · rw [shown_of_lt hcut.1 hcut.2, String.empty_append]
      · rw [List.length_drop]
        omega
    · obtain ⟨marker, hmarker, hfull⟩ := exists_marker (anchored s.cwd s.home).1 (namesOf s)
      refine ⟨marker, hmarker, _, List.suffix_rfl, ?_, fun _ => rfl, by omega⟩
      rw [shown_of_not_lt hcut, hfull]
  · intro n hpos h
    have hlength : ((namesOf s).drop ((namesOf s).length - n)).length = n := by
      rw [List.length_drop]
      omega
    refine ⟨_, List.drop_suffix _ _, hlength, shown_of_lt hpos h, ?_⟩
    rw [shown_of_lt hpos h]
    exact splitOn_intercalate (List.ne_nil_of_length_pos (by omega))
      fun name hname => hwhole name (List.mem_of_mem_drop hname)

/-- Three names below the home directory, one of them a byte that belongs to no text. -/
def garbled : Snapshot :=
  { standing "/" "/home/dev" with
    cwd := ⟨Text.Utf8.encode "/home/dev/src/".toList ++ 0xFF :: Text.Utf8.encode "/app".toList⟩ }

theorem truncation_keeps_end_garbled :
    text 0 garbled.cwd garbled.home = "~/src/\uFFFD/app" ∧
      EndsAtName (text 2 garbled.cwd garbled.home) (text 1 garbled.cwd garbled.home) ∧
      text 2 garbled.cwd garbled.home ≠ text 0 garbled.cwd garbled.home ∧
      text 3 garbled.cwd garbled.home = text 0 garbled.cwd garbled.home ∧
      ∃ kept, kept <:+ namesOf garbled ∧ kept.length = 2 ∧
        (text 2 garbled.cwd garbled.home).toList.splitOn '/' = kept.map String.toList := by
  have hnames : namesOf garbled = ["src", "\uFFFD", "app"] := by rfl
  obtain ⟨-, -, -, hends, -, -, hdiffers, hcut⟩ := truncation_keeps_end garbled
  rw [hnames] at hdiffers hcut
  obtain ⟨kept, hkept, hlength, -, hsplit⟩ := hcut 2 (by decide) (by decide)
  refine ⟨by rfl, hends 1 2 (by decide) (by decide), (hdiffers 2).2 (by decide), ?_, kept,
    hnames ▸ hkept, hlength, hsplit⟩
  exact Decidable.byContradiction fun hne => absurd ((hdiffers 3).1 hne) (by decide)

end Directory
end Module
end ShellPrompt
