import ShellPrompt.Path
import ShellPrompt.Proofs.Text.Utf8

/-!
# ShellPrompt.Proofs.Path

The components of paths that are put together.

* Segments are what `List.splitOn` leaves between slashes, so a slash between two byte strings puts
  the components of the second behind those of the first (`named_slash`).
* `components_eq`: in front of what the segments name stands at most one component, `lead`, and it
  comes from how the path begins.
* `components_join`: a path below another one has the components of both.
* `components_joined`: names with slashes between them are read back as these names.
-/

namespace ShellPrompt
namespace Path

open Text (Bytes)

/-! ## Segments -/

theorem segments_eq_splitOn (bytes : Bytes) : segments bytes = bytes.splitOn slash := by
  induction bytes with
  | nil => rfl
  | cons b rest ih =>
    rw [segments, List.splitOn_cons_eq_if_modifyHead, ih]
    obtain ⟨s, ss, hsegments⟩ := List.exists_cons_of_ne_nil (List.splitOn_ne_nil slash rest)
    by_cases h : b = slash <;> simp [h, hsegments]

theorem segments_slash (a b : Bytes) : segments (a ++ slash :: b) = segments a ++ segments b := by
  simp only [segments_eq_splitOn, List.splitOn_append_cons_self]

theorem exists_segments_cons (bytes : Bytes) : ∃ s ss, segments bytes = s :: ss := by
  rw [segments_eq_splitOn]
  exact List.exists_cons_of_ne_nil (List.splitOn_ne_nil slash bytes)

theorem slash_notMem_of_mem_segments {bytes s : Bytes} (h : s ∈ segments bytes) : slash ∉ s := by
  induction bytes generalizing s with
  | nil =>
    obtain rfl := List.mem_singleton.1 h
    exact List.not_mem_nil
  | cons b rest ih =>
    rw [segments] at h
    split at h
    case isTrue =>
      rcases List.mem_cons.1 h with rfl | h
      · exact List.not_mem_nil
      · exact ih h
    case isFalse hb =>
      obtain ⟨first, others, hsegments⟩ := exists_segments_cons rest
      rw [hsegments] at h
      rcases List.mem_cons.1 h with rfl | h
      · rw [List.mem_cons, not_or]
        exact ⟨fun heq => hb heq.symm, ih (by simp [hsegments])⟩
      · exact ih (by simp [hsegments, h])

/-- The bytes of a text. -/
def IsText (bytes : Bytes) : Prop := ∃ text, bytes = Text.Utf8.encode text

theorem IsText.encode_lossy {bytes : Bytes} (h : IsText bytes) :
    Text.Utf8.encode (Text.Utf8.lossy bytes) = bytes := by
  obtain ⟨text, rfl⟩ := h
  rw [Text.Utf8.lossy_encode]

theorem IsText.segment {bytes s : Bytes} (h : IsText bytes) (hs : s ∈ segments bytes) :
    IsText s := by
  obtain ⟨text, rfl⟩ := h
  have hsplit := Text.Utf8.splitOn_encode (show '/'.toNat < 0x80 by decide) text
  have hslash : UInt8.ofNat '/'.toNat = slash := rfl
  rw [segments_eq_splitOn, ← hslash, hsplit] at hs
  obtain ⟨piece, -, rfl⟩ := List.mem_map.1 hs
  exact ⟨piece, rfl⟩

/-! ## Components -/

/-- What the segments name. -/
def named (bytes : Bytes) : List Component := (segments bytes).filterMap Component.ofSegment?

/-- What the beginning of a path stands for. -/
def lead (p : Path) : List Component :=
  if p.isAbsolute then [.root]
  else if (segments p.bytes).head? == some dot then [.current]
  else []

theorem components_eq (p : Path) : p.components = p.lead ++ named p.bytes := by
  unfold components lead
  split
  · rfl
  split <;> rfl

@[simp] theorem named_nil : named [] = [] := rfl

theorem named_slash (a b : Bytes) : named (a ++ slash :: b) = named a ++ named b := by
  simp only [named, segments_slash, List.filterMap_append]

theorem lead_slash {a : Bytes} (h : a ≠ []) (b : Bytes) : lead ⟨a ++ slash :: b⟩ = lead ⟨a⟩ := by
  obtain ⟨first, others, hsegments⟩ := exists_segments_cons a
  have habsolute : isAbsolute ⟨a ++ slash :: b⟩ = isAbsolute ⟨a⟩ := by
    obtain ⟨c, rest, rfl⟩ := List.exists_cons_of_ne_nil h
    rfl
  have hfirst : (segments (a ++ slash :: b)).head? = (segments a).head? := by
    rw [segments_slash, hsegments]
    rfl
  rw [lead, lead, habsolute, hfirst]

theorem lead_of_isAbsolute {p : Path} (h : p.isAbsolute = true) : p.lead = [.root] := if_pos h

theorem isAbsolute_of_lead {p : Path} (h : p.lead = []) : p.isAbsolute = false := by
  cases habsolute : p.isAbsolute with
  | false => rfl
  | true =>
    rw [lead_of_isAbsolute habsolute] at h
    cases h

theorem isAbsolute_slash (rest : Bytes) : isAbsolute ⟨slash :: rest⟩ = true := rfl

theorem components_slash (rest : Bytes) :
    components ⟨slash :: rest⟩ = .root :: named rest := by
  rw [components_eq, lead_of_isAbsolute (isAbsolute_slash rest)]
  exact congrArg (Component.root :: ·) (named_slash [] rest)

/-- Below a path that is not empty stands what its own components name, and then what the segments
of the other one name. A dot in front of the other one is none of these. -/
theorem components_join_relative {base rest : Path} (hbase : base.bytes ≠ [])
    (hrest : rest.isAbsolute = false) :
    (base.join rest).components = base.components ++ named rest.bytes := by
  obtain ⟨bytes⟩ := base
  rw [join, if_neg (by simp [hrest])]
  split
  case isTrue hslash =>
    have hlast : bytes.getLast? = some slash := hslash.resolve_left hbase
    obtain ⟨a, rfl⟩ := List.getLast?_eq_some_iff.1 hlast
    have hbytes : a ++ [slash] ++ rest.bytes = a ++ slash :: rest.bytes := by simp
    cases a with
    | nil =>
      simp only [List.nil_append, List.cons_append, components_slash, named_nil]
    | cons c a =>
      simp only [hbytes, components_eq, lead_slash (List.cons_ne_nil c a), named_slash, named_nil,
        List.append_nil, List.append_assoc]
  case isFalse =>
    simp only [components_eq, lead_slash hbase, named_slash, List.append_assoc]

theorem components_join {base rest : Path} (hbase : base.bytes ≠ []) (hrest : rest.lead = []) :
    (base.join rest).components = base.components ++ rest.components := by
  rw [components_join_relative hbase (isAbsolute_of_lead hrest), components_eq rest, hrest,
    List.nil_append]

/-- Only the empty path has no components. -/
theorem components_ne_nil {p : Path} (h : p.bytes ≠ []) : p.components ≠ [] := by
  obtain ⟨c, rest, hbytes⟩ := List.exists_cons_of_ne_nil h
  obtain ⟨first, others, hsegments⟩ := exists_segments_cons p.bytes
  have hfirst : p.isAbsolute = false → first ≠ [] := by
    rintro habsolute rfl
    rw [hbytes, segments] at hsegments
    split at hsegments
    case isTrue hc =>
      simp [isAbsolute, hbytes, hc] at habsolute
    case isFalse => split at hsegments <;> cases hsegments
  rw [components_eq, lead, named, hsegments]
  split
  · simp
  split
  case isTrue => simp
  case isFalse habsolute hdot =>
    have hne := hfirst (by simpa using habsolute)
    have hdot' : first ≠ dot := by simpa using hdot
    have hsome : ∃ c, Component.ofSegment? first = some c := by
      rw [Component.ofSegment?, if_neg (by simp [hne, hdot'])]
      split <;> exact ⟨_, rfl⟩
    obtain ⟨c, hc⟩ := hsome
    rw [List.filterMap_cons_some hc]
    simp

namespace Component

def isNormal : Component → Bool
  | normal _ => true
  | _ => false

end Component

theorem mem_named {bytes : Bytes} {c : Component} (h : c ∈ named bytes) :
    c = .parent ∨ c.isNormal = true := by
  obtain ⟨s, -, hs⟩ := List.mem_filterMap.1 h
  unfold Component.ofSegment? at hs
  split at hs
  · cases hs
  split at hs <;> cases hs
  · exact .inl rfl
  · exact .inr rfl

/-! ## Names -/

/-- A name that a slash on either side leaves as it is. -/
def IsName (name : Bytes) : Prop :=
  slash ∉ name ∧ Component.ofSegment? name = some (.normal name)

theorem IsName.ne_nil {name : Bytes} (h : IsName name) : name ≠ [] := by
  rintro rfl
  cases h.2

theorem ofSegment?_eq_normal {s name : Bytes} (h : Component.ofSegment? s = some (.normal name)) :
    s = name := by
  unfold Component.ofSegment? at h
  split at h
  · cases h
  split at h
  · cases h
  · cases h
    rfl

theorem isName_of_mem_named {bytes name : Bytes} (h : .normal name ∈ named bytes) :
    IsName name ∧ name ∈ segments bytes := by
  obtain ⟨s, hs, heq⟩ := List.mem_filterMap.1 h
  obtain rfl := ofSegment?_eq_normal heq
  exact ⟨⟨slash_notMem_of_mem_segments hs, heq⟩, hs⟩

theorem mem_named_of_mem_components {p : Path} {name : Bytes} (h : .normal name ∈ p.components) :
    .normal name ∈ named p.bytes := by
  rw [components_eq, List.mem_append, lead] at h
  refine h.resolve_left ?_
  split
  · simp
  split <;> simp

/-- The names of a text are read back from what is shown of them. -/
theorem map_names {cs : List Component} (h : ∀ name, .normal name ∈ cs → IsText name) :
    (names cs).map (fun s => Component.normal (Text.Utf8.encode s.toList)) =
      cs.filter Component.isNormal := by
  induction cs with
  | nil => rfl
  | cons c cs ih =>
    have hrest := ih fun name hname => h name (List.mem_cons_of_mem c hname)
    cases c with
    | normal name =>
      have hname := (h name (by simp)).encode_lossy
      rw [List.filter_cons_of_pos rfl, ← hrest]
      simp [names, hname]
    | _ => exact hrest

theorem segments_joined {ns : List Bytes} (hne : ns ≠ []) (h : ∀ n ∈ ns, IsName n) :
    segments ([slash].intercalate ns) = ns := by
  rw [segments_eq_splitOn]
  exact List.splitOn_intercalate slash (fun n hn => (h n hn).1) hne

theorem named_joined {ns : List Bytes} (h : ∀ n ∈ ns, IsName n) :
    named ([slash].intercalate ns) = ns.map .normal := by
  cases ns with
  | nil => rfl
  | cons n ns =>
    rw [named, segments_joined (List.cons_ne_nil n ns) h]
    generalize n :: ns = names at h
    induction names with
    | nil => rfl
    | cons n names ih =>
      obtain ⟨hn, hnames⟩ := List.forall_mem_cons.1 h
      rw [List.filterMap_cons_some hn.2, ih hnames, List.map_cons]

theorem lead_joined {ns : List Bytes} (h : ∀ n ∈ ns, IsName n) :
    lead ⟨[slash].intercalate ns⟩ = [] := by
  cases ns with
  | nil => rfl
  | cons n ns =>
    have hn := h n (by simp)
    have hsegments := segments_joined (List.cons_ne_nil n ns) h
    obtain ⟨c, rest, hc⟩ := List.exists_cons_of_ne_nil hn.ne_nil
    have hhead : ([slash].intercalate (n :: ns)).head? = some c := by
      cases ns <;> simp [List.intercalate_cons_cons, hc]
    have hslash : c ≠ slash := by
      rintro rfl
      exact hn.1 (by simp [hc])
    have hdot : n ≠ dot := by
      rintro rfl
      cases hn.2
    simp [lead, isAbsolute, hhead, hslash, hsegments, hdot]

theorem components_joined {ns : List Bytes} (h : ∀ n ∈ ns, IsName n) :
    components ⟨[slash].intercalate ns⟩ = ns.map .normal := by
  rw [components_eq, lead_joined h, named_joined h]
  rfl

/-! ## The home directory -/

theorem expandTilde_below (rest : List Char) (home : Path) :
    expandTilde (String.ofList ('~' :: '/' :: rest)) (some home) =
      home.join ⟨Text.Utf8.encode rest⟩ := by
  simp [expandTilde]

/-- A path from the root is meant as written. -/
theorem expandTilde_root (rest : List Char) (home : Option Path) :
    expandTilde (String.ofList ('/' :: rest)) home = ⟨slash :: Text.Utf8.encode rest⟩ := by
  have hencode : Text.Utf8.encode ('/' :: rest) = slash :: Text.Utf8.encode rest := rfl
  simp [expandTilde, ofString, hencode]

end Path
end ShellPrompt
