import Mathlib.Data.List.Nodup
import ShellPrompt.Proofs.Json.Codec
import ShellPrompt.Proofs.Json.Skipping

/-!
# ShellPrompt.Proofs.Json.Records

Records as JSON objects, each field under its name.

A `Record` is a type made of slots that can be read and set one by one. What a document says about
a record comes down to what it says about each slot (`view_object_eq_some_iff`): a slot without a
member has its initial value, a slot with one member has the value found there, and nothing else
counts. `Record.codec` is the record's codec, made from those of its slots.
-/

namespace ShellPrompt
namespace Json

/-- A part of a record. -/
structure Slot (α : Type) where
  name : String
  {β : Type}
  codec : Codec β
  get : α → β
  set : α → β → α

namespace Slot

variable {α : Type}

def field (s : Slot α) : RecordField α where
  name := s.name
  read := fun depth a text => (s.codec.read depth text).map fun p => (s.set a p.1, p.2)

/-- The slot's value is found in its own document. -/
def Returns (s : Slot α) (depth : Nat) (a : α) : Prop :=
  s.codec.Exact (s.get a) → s.codec.view depth (s.codec.write (s.get a)) = some (s.get a)

end Slot

structure Record (α : Type) where
  /-- What a reader calls the record in its errors. -/
  title : String
  slots : List (Slot α)
  /-- What a record is before any of its slots is set. -/
  initial : α
  distinct : (slots.map Slot.name).Nodup
  get_set : ∀ s ∈ slots, ∀ a b, s.get (s.set a b) = b
  get_set_of_ne : ∀ s ∈ slots, ∀ s' ∈ slots, s'.name ≠ s.name → ∀ a b, s'.get (s.set a b) = s'.get a
  ext : ∀ a a', (∀ s ∈ slots, s.get a = s.get a') → a = a'
  /-- A nesting that suffices for every slot. -/
  depth : Nat
  depth_le : ∀ s ∈ slots, s.codec.depth ≤ depth
  initial_returns : ∀ n, depth ≤ n → ∀ s ∈ slots, s.Returns n initial

namespace Record

variable {α : Type} (r : Record α)

def fields : List (RecordField α) := r.slots.map Slot.field

/-! ## What a document says about a record -/

/-- Takes a member on; the keys of slots that were set are remembered. -/
def step (depth : Nat) (key : String) (acc : α × List String) (d : Doc) :
    Option (α × List String) :=
  match r.slots.find? (fun s => s.name == key) with
  | none => some acc
  | some s =>
    if acc.2.contains key then none
    else (s.codec.view depth d).map fun b => (s.set acc.1 b, key :: acc.2)

/-- The items of a list belong to the slots in order. -/
def onto (depth : Nat) : List (Slot α) → α → List Doc → Option α
  | _, acc, [] => some acc
  | [], _, _ :: _ => none
  | s :: slots, acc, d :: rest =>
    (s.codec.view depth d).bind fun b => onto depth slots (s.set acc b) rest

def view : Nat → Doc → Option α
  | depth + 1, .object members =>
    (viewMembers (r.step depth) (r.initial, []) members).map Prod.fst
  | depth + 1, .array items => onto depth r.slots r.initial items
  | _, _ => none

/-- The value of a slot, from what its members hold. A slot that is closed takes no more. -/
def settle {β : Type} (closed : Bool) (unset : β) : List (Option β) → Option β
  | [] => some unset
  | [found] => if closed then none else found
  | _ => none

theorem find?_slot {key : String} {s : Slot α}
    (h : r.slots.find? (fun s => s.name == key) = some s) : s ∈ r.slots ∧ s.name = key := by
  have hmem := List.mem_of_find?_eq_some h
  have hname := List.find?_some h
  exact ⟨hmem, by simpa using hname⟩

variable {r}

theorem slot_eq {s s' : Slot α} (hs : s ∈ r.slots) (hs' : s' ∈ r.slots) (h : s.name = s'.name) :
    s = s' := List.inj_on_of_nodup_map r.distinct hs hs' h

theorem step_unknown {key : String} (h : ∀ s ∈ r.slots, s.name ≠ key) (depth : Nat)
    (acc : α × List String) (d : Doc) : r.step depth key acc d = some acc := by
  have hfind : r.slots.find? (fun s => s.name == key) = none := by
    rw [List.find?_eq_none]
    intro s hs
    simpa using h s hs
  rw [step, hfind]

theorem step_slot {s : Slot α} (h : s ∈ r.slots) (depth : Nat) (acc : α × List String) (d : Doc) :
    r.step depth s.name acc d =
      if acc.2.contains s.name then none
      else (s.codec.view depth d).map fun b => (s.set acc.1 b, s.name :: acc.2) := by
  have hfind : r.slots.find? (fun s' => s'.name == s.name) = some s := by
    cases hfound : r.slots.find? (fun s' => s'.name == s.name) with
    | none =>
      have := List.find?_eq_none.1 hfound s h
      simp at this
    | some s' =>
      obtain ⟨hs', hname⟩ := r.find?_slot hfound
      rw [slot_eq hs' h hname]
  rw [step, hfind]

theorem settle_cons {β : Type} (closed : Bool) (unset : β) (x : Option β)
    (more : List (Option β)) :
    settle closed unset (x :: more) = if closed then none else x.bind (settle true · more) := by
  cases more with
  | nil => cases x <;> simp [settle]
  | cons y more =>
    cases more with
    | nil => cases x <;> simp [settle]
    | cons z more => cases x <;> simp [settle]

/-- What members say about a slot, after those that were taken on already. -/
def said (depth : Nat) (s : Slot α) (acc : α × List String) (ms : List Member) : Option s.β :=
  settle (acc.2.contains s.name) (s.get acc.1) ((given s.name ms).map (s.codec.view depth))

theorem said_self {s : Slot α} (hs : s ∈ r.slots) (depth : Nat) (acc : α) (taken : List String)
    (d : Doc) (ms : List Member) :
    said depth s (acc, taken) ((units s.name, d) :: ms) =
      if taken.contains s.name then none
      else (s.codec.view depth d).bind fun b =>
        said depth s (s.set acc b, s.name :: taken) ms := by
  rw [said, given_self, List.map_cons, settle_cons]
  cases s.codec.view depth d with
  | none => rfl
  | some b => simp [said, r.get_set s hs]

theorem said_other {s s' : Slot α} (hs : s ∈ r.slots) (hs' : s' ∈ r.slots)
    (hne : s'.name ≠ s.name) (depth : Nat) (acc : α) (taken : List String) (b : s.β) (d : Doc)
    (ms : List Member) :
    said depth s' (s.set acc b, s.name :: taken) ms =
      said depth s' (acc, taken) ((units s.name, d) :: ms) := by
  have hgiven : given s'.name ((units s.name, d) :: ms) = given s'.name ms :=
    given_of_ne (fun heq => hne (units_inj.1 heq).symm) ms
  simp [said, hgiven, r.get_set_of_ne s hs s' hs' hne, hne]

/-- Members make a record exactly if they say of each slot what it holds. -/
theorem viewMembers_eq_some_iff {depth : Nat} {ms : List Member} {acc : α} {taken : List String}
    {a : α} :
    (viewMembers (r.step depth) (acc, taken) ms).map Prod.fst = some a ↔
      Keyed ms ∧ ∀ s ∈ r.slots, said depth s (acc, taken) ms = some (s.get a) := by
  induction ms generalizing acc taken with
  | nil =>
    simp only [viewMembers, Option.map_some, Option.some.injEq, keyed_nil, said, given_nil,
      List.map_nil, settle, true_and]
    constructor
    · rintro rfl s _
      rfl
    · exact r.ext acc a
  | cons m ms ih =>
    obtain ⟨key, d⟩ := m
    cases htext : text? key with
    | none =>
      have hkey : ¬ ∃ text, key = units text := by
        rintro ⟨text, rfl⟩
        simp at htext
      simp [viewMembers, htext, hkey]
    | some text =>
      obtain rfl := text?_eq_some_iff.1 htext
      have hkeyed : Keyed ((units text, d) :: ms) ↔ Keyed ms := by simp
      rw [viewMembers_text, hkeyed]
      by_cases hslot : ∃ s ∈ r.slots, s.name = text
      · obtain ⟨s, hs, rfl⟩ := hslot
        have hself := said_self hs depth acc taken d ms
        rw [step_slot hs]
        cases htaken : taken.contains s.name with
        | true =>
          rw [htaken, if_pos rfl] at hself
          simp only [if_true, Option.bind_none, Option.map_none]
          refine iff_of_false (by simp) fun h => ?_
          have := h.2 s hs
          simp [hself] at this
        | false =>
          cases hview : s.codec.view depth d with
          | none =>
            rw [hview] at hself
            refine iff_of_false (by simp) fun h => ?_
            have := h.2 s hs
            simp [hself] at this
          | some b =>
            rw [htaken, hview] at hself
            simp only [Bool.false_eq_true, if_false, Option.map_some, Option.bind_some] at hself ⊢
            rw [ih]
            refine and_congr_right fun _ => forall₂_congr fun s' hs' => ?_
            by_cases hname : s'.name = s.name
            · obtain rfl := slot_eq hs' hs hname
              rw [hself]
            · rw [said_other hs hs' hname depth acc taken b d ms]
      · have hnone : ∀ s ∈ r.slots, s.name ≠ text := fun s hs heq => hslot ⟨s, hs, heq⟩
        rw [step_unknown hnone, Option.bind_some, ih]
        refine and_congr_right fun _ => forall₂_congr fun s hs => ?_
        have hne : units text ≠ units s.name := fun heq => hnone s hs (units_inj.1 heq).symm
        rw [said, said, given_of_ne hne]

theorem view_object_eq_some_iff {depth : Nat} {ms : List Member} {a : α} :
    r.view (depth + 1) (.object ms) = some a ↔
      Keyed ms ∧ ∀ s ∈ r.slots,
        settle false (s.get r.initial) ((given s.name ms).map (s.codec.view depth)) =
          some (s.get a) :=
  viewMembers_eq_some_iff

/-- A member alone sets the slot it names. -/
theorem view_field {s : Slot α} (h : s ∈ r.slots) {depth : Nat} {d : Doc} {b : s.β}
    (hview : s.codec.view depth d = some b) :
    r.view (depth + 1) (.object [(units s.name, d)]) = some (s.set r.initial b) := by
  rw [view, viewMembers_text, step_slot h, hview]
  rfl

/-! ## Reading -/

theorem toOption_refuseAgain {β : Type} (key : String) (text : List Char) :
    (refuseAgain key text : Except ReadError β).toOption = none := by
  unfold refuseAgain
  split
  · rfl
  split <;> rfl

theorem find?_fields (key : String) :
    r.fields.find? (fun f => f.name == key) =
      (r.slots.find? (fun s => s.name == key)).map Slot.field := by
  rw [fields, List.find?_map]
  rfl

theorem readsMember_record (depth : Nat) :
    ReadsMember (recordMember r.fields depth) (r.step depth) := by
  intro key acc d t hd w w' rest hw hw' hrest
  rw [recordMember, find?_fields, step]
  cases hfind : r.slots.find? (fun s => s.name == key) with
  | none =>
    simp [colon_append hw, skipValue_spells hd hw' hrest]
  | some s =>
    simp only [Option.map_some]
    split
    case isTrue => exact toOption_refuseAgain _ _
    case isFalse =>
      simp only [Slot.field, toOption_bind, colon_append hw, toOption_ok, Option.bind_some,
        toOption_map, s.codec.reads depth d t hd w' rest hw' hrest]
      cases s.codec.view depth d <;> rfl

/-- Behind the last slot the list has to end. -/
theorem toOption_endList_more {ds : List Doc} {u : List Char} (h : SpellsMoreItems ds u)
    (acc : α) (rest : List Char) :
    ((endList (u ++ ']' :: rest)).map fun text => (acc, text)).toOption =
      if ds = [] then some (acc, rest) else none := by
  cases h with
  | nil hw =>
    rw [endList, skipBlank_append hw, skipBlank_cons (by decide)]
    rfl
  | cons hw hw' hs =>
    rw [endList, List.append_assoc, skipBlank_append hw, List.cons_append,
      skipBlank_cons (by decide)]
    simp only [reduceCtorEq, if_false, toOption_map]
    split <;> rfl

theorem toOption_moreSlots {depth : Nat} {slots : List (Slot α)} {ds : List Doc} {u : List Char}
    (h : SpellsMoreItems ds u) (acc : α) (rest : List Char) :
    (recordItems depth (slots.map Slot.field) false acc (u ++ ']' :: rest) >>= fun p =>
        (endList p.2).map fun text => (p.1, text)).toOption =
      (onto depth slots acc ds).map (·, rest) := by
  induction slots generalizing ds u acc with
  | nil =>
    have hend := toOption_endList_more h acc rest
    cases ds with
    | nil => simpa [recordItems, onto] using hend
    | cons d ds => simpa [recordItems, onto] using hend
  | cons s slots ih =>
    cases h with
    | nil hw =>
      rw [List.map_cons, recordItems, nextItem_end hw]
      simp [onto, endList_close]
    | @cons d ds w w' t u hw hw' hd hu =>
      have htext : w ++ ',' :: (w' ++ (t ++ u)) ++ ']' :: rest =
          w ++ ',' :: (w' ++ (t ++ (u ++ ']' :: rest))) := by simp
      have hread := s.codec.reads depth d t hd [] (u ++ ']' :: rest) blanks_nil (hu.fenced rest)
      rw [List.nil_append] at hread
      rw [htext, List.map_cons, recordItems, nextItem_more hd hw hw', onto]
      simp only [toOption_bind, toOption_ok, Option.bind_some, if_true, Slot.field, toOption_map,
        hread]
      cases s.codec.view depth d with
      | none => rfl
      | some b => simpa [Slot.field] using ih hu (s.set acc b)

theorem toOption_endList_opens {d : Doc} {t w : List Char} (hd : Spells d t) (hw : Blanks w)
    (rest : List Char) : (endList (w ++ (t ++ rest))).toOption = none := by
  rw [endList, hd.skipBlank hw]
  obtain ⟨c, tail, rfl, hc⟩ := hd.exists_cons
  obtain ⟨-, hclose, -, hcomma, -⟩ := hc.plain
  split <;> simp_all

theorem toOption_slots {depth : Nat} {slots : List (Slot α)} {ds : List Doc} {t : List Char}
    (h : SpellsItems ds t) (acc : α) (rest : List Char) :
    (recordItems depth (slots.map Slot.field) true acc (t ++ ']' :: rest) >>= fun p =>
        (endList p.2).map fun text => (p.1, text)).toOption =
      (onto depth slots acc ds).map (·, rest) := by
  cases h with
  | nil hw =>
    cases slots with
    | nil => simpa [recordItems, onto] using toOption_endList_more (.nil hw) acc rest
    | cons s slots =>
      rw [List.map_cons, recordItems, nextItem_end hw]
      simp [onto, endList_close]
  | @cons d ds w t u hw hd hu =>
    cases slots with
    | nil =>
      have htext : w ++ (t ++ u) ++ ']' :: rest = w ++ (t ++ (u ++ ']' :: rest)) := by simp
      rw [htext]
      simp [recordItems, onto, toOption_endList_opens hd hw]
    | cons s slots =>
      have htext : w ++ (t ++ u) ++ ']' :: rest = w ++ (t ++ (u ++ ']' :: rest)) := by simp
      have hread := s.codec.reads depth d t hd [] (u ++ ']' :: rest) blanks_nil (hu.fenced rest)
      rw [List.nil_append] at hread
      rw [htext, List.map_cons, recordItems, nextItem_first hd hw, onto]
      simp only [toOption_bind, toOption_ok, Option.bind_some, if_true, Slot.field, toOption_map,
        hread]
      cases s.codec.view depth d with
      | none => rfl
      | some b => simpa [Slot.field] using toOption_moreSlots hu (s.set acc b) rest

def read (r : Record α) : Nat → Reader α := expectRecord r.title r.fields r.initial

theorem read_list (depth : Nat) (text : List Char) :
    r.read (depth + 1) ('[' :: text) =
      (recordItems depth r.fields true r.initial text >>= fun p =>
        (endList p.2).map fun text => (p.1, text)) := by
  rw [read, expectRecord, skipBlank_cons (by decide)]
  simp only [bind, Except.bind]
  cases recordItems depth r.fields true r.initial text with
  | error e => rfl
  | ok p => cases endList p.2 <;> rfl

theorem read_object (depth : Nat) (text : List Char) :
    r.read (depth + 1) ('\x7b' :: text) =
      (objectBody (recordMember r.fields depth) (r.initial, []) text).map
        fun p => (p.1.1, p.2) := by
  rw [read, expectRecord, skipBlank_cons (by decide)]
  rfl

theorem read_blanks {w : List Char} (hw : Blanks w) (depth : Nat) (text : List Char) :
    r.read depth (w ++ text) = r.read depth text := by
  rw [read, expectRecord, expectRecord, skipBlank_append hw]

theorem reads_record (depth : Nat) : Reads (r.read depth) (r.view depth) := by
  intro d t hd w rest hw _
  rw [read_blanks hw]
  have hskip := hd.skipBlank_self rest
  cases hd with
  | array h =>
    rw [List.cons_append, List.append_assoc, List.singleton_append]
    cases depth with
    | zero => rfl
    | succ depth =>
      rw [read_list, view]
      exact toOption_slots h r.initial rest
  | object h =>
    rw [List.cons_append, List.append_assoc, List.singleton_append]
    cases depth with
    | zero => rfl
    | succ depth =>
      rw [read_object, view, toOption_map, toOption_objectBody (readsMember_record depth) h]
      simp [Function.comp_def]
  | positive h =>
    obtain ⟨c, tail, rfl, hc⟩ := h.exists_cons
    have hbrace : c ≠ '\x7b' := by
      rintro rfl
      cases hc
    rw [read, expectRecord, hskip]
    split
    case h_1 => cases depth <;> rfl
    case h_2 heq =>
      obtain ⟨rfl, -⟩ := List.cons.inj heq
      cases hc
    case h_3 heq =>
      obtain ⟨rfl, -⟩ := List.cons.inj heq
      rw [if_neg hbrace, toOption_refuse]
      cases depth <;> rfl
  | null | true | false | string | negative =>
    rw [read, expectRecord, hskip]
    cases depth <;> simp [view]

/-! ## The order of members -/

/-- An item may be replaced by one that the slot in its place views alike. -/
theorem onto_congr {slots : List (Slot α)} {depth : Nat} {d d' : Doc} (before : List Doc)
    (h : ∀ s, slots[before.length]? = some s → s.codec.view depth d = s.codec.view depth d')
    (acc : α) (after : List Doc) :
    onto depth slots acc (before ++ d :: after) = onto depth slots acc (before ++ d' :: after) := by
  induction slots generalizing acc before with
  | nil => cases before <;> rfl
  | cons s slots ih =>
    cases before with
    | nil => simp only [List.nil_append, onto, h s rfl]
    | cons first before =>
      have hrest : ∀ s, slots[before.length]? = some s →
          s.codec.view depth d = s.codec.view depth d' := by
        intro s hs
        exact h s (by simpa using hs)
      simp only [List.cons_append, onto, ih before hrest]

/-- The value of a member may be replaced by one that its slot, if it has one, views alike. -/
theorem view_member_congr {depth : Nat} {key : Units} {d d' : Doc}
    (h : ∀ s ∈ r.slots, key = units s.name → s.codec.view depth d = s.codec.view depth d')
    (before after : List Member) :
    r.view (depth + 1) (.object (before ++ (key, d) :: after)) =
      r.view (depth + 1) (.object (before ++ (key, d') :: after)) := by
  refine congrArg (Option.map Prod.fst) (viewMembers_congr (fun text acc htext => ?_) _ _ _)
  by_cases hslot : ∃ s ∈ r.slots, s.name = text
  · obtain ⟨s, hs, rfl⟩ := hslot
    rw [step_slot hs, step_slot hs, h s hs htext]
  · have hnone : ∀ s ∈ r.slots, s.name ≠ text := fun s hs heq => hslot ⟨s, hs, heq⟩
    rw [step_unknown hnone, step_unknown hnone]

theorem steady_record (depth : Nat) : Steady (r.view depth) := by
  intro d d' h
  cases depth with
  | zero => cases h <;> rfl
  | succ depth =>
    cases h with
    | swap before after different =>
      apply Option.ext
      intro a
      simp only [view_object_eq_some_iff, given_swap different]
      simp [and_comm, and_left_comm, and_assoc]
    | item before after h => exact onto_congr before (fun s _ => s.codec.steady depth _ _ h) _ after
    | member key before after h =>
      exact view_member_congr (fun s _ _ => s.codec.steady depth _ _ h) before after

/-! ## Reading a printed record -/

def print (r : Record α) (a : α) : List Char :=
  printObject (r.slots.map fun s => (s.name, s.codec.print (s.get a)))

def write (r : Record α) (a : α) : Doc :=
  .object (r.slots.map fun s => (units s.name, s.codec.write (s.get a)))

/-- The value of every slot is found in its own document. -/
def Returns (r : Record α) (depth : Nat) (a : α) : Prop := ∀ s ∈ r.slots, s.Returns depth a

theorem Returns.set {depth : Nat} {a : α} (h : r.Returns depth a) {s : Slot α} (hs : s ∈ r.slots)
    {b : s.β} (hb : s.codec.Exact b → s.codec.view depth (s.codec.write b) = some b) :
    r.Returns depth (s.set a b) := by
  intro s' hs'
  by_cases hname : s'.name = s.name
  · obtain rfl := slot_eq hs' hs hname
    rw [Slot.Returns, r.get_set s' hs']
    exact hb
  · rw [Slot.Returns, r.get_set_of_ne s hs s' hs' hname]
    exact h s' hs'

theorem yields_recordMember {depth : Nat} (hdepth : r.depth ≤ depth) (key : String)
    (acc : α × List String) (h : r.Returns depth acc.1) :
    Yields (recordMember r.fields depth key acc) fun acc => r.Returns depth acc.1 := by
  intro text acc' rest hread
  rw [recordMember, find?_fields] at hread
  cases hfind : r.slots.find? (fun s => s.name == key) with
  | none =>
    simp only [hfind, Option.map_none, bind_eq_ok_iff] at hread
    obtain ⟨text', -, text'', -, hread⟩ := hread
    cases hread
    exact h
  | some s =>
    have hs := (r.find?_slot hfind).1
    simp only [hfind, Option.map_some] at hread
    split at hread
    · exact absurd (toOption_eq_some_iff.2 hread) (by simp [toOption_refuseAgain])
    · obtain ⟨text', -, hread⟩ := bind_eq_ok_iff.1 hread
      obtain ⟨⟨a, text''⟩, hset, hread⟩ := bind_eq_ok_iff.1 hread
      obtain ⟨⟨b, text₃⟩, hb, heq⟩ := map_eq_ok_iff.1 hset
      cases heq
      cases hread
      exact h.set hs (s.codec.returns depth (Nat.le_trans (r.depth_le s hs) hdepth) _ _ _ hb)

theorem yields_recordItems {depth : Nat} (hdepth : r.depth ≤ depth) {slots : List (Slot α)}
    (hslots : ∀ s ∈ slots, s ∈ r.slots) (isFirst : Bool) {acc : α} (h : r.Returns depth acc) :
    Yields (recordItems depth (slots.map Slot.field) isFirst acc) (r.Returns depth) := by
  induction slots generalizing isFirst acc with
  | nil =>
    intro text a rest hread
    cases hread
    exact h
  | cons s slots ih =>
    obtain ⟨hs, hrest⟩ := List.forall_mem_cons.1 hslots
    intro text a rest hread
    rw [List.map_cons, recordItems, bind_eq_ok_iff] at hread
    obtain ⟨⟨more, text'⟩, -, hread⟩ := hread
    cases more with
    | false =>
      cases hread
      exact h
    | true =>
      simp only [if_true] at hread
      obtain ⟨⟨acc', text''⟩, hset, hread⟩ := bind_eq_ok_iff.1 hread
      obtain ⟨⟨b, text₃⟩, hb, heq⟩ := map_eq_ok_iff.1 hset
      cases heq
      have hle := Nat.le_trans (r.depth_le s hs) hdepth
      have hstep := h.set hs (s.codec.returns depth hle _ _ _ hb)
      exact ih hrest false hstep _ _ _ hread

theorem yields_record {depth : Nat} (hdepth : r.depth ≤ depth) :
    Yields (r.read (depth + 1)) (r.Returns depth) := by
  have hinitial : r.Returns depth r.initial := r.initial_returns depth hdepth
  intro text a rest hread
  rw [read, expectRecord] at hread
  split at hread
  · cases hread
  · obtain ⟨⟨a', text'⟩, hitems, hread⟩ := bind_eq_ok_iff.1 hread
    obtain ⟨text'', -, hread⟩ := bind_eq_ok_iff.1 hread
    cases hread
    exact yields_recordItems hdepth (fun _ h => h) true hinitial _ _ _ hitems
  · split at hread
    · obtain ⟨⟨⟨a', taken⟩, text'⟩, hmembers, heq⟩ := map_eq_ok_iff.1 hread
      cases heq
      exact yields_objectBody (yields_recordMember hdepth) hinitial _ _ _ hmembers
    · exact absurd (toOption_eq_some_iff.2 hread) (by simp)

theorem view_write {depth : Nat} {a : α} (hreturns : r.Returns depth a)
    (hexact : ∀ s ∈ r.slots, s.codec.Exact (s.get a)) :
    r.view (depth + 1) (r.write a) = some a := by
  refine view_object_eq_some_iff.2 ⟨?_, ?_⟩
  · intro m hm
    obtain ⟨s, -, rfl⟩ := List.mem_map.1 hm
    exact ⟨s.name, rfl⟩
  · intro s hs
    have hgiven := given_map (fun s => s.codec.write (s.get a)) r.distinct hs
    rw [hgiven, List.map_singleton, hreturns s hs (hexact s hs)]
    rfl

def codec (r : Record α) : Codec α where
  read := r.read
  view := r.view
  print := r.print
  write := r.write
  Exact a := ∀ s ∈ r.slots, s.codec.Exact (s.get a)
  depth := r.depth + 1
  reads := reads_record
  steady := steady_record
  spells a h := spells_printObject Slot.name fun s hs => s.codec.spells (s.get a) (h s hs)
  returns n hn := by
    cases n with
    | zero => cases hn
    | succ n =>
      intro text a rest hread hexact
      exact view_write (yields_record (Nat.le_of_succ_le_succ hn) _ _ _ hread) hexact

end Record
end Json
end ShellPrompt
