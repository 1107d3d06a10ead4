import ShellPrompt.Proofs.Json.Records

/-!
# ShellPrompt.Proofs.Json.Rewording

What a record does not depend on. A member under a key of no slot says nothing, nor does one that
gives a slot the value it has without it; both are `Idle`. Documents that differ in idle members, or
in items at the end of a list that do no more, hold the same record (`view_reworded`).

`view_erase` and `view_replace` say what becomes of a record when the member of a slot is taken away
or holds another value.
-/

namespace ShellPrompt
namespace Json

theorem given_insert_of_ne {key : String} {m : Member} (h : m.1 ≠ units key)
    (before after : List Member) :
    given key (before ++ m :: after) = given key (before ++ after) := by
  rw [given_append, given_of_ne h, given_append]

theorem given_insert_self (key : String) (d : Doc) (before after : List Member) :
    given key (before ++ (units key, d) :: after) = given key before ++ d :: given key after := by
  rw [given_append, given_self]

namespace Record

variable {α : Type} {r : Record α}

theorem keyed_insert {key : String} {d : Doc} {before after : List Member} :
    Keyed (before ++ (units key, d) :: after) ↔ Keyed (before ++ after) := by
  simp

/-- A slot that is settled by members has just one. -/
theorem settle_insert {β : Type} {unset b : β} {xs ys : List (Option β)} {x : Option β}
    (h : settle false unset (xs ++ x :: ys) = some b) : xs ++ ys = [] ∧ x = some b := by
  cases xs with
  | nil =>
    cases ys with
    | nil => exact ⟨rfl, h⟩
    | cons y ys => simp [settle] at h
  | cons z xs => cases xs <;> simp [settle] at h

/-! ## Members and items that say nothing new -/

inductive Idle (r : Record α) (depth : Nat) (others : List Member) : Member → Prop where
  | unknown {key : String} (d : Doc) : (∀ s ∈ r.slots, s.name ≠ key) →
      Idle r depth others (units key, d)
  | initial {s : Slot α} {d : Doc} : s ∈ r.slots → given s.name others = [] →
      s.codec.view depth d = some (s.get r.initial) → Idle r depth others (units s.name, d)

inductive Reworded (r : Record α) (depth : Nat) : Doc → Doc → Prop where
  | member {m : Member} (before after : List Member) : r.Idle depth (before ++ after) m →
      Reworded r depth (.object (before ++ after)) (.object (before ++ m :: after))
  | item {s : Slot α} {d : Doc} (items : List Doc) : r.slots[items.length]? = some s →
      s.codec.view depth d = some (s.get r.initial) →
      Reworded r depth (.array items) (.array (items ++ [d]))

theorem view_insert_unknown {key : String} (h : ∀ s ∈ r.slots, s.name ≠ key) (depth : Nat) (d : Doc)
    (before after : List Member) :
    r.view (depth + 1) (.object (before ++ (units key, d) :: after)) =
      r.view (depth + 1) (.object (before ++ after)) := by
  apply Option.ext
  intro a
  rw [view_object_eq_some_iff, view_object_eq_some_iff, keyed_insert]
  refine and_congr_right fun _ => forall₂_congr fun s hs => ?_
  have hne : units key ≠ units s.name := fun heq => h s hs (units_inj.1 heq).symm
  rw [given_insert_of_ne hne]

theorem view_insert_initial {s : Slot α} (hs : s ∈ r.slots) {depth : Nat} {d : Doc}
    (hview : s.codec.view depth d = some (s.get r.initial)) {before after : List Member}
    (hgiven : given s.name (before ++ after) = []) :
    r.view (depth + 1) (.object (before ++ (units s.name, d) :: after)) =
      r.view (depth + 1) (.object (before ++ after)) := by
  apply Option.ext
  intro a
  rw [view_object_eq_some_iff, view_object_eq_some_iff, keyed_insert]
  refine and_congr_right fun _ => forall₂_congr fun s' hs' => ?_
  by_cases hname : s'.name = s.name
  · obtain rfl := slot_eq hs' hs hname
    have hparts := hgiven
    rw [given_append, List.append_eq_nil_iff] at hparts
    rw [given_insert_self, hparts.1, hparts.2, hgiven]
    simp [settle, hview]
  · rw [given_insert_of_ne fun heq => hname (units_inj.1 heq).symm]

/-- A slot with a member has what is found there, and no other member. -/
theorem view_member {s : Slot α} (hs : s ∈ r.slots) {depth : Nat} {d : Doc}
    {before after : List Member} {a : α}
    (h : r.view (depth + 1) (.object (before ++ (units s.name, d) :: after)) = some a) :
    given s.name (before ++ after) = [] ∧ s.codec.view depth d = some (s.get a) := by
  have hself := (view_object_eq_some_iff.1 h).2 s hs
  rw [given_insert_self, List.map_append, List.map_cons] at hself
  obtain ⟨hnone, hview⟩ := settle_insert hself
  rw [← List.map_append, ← given_append, List.map_eq_nil_iff] at hnone
  exact ⟨hnone, hview⟩

/-- The value of a slot is set by its member alone. -/
theorem view_set {s : Slot α} (hs : s ∈ r.slots) {depth : Nat} {d : Doc}
    {before after : List Member} {a : α}
    (h : r.view (depth + 1) (.object (before ++ (units s.name, d) :: after)) = some a)
    {ms : List Member} (hkeyed : Keyed ms)
    (hothers : ∀ key, key ≠ s.name → given key ms = given key (before ++ after)) {b : s.β}
    (hself : settle false (s.get r.initial) ((given s.name ms).map (s.codec.view depth)) = some b) :
    r.view (depth + 1) (.object ms) = some (s.set a b) := by
  refine view_object_eq_some_iff.2 ⟨hkeyed, fun s' hs' => ?_⟩
  by_cases hname : s'.name = s.name
  · obtain rfl := slot_eq hs' hs hname
    rw [hself, r.get_set s' hs]
  · have hother := (view_object_eq_some_iff.1 h).2 s' hs'
    rw [given_insert_of_ne fun heq => hname (units_inj.1 heq).symm] at hother
    rw [hothers _ hname, hother, r.get_set_of_ne s hs s' hs' hname]

/-- Without its member a slot has its initial value, and the others are what they were. -/
theorem view_erase {s : Slot α} (hs : s ∈ r.slots) {depth : Nat} {d : Doc}
    {before after : List Member} {a : α}
    (h : r.view (depth + 1) (.object (before ++ (units s.name, d) :: after)) = some a) :
    r.view (depth + 1) (.object (before ++ after)) = some (s.set a (s.get r.initial)) := by
  have hkeyed := keyed_insert.1 (view_object_eq_some_iff.1 h).1
  refine view_set hs h hkeyed (fun _ _ => rfl) ?_
  rw [(view_member hs h).1]
  rfl

/-- With another value in its member a slot has that, and the others are what they were. -/
theorem view_replace {s : Slot α} (hs : s ∈ r.slots) {depth : Nat} {d d' : Doc}
    {before after : List Member} {a : α}
    (h : r.view (depth + 1) (.object (before ++ (units s.name, d) :: after)) = some a) {b : s.β}
    (hview : s.codec.view depth d' = some b) :
    r.view (depth + 1) (.object (before ++ (units s.name, d') :: after)) = some (s.set a b) := by
  have hkeyed := keyed_insert.1 (view_object_eq_some_iff.1 h).1
  refine view_set hs h (keyed_insert.2 hkeyed) (fun key hkey => ?_) ?_
  · exact given_insert_of_ne (fun heq => hkey (units_inj.1 heq).symm) before after
  · have hnone := (view_member hs h).1
    rw [given_append, List.append_eq_nil_iff] at hnone
    rw [given_insert_self, hnone.1, hnone.2]
    exact hview

/-- A member under the key of no field is passed over if the key is a text, and spoils the record
if it is not. -/
theorem view_insert_iff {key : Units} (h : ∀ f ∈ r.fields, key ≠ units f.name) {depth : Nat}
    {d : Doc} {before after : List Member} {a : α} :
    r.view (depth + 1) (.object (before ++ (key, d) :: after)) = some a ↔
      r.view (depth + 1) (.object (before ++ after)) = some a ∧ ∃ text, key = units text := by
  have hunknown : ∀ text, key = units text → ∀ s ∈ r.slots, s.name ≠ text := by
    rintro text rfl s hs rfl
    exact h s.field (List.mem_map_of_mem hs) rfl
  constructor
  · intro hview
    have hkeyed := (view_object_eq_some_iff.1 hview).1 (key, d) (by simp)
    obtain ⟨text, rfl⟩ := hkeyed
    rw [view_insert_unknown (hunknown text rfl)] at hview
    exact ⟨hview, text, rfl⟩
  · rintro ⟨hview, text, rfl⟩
    rwa [view_insert_unknown (hunknown text rfl)]

/-! ## Items at the end -/

theorem onto_trailing {depth : Nat} {d : Doc} {s : Slot α} {slots : List (Slot α)}
    (hslots : ∀ s ∈ slots, s ∈ r.slots) (hdistinct : (slots.map Slot.name).Nodup) {items : List Doc}
    (hs : slots[items.length]? = some s) {acc : α}
    (hview : s.codec.view depth d = some (s.get acc)) :
    onto depth slots acc (items ++ [d]) = onto depth slots acc items := by
  induction slots generalizing acc items with
  | nil => simp at hs
  | cons s' slots ih =>
    obtain ⟨hs', hrest⟩ := List.forall_mem_cons.1 hslots
    rw [List.map_cons, List.nodup_cons] at hdistinct
    obtain ⟨hnew, hdistinct⟩ := hdistinct
    cases items with
    | nil =>
      obtain rfl : s' = s := by simpa using hs
      have hset : s'.set acc (s'.get acc) = acc := by
        refine r.ext _ _ fun s'' hs'' => ?_
        by_cases hname : s''.name = s'.name
        · obtain rfl := slot_eq hs'' hs' hname
          exact r.get_set s'' hs'' acc _
        · exact r.get_set_of_ne s' hs' s'' hs'' hname acc _
      simp [onto, hview, hset]
    | cons d' items =>
      have hs : slots[items.length]? = some s := by simpa using hs
      have hmem : s ∈ slots := List.mem_of_getElem? hs
      have hne : s.name ≠ s'.name := fun heq => hnew (heq ▸ List.mem_map_of_mem hmem)
      rw [List.cons_append, onto, onto]
      congr 1
      funext b
      refine ih hrest hdistinct hs ?_
      rw [r.get_set_of_ne s' hs' s (hrest s hmem) hne, hview]

theorem view_reworded {depth : Nat} {d d' : Doc} (h : r.Reworded depth d d') :
    r.view (depth + 1) d = r.view (depth + 1) d' := by
  cases h with
  | member before after hidle =>
    cases hidle with
    | unknown d hkey => exact (view_insert_unknown hkey depth d before after).symm
    | initial hs hgiven hview => exact (view_insert_initial hs hview hgiven).symm
  | item items hs hview => exact (onto_trailing (fun _ h => h) r.distinct hs hview).symm

end Record
end Json
end ShellPrompt
