import ShellPrompt.Proofs.Json.Containers
import ShellPrompt.Proofs.Table

/-!
# ShellPrompt.Proofs.Json.Members

The members of a document's objects, apart from the order in which they stand.

* `given key ms`: the values that members give to a key.
* `Reordered`: documents that differ in the order of members with different keys.
* `Steady`: a view that finds the same in such documents.

A table is its entries, inserted in turn (`table?_eq`), and the last of equal keys counts. So the
views that build tables are steady, and with them values of any kind (`steady_value`).
-/

namespace ShellPrompt
namespace Json

universe u

variable {α β : Type}

theorem units_inj {s s' : String} : units s = units s' ↔ s = s' := by
  constructor
  · intro h
    have := congrArg text? h
    simpa using this
  · rintro rfl
    rfl

/-! ## The values of a key -/

/-- The values of the members with that key, in order. -/
def given (key : String) (ms : List Member) : List Doc :=
  (ms.filter fun m => m.1 = units key).map Prod.snd

@[simp] theorem given_nil (key : String) : given key [] = [] := rfl

@[simp] theorem given_append (key : String) (ms ms' : List Member) :
    given key (ms ++ ms') = given key ms ++ given key ms' := by
  simp [given]

@[simp] theorem given_self (key : String) (d : Doc) (ms : List Member) :
    given key ((units key, d) :: ms) = d :: given key ms := by
  simp [given]

theorem given_of_ne {key : String} {m : Member} (h : m.1 ≠ units key) (ms : List Member) :
    given key (m :: ms) = given key ms := by
  simp [given, h]

theorem given_eq_nil {key : String} {ms : List Member} (h : ∀ m ∈ ms, m.1 ≠ units key) :
    given key ms = [] := by
  simpa [given, List.filter_eq_nil_iff] using h

/-- Among members with different keys each key is given its own value. -/
theorem given_map {ι : Type u} {key : ι → String} (write : ι → Doc) {items : List ι}
    (hnodup : (items.map key).Nodup) {i : ι} (hi : i ∈ items) :
    given (key i) (items.map fun i => (units (key i), write i)) = [write i] := by
  induction items with
  | nil => simp at hi
  | cons j items ih =>
    rw [List.map_cons, List.nodup_cons] at hnodup
    obtain ⟨hj, hnodup⟩ := hnodup
    rw [List.map_cons]
    rcases List.mem_cons.1 hi with rfl | hi
    · have hrest : given (key i) (items.map fun i => (units (key i), write i)) = [] := by
        refine given_eq_nil fun m hm heq => ?_
        obtain ⟨i', hi', rfl⟩ := List.mem_map.1 hm
        exact hj (List.mem_map.2 ⟨i', hi', units_inj.1 heq⟩)
      rw [given_self, hrest]
    · have hne : key j ≠ key i := fun heq => hj (heq ▸ List.mem_map_of_mem hi)
      rw [given_of_ne (fun heq => hne (units_inj.1 heq)), ih hnodup hi]

/-- Members with different keys give the same to every key in either order. -/
theorem given_swap {m m' : Member} (hne : m.1 ≠ m'.1) (key : String) (before after : List Member) :
    given key (before ++ m :: m' :: after) = given key (before ++ m' :: m :: after) := by
  have hpair : given key (m :: m' :: after) = given key (m' :: m :: after) := by
    by_cases hm : m.1 = units key
    · have hm' : m'.1 ≠ units key := fun heq => hne (hm.trans heq.symm)
      simp [given, hm, hm']
    · simp [given, List.filter_cons, hm]
  rw [given_append, hpair, ← given_append]

/-- Every key is a text. -/
def Keyed (ms : List Member) : Prop := ∀ m ∈ ms, ∃ key, m.1 = units key

@[simp] theorem keyed_nil : Keyed [] := by simp [Keyed]

@[simp] theorem keyed_cons {m : Member} {ms : List Member} :
    Keyed (m :: ms) ↔ (∃ key, m.1 = units key) ∧ Keyed ms := by
  simp [Keyed]

@[simp] theorem keyed_append {ms ms' : List Member} :
    Keyed (ms ++ ms') ↔ Keyed ms ∧ Keyed ms' := by
  simp [Keyed, or_imp, forall_and]

/-! ## Folding members -/

theorem viewMembers_append (view : String → α → Doc → Option α) (acc : α)
    (ms ms' : List Member) :
    viewMembers view acc (ms ++ ms') =
      (viewMembers view acc ms).bind fun acc => viewMembers view acc ms' := by
  induction ms generalizing acc with
  | nil => rfl
  | cons m ms ih =>
    obtain ⟨key, d⟩ := m
    simp only [List.cons_append, viewMembers, ih, Option.bind_assoc]

theorem viewMembers_text (view : String → α → Doc → Option α) (acc : α) (key : String) (d : Doc)
    (ms : List Member) :
    viewMembers view acc ((units key, d) :: ms) =
      (view key acc d).bind fun acc => viewMembers view acc ms := by
  simp [viewMembers]

/-- A value may be replaced by one in which the fold finds the same. -/
theorem viewMembers_congr {view : String → α → Doc → Option α} {key : Units} {d d' : Doc}
    (h : ∀ text acc, key = units text → view text acc d = view text acc d') (acc : α)
    (before after : List Member) :
    viewMembers view acc (before ++ (key, d) :: after) =
      viewMembers view acc (before ++ (key, d') :: after) := by
  simp only [viewMembers_append, viewMembers]
  congr 1
  funext acc
  cases htext : text? key with
  | none => rfl
  | some text => rw [Option.bind_some, Option.bind_some, h text acc (text?_eq_some_iff.1 htext)]

/-! ## Tables -/

def pair? (view : Doc → Option α) (m : Member) : Option (String × α) :=
  (text? m.1).bind fun key => (view m.2).map (key, ·)

theorem pair?_eq_some_iff {view : Doc → Option α} {m : Member} {e : String × α} :
    pair? view m = some e ↔ m.1 = units e.1 ∧ view m.2 = some e.2 := by
  obtain ⟨key, a⟩ := e
  simp only [pair?, Option.bind_eq_some_iff, Option.map_eq_some_iff, text?_eq_some_iff,
    Prod.mk.injEq]
  constructor
  · rintro ⟨text, htext, a', ha, rfl, rfl⟩
    exact ⟨htext, ha⟩
  · rintro ⟨hkey, ha⟩
    exact ⟨key, hkey, a, ha, rfl, rfl⟩

theorem viewMembers_table (view : Doc → Option α) (table : Table α) (ms : List Member) :
    viewMembers (fun key table d => (view d).map (Table.insert key · table)) table ms =
      (ms.mapM (pair? view)).map (Table.insertAll table) := by
  induction ms generalizing table with
  | nil => rfl
  | cons m ms ih =>
    obtain ⟨key, d⟩ := m
    rw [viewMembers, List.mapM_cons, pair?]
    cases text? key with
    | none => rfl
    | some key =>
      cases view d with
      | none => rfl
      | some a =>
        simp only [Option.bind_some, Option.map_some, ih]
        cases ms.mapM (pair? view) <;> rfl

theorem table?_eq (view : Doc → Option α) (ms : List Member) :
    table? view ms = (ms.mapM (pair? view)).map (Table.insertAll []) :=
  viewMembers_table view [] ms

theorem table?_single {view : Doc → Option α} {d : Doc} {a : α} (h : view d = some a)
    (key : String) : table? view [(units key, d)] = some [(key, a)] := by
  rw [table?_eq, List.mapM_cons, pair?, text?_units, h]
  rfl

theorem mapM_split {f : α → Option β} (before after : List α) (a : α) :
    (before ++ a :: after).mapM f =
      (before.mapM f).bind fun bs => (f a).bind fun b => (after.mapM f).map (bs ++ b :: ·) := by
  rw [List.mapM_append, List.mapM_cons]
  cases before.mapM f with
  | none => rfl
  | some bs =>
    cases f a with
    | none => rfl
    | some b => cases after.mapM f <;> rfl

theorem table?_swap {view : Doc → Option α} {m m' : Member} (hne : m.1 ≠ m'.1)
    (before after : List Member) :
    table? view (before ++ m :: m' :: after) = table? view (before ++ m' :: m :: after) := by
  simp only [table?_eq, mapM_split, List.mapM_cons]
  cases before.mapM (pair? view) with
  | none => rfl
  | some es =>
    cases he : pair? view m with
    | none => cases pair? view m' <;> rfl
    | some e =>
      cases he' : pair? view m' with
      | none => rfl
      | some e' =>
        cases after.mapM (pair? view) with
        | none => rfl
        | some es' =>
          have hkeys : e.1 ≠ e'.1 := by
            rw [pair?_eq_some_iff] at he he'
            rw [he.1, he'.1] at hne
            exact fun heq => hne (by rw [heq])
          exact congrArg some (Table.insertAll_swap Table.sorted_nil hkeys es es')

theorem table?_congr {view : Doc → Option α} {key : Units} {d d' : Doc} (h : view d = view d')
    (before after : List Member) :
    table? view (before ++ (key, d) :: after) = table? view (before ++ (key, d') :: after) := by
  refine viewMembers_congr (fun text acc _ => ?_) _ before after
  rw [h]

/-- A table has a value for each member. -/
theorem exists_view_of_table? {view : Doc → Option α} {key : Units} {d : Doc}
    {before after : List Member} {table : Table α}
    (h : table? view (before ++ (key, d) :: after) = some table) : ∃ a, view d = some a := by
  simp only [table?_eq, mapM_split, Option.map_eq_some_iff, Option.bind_eq_some_iff] at h
  obtain ⟨-, ⟨-, -, e, he, -⟩, -⟩ := h
  exact ⟨e.2, (pair?_eq_some_iff.1 he).2⟩

theorem exists_member_of_mapM {view : Doc → Option α} {ms : List Member} {es : List (String × α)}
    (h : ms.mapM (pair? view) = some es) : ∀ e ∈ es, ∃ m ∈ ms, m.1 = units e.1 := by
  induction ms generalizing es with
  | nil =>
    cases h
    simp
  | cons m ms ih =>
    simp only [List.mapM_cons, Option.pure_def, Option.bind_eq_bind, Option.bind_eq_some_iff] at h
    obtain ⟨e, he, es', hes, heq⟩ := h
    cases heq
    refine List.forall_mem_cons.2 ⟨⟨m, by simp, (pair?_eq_some_iff.1 he).1⟩, fun e' he' => ?_⟩
    obtain ⟨m', hm', hkey⟩ := ih hes e' he'
    exact ⟨m', by simp [hm'], hkey⟩

/-- The entry of a key that is not repeated is the value of its member. -/
theorem table?_member {view : Doc → Option α} {key : String} {d : Doc} {before after : List Member}
    (hkey : ∀ m ∈ after, m.1 ≠ units key) {table : Table α}
    (h : table? view (before ++ (units key, d) :: after) = some table) :
    ∃ a, view d = some a ∧ Table.get? key table = some a ∧ ∀ d' a', view d' = some a' →
      table? view (before ++ (units key, d') :: after) = some (Table.insert key a' table) := by
  simp only [table?_eq, mapM_split, Option.map_eq_some_iff, Option.bind_eq_some_iff] at h
  obtain ⟨entries, ⟨es, hes, e, he, es', hes', rfl⟩, rfl⟩ := h
  obtain ⟨hfirst, hview⟩ := pair?_eq_some_iff.1 he
  obtain ⟨key', a⟩ := e
  obtain rfl : key = key' := units_inj.1 hfirst
  have hsorted := Table.sorted_insertAll (Table.sorted_nil : Table.Sorted ([] : Table α)) es
  have hlater : ∀ e ∈ es', e.1 ≠ key := by
    intro later hmem heq
    obtain ⟨m, hm, hm'⟩ := exists_member_of_mapM hes' later hmem
    exact hkey m hm (by rw [hm', heq])
  refine ⟨a, hview, ?_, fun d' a' hview' => ?_⟩
  · rw [Table.insertAll_append, Table.insertAll_cons, Table.insertAll_insert hsorted hlater,
      Table.get?_insert_self]
  · have he' : pair? view (units key, d') = some (key, a') := pair?_eq_some_iff.2 ⟨rfl, hview'⟩
    simp only [table?_eq, mapM_split, hes, he', hes', Option.bind_some, Option.map_some]
    rw [Table.insertAll_replace Table.sorted_nil hlater es a a']

theorem mapM_pair? {view : Doc → Option α} {write : α → Doc} {entries : List (String × α)}
    (h : ∀ e ∈ entries, view (write e.2) = some e.2) :
    (entries.map fun e => (units e.1, write e.2)).mapM (pair? view) = some entries := by
  induction entries with
  | nil => rfl
  | cons e entries ih =>
    obtain ⟨hfirst, hrest⟩ := List.forall_mem_cons.1 h
    have hentry : pair? view (units e.1, write e.2) = some e :=
      pair?_eq_some_iff.2 ⟨rfl, hfirst⟩
    rw [List.map_cons, List.mapM_cons, hentry, ih hrest]
    rfl

/-- A sorted table is read back from members that give its entries. -/
theorem table?_map {view : Doc → Option α} {write : α → Doc} {table : Table α}
    (h : Table.Sorted table) (hview : ∀ e ∈ table, view (write e.2) = some e.2) :
    table? view (table.map fun e => (units e.1, write e.2)) = some table := by
  rw [table?_eq, mapM_pair? hview]
  exact congrArg some (Table.insertAll_sorted h)

/-! ## The order of members -/

/-- Two neighbours with different keys change places, somewhere in the document. -/
inductive Reordered : Doc → Doc → Prop where
  | swap {m m' : Member} (before after : List Member) (different : m.1 ≠ m'.1) :
      Reordered (.object (before ++ m :: m' :: after)) (.object (before ++ m' :: m :: after))
  | item {d d' : Doc} (before after : List Doc) : Reordered d d' →
      Reordered (.array (before ++ d :: after)) (.array (before ++ d' :: after))
  | member {d d' : Doc} (key : Units) (before after : List Member) : Reordered d d' →
      Reordered (.object (before ++ (key, d) :: after)) (.object (before ++ (key, d') :: after))

/-- What the view finds does not depend on the order of members. -/
def Steady (view : Doc → Option α) : Prop := ∀ d d', Reordered d d' → view d = view d'

theorem steady_value (depth : Nat) : Steady (value? depth) := by
  intro d d' h
  induction h generalizing depth with
  | swap before after different =>
    cases depth with
    | zero => rfl
    | succ depth => simp only [value?, table?_swap different]
  | item before after _ ih =>
    cases depth with
    | zero => rfl
    | succ depth => simp only [value?, mapM_split, ih depth]
  | member key before after _ ih =>
    cases depth with
    | zero => rfl
    | succ depth => simp only [value?, table?_congr (ih depth)]

end Json
end ShellPrompt
