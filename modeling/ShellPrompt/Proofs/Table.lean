import ShellPrompt.Table

/-!
# ShellPrompt.Proofs.Table

Keys compare as a strict total order, so the tables that `insert` builds are sorted
(`sorted_insert`), and two sorted tables with the same entry for each key are the same table
(`Sorted.ext`). In which order entries with different keys are inserted makes no difference
(`insertAll_swap`), and the entries of a sorted table, inserted one after the other, give it back
(`insertAll_sorted`).
-/

namespace ShellPrompt
namespace Table

variable {α β : Type}

/-! ## The order of keys -/

theorem precedes_irrefl (as : List Char) : precedes as as = false := by
  induction as with
  | nil => rfl
  | cons a as ih => simp [precedes, ih]

theorem precedes_trans {as bs cs : List Char} (h : precedes as bs = true)
    (h' : precedes bs cs = true) : precedes as cs = true := by
  induction as generalizing bs cs with
  | nil =>
    cases cs with
    | nil => simp [precedes] at h'
    | cons c cs => rfl
  | cons a as ih =>
    cases bs with
    | nil => simp [precedes] at h
    | cons b bs =>
      cases cs with
      | nil => simp [precedes] at h'
      | cons c cs =>
        simp only [precedes, Bool.or_eq_true, Bool.and_eq_true, decide_eq_true_eq,
          beq_iff_eq] at h h' ⊢
        rcases h with h | ⟨heq, h⟩
        · left
          omega
        · rcases h' with h' | ⟨heq', h'⟩
          · left
            omega
          · right
            exact ⟨heq.trans heq', ih h h'⟩

theorem precedes_of_not_precedes {as bs : List Char} (hne : as ≠ bs)
    (h : precedes as bs = false) : precedes bs as = true := by
  induction as generalizing bs with
  | nil =>
    cases bs with
    | nil => exact absurd rfl hne
    | cons b bs => simp [precedes] at h
  | cons a as ih =>
    cases bs with
    | nil => rfl
    | cons b bs =>
      simp only [precedes, Bool.or_eq_false_iff, Bool.and_eq_false_iff, decide_eq_false_iff_not,
        beq_eq_false_iff_ne] at h
      simp only [precedes, Bool.or_eq_true, Bool.and_eq_true, decide_eq_true_eq, beq_iff_eq]
      by_cases hab : a.toNat = b.toNat
      · right
        have hab' : a = b := Char.toNat_inj.1 hab
        have hrest : precedes as bs = false := h.2.resolve_left fun hne => hne hab
        exact ⟨hab.symm, ih (fun heq => hne (by rw [hab', heq])) hrest⟩
      · left
        have := h.1
        omega

/-! ## Sorted tables -/

def Sorted (table : Table α) : Prop :=
  table.Pairwise fun e e' => precedes e.1.toList e'.1.toList = true

theorem sorted_nil : Sorted ([] : Table α) := List.Pairwise.nil

theorem mem_insert {key : String} {value : α} {table : Table α} {e : String × α}
    (h : e ∈ insert key value table) : e = (key, value) ∨ e ∈ table := by
  induction table with
  | nil => simpa [insert] using h
  | cons first rest ih =>
    obtain ⟨k, v⟩ := first
    unfold insert at h
    split at h
    · simp only [List.mem_cons] at h ⊢
      exact h.imp_right .inr
    split at h
    · simpa using h
    · simp only [List.mem_cons] at h ⊢
      rcases h with h | h
      · exact .inr (.inl h)
      · exact (ih h).imp_right .inr

theorem sorted_insert {table : Table α} (h : Sorted table) (key : String) (value : α) :
    Sorted (insert key value table) := by
  induction table with
  | nil => simp [Sorted, insert]
  | cons first rest ih =>
    obtain ⟨k, v⟩ := first
    obtain ⟨hfirst, hrest⟩ := List.pairwise_cons.1 h
    unfold insert
    split
    case isTrue heq =>
      subst heq
      exact List.pairwise_cons.2 ⟨hfirst, hrest⟩
    split
    case isTrue hbefore =>
      refine List.pairwise_cons.2 ⟨?_, h⟩
      intro e he
      rcases List.mem_cons.1 he with rfl | he
      · exact hbefore
      · exact precedes_trans hbefore (hfirst e he)
    case isFalse hne hbefore =>
      have hafter : precedes k.toList key.toList = true :=
        precedes_of_not_precedes (fun heq => hne (String.toList_inj.1 heq)) (by simpa using hbefore)
      refine List.pairwise_cons.2 ⟨?_, ih hrest⟩
      intro e he
      rcases mem_insert he with rfl | he
      · exact hafter
      · exact hfirst e he

/-! ## Looking keys up -/

theorem mem_of_get? {key : String} {value : α} {table : Table α}
    (h : get? key table = some value) : (key, value) ∈ table := by
  induction table with
  | nil => cases h
  | cons first rest ih =>
    obtain ⟨k, v⟩ := first
    unfold get? at h
    split at h
    case isTrue heq =>
      cases h
      simp [heq]
    case isFalse => exact List.mem_cons_of_mem _ (ih h)

theorem Sorted.get?_rest {key : String} {value : α} {rest : Table α}
    (h : Sorted ((key, value) :: rest)) : get? key rest = none := by
  cases hget : get? key rest with
  | none => rfl
  | some v =>
    have := (List.pairwise_cons.1 h).1 _ (mem_of_get? hget)
    rw [precedes_irrefl] at this
    cases this

theorem get?_append (key : String) (table table' : Table α) :
    get? key (table ++ table') = (get? key table).or (get? key table') := by
  induction table with
  | nil => rfl
  | cons e rest ih =>
    obtain ⟨k, v⟩ := e
    by_cases h : key = k
    · simp [get?, h]
    · simpa [get?, h] using ih

/-- A key stands in a sorted table once. -/
theorem Sorted.get?_middle {key : String} {value : α} {before after : Table α}
    (h : Sorted (before ++ (key, value) :: after)) :
    get? key before = none ∧ get? key after = none := by
  obtain ⟨-, hafter, hbetween⟩ := List.pairwise_append.1 h
  refine ⟨?_, Sorted.get?_rest hafter⟩
  cases hget : get? key before with
  | none => rfl
  | some v =>
    have := hbetween _ (mem_of_get? hget) _ List.mem_cons_self
    rw [precedes_irrefl] at this
    cases this

theorem Sorted.replace {key : String} {value : α} {before after : Table α}
    (h : Sorted (before ++ (key, value) :: after)) (value' : α) :
    Sorted (before ++ (key, value') :: after) := by
  simpa [Sorted, List.pairwise_append] using h

/-- The values a table has something for, under their keys. -/
def choose (f : α → Option β) (table : Table α) : Table β :=
  table.filterMap fun e => (f e.2).map (Prod.mk e.1)

theorem Sorted.choose {table : Table α} (h : Sorted table) (f : α → Option β) :
    Sorted (choose f table) := by
  refine h.filterMap _ fun e e' he x hx x' hx' => ?_
  obtain ⟨v, -, rfl⟩ := Option.map_eq_some_iff.1 hx
  obtain ⟨v', -, rfl⟩ := Option.map_eq_some_iff.1 hx'
  exact he

theorem Sorted.get?_choose {table : Table α} (h : Sorted table) (f : α → Option β)
    (key : String) : get? key (Table.choose f table) = (get? key table).bind f := by
  induction table with
  | nil => rfl
  | cons e rest ih =>
    obtain ⟨k, v⟩ := e
    have hrest := ih (List.pairwise_cons.1 h).2
    by_cases hk : key = k
    · subst hk
      rw [h.get?_rest] at hrest
      cases hv : f v <;> simp_all [Table.choose, get?]
    · cases hv : f v <;> simp_all [Table.choose, get?]

/-- The first entry of a sorted table has the first key of any entry. -/
theorem Sorted.first_key {k k' : String} {v v' : α} {rest rest' : Table α}
    (h : Sorted ((k, v) :: rest)) (h' : Sorted ((k', v') :: rest'))
    (hget : ∀ key, get? key ((k, v) :: rest) = get? key ((k', v') :: rest')) : k = k' := by
  apply Classical.byContradiction
  intro hne
  have hright : get? k ((k', v') :: rest') = some v := by
    rw [← hget]
    simp [get?]
  have hleft : get? k' ((k, v) :: rest) = some v' := by
    rw [hget]
    simp [get?]
  have hmem := mem_of_get? hright
  have hmem' := mem_of_get? hleft
  simp only [List.mem_cons, Prod.mk.injEq, hne, Ne.symm hne, false_and, false_or] at hmem hmem'
  have hbefore := (List.pairwise_cons.1 h).1 _ hmem'
  have hafter := (List.pairwise_cons.1 h').1 _ hmem
  have hcycle := precedes_trans hbefore hafter
  rw [precedes_irrefl] at hcycle
  cases hcycle

theorem Sorted.ext {table table' : Table α} (h : Sorted table) (h' : Sorted table')
    (hget : ∀ key, get? key table = get? key table') : table = table' := by
  induction table generalizing table' with
  | nil =>
    cases table' with
    | nil => rfl
    | cons first rest =>
      have := hget first.1
      simp [get?] at this
  | cons first rest ih =>
    obtain ⟨k, v⟩ := first
    cases table' with
    | nil =>
      have := hget k
      simp [get?] at this
    | cons first' rest' =>
      obtain ⟨k', v'⟩ := first'
      obtain rfl := h.first_key h' hget
      obtain rfl : v = v' := by simpa [get?] using hget k
      have hrest : rest = rest' := by
        refine ih (List.pairwise_cons.1 h).2 (List.pairwise_cons.1 h').2 fun key => ?_
        by_cases hkey : key = k
        · rw [hkey, h.get?_rest, h'.get?_rest]
        · simpa [get?, hkey] using hget key
      rw [hrest]

/-! ## Building a table -/

/-- A key behind all others goes to the end. -/
theorem insert_last {key : String} {table : Table α}
    (h : ∀ e ∈ table, precedes e.1.toList key.toList = true) (value : α) :
    insert key value table = table ++ [(key, value)] := by
  induction table with
  | nil => rfl
  | cons first rest ih =>
    obtain ⟨k, v⟩ := first
    obtain ⟨hfirst, hrest⟩ := List.forall_mem_cons.1 h
    have hne : key ≠ k := by
      rintro rfl
      rw [precedes_irrefl] at hfirst
      cases hfirst
    have hnot : precedes key.toList k.toList = false := by
      cases hbefore : precedes key.toList k.toList with
      | false => rfl
      | true =>
        have := precedes_trans hfirst hbefore
        rw [precedes_irrefl] at this
        cases this
    simp [insert, hne, hnot, ih hrest]

theorem get?_insert (key other : String) (value : α) (table : Table α) :
    get? other (insert key value table) = if other = key then some value else get? other table := by
  by_cases h : other = key
  · rw [if_pos h, h, get?_insert_self]
  · rw [if_neg h, get?_insert_of_ne h]

theorem insert_comm {table : Table α} (h : Sorted table) {key key' : String} (hne : key ≠ key')
    (value value' : α) :
    insert key value (insert key' value' table) = insert key' value' (insert key value table) := by
  refine Sorted.ext (sorted_insert (sorted_insert h _ _) _ _)
    (sorted_insert (sorted_insert h _ _) _ _) fun other => ?_
  simp only [get?_insert]
  split
  case isTrue heq => rw [if_neg (by rw [heq]; exact hne)]
  case isFalse => rfl

theorem insert_insert {table : Table α} (h : Sorted table) (key : String) (value value' : α) :
    insert key value' (insert key value table) = insert key value' table := by
  refine Sorted.ext (sorted_insert (sorted_insert h _ _) _ _) (sorted_insert h _ _) fun other => ?_
  simp only [get?_insert]
  split <;> rfl

/-- A table with the given entries inserted into it, in order. -/
def insertAll (table : Table α) (entries : List (String × α)) : Table α :=
  entries.foldl (fun table e => insert e.1 e.2 table) table

@[simp] theorem insertAll_nil (table : Table α) : insertAll table [] = table := rfl

@[simp] theorem insertAll_cons (table : Table α) (e : String × α) (entries : List (String × α)) :
    insertAll table (e :: entries) = insertAll (insert e.1 e.2 table) entries := rfl

theorem insertAll_append (table : Table α) (entries entries' : List (String × α)) :
    insertAll table (entries ++ entries') = insertAll (insertAll table entries) entries' :=
  List.foldl_append

theorem sorted_insertAll {table : Table α} (h : Sorted table) (entries : List (String × α)) :
    Sorted (insertAll table entries) := by
  induction entries generalizing table with
  | nil => exact h
  | cons e entries ih => exact ih (sorted_insert h e.1 e.2)

/-- An entry that no later one replaces may as well come last. -/
theorem insertAll_insert {table : Table α} (h : Sorted table) {key : String}
    {entries : List (String × α)} (hkey : ∀ e ∈ entries, e.1 ≠ key) (value : α) :
    insertAll (insert key value table) entries = insert key value (insertAll table entries) := by
  induction entries generalizing table with
  | nil => rfl
  | cons e entries ih =>
    obtain ⟨hne, hrest⟩ := List.forall_mem_cons.1 hkey
    rw [insertAll_cons, insert_comm h hne, ih (sorted_insert h _ _) hrest, insertAll_cons]

theorem insertAll_swap {table : Table α} (h : Sorted table) {e e' : String × α}
    (hne : e.1 ≠ e'.1) (before after : List (String × α)) :
    insertAll table (before ++ e :: e' :: after) =
      insertAll table (before ++ e' :: e :: after) := by
  have hbefore := sorted_insertAll h before
  simp only [insertAll_append, insertAll_cons, insert_comm hbefore hne]

theorem insertAll_replace {table : Table α} (h : Sorted table) {key : String}
    {after : List (String × α)} (hkey : ∀ e ∈ after, e.1 ≠ key) (before : List (String × α))
    (value value' : α) :
    insertAll table (before ++ (key, value') :: after) =
      insert key value' (insertAll table (before ++ (key, value) :: after)) := by
  have hbefore := sorted_insertAll h before
  simp only [insertAll_append, insertAll_cons, insertAll_insert hbefore hkey]
  rw [insert_insert (sorted_insertAll hbefore after)]

theorem insertAll_sorted {table entries : Table α} (h : Sorted (table ++ entries)) :
    insertAll table entries = table ++ entries := by
  induction entries generalizing table with
  | nil => simp
  | cons e entries ih =>
    have hlast : ∀ e' ∈ table, precedes e'.1.toList e.1.toList = true :=
      fun e' he' => (List.pairwise_append.1 h).2.2 e' he' e (by simp)
    rw [insertAll_cons, insert_last hlast, ih (by simpa using h)]
    simp

end Table
end ShellPrompt
