import ShellPrompt.Proofs.Evaluation.Steps

/-!
# ShellPrompt.Proofs.Evaluation.Handover

Which worker of a chain fills which slot.

* `Slots`: each slot before the job that is waited for has been filled by one event.
* `Roster`: workers are started at the first job and behind each job that was missed.
* `Channels`: what is received from a worker is the beginning of what it sent.
* `Courses`: a worker sends about consecutive jobs, from the one it was started at on.
* `Chronicle`: all of these. `Chronicle.step` is the step lemma, `run_chronicle` the run lemma.
* `slots_filled_in_turn`: what follows for every schedule (`InTurn`).
-/

namespace ShellPrompt
namespace Evaluation
namespace Sequential

variable {o : Options} {jobs : List Job} {d : Diary} {s s' : State} {now : Nat} {c : Chain}
  {told : List Event} {e? : Option Event}

/-! ## Slots -/

theorem filterMap_after {α : Type} (f : Event → Option α) (told : List Event)
    (e? : Option Event) :
    (told ++ e?.toList).filterMap f = told.filterMap f ++ (e?.bind f).toList := by
  rw [List.filterMap_append]
  cases e? with
  | none => rfl
  | some e => cases he : f e <;> simp [he]

theorem Event.slot?_of_fills {e : Event} {i : Nat} {r : ModuleResult} (hf : e.Fills o jobs i r) :
    e.slot? = some i := by
  cases e with
  | received w k x => exact congrArg some hf.1
  | missed w k => exact congrArg some hf.1
  | _ => exact hf.elim

/-- An event fills its slot with one result. -/
theorem Event.Fills.unique {e : Event} {i : Nat} {r r' : ModuleResult}
    (hf : e.Fills o jobs i r) (hf' : e.Fills o jobs i r') : r = r' := by
  cases e with
  | received w k x => exact hf.2.symm.trans hf'.2
  | missed w k =>
    obtain ⟨-, j, b, hj, hb, rfl⟩ := hf
    obtain ⟨-, j', b', hj', hb', rfl⟩ := hf'
    rw [hj] at hj'
    rw [hb] at hb'
    cases hj'
    cases hb'
    rfl
  | _ => exact hf.elim

/-- Slots that were missed have been filled. -/
theorem missed_sublist (told : List Event) :
    (told.filterMap Event.missedAt?).Sublist (told.filterMap Event.slot?) := by
  induction told with
  | nil => exact .slnil
  | cons e told ih =>
    cases e with
    | started i => exact ih
    | sent w i r => exact ih
    | received w i r => exact ih.cons i
    | missed w i => exact ih.cons_cons i

/-- Each slot before `next` has been filled by one event, in their order, and is as that left it. -/
structure Slots (o : Options) (jobs : List Job) (told : List Event) (next : Nat)
    (results : List (Option ModuleResult)) : Prop where
  once : told.filterMap Event.slot? = List.range next
  kept : ∀ e ∈ told, ∀ i, e.slot? = some i →
    ∃ r, e.Fills o jobs i r ∧ results[i]? = some (some r)

namespace Slots

variable {next : Nat} {results : List (Option ModuleResult)} {e : Event}

theorem skip (hs : Slots o jobs told next results) (he : e.slot? = none) :
    Slots o jobs (told ++ [e]) next results where
  once := by
    rw [List.filterMap_append, hs.once, List.filterMap_cons_none he]
    exact List.append_nil _
  kept := by
    refine List.forall_mem_append.2 ⟨hs.kept, List.forall_mem_singleton.2 ?_⟩
    intro i hi
    rw [he] at hi
    cases hi

theorem fill (hs : Slots o jobs told next results) (he : e.slot? = some next)
    {r : ModuleResult} (hr : e.Fills o jobs next r) (hempty : results[next]? = some none) :
    Slots o jobs (told ++ [e]) (next + 1) (results.set next (some r)) where
  once := by
    rw [List.filterMap_append, hs.once, List.filterMap_cons_some he, List.filterMap_nil,
      List.range_succ]
  kept := by
    refine List.forall_mem_append.2 ⟨?_, List.forall_mem_singleton.2 ?_⟩
    · intro e' he' i hi
      -- what has been filled before is no slot from `next` on
      have hlt : i < next := by
        rw [← List.mem_range, ← hs.once]
        exact List.mem_filterMap.2 ⟨e', he', hi⟩
      obtain ⟨r', hfills, hkept⟩ := hs.kept e' he' i hi
      exact ⟨r', hfills, by rwa [List.getElem?_set_ne (by omega)]⟩
    · intro i hi
      obtain rfl : next = i := Option.some.inj (he.symm.trans hi)
      exact ⟨r, hr, List.getElem?_set_self (List.getElem?_eq_some_iff.1 hempty).1⟩

theorem step (hs : Slots o jobs told s.next s.results) (hstep : Step o jobs s e? s') :
    Slots o jobs (told ++ e?.toList) s'.next s'.results := by
  cases hstep with
  | quiet hresults hnext _ _ =>
    rw [Option.toList_none, List.append_nil, hresults, hnext]
    exact hs
  | started _ _ | sent _ _ | lost _ _ => exact hs.skip rfl
  | received _ _ hempty => exact hs.fill rfl ⟨rfl, rfl⟩ hempty
  | missed _ hj hb _ hempty => exact hs.fill rfl ⟨rfl, _, _, hj, hb, rfl⟩ hempty

theorem origin (hs : Slots o jobs told next results)
    (hf : Filled o jobs d next results) (i : Nat) (r : ModuleResult) :
    results[i]? = some (some r) ↔ ∃ e ∈ told, e.Fills o jobs i r := by
  constructor
  · intro hr
    have hi : i < next := by
      refine Nat.lt_of_not_le fun hle => ?_
      have hlt : i < jobs.length := hf.length ▸ (List.getElem?_eq_some_iff.1 hr).1
      rw [hf.empty i hle hlt] at hr
      cases hr
    obtain ⟨e, he, hslot⟩ := List.mem_filterMap.1 (hs.once ▸ List.mem_range.2 hi)
    obtain ⟨r', hfills, hkept⟩ := hs.kept e he i hslot
    rw [hr] at hkept
    cases hkept
    exact ⟨e, he, hfills⟩
  · rintro ⟨e, he, hfills⟩
    obtain ⟨r', hfills', hkept⟩ := hs.kept e he i (Event.slot?_of_fills hfills)
    rw [hkept, hfills.unique hfills']

/-- Jobs are missed in their order. -/
theorem missed_sorted (hs : Slots o jobs told next results) :
    (told.filterMap Event.missedAt?).Pairwise (· < ·) := by
  have hsub := missed_sublist told
  rw [hs.once] at hsub
  exact List.pairwise_lt_range.sublist hsub

end Slots

/-! ## Workers -/

/-- How many workers have been started. -/
def State.workers (s : State) : Nat := s.current.toList.length + s.abandoned.length

theorem State.number_lt {k : Nat} (hk : s.abandoned[k]? = some c) :
    s.number k < s.abandoned.length := by
  have := (List.getElem?_eq_some_iff.1 hk).1
  simp only [State.number]
  omega

/-- Workers that are where they were are as many. -/
theorem workers_of_place (hcurrent : s'.current.map Chain.place = s.current.map Chain.place)
    (habandoned : s'.abandoned.map Chain.place = s.abandoned.map Chain.place) :
    s'.current.isNone = s.current.isNone ∧ s'.abandoned.length = s.abandoned.length ∧
      s'.workers = s.workers := by
  have hlength : s'.abandoned.length = s.abandoned.length := by
    simpa using congrArg List.length habandoned
  rw [State.workers, State.workers, hlength]
  cases hc : s.current <;> cases hc' : s'.current <;> simp_all

/-- Workers are started at the first job and right behind each job that was missed; the last of
these starts is still to come while there is no current worker. -/
structure Roster (told : List Event) (s : State) : Prop where
  starts : 0 :: (told.filterMap Event.missedAt?).map (· + 1) =
    told.filterMap Event.startedAt? ++ (if s.current.isNone then [s.next] else [])
  missed : (told.filterMap Event.missedAt?).length = s.abandoned.length

namespace Roster

theorem length_starts (hr : Roster told s) :
    (told.filterMap Event.startedAt?).length = s.workers := by
  have hlength := congrArg List.length hr.starts
  have hmissed := hr.missed
  cases hc : s.current <;> simp [hc, State.workers] at hlength ⊢ <;> omega

theorem step (hr : Roster told s) (hstep : Step o jobs s e? s') :
    Roster (told ++ e?.toList) s' := by
  obtain ⟨hstarts, hmissed⟩ := hr
  refine ⟨?_, ?_⟩
  · rw [filterMap_after, filterMap_after, List.map_append, ← List.cons_append, hstarts]
    cases hstep with
    | quiet _ hnext hcurrent habandoned =>
      obtain ⟨hnone, -, -⟩ := workers_of_place hcurrent habandoned
      simp [hnone, hnext]
    | started hcur _ | sent hcur _ | received hcur _ _ | missed hcur _ _ _ _ =>
      simp [Event.startedAt?, Event.missedAt?, hcur]
    | lost _ _ => simp [Event.startedAt?, Event.missedAt?]
  · rw [filterMap_after, List.length_append, hmissed]
    cases hstep with
    | quiet _ _ hcurrent habandoned =>
      obtain ⟨-, hlength, -⟩ := workers_of_place hcurrent habandoned
      simp [hlength]
    | started _ _ | sent _ _ | received _ _ _ | lost _ _ | missed _ _ _ _ _ =>
      simp [Event.missedAt?]

end Roster

theorem Step.workers_le (hstep : Step o jobs s e? s') : s.workers ≤ s'.workers := by
  cases hstep with
  | quiet _ _ hcurrent habandoned =>
    obtain ⟨-, -, hworkers⟩ := workers_of_place hcurrent habandoned
    exact Nat.le_of_eq hworkers.symm
  | started hcur _ | sent hcur _ | received hcur _ _ => simp [State.workers, hcur]
  | missed hcur _ _ _ _ => simp [State.workers, hcur, Nat.add_comm]
  | lost _ _ => simp [State.workers]

/-- Whatever happens is about a worker that has been started. -/
theorem Step.worker_lt {e : Event} {w : Nat} (hstep : Step o jobs s (some e) s')
    (hw : e.worker? = some w) : w < s.workers := by
  cases hstep with
  | started _ _ => cases hw
  | sent hcur _ | received hcur _ _ | missed hcur _ _ _ _ =>
    cases hw
    simp [State.workers, hcur]
  | lost hk _ =>
    cases hw
    exact Nat.lt_of_lt_of_le (State.number_lt hk) (Nat.le_add_left ..)

/-! ## Channels -/

def sentBy (told : List Event) (w : Nat) : List (Nat × ModuleResult) :=
  told.filterMap (Event.sentBy? w)

def receivedFrom (told : List Event) (w : Nat) : List (Nat × ModuleResult) :=
  told.filterMap (Event.receivedFrom? w)

theorem sentBy_after (told : List Event) (e? : Option Event) (w : Nat) :
    sentBy (told ++ e?.toList) w = sentBy told w ++ (e?.bind (Event.sentBy? w)).toList :=
  filterMap_after ..

theorem receivedFrom_after (told : List Event) (e? : Option Event) (w : Nat) :
    receivedFrom (told ++ e?.toList) w =
      receivedFrom told w ++ (e?.bind (Event.receivedFrom? w)).toList :=
  filterMap_after ..

theorem sent_of_mem_sentBy {w i : Nat} {r : ModuleResult} (hm : (i, r) ∈ sentBy told w) :
    .sent w i r ∈ told := by
  obtain ⟨e, he, hsent⟩ := List.mem_filterMap.1 hm
  cases e with
  | sent v k x =>
    obtain ⟨rfl, hmessage⟩ := Option.ite_none_right_eq_some.1 hsent
    cases hmessage
    exact he
  | _ => cases hsent

theorem mem_receivedFrom {w i : Nat} {r : ModuleResult} (hm : .received w i r ∈ told) :
    (i, r) ∈ receivedFrom told w :=
  List.mem_filterMap.2 ⟨_, hm, if_pos rfl⟩

/-- What has been received from a worker is the beginning of what it sent. Of the current worker,
the rest is on its way; of an abandoned one, the rest is lost. -/
structure Channels (told : List Event) (s : State) : Prop where
  fifo : ∀ w, receivedFrom told w <+: sentBy told w
  current : ∀ c, s.current = some c →
    sentBy told s.abandoned.length = receivedFrom told s.abandoned.length ++ c.sent
  known : ∀ e ∈ told, ∀ w, e.worker? = some w → w < s.workers
  gone : ∀ w i, .missed w i ∈ told → w < s.abandoned.length
  deaf : told.Pairwise fun e later => ∀ w i k r, e = .missed w i → later ≠ .received w k r

namespace Channels

/-- Of a worker still to be started nothing is known. -/
theorem unstarted (hc : Channels told s) {w : Nat} (hw : s.workers ≤ w) :
    sentBy told w = [] ∧ receivedFrom told w = [] := by
  refine ⟨List.filterMap_eq_nil_iff.2 ?_, List.filterMap_eq_nil_iff.2 ?_⟩
  all_goals
    intro e he
    have hknown := hc.known e he
    cases e with
    | sent v i r | received v i r =>
      have hne : v ≠ w := by
        have := hknown v rfl
        omega
      simp [Event.sentBy?, Event.receivedFrom?, hne]
    | _ => rfl

theorem fifo_step (hc : Channels told s) (hstep : Step o jobs s e? s') (w : Nat) :
    receivedFrom (told ++ e?.toList) w <+: sentBy (told ++ e?.toList) w := by
  rw [sentBy_after, receivedFrom_after]
  cases hstep with
  | quiet _ _ _ _ | started _ _ | missed _ _ _ _ _ =>
    simpa [Event.receivedFrom?, Event.sentBy?] using hc.fifo w
  | sent _ _ | lost _ _ =>
    exact List.prefix_append_of_prefix (by simpa [Event.receivedFrom?] using hc.fifo w)
  | @received c r rest hcur hsent _ =>
    by_cases hw : s.abandoned.length = w
    · subst hw
      rw [hc.current c hcur, hsent]
      exact ⟨rest, by simp [Event.receivedFrom?, Event.sentBy?]⟩
    · simpa [Event.receivedFrom?, Event.sentBy?, hw] using hc.fifo w

theorem current_step (hc : Channels told s) (hstep : Step o jobs s e? s') {c' : Chain}
    (hcur' : s'.current = some c') :
    sentBy (told ++ e?.toList) s'.abandoned.length =
      receivedFrom (told ++ e?.toList) s'.abandoned.length ++ c'.sent := by
  rw [sentBy_after, receivedFrom_after]
  cases hstep with
  | quiet _ _ hcurrent habandoned =>
    obtain ⟨-, hlength, -⟩ := workers_of_place hcurrent habandoned
    rw [hcur'] at hcurrent
    obtain ⟨c, hcur, hplace⟩ := Option.map_eq_some_iff.1 hcurrent.symm
    have hsent : c.sent = c'.sent := congrArg Prod.snd hplace
    simpa [hlength, hsent] using hc.current c hcur
  | started hcur _ =>
    cases hcur'
    obtain ⟨hnone, hnone'⟩ := hc.unstarted (w := s.abandoned.length) (by simp [State.workers, hcur])
    simp [hnone, hnone', Event.sentBy?, Event.receivedFrom?]
  | sent hcur _ =>
    cases hcur'
    simp [hc.current _ hcur, Event.sentBy?, Event.receivedFrom?]
  | lost hk _ =>
    -- an abandoned worker has another number
    have hne := Nat.ne_of_lt (State.number_lt hk)
    simpa [Event.sentBy?, Event.receivedFrom?, hne] using hc.current c' hcur'
  | received hcur hsent _ =>
    cases hcur'
    simp [hc.current _ hcur, hsent, Event.sentBy?, Event.receivedFrom?]
  | missed _ _ _ _ _ => cases hcur'

theorem gone_step (hc : Channels told s) (hstep : Step o jobs s e? s') (w i : Nat)
    (hmem : .missed w i ∈ told ++ e?.toList) : w < s'.abandoned.length := by
  rcases List.mem_append.1 hmem with hmem | hmem
  · refine Nat.lt_of_lt_of_le (hc.gone w i hmem) ?_
    cases hstep with
    | quiet _ _ hcurrent habandoned =>
      exact Nat.le_of_eq (workers_of_place hcurrent habandoned).2.1.symm
    | _ => simp
  · obtain rfl := Option.mem_toList.1 hmem
    cases hstep
    exact Nat.lt_succ_self _

theorem deaf_step (hc : Channels told s) (hstep : Step o jobs s e? s') :
    (told ++ e?.toList).Pairwise
      fun e later => ∀ w i k r, e = .missed w i → later ≠ .received w k r := by
  refine List.pairwise_append.2 ⟨hc.deaf, ?_, ?_⟩
  · cases e? <;> simp
  · rintro e he later hlater w i k r rfl rfl
    obtain rfl := Option.mem_toList.1 hlater
    -- what is received now is from the current worker, which has not been abandoned
    have hlt := hc.gone w i he
    cases hstep
    exact absurd hlt (Nat.lt_irrefl _)

theorem step (hc : Channels told s) (hstep : Step o jobs s e? s') :
    Channels (told ++ e?.toList) s' where
  fifo := hc.fifo_step hstep
  current := fun _ => hc.current_step hstep
  known := by
    intro e he w hw
    refine Nat.lt_of_lt_of_le ?_ hstep.workers_le
    rcases List.mem_append.1 he with he | he
    · exact hc.known e he w hw
    · obtain rfl := Option.mem_toList.1 he
      exact hstep.worker_lt hw
  gone := hc.gone_step hstep
  deaf := hc.deaf_step hstep

end Channels

/-! ## Courses -/

/-- A worker has sent messages about consecutive jobs, from the one it was started at up to the one
it is at, unless it has ended. -/
def Course (jobs : List Job) (told : List Event) (w : Nat) (c : Chain) : Prop :=
  ∃ i n, (told.filterMap Event.startedAt?)[w]? = some i ∧
    (sentBy told w).map Prod.fst = List.range' i n ∧
    (c.position = i + n ∨ jobs.length ≤ c.position)

namespace Course

variable {w : Nat}

/-- What happens to other workers does not matter. -/
theorem keep (h : Course jobs told w c) (hsent : e?.bind (Event.sentBy? w) = none) {c' : Chain}
    (hposition : c'.position = c.position) : Course jobs (told ++ e?.toList) w c' := by
  obtain ⟨i, n, hstart, hmessages, hat⟩ := h
  refine ⟨i, n, ?_, ?_, hposition ▸ hat⟩
  · rw [filterMap_after]
    exact (List.getElem?_append_left (List.getElem?_eq_some_iff.1 hstart).1).trans hstart
  · rw [sentBy_after, hsent]
    simpa using hmessages

theorem send (h : Course jobs told w c) {i : Nat} {r : ModuleResult}
    (hm : c.message? o jobs now = some (i, r)) {c' : Chain}
    (hposition : c'.position = i + 1 ∨ jobs.length ≤ c'.position) :
    Course jobs (told ++ [.sent w i r]) w c' := by
  obtain ⟨first, n, hstart, hmessages, hat⟩ := h
  obtain ⟨rfl, j, -, -, hj, -⟩ := Chain.message?_eq_some hm
  have hlt : c.position < jobs.length := (List.getElem?_eq_some_iff.1 hj).1
  have hhere : c.position = first + n := hat.resolve_right (by omega)
  have hafter : sentBy (told ++ [.sent w c.position r]) w =
      sentBy told w ++ [(c.position, r)] := by
    simpa [Event.sentBy?] using sentBy_after told (some (.sent w c.position r)) w
  refine ⟨first, n + 1, ?_, ?_, by omega⟩
  · rw [List.filterMap_append]
    exact (List.getElem?_append_left (List.getElem?_eq_some_iff.1 hstart).1).trans hstart
  · rw [hafter, List.map_append, hmessages, List.range'_1_concat, ← hhere]
    rfl

end Course

/-- Workers go from job to job, and what they send about one is its answer. -/
structure Courses (o : Options) (jobs : List Job) (told : List Event) (s : State) : Prop where
  answers : ∀ w i r, .sent w i r ∈ told → IsAnswer o jobs i r
  current : ∀ c, s.current = some c → Course jobs told s.abandoned.length c
  abandoned : ∀ k c, s.abandoned[k]? = some c → Course jobs told (s.number k) c

namespace Courses

theorem answers_step (hs : Courses o jobs told s) (hstep : Step o jobs s e? s') (w i : Nat)
    (r : ModuleResult) (hmem : .sent w i r ∈ told ++ e?.toList) : IsAnswer o jobs i r := by
  rcases List.mem_append.1 hmem with hmem | hmem
  · exact hs.answers w i r hmem
  · obtain rfl := Option.mem_toList.1 hmem
    cases hstep with
    | sent _ hm | lost _ hm =>
      obtain ⟨-, j, t, a, hj, -, ha, hr⟩ := Chain.message?_eq_some hm
      exact ⟨j, a, _, hj, ha, hr⟩

theorem current_step (hs : Courses o jobs told s) (hr : Roster told s) (hc : Channels told s)
    (hstep : Step o jobs s e? s') (c' : Chain) (hcur' : s'.current = some c') :
    Course jobs (told ++ e?.toList) s'.abandoned.length c' := by
  cases hstep with
  | quiet _ _ hcurrent habandoned =>
    obtain ⟨-, hlength, -⟩ := workers_of_place hcurrent habandoned
    rw [hcur'] at hcurrent
    obtain ⟨c, hcur, hplace⟩ := Option.map_eq_some_iff.1 hcurrent.symm
    rw [hlength]
    exact (hs.current c hcur).keep rfl (congrArg Prod.fst hplace).symm
  | started hcur _ =>
    cases hcur'
    have hworkers : s.workers = s.abandoned.length := by simp [State.workers, hcur]
    refine ⟨s.next, 0, ?_, ?_, .inl rfl⟩
    · show (List.filterMap _ _)[s.abandoned.length]? = some s.next
      have hlength : (told.filterMap Event.startedAt?).length = s.abandoned.length :=
        hr.length_starts.trans hworkers
      rw [filterMap_after, List.getElem?_append_right (Nat.le_of_eq hlength), hlength]
      simp [Event.startedAt?]
    · rw [sentBy_after, (hc.unstarted (Nat.le_of_eq hworkers)).1]
      rfl
  | sent hcur hm =>
    cases hcur'
    exact (hs.current _ hcur).send hm (.inl rfl)
  | lost hk _ =>
    have hne := Nat.ne_of_lt (State.number_lt hk)
    rw [List.length_set]
    exact (hs.current c' hcur').keep (by simp [Event.sentBy?, hne]) rfl
  | received hcur _ _ =>
    cases hcur'
    exact (hs.current _ hcur).keep rfl rfl
  | missed _ _ _ _ _ => cases hcur'

theorem abandoned_step (hs : Courses o jobs told s) (hstep : Step o jobs s e? s') (k' : Nat)
    (c' : Chain) (hk' : s'.abandoned[k']? = some c') :
    Course jobs (told ++ e?.toList) (s'.number k') c' := by
  cases hstep with
  | quiet _ _ hcurrent habandoned =>
    obtain ⟨-, hlength, -⟩ := workers_of_place hcurrent habandoned
    have hat := congrArg (·[k']?) habandoned
    simp only [List.getElem?_map, hk'] at hat
    obtain ⟨c, hk, hplace⟩ := Option.map_eq_some_iff.1 hat.symm
    rw [State.number, hlength]
    exact (hs.abandoned k' c hk).keep rfl (congrArg Prod.fst hplace).symm
  | started _ _ | received _ _ _ => exact (hs.abandoned k' c' hk').keep rfl rfl
  | sent hcur _ =>
    have hne := Nat.ne_of_gt (State.number_lt (s := s) hk')
    exact (hs.abandoned k' c' hk').keep (by simp [Event.sentBy?, hne]) rfl
  | @lost k c _ _ hk hm =>
    have hlt := (List.getElem?_eq_some_iff.1 hk).1
    change Course jobs _ ((s.abandoned.set k _).length - 1 - k') c'
    rw [List.length_set]
    by_cases hkk : k = k'
    · subst hkk
      rw [List.getElem?_set_self hlt] at hk'
      cases hk'
      exact (hs.abandoned k c hk).send hm (.inr (Nat.le_refl _))
    · rw [List.getElem?_set_ne hkk] at hk'
      have hlt' := (List.getElem?_eq_some_iff.1 hk').1
      have hne : s.number k ≠ s.number k' := by
        simp only [State.number]
        omega
      exact (hs.abandoned k' c' hk').keep (by simp [Event.sentBy?, hne]) rfl
  | @missed c _ _ hcur _ _ _ _ =>
    cases k' with
    | zero =>
      cases hk'
      exact (hs.current _ hcur).keep rfl rfl
    | succ k =>
      have hnumber : s.abandoned.length + 1 - 1 - (k + 1) = s.number k := by
        simp only [State.number]
        omega
      rw [State.number, List.length_cons, hnumber]
      exact (hs.abandoned k c' hk').keep rfl rfl

theorem step (hs : Courses o jobs told s) (hr : Roster told s) (hc : Channels told s)
    (hstep : Step o jobs s e? s') : Courses o jobs (told ++ e?.toList) s' where
  answers := hs.answers_step hstep
  current := hs.current_step hr hc hstep
  abandoned := hs.abandoned_step hstep

/-- Every worker there has been keeps its course. -/
theorem consecutive (hs : Courses o jobs told s) (hr : Roster told s) {w i : Nat}
    (hw : (told.filterMap Event.startedAt?)[w]? = some i) :
    ∃ n, (sentBy told w).map Prod.fst = List.range' i n := by
  have hcourse : ∃ c, Course jobs told w c := by
    have hlt : w < s.workers := hr.length_starts ▸ (List.getElem?_eq_some_iff.1 hw).1
    by_cases hlast : w < s.abandoned.length
    · have hk : s.number w < s.abandoned.length := by
        simp only [State.number]
        omega
      have hnumber : s.number (s.number w) = w := by
        simp only [State.number]
        omega
      have hcourse := hs.abandoned _ _ (List.getElem?_eq_getElem hk)
      exact ⟨_, hnumber ▸ hcourse⟩
    · cases hcur : s.current with
      | none =>
        simp only [State.workers, hcur, Option.toList_none, List.length_nil] at hlt
        omega
      | some c =>
        simp only [State.workers, hcur, Option.toList_some, List.length_singleton] at hlt
        obtain rfl : w = s.abandoned.length := by omega
        exact ⟨c, hs.current c hcur⟩
  obtain ⟨c, i', n, hstart, hmessages, -⟩ := hcourse
  obtain rfl := Option.some.inj (hw.symm.trans hstart)
  exact ⟨n, hmessages⟩

end Courses

/-! ## Runs -/

/-- What holds of a state that can be reached, `told` being what has happened until then. -/
structure Chronicle (o : Options) (jobs : List Job) (told : List Event) (s : State) : Prop where
  sound : ∃ d, Sound o jobs d s
  vacant : Vacant s
  slots : Slots o jobs told s.next s.results
  roster : Roster told s
  channels : Channels told s
  courses : Courses o jobs told s

theorem initial_chronicle (o : Options) (jobs : List Job) (token : Token) :
    Chronicle o jobs [] (initial jobs token) where
  sound := ⟨[], initial_sound o jobs token⟩
  vacant := fun _ => rfl
  slots := ⟨rfl, nofun⟩
  roster := ⟨rfl, rfl⟩
  channels := ⟨fun _ => List.prefix_rfl, nofun, nofun, nofun, .nil⟩
  courses := ⟨nofun, nofun, nofun⟩

theorem Chronicle.step (hs : Chronicle o jobs told s) (a : Action) :
    Chronicle o jobs (told ++ (event? o jobs s a).toList) (step o jobs s a) := by
  obtain ⟨d, hsound⟩ := hs.sound
  have hstep := step_cases hsound hs.vacant a
  exact {
    sound := ⟨_, step_sound hsound a⟩
    vacant := step_vacant hs.vacant a
    slots := hs.slots.step hstep
    roster := hs.roster.step hstep
    channels := hs.channels.step hstep
    courses := hs.courses.step hs.roster hs.channels hstep }

theorem run_chronicle (o : Options) (jobs : List Job) (token : Token) (schedule : Schedule) :
    Chronicle o jobs (events o jobs (initial jobs token) schedule)
      (run o jobs (initial jobs token) schedule) :=
  Machine.run_record (Chronicle o jobs) (fun _ _ a hs => hs.step a)
    (initial_chronicle o jobs token) schedule

/-- What is received about a job was sent about it. -/
theorem Chronicle.own (hs : Chronicle o jobs told s) {e : Event} (he : e ∈ told) {i : Nat}
    {r : ModuleResult} (hfills : e.Fills o jobs i r) :
    IsAnswer o jobs i r ∨ IsTimeout o jobs i r := by
  cases e with
  | received w k x =>
    obtain ⟨rfl, rfl⟩ := hfills
    have hsent := sent_of_mem_sentBy ((hs.channels.fifo w).subset (mem_receivedFrom he))
    exact .inl (hs.courses.answers w k x hsent)
  | missed w k => exact .inr hfills.2
  | _ => exact hfills.elim

/-- A chain in order. -/
structure InTurn (o : Options) (jobs : List Job) (told : List Event) (s : State) : Prop where
  /-- The slots of jobs before the one that is waited for are filled. -/
  filled : ∀ i, i < s.next → ∃ r, s.results[i]? = some (some r)
  /-- The slots from there on are empty. -/
  empty : ∀ i, s.next ≤ i → i < jobs.length → s.results[i]? = some none
  /-- The messages on their way are about consecutive jobs, from the one that is waited for on. -/
  messages : ∀ c, s.current = some c →
    c.sent.map Prod.fst = List.range' s.next c.sent.length
  /-- Each slot has been filled once, and none was left out. -/
  once : told.filterMap Event.slot? = List.range s.next
  /-- A slot holds what was received about its job, or that the budget ran out while that job was
  waited for. -/
  origin : ∀ i r, s.results[i]? = some (some r) ↔ ∃ e ∈ told, e.Fills o jobs i r
  /-- A slot holds the answer about its own job, or that its own job was too late. -/
  own : ∀ i r, s.results[i]? = some (some r) → IsAnswer o jobs i r ∨ IsTimeout o jobs i r
  /-- Nobody is abandoned without a budget. -/
  budget : ∀ w i, .missed w i ∈ told → ∃ b, o.budget = some b
  /-- What is sent about a job is its answer, timed. -/
  answers : ∀ w i r, .sent w i r ∈ told → IsAnswer o jobs i r
  /-- A worker sends about consecutive jobs, from the one it was started at on. -/
  consecutive : ∀ w i, (told.filterMap Event.startedAt?)[w]? = some i →
    ∃ n, (sentBy told w).map Prod.fst = List.range' i n
  /-- A worker is heard in the order it sends. -/
  fifo : ∀ w, receivedFrom told w <+: sentBy told w
  /-- What the current worker has sent has been received or is on its way. -/
  current : ∀ c, s.current = some c →
    sentBy told s.abandoned.length = receivedFrom told s.abandoned.length ++ c.sent
  /-- Of a worker that has been abandoned nothing is received any more. -/
  deaf : told.Pairwise fun e later => ∀ w i k r, e = .missed w i → later ≠ .received w k r
  /-- Each worker is started at a later job than the one before it, right behind one that was
  missed. -/
  restarts : (told.filterMap Event.startedAt?).Pairwise (· < ·) ∧
    told.filterMap Event.startedAt? <+: 0 :: (told.filterMap Event.missedAt?).map (· + 1)
  /-- One worker and one more for each job that was missed are the most there are. -/
  workers : (told.filterMap Event.startedAt?).length = s.workers ∧
    s.workers ≤ (told.filterMap Event.missedAt?).length + 1

theorem Chronicle.inTurn (hs : Chronicle o jobs told s) : InTurn o jobs told s := by
  obtain ⟨d, hsound⟩ := hs.sound
  have hprefix : told.filterMap Event.startedAt? <+:
      0 :: (told.filterMap Event.missedAt?).map (· + 1) :=
    ⟨_, hs.roster.starts.symm⟩
  exact {
    filled := fun i hi => (hsound.filled.settled i hi).imp fun _ hr => hr.1
    empty := hsound.filled.empty
    messages := fun c hcur => (hsound.queue c hcur).indices
    once := hs.slots.once
    origin := hs.slots.origin hsound.filled
    own := by
      intro i r hr
      obtain ⟨e, he, hfills⟩ := (hs.slots.origin hsound.filled i r).1 hr
      exact hs.own he hfills
    budget := by
      intro w i hmem
      obtain ⟨r, ⟨-, j, b, -, hb, -⟩, -⟩ := hs.slots.kept _ hmem i rfl
      exact ⟨b, hb⟩
    answers := hs.courses.answers
    consecutive := fun w i => hs.courses.consecutive hs.roster
    fifo := hs.channels.fifo
    current := hs.channels.current
    deaf := hs.channels.deaf
    restarts := by
      refine ⟨?_, hprefix⟩
      refine List.Pairwise.sublist hprefix.sublist (List.pairwise_cons.2 ⟨?_, ?_⟩)
      · intro i hi
        obtain ⟨k, -, rfl⟩ := List.mem_map.1 hi
        exact Nat.succ_pos k
      · exact List.pairwise_map.2 (hs.slots.missed_sorted.imp Nat.succ_lt_succ)
    workers := by
      refine ⟨hs.roster.length_starts, ?_⟩
      rw [← hs.roster.length_starts]
      simpa using hprefix.length_le }

/-- Whatever happens when, a chain is `InTurn`: slots are filled in their order, once each, and with
nothing but what the current worker had to say about their own jobs or that these were too late. A
worker that has been abandoned is not heard again, and another is started behind the job that was
missed. Every step from there on is one of the six of `Step`. -/
theorem slots_filled_in_turn (o : Options) (jobs : List Job) (token : Token)
    (schedule : Schedule) :
    let s := run o jobs (initial jobs token) schedule
    let told := events o jobs (initial jobs token) schedule
    InTurn o jobs told s ∧ ∀ a, Step o jobs s (event? o jobs s a) (step o jobs s a) := by
  intro s told
  have hs : Chronicle o jobs told s := run_chronicle o jobs token schedule
  obtain ⟨d, hsound⟩ := hs.sound
  exact ⟨hs.inTurn, step_cases hsound hs.vacant⟩

/-- A job that never ends is given up, and a second worker goes on behind it. -/
example (r : ModuleResult) :
    let jobs : List Job :=
      [⟨"stuck", { ending := .stalls }⟩, ⟨"quick", { ending := .returns r }⟩]
    events { budget := some ⟨1, by decide⟩ } jobs (initial jobs .own)
      [.main, .main, .worker 0, .tick 1, .main, .main, .main, .main, .worker 0, .worker 0, .main,
        .main, .main] =
    [.started 0, .missed 0 0, .started 1, .sent 1 1 r, .received 1 1 r] := by
  cbv

end Sequential
end Evaluation
end ShellPrompt
