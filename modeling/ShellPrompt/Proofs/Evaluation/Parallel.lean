import ShellPrompt.Evaluation.Parallel
import ShellPrompt.Proofs.Evaluation.Diary

/-!
# ShellPrompt.Proofs.Evaluation.Parallel

What holds of one worker per job under every schedule.

* `marks`: what a step adds to the diary.
* `Mail`: the invariant of workers, channel and results. A message is what its worker has to
  report, no job has two, and an answer that was given is either on its way or in its slot.
* `Noted`: the invariant of diary, workers and results.
* `Sound`: both, and what each point of the evaluating thread knows. `step_sound` is the step
  lemma, by a lemma for each of these points; `run_sound` is the run lemma, and `Sound.reports` what
  follows at the end.
-/

namespace ShellPrompt
namespace Evaluation
namespace Parallel

def vacant (s : State) (i : Nat) : Bool := s.results[i]?.any Option.isNone

def marks (jobs : List Job) (s : State) : Action → List Mark
  | .main =>
    match s.control with
    | .arm => [.armed]
    | .clock =>
      if Evaluation.expired s.deadline s.now then
        .looked :: ((List.range jobs.length).filter (vacant s)).map .gaveUp
      else [.looked]
    | .receive => (s.channel.head?.map fun m => Mark.took m.1).toList
    | _ => []
  | .worker i =>
    match jobs[i]?, s.workers[i]? with
    | some _, some .idle => [.began i]
    | some j, some .running => if j.result?.isSome then [.answered i] else []
    | _, _ => []
  | _ => []

theorem lawful (o : Options) (jobs : List Job) : (machine o jobs).Lawful where
  others := by
    intro s a ha
    cases a with
    | main => exact absurd rfl ha
    | worker i =>
      simp only [machine, step, workerStep]
      repeat' split
      all_goals rfl
    | tick ns => rfl
    | cancel => rfl
  ended := by
    intro s v hv
    simp only [machine] at hv ⊢
    simp only [step, mainStep, hv]
  now := by
    intro s a
    cases a with
    | main =>
      simp only [machine, step, mainStep]
      repeat' split
      all_goals rfl
    | worker i =>
      simp only [machine, step, workerStep]
      repeat' split
      all_goals rfl
    | tick ns => rfl
    | cancel => rfl
  token := by
    intro s a
    cases a with
    | main =>
      refine ⟨false, ?_⟩
      simp only [machine, step, mainStep]
      repeat' split
      all_goals rfl
    | worker i =>
      simp only [machine, step, workerStep]
      split
      case h_1 j _ _ => exact ⟨j.run.cancels, rfl⟩
      case h_2 => split <;> exact ⟨false, rfl⟩
      case h_3 => exact ⟨false, rfl⟩
    | tick ns => exact ⟨false, rfl⟩
    | cancel => exact ⟨true, rfl⟩

/-! ## Messages -/

variable {o : Options} {jobs : List Job}

theorem keep_set {workers : List Worker} {i k : Nat} {old new w : Worker}
    (hold : workers[i]? = some old) (hk : workers[k]? = some w) (hne : old ≠ w) :
    (workers.set i new)[k]? = some w := by
  refine (List.getElem?_set_ne ?_).trans hk
  rintro rfl
  exact hne (Option.some.inj (hold.symm.trans hk))

theorem of_set {workers : List Worker} {i k : Nat} {new w : Worker}
    (hk : (workers.set i new)[k]? = some w) (hne : new ≠ w) : workers[k]? = some w := by
  by_cases hik : i = k
  · subst hik
    obtain ⟨hlt, hget⟩ := List.getElem?_eq_some_iff.1 hk
    exact absurd (by simpa using hget) hne
  · rwa [List.getElem?_set_ne hik] at hk

/-- Workers, channel and results agree. -/
structure Mail (o : Options) (jobs : List Job) (workers : List Worker)
    (channel : List (Nat × ModuleResult)) (results : List (Option ModuleResult))
    (pending : Nat) : Prop where
  workers_length : workers.length = jobs.length
  results_length : results.length = jobs.length
  absent : ∀ i : Nat, workers[i]? = some .absent → ∃ r, results[i]? = some (some r)
  refused : ∀ i j why, jobs[i]? = some j → o.refuses i = some why →
    workers[i]? = some .absent ∧ results[i]? = some (some (.error (unspawned j why)))
  sent : ∀ m ∈ channel, workers[m.1]? = some .answered ∧ results[m.1]? = some none ∧
    ∃ j, jobs[m.1]? = some j ∧ j.result? = some m.2
  distinct : (channel.map Prod.fst).Nodup
  filled : ∀ (i : Nat) r, results[i]? = some (some r) → o.refuses i = none →
    workers[i]? = some .answered ∧ ∃ j, jobs[i]? = some j ∧ j.result? = some r
  answered : ∀ i : Nat, workers[i]? = some .answered →
    i ∈ channel.map Prod.fst ∨ ∃ r, results[i]? = some (some r)
  pending : pending = results.countP Option.isNone

namespace Mail

variable {workers : List Worker} {channel : List (Nat × ModuleResult)}
  {results : List (Option ModuleResult)} {pending : Nat}

theorem initial (o : Options) (jobs : List Job) :
    Mail o jobs (firstWorkers o jobs) [] (firstResults o jobs)
      ((firstResults o jobs).countP Option.isNone) where
  workers_length := by simp [firstWorkers]
  results_length := by simp [firstResults]
  absent := fun i hi => by
    obtain ⟨j, hj, hw⟩ : ∃ j, jobs[i]? = some j ∧
        (if (o.refuses i).isSome then Worker.absent else .idle) = .absent := by
      simpa [firstWorkers, Option.map_eq_some_iff] using hi
    cases hr : o.refuses i with
    | none => simp [hr] at hw
    | some why => exact ⟨.error (unspawned j why), by simp [firstResults, hj, hr]⟩
  refused := fun i j why hj hr => by simp [firstWorkers, firstResults, hj, hr]
  sent := nofun
  distinct := List.nodup_nil
  filled := fun i r hi hr => by
    rw [firstResults, List.getElem?_mapIdx, Option.map_eq_some_iff] at hi
    obtain ⟨j, -, hi⟩ := hi
    rw [hr] at hi
    cases hi
  answered := fun i hi => by
    rw [firstWorkers, List.getElem?_mapIdx, Option.map_eq_some_iff] at hi
    obtain ⟨j, -, hi⟩ := hi
    split at hi <;> cases hi
  pending := rfl

theorem start (h : Mail o jobs workers channel results pending) {i : Nat}
    (hw : workers[i]? = some .idle) :
    Mail o jobs (workers.set i .running) channel results pending :=
  { h with
    workers_length := by rw [List.length_set, h.workers_length]
    absent := fun k hk => h.absent k (of_set hk nofun)
    refused := fun k j why hj hr =>
      (h.refused k j why hj hr).imp_left fun hk => keep_set hw hk nofun
    sent := fun m hm => (h.sent m hm).imp_left fun hk => keep_set hw hk nofun
    filled := fun k r hk hr => (h.filled k r hk hr).imp_left fun hk => keep_set hw hk nofun
    answered := fun k hk => h.answered k (of_set hk nofun) }

/-- The slot of a job that runs is empty. -/
theorem empty_of_running (h : Mail o jobs workers channel results pending) {i : Nat}
    (hw : workers[i]? = some .running) : results[i]? = some none := by
  have hlt : i < results.length := by
    rw [h.results_length, ← h.workers_length]
    exact (List.getElem?_eq_some_iff.1 hw).1
  rw [List.getElem?_eq_getElem hlt]
  cases hres : results[i] with
  | none => rfl
  | some r =>
    have hi : results[i]? = some (some r) := by rw [List.getElem?_eq_getElem hlt, hres]
    have hbusy : workers[i]? = some .absent ∨ workers[i]? = some .answered := by
      cases hr : o.refuses i with
      | none => exact .inr (h.filled i r hi hr).1
      | some why =>
        have hj := List.getElem?_eq_getElem (h.results_length ▸ hlt)
        exact .inl (h.refused i _ why hj hr).1
    rw [hw] at hbusy
    rcases hbusy with hbusy | hbusy <;> cases hbusy

theorem answer (h : Mail o jobs workers channel results pending) {i : Nat} {j : Job}
    {r : ModuleResult} (hw : workers[i]? = some .running) (hj : jobs[i]? = some j)
    (hr : j.result? = some r) :
    Mail o jobs (workers.set i .answered) (channel ++ [(i, r)]) results pending := by
  have hself : (workers.set i .answered)[i]? = some .answered :=
    List.getElem?_set_self (List.getElem?_eq_some_iff.1 hw).1
  refine { h with
    workers_length := by rw [List.length_set, h.workers_length]
    absent := fun k hk => h.absent k (of_set hk nofun)
    refused := fun k j' why hj' hr' =>
      (h.refused k j' why hj' hr').imp_left fun hk => keep_set hw hk nofun
    sent := List.forall_mem_append.2 ⟨fun m hm => (h.sent m hm).imp_left fun hk =>
      keep_set hw hk nofun, List.forall_mem_singleton.2 ⟨hself, h.empty_of_running hw, j, hj, hr⟩⟩
    distinct := ?_
    filled := fun k r' hk hr' => (h.filled k r' hk hr').imp_left fun hk => keep_set hw hk nofun
    answered := fun k hk => ?_ }
  · rw [List.map_append, List.nodup_append]
    refine ⟨h.distinct, by simp, ?_⟩
    rintro k hk k' hk' rfl
    obtain rfl : k = i := by simpa using hk'
    obtain ⟨m, hm, rfl⟩ := List.mem_map.1 hk
    have hanswered := (h.sent m hm).1
    rw [hw] at hanswered
    cases hanswered
  · rw [List.map_append, List.mem_append]
    by_cases hik : i = k
    · exact .inl (.inr (by simp [hik]))
    · rw [List.getElem?_set_ne hik] at hk
      exact (h.answered k hk).imp_left .inl

theorem take {i : Nat} {r : ModuleResult} {rest : List (Nat × ModuleResult)}
    (h : Mail o jobs workers ((i, r) :: rest) results pending) :
    Mail o jobs workers rest (results.set i (some r)) (pending - 1) := by
  obtain ⟨hw, hempty, hj⟩ := h.sent (i, r) (List.mem_cons_self ..)
  obtain ⟨hi, hnone⟩ := List.getElem?_eq_some_iff.1 hempty
  have hself : (results.set i (some r))[i]? = some (some r) := List.getElem?_set_self hi
  have hfirst := h.distinct
  rw [List.map_cons, List.nodup_cons] at hfirst
  have filled_of : ∀ k : Nat, (∃ r', results[k]? = some (some r')) →
      ∃ r', (results.set i (some r))[k]? = some (some r') := by
    rintro k ⟨r', hk⟩
    by_cases hik : i = k
    · exact ⟨r, hik ▸ hself⟩
    · exact ⟨r', by rwa [List.getElem?_set_ne hik]⟩
  refine {
    workers_length := h.workers_length
    results_length := by rw [List.length_set, h.results_length]
    absent := fun k hk => filled_of k (h.absent k hk)
    refused := fun k j why hj' hr => ?_
    sent := fun m hm => ?_
    distinct := hfirst.2
    filled := fun k r' hk hr => ?_
    answered := fun k hk => ?_
    pending := ?_ }
  · obtain ⟨habsent, hslot⟩ := h.refused k j why hj' hr
    refine ⟨habsent, (List.getElem?_set_ne ?_).trans hslot⟩
    rintro rfl
    exact nomatch hempty.symm.trans hslot
  · obtain ⟨hanswered, hslot, hrest⟩ := h.sent m (List.mem_cons_of_mem _ hm)
    refine ⟨hanswered, (List.getElem?_set_ne ?_).trans hslot, hrest⟩
    rintro rfl
    exact hfirst.1 (List.mem_map.2 ⟨m, hm, rfl⟩)
  · by_cases hik : i = k
    · subst hik
      obtain rfl := Option.some.inj (Option.some.inj (hself.symm.trans hk))
      exact ⟨hw, hj⟩
    · rw [List.getElem?_set_ne hik] at hk
      exact h.filled k r' hk hr
  · rcases h.answered k hk with hc | hc
    · rcases List.mem_cons.1 hc with rfl | hc
      · exact .inr ⟨r, hself⟩
      · exact .inl hc
    · exact .inr (filled_of k hc)
  · rw [List.countP_set hi, hnone, h.pending]
    simp

/-- When no message is left and nothing is to be expected of any worker, every slot is filled. -/
theorem full_of_gone (h : Mail o jobs workers [] results pending)
    (hall : workers.all Worker.gone = true) (i : Nat) : results[i]? ≠ some none := by
  intro hi
  have hlt : i < workers.length := by
    rw [h.workers_length, ← h.results_length]
    exact (List.getElem?_eq_some_iff.1 hi).1
  have hgone : (workers[i]).gone = true := List.all_eq_true.1 hall _ (List.getElem_mem hlt)
  have hfilled : ∃ r, results[i]? = some (some r) := by
    have hw := List.getElem?_eq_getElem hlt
    cases hworker : workers[i] with
    | idle | running =>
      rw [hworker] at hgone
      cases hgone
    | answered => exact (h.answered i (hworker ▸ hw)).resolve_left List.not_mem_nil
    | absent => exact h.absent i (hworker ▸ hw)
  obtain ⟨r, hr⟩ := hfilled
  exact nomatch hi.symm.trans hr

theorem full_of_pending (h : Mail o jobs workers channel results 0) (i : Nat) :
    results[i]? ≠ some none := by
  intro hi
  have hnone := List.countP_eq_zero.1 h.pending.symm none (List.mem_of_getElem? hi)
  exact hnone rfl

end Mail

/-! ## The diary -/

/-- Diary, workers and results agree. -/
structure Noted (o : Options) (d : Diary) (workers : List Worker)
    (results : List (Option ModuleResult)) (expired : Bool) : Prop where
  began : ∀ i : Nat, workers[i]? = some .running → ∃ t, d.last? (.began i) = some t
  ran : ∀ i : Nat, workers[i]? = some .answered → ∃ e, d.runTime? i = some e
  taken : ∀ (i : Nat) r, results[i]? = some (some r) → o.refuses i = none → d.Taken o i
  filled : ∀ i, d.Tells (.took i) → o.refuses i = none ∧ ∃ r, results[i]? = some (some r)
  gaveUp : ∀ i, d.Tells (.gaveUp i) ↔ expired = true ∧ results[i]? = some none
  late : ∀ i, d.Tells (.gaveUp i) → d.GivenUp o i

namespace Noted

variable {d : Diary} {workers : List Worker} {results : List (Option ModuleResult)}
  {expired : Bool} {i : Nat}

theorem initial (o : Options) (jobs : List Job) :
    Noted o [] (firstWorkers o jobs) (firstResults o jobs) false where
  began := fun i hi => by
    rw [firstWorkers, List.getElem?_mapIdx, Option.map_eq_some_iff] at hi
    obtain ⟨j, -, hi⟩ := hi
    split at hi <;> cases hi
  ran := fun i hi => by
    rw [firstWorkers, List.getElem?_mapIdx, Option.map_eq_some_iff] at hi
    obtain ⟨j, -, hi⟩ := hi
    split at hi <;> cases hi
  taken := fun i r hi hr => by
    rw [firstResults, List.getElem?_mapIdx, Option.map_eq_some_iff] at hi
    obtain ⟨j, -, hi⟩ := hi
    rw [hr] at hi
    cases hi
  filled := by simp [Diary.Tells]
  gaveUp := by simp [Diary.Tells]
  late := by simp [Diary.Tells]

/-- Marks that are about no job. -/
theorem look (h : Noted o d workers results expired) (t : Nat) {mark : Mark}
    (hmark : mark = .armed ∨ mark = .looked) :
    Noted o (d.note t [mark]) workers results expired := by
  refine ⟨fun i hi => ?_, fun i hi => ?_, fun i r hi hr => (h.taken i r hi hr).note t _,
    fun i hi => h.filled i ?_, fun i => ?_, fun i hi => (h.late i ?_).note t _⟩
  · rw [Diary.last?_note_of_notMem t (by rcases hmark with rfl | rfl <;> simp)]
    exact h.began i hi
  · rw [Diary.runTime?_note_of_notMem t (by rcases hmark with rfl | rfl <;> simp)
      (by rcases hmark with rfl | rfl <;> simp)]
    exact h.ran i hi
  · rcases hmark with rfl | rfl <;> simpa [Diary.tells_note] using hi
  · rcases hmark with rfl | rfl <;> simpa [Diary.tells_note] using h.gaveUp i
  · rcases hmark with rfl | rfl <;> simpa [Diary.tells_note] using hi

theorem start (h : Noted o d workers results expired) (hw : workers[i]? = some .idle) (t : Nat) :
    Noted o (d.note t [.began i]) (workers.set i .running) results expired where
  began := fun k hk => by
    by_cases hik : i = k
    · exact ⟨t, hik ▸ Diary.last?_note_self d t _⟩
    · rw [List.getElem?_set_ne hik] at hk
      rw [Diary.last?_note_of_notMem t (by simpa using Ne.symm hik)]
      exact h.began k hk
  ran := fun k hk => by
    have hold := of_set hk nofun
    have hne : k ≠ i := by
      rintro rfl
      exact nomatch hw.symm.trans hold
    rw [Diary.runTime?_note_of_notMem t (by simpa using hne) (by simp)]
    exact h.ran k hold
  taken := fun k r hk hr => (h.taken k r hk hr).note t _
  filled := fun k hk => h.filled k (by simpa [Diary.tells_note] using hk)
  gaveUp := fun k => by simpa [Diary.tells_note] using h.gaveUp k
  late := fun k hk => (h.late k (by simpa [Diary.tells_note] using hk)).note t _

theorem answer (h : Noted o d workers results expired) (hw : workers[i]? = some .running)
    (t : Nat) : Noted o (d.note t [.answered i]) (workers.set i .answered) results expired where
  began := fun k hk => by
    rw [Diary.last?_note_of_notMem t (by simp)]
    exact h.began k (of_set hk nofun)
  ran := fun k hk => by
    by_cases hik : i = k
    · obtain ⟨began, hbegan⟩ := h.began i hw
      subst hik
      exact ⟨_, Diary.runTime?_answered hbegan t⟩
    · rw [List.getElem?_set_ne hik] at hk
      rw [Diary.runTime?_note_of_notMem t (by simp) (by simpa using Ne.symm hik)]
      exact h.ran k hk
  taken := fun k r hk hr => (h.taken k r hk hr).note t _
  filled := fun k hk => h.filled k (by simpa [Diary.tells_note] using hk)
  gaveUp := fun k => by simpa [Diary.tells_note] using h.gaveUp k
  late := fun k hk => (h.late k (by simpa [Diary.tells_note] using hk)).note t _

theorem take (h : Noted o d workers results false) {r : ModuleResult}
    (hi : i < results.length) (hr : o.refuses i = none) (t : Nat)
    (htaken : (d.note t [.took i]).Taken o i) :
    Noted o (d.note t [.took i]) workers (results.set i (some r)) false where
  began := fun k hk => by
    rw [Diary.last?_note_of_notMem t (by simp)]
    exact h.began k hk
  ran := fun k hk => by
    rw [Diary.runTime?_note_of_notMem t (by simp) (by simp)]
    exact h.ran k hk
  taken := fun k r' hk hr' => by
    by_cases hik : i = k
    · exact hik ▸ htaken
    · rw [List.getElem?_set_ne hik] at hk
      exact (h.taken k r' hk hr').note t _
  filled := fun k hk => by
    by_cases hik : i = k
    · subst hik
      exact ⟨hr, r, List.getElem?_set_self hi⟩
    · rw [List.getElem?_set_ne hik]
      exact h.filled k (by simpa [Diary.tells_note, Ne.symm hik] using hk)
  gaveUp := fun k => by simpa [Diary.tells_note] using h.gaveUp k
  late := fun k hk => (h.late k (by simpa [Diary.tells_note] using hk)).note t _

/-- All jobs with empty slots are given up, within one look at the clock. -/
theorem giveUp (hp : o.parallel = true) (h : Noted o d workers results false) {w : Diary.Wait}
    {b : Span} (hw : Diary.wait? o d = some w) (hb : o.budget = some b) {t : Nat}
    (hover : w.since + b.nanos ≤ t) {is : List Nat} (his : ∀ i, i ∈ is ↔ results[i]? = some none) :
    Noted o (d.note t (.looked :: is.map .gaveUp)) workers results true := by
  have hnone : ∀ i, ¬ d.Tells (.gaveUp i) := fun i hi => Bool.false_ne_true ((h.gaveUp i).1 hi).1
  have htells : ∀ i, (d.note t (.looked :: is.map .gaveUp)).Tells (.gaveUp i) ↔ i ∈ is := by
    intro i
    simp [Diary.tells_note, hnone i]
  refine ⟨fun i hi => ?_, fun i hi => ?_, fun i r hi hr => (h.taken i r hi hr).note t _,
    fun i hi => h.filled i (by simpa [Diary.tells_note] using hi),
    fun i => by rw [htells, his]; exact (and_iff_right rfl).symm, fun i hi => ?_⟩
  · rw [Diary.last?_note_of_notMem t (by simp)]
    exact h.began i hi
  · rw [Diary.runTime?_note_of_notMem t (by simp) (by simp)]
    exact h.ran i hi
  · obtain ⟨before, after, rfl⟩ := List.append_of_mem ((htells i).1 hi)
    have hwait : Diary.wait? o ((d.note t [.looked]).note t (before.map .gaveUp)) =
        some { w with seen := t } := by
      rw [Diary.wait?_shared hp t (by simp), Diary.wait?_looked hw]
    refine ⟨{ w with seen := t }, b, ?_, hb, hover⟩
    exact ⟨_, t, (after.map .gaveUp).map (Prod.mk t), by simp [Diary.note], hwait⟩

end Noted

/-! ## Runs -/

/-- No slot is left empty, unless the deadline has been noticed. -/
def Closed (expired : Bool) (results : List (Option ModuleResult)) : Prop :=
  expired = true ∨ ∀ i : Nat, results[i]? ≠ some none

/-- What holds of a state that can be reached. -/
structure Sound (o : Options) (jobs : List Job) (d : Diary) (s : State) : Prop where
  mail : Mail o jobs s.workers s.channel s.results s.pending
  noted : Noted o d s.workers s.results s.expired
  waits : s.control.Looking → ∃ w, d.wait? o = some w ∧ s.deadline = o.deadline w.since ∧
    (s.control = .receive → ∀ b, o.budget = some b → w.seen < w.since + b.nanos)
  gone : s.expired = true → s.control = .finish ∨ ∃ v, s.control = .done v
  finish : s.control = .finish → Closed s.expired s.results
  cancelled : s.control = .done .cancelled → s.token.isCancelled = true
  results : ∀ rs, s.control = .done (.results rs) →
    rs = collect o jobs s ∧ Closed s.expired s.results

variable {token : Token} {d : Diary} {s : State}

theorem control_initial {c : Control} (h : (initial o jobs token).control = c) :
    c = .arm ∨ ∃ name, c = .done (.crashed (.workerName name)) := by
  subst h
  simp only [initial]
  split
  · exact .inr ⟨_, rfl⟩
  · exact .inl rfl

theorem initial_sound (o : Options) (jobs : List Job) (token : Token) :
    Sound o jobs [] (initial o jobs token) := by
  refine ⟨.initial o jobs, .initial o jobs, fun h => ?_, nofun, fun h => ?_, fun h => ?_,
    fun rs h => ?_⟩
  · rcases h with h | h | h <;> rcases control_initial h with h | ⟨_, h⟩ <;> cases h
  all_goals rcases control_initial h with h | ⟨_, h⟩ <;> cases h

theorem Sound.worker (h : Sound o jobs d s) (t : Nat) {more : List Mark}
    (hmore : ∀ mark ∈ more, ∃ k, mark = .began k ∨ mark = .answered k) {s' : State}
    (hmail : Mail o jobs s'.workers s'.channel s'.results s'.pending)
    (hnoted : Noted o (d.note t more) s'.workers s'.results s'.expired)
    (hcontrol : s'.control = s.control) (hdeadline : s'.deadline = s.deadline)
    (hexpired : s'.expired = s.expired) (hresults : s'.results = s.results)
    (htoken : s.token.isCancelled = true → s'.token.isCancelled = true) :
    Sound o jobs (d.note t more) s' := by
  have hcollect : collect o jobs s' = collect o jobs s := by simp [collect, hresults, hexpired]
  refine ⟨hmail, hnoted, ?_, ?_, ?_, ?_, ?_⟩
  · rw [hcontrol, hdeadline, Diary.wait?_worker t hmore]
    exact h.waits
  · rw [hcontrol, hexpired]
    exact h.gone
  · rw [hcontrol, hexpired, hresults]
    exact h.finish
  · rw [hcontrol]
    exact fun hc => htoken (h.cancelled hc)
  · rw [hcontrol, hexpired, hresults, hcollect]
    exact h.results

theorem workerStep_sound (h : Sound o jobs d s) (i : Nat) :
    Sound o jobs (d.note s.now (marks jobs s (.worker i))) (workerStep jobs s i) := by
  unfold workerStep
  split
  case h_1 j hj hw =>
    have hmarks : marks jobs s (.worker i) = [.began i] := by simp only [marks, hj, hw]
    rw [hmarks]
    exact h.worker s.now (by simp) (h.mail.start hw) (h.noted.start hw s.now) rfl rfl rfl rfl
      (Token.isCancelled_cancelIf _)
  case h_2 j hj hw =>
    split
    case h_1 r hr =>
      have hmarks : marks jobs s (.worker i) = [.answered i] := by
        simp only [marks, hj, hw, hr, Option.isSome_some, if_true]
      rw [hmarks]
      exact h.worker s.now (by simp) (h.mail.answer hw hj hr) (h.noted.answer hw s.now) rfl rfl
        rfl rfl id
    case h_2 hr =>
      have hmarks : marks jobs s (.worker i) = [] := by
        simp only [marks, hj, hw, hr, Option.isSome_none, Bool.false_eq_true, if_false]
      rw [hmarks, Diary.note_nil]
      exact h
  case h_3 =>
    have hmarks : marks jobs s (.worker i) = [] := by simp only [marks]
    rw [hmarks, Diary.note_nil]
    exact h

/-! ### The evaluating thread -/

/-- As long as the thread works, the deadline has not been noticed. -/
theorem Sound.not_expired (h : Sound o jobs d s) (hf : s.control ≠ .finish)
    (hd : ∀ v, s.control ≠ .done v) : s.expired = false := by
  cases hx : s.expired with
  | false => rfl
  | true =>
    rcases h.gone hx with hc | ⟨v, hc⟩
    · exact absurd hc hf
    · exact absurd hc (hd v)

/-- The thread waits, and has not noticed the deadline. -/
theorem sound_of_looking {c : Control} (hc : c.Looking)
    (hmail : Mail o jobs s.workers s.channel s.results s.pending)
    (hnoted : Noted o d s.workers s.results s.expired) (hx : s.expired = false)
    (hwait : ∃ w, d.wait? o = some w ∧ s.deadline = o.deadline w.since ∧
      (c = .receive → ∀ b, o.budget = some b → w.seen < w.since + b.nanos)) :
    Sound o jobs d { s with control := c } where
  mail := hmail
  noted := hnoted
  waits := fun _ => hwait
  gone := by simp [hx]
  finish := by rintro rfl; rcases hc with hc | hc | hc <;> cases hc
  cancelled := by rintro rfl; rcases hc with hc | hc | hc <;> cases hc
  results := by rintro rs rfl; rcases hc with hc | hc | hc <;> cases hc

/-- Where the thread waits no longer. -/
def Ending (o : Options) (jobs : List Job) (s : State) (c : Control) : Prop :=
  c = .finish ∧ Closed s.expired s.results ∨
    c = .done .cancelled ∧ s.token.isCancelled = true ∨
    c = .done (.results (collect o jobs s)) ∧ Closed s.expired s.results ∨
    ∃ e, c = .done (.crashed e)

theorem sound_of_ending {c : Control} (hc : Ending o jobs s c)
    (hmail : Mail o jobs s.workers s.channel s.results s.pending)
    (hnoted : Noted o d s.workers s.results s.expired) :
    Sound o jobs d { s with control := c } := by
  refine ⟨hmail, hnoted, ?_, fun _ => ?_, ?_, ?_, ?_⟩
  all_goals rcases hc with ⟨rfl, hclosed⟩ | ⟨rfl, ht⟩ | ⟨rfl, hclosed⟩ | ⟨e, rfl⟩
  case refine_2.inl => exact .inl rfl
  case refine_2.inr.inl | refine_2.inr.inr.inl | refine_2.inr.inr.inr => exact .inr ⟨_, rfl⟩
  case refine_3.inl => exact fun _ => hclosed
  case refine_4.inr.inl => exact fun _ => ht
  case refine_5.inr.inr.inl =>
    rintro rs hrs
    cases hrs
    exact ⟨rfl, hclosed⟩
  all_goals simp [Control.Looking]

theorem arm_sound (h : Sound o jobs d s) (hc : s.control = .arm) :
    Sound o jobs (d.note s.now (marks jobs s .main)) (mainStep o jobs s) := by
  have hmarks : marks jobs s .main = [.armed] := by simp only [marks, hc]
  have hnoted := h.noted.look s.now (.inl rfl)
  rw [hmarks]
  simp only [mainStep, hc]
  split
  case isTrue => exact sound_of_ending (.inr (.inr (.inr ⟨_, rfl⟩))) h.mail hnoted
  case isFalse =>
    exact sound_of_looking (s := { s with deadline := o.deadline s.now }) (.inl rfl) h.mail hnoted
      (h.not_expired (by simp [hc]) (by simp [hc])) ⟨_, Diary.wait?_armed o d s.now, rfl, nofun⟩

theorem poll_sound (h : Sound o jobs d s) (hc : s.control = .poll) :
    Sound o jobs (d.note s.now (marks jobs s .main)) (mainStep o jobs s) := by
  have hmarks : marks jobs s .main = [] := by simp only [marks, hc]
  obtain ⟨w, hw, hdeadline, -⟩ := h.waits (.inl hc)
  rw [hmarks, Diary.note_nil]
  simp only [mainStep, hc]
  split
  case isTrue hp =>
    have hmail := h.mail
    rw [hp] at hmail
    exact sound_of_ending (.inl ⟨rfl, .inr hmail.full_of_pending⟩) h.mail h.noted
  case isFalse =>
    split
    case isTrue ht => exact sound_of_ending (.inr (.inl ⟨rfl, ht⟩)) h.mail h.noted
    case isFalse =>
      exact sound_of_looking (.inr (.inl rfl)) h.mail h.noted
        (h.not_expired (by simp [hc]) (by simp [hc])) ⟨w, hw, hdeadline, nofun⟩

theorem clock_sound (hp : o.parallel = true) (h : Sound o jobs d s) (hc : s.control = .clock) :
    Sound o jobs (d.note s.now (marks jobs s .main)) (mainStep o jobs s) := by
  have hx := h.not_expired (by simp [hc]) (by simp [hc])
  have hnoted := h.noted
  obtain ⟨w, hw, hdeadline, -⟩ := h.waits (.inr (.inl hc))
  simp only [mainStep, marks, hc]
  cases hpast : Evaluation.expired s.deadline s.now with
  | true =>
    obtain ⟨b, hb, hover⟩ := (expired_iff o w.since s.now).1 (hdeadline ▸ hpast)
    rw [if_pos rfl, if_pos rfl]
    rw [hx] at hnoted
    refine sound_of_ending (s := { s with expired := true }) (.inl ⟨rfl, .inl rfl⟩) h.mail
      (hnoted.giveUp hp hw hb hover fun i => ?_)
    have hlt : s.results[i]? = some none → i < jobs.length := fun hi =>
      h.mail.results_length ▸ (List.getElem?_eq_some_iff.1 hi).1
    rw [List.mem_filter, List.mem_range, vacant]
    constructor
    · rintro ⟨-, hi⟩
      simpa [Option.any_eq_true] using hi
    · exact fun hi => ⟨hlt hi, by simp [hi]⟩
  | false =>
    rw [if_neg Bool.false_ne_true, if_neg Bool.false_ne_true]
    refine sound_of_looking (.inr (.inr rfl)) h.mail (hnoted.look s.now (.inr rfl)) hx
      ⟨_, Diary.wait?_looked hw s.now, hdeadline, fun _ => ?_⟩
    exact (not_expired_iff o w.since s.now).1 (hdeadline ▸ hpast)

theorem receive_sound (hp : o.parallel = true) (h : Sound o jobs d s)
    (hc : s.control = .receive) :
    Sound o jobs (d.note s.now (marks jobs s .main)) (mainStep o jobs s) := by
  have hx := h.not_expired (by simp [hc]) (by simp [hc])
  have hmail := h.mail
  obtain ⟨w, hw, hdeadline, hseen⟩ := h.waits (.inr (.inr hc))
  cases hch : s.channel with
  | cons m rest =>
    rw [hch] at hmail
    obtain ⟨hworker, hempty, -⟩ := hmail.sent m (List.mem_cons_self ..)
    have hmarks : marks jobs s .main = [.took m.1] := by
      simp only [marks, hc, hch, List.head?_cons, Option.map_some, Option.toList_some]
    have hgranted : o.refuses m.1 = none := by
      cases hr : o.refuses m.1 with
      | none => rfl
      | some why =>
        have hlt : m.1 < jobs.length :=
          hmail.results_length ▸ (List.getElem?_eq_some_iff.1 hempty).1
        have habsent := (hmail.refused m.1 _ why (List.getElem?_eq_getElem hlt) hr).1
        exact nomatch hworker.symm.trans habsent
    have hnoted := h.noted
    rw [hx] at hnoted
    have htaken : (d.note s.now [.took m.1]).Taken o m.1 :=
      ⟨w, Diary.during_note hw s.now _, hseen hc⟩
    have hnext := hnoted.take (r := m.2) (List.getElem?_eq_some_iff.1 hempty).1 hgranted s.now
      htaken
    rw [← hx] at hnext
    rw [hmarks]
    simp only [mainStep, hc, hch]
    refine sound_of_looking (s := { s with
      channel := rest, results := s.results.set m.1 (some m.2), pending := s.pending - 1 })
      (.inl rfl) hmail.take hnext hx ⟨w, ?_, hdeadline, nofun⟩
    rw [Diary.wait?_shared hp s.now (by simp), hw]
  | nil =>
    rw [hch] at hmail
    have hmarks : marks jobs s .main = [] := by
      simp only [marks, hc, hch, List.head?_nil, Option.map_none, Option.toList_none]
    rw [hmarks, Diary.note_nil]
    simp only [mainStep, hc, hch]
    rw [← hch]
    split
    case isTrue hall =>
      exact sound_of_ending (.inl ⟨rfl, .inr (hmail.full_of_gone hall)⟩) h.mail h.noted
    case isFalse =>
      exact sound_of_looking (.inl rfl) h.mail h.noted hx ⟨w, hw, hdeadline, nofun⟩

theorem finish_sound (h : Sound o jobs d s) (hc : s.control = .finish) :
    Sound o jobs (d.note s.now (marks jobs s .main)) (mainStep o jobs s) := by
  have hmarks : marks jobs s .main = [] := by simp only [marks, hc]
  rw [hmarks, Diary.note_nil]
  simp only [mainStep, hc]
  split
  case isTrue ht => exact sound_of_ending (.inr (.inl ⟨rfl, ht⟩)) h.mail h.noted
  case isFalse =>
    exact sound_of_ending (.inr (.inr (.inl ⟨rfl, h.finish hc⟩))) h.mail h.noted

theorem mainStep_sound (hp : o.parallel = true) (h : Sound o jobs d s) :
    Sound o jobs (d.note s.now (marks jobs s .main)) (mainStep o jobs s) := by
  cases hc : s.control with
  | arm => exact arm_sound h hc
  | poll => exact poll_sound h hc
  | clock => exact clock_sound hp h hc
  | receive => exact receive_sound hp h hc
  | finish => exact finish_sound h hc
  | spawn =>
    simp only [mainStep, marks, hc, Diary.note_nil]
    refine ⟨h.mail, h.noted, fun hl => ?_, fun hx => ?_, nofun, nofun, nofun⟩
    · rcases hl with hl | hl | hl <;> cases hl
    · rcases h.gone hx with hg | ⟨v, hg⟩ <;> rw [hc] at hg <;> cases hg
  | done v =>
    have hsame : mainStep o jobs s = s := by
      simp only [mainStep, hc]
      rw [← hc]
    have hmarks : marks jobs s .main = [] := by simp only [marks, hc]
    rw [hsame, hmarks, Diary.note_nil]
    exact h

theorem step_sound (hp : o.parallel = true) (h : Sound o jobs d s) (a : Action) :
    Sound o jobs (d.note s.now (marks jobs s a)) (step o jobs s a) := by
  cases a with
  | main => exact mainStep_sound hp h
  | worker i => exact workerStep_sound h i
  | tick ns => exact (Diary.note_nil d s.now).symm ▸ { h with }
  | cancel =>
    exact (Diary.note_nil d s.now).symm ▸ { h with
      cancelled := fun hc => Token.isCancelled_cancel_of_isCancelled (h.cancelled hc) }

def diary (o : Options) (jobs : List Job) : State → Schedule → Diary :=
  (machine o jobs).diary (marks jobs)

theorem run_sound (hp : o.parallel = true) (jobs : List Job) (token : Token)
    (schedule : Schedule) :
    Sound o jobs (diary o jobs (initial o jobs token) schedule)
      ((machine o jobs).run (initial o jobs token) schedule) :=
  Machine.run_record (Sound o jobs) (fun _ _ a hs => step_sound hp hs a)
    (initial_sound o jobs token) schedule

/-! ## The end -/

theorem Sound.inTime_of_filled (h : Sound o jobs d s) (hp : o.parallel = true) {i : Nat}
    {r : ModuleResult} (hi : s.results[i]? = some (some r)) (hr : o.refuses i = none) :
    d.InTime o i := by
  obtain ⟨e, he⟩ := h.noted.ran i (h.mail.filled i r hi hr).1
  refine ⟨h.noted.taken i r hi hr, e, he, fun hp' => ?_⟩
  rw [hp] at hp'
  cases hp'

theorem refused_iff (hp : o.parallel = true) (d : Diary) (i : Nat) (why : String) :
    d.Refused o i why ↔ o.refuses i = some why := by
  rw [Diary.Refused, if_pos hp]

theorem granted (hp : o.parallel = true) {i : Nat} (h : ∀ why, ¬ d.Refused o i why) :
    o.refuses i = none :=
  Option.eq_none_iff_forall_ne_some.2 fun why hr => h why ((refused_iff hp d i why).2 hr)

/-- What is given up at the end are the slots that are empty. -/
theorem Sound.overdue_of_empty (h : Sound o jobs d s) {rs : List ModuleResult}
    (hs : s.control = .done (.results rs)) {i : Nat} (hi : s.results[i]? = some none) :
    s.expired = true ∧ d.GivenUp o i := by
  obtain ⟨-, hclosed⟩ := h.results rs hs
  have hexp : s.expired = true := hclosed.resolve_right fun hall => hall i hi
  exact ⟨hexp, h.noted.late i ((h.noted.gaveUp i).2 ⟨hexp, hi⟩)⟩

theorem Sound.decided (h : Sound o jobs d s) (hp : o.parallel = true) {rs : List ModuleResult}
    (hs : s.control = .done (.results rs)) : d.Decided o jobs where
  all := by
    intro i hi
    cases hr : o.refuses i with
    | some why => exact .inl ⟨why, (refused_iff hp d i why).2 hr⟩
    | none =>
      have hlt : i < s.results.length := h.mail.results_length ▸ hi
      have hslot := List.getElem?_eq_getElem hlt
      cases hres : s.results[i] with
      | some r => exact .inr (.inl (h.inTime_of_filled hp (hslot.trans (congrArg some hres)) hr))
      | none =>
        exact .inr (.inr (.inl (h.overdue_of_empty hs (hslot.trans (congrArg some hres))).2))
  refused := by
    intro i why hr
    rw [refused_iff hp] at hr
    have htook : ¬ d.Tells (.took i) := fun hi => nomatch (h.noted.filled i hi).1.symm.trans hr
    have hgaveUp : ¬ d.Tells (.gaveUp i) := fun hi => by
      have hempty := ((h.noted.gaveUp i).1 hi).2
      have hlt : i < jobs.length :=
        h.mail.results_length ▸ (List.getElem?_eq_some_iff.1 hempty).1
      have hfilled := (h.mail.refused i _ why (List.getElem?_eq_getElem hlt) hr).2
      exact nomatch hempty.symm.trans hfilled
    refine ⟨fun hin => htook hin.1.tells, ?_⟩
    rintro (hgiven | ⟨htaken, -⟩)
    · exact hgaveUp hgiven.tells
    · exact htook htaken.tells
  inTime := by
    intro i hin
    refine hin.not_overdue fun hboth => ?_
    obtain ⟨-, r, hr⟩ := h.noted.filled i hboth.1
    exact nomatch ((h.noted.gaveUp i).1 hboth.2).2.symm.trans hr

theorem Sound.reports (h : Sound o jobs d s) (hp : o.parallel = true) {rs : List ModuleResult}
    (hs : s.control = .done (.results rs)) : Reports o jobs (d.InTime o) (d.Refused o) rs := by
  obtain ⟨rfl, -⟩ := h.results rs hs
  have hslot : ∀ (i : Nat) j, jobs[i]? = some j → ∃ x, s.results[i]? = some x ∧
      (collect o jobs s)[i]? =
        some (x.getD (.error (if s.expired then overdue o j else .panicked j.name))) := by
    intro i j hj
    have hi : i < s.results.length := h.mail.results_length ▸ (List.getElem?_eq_some_iff.1 hj).1
    have hx : s.results[i]? = some s.results[i] := List.getElem?_eq_getElem hi
    have hz : (jobs.zip s.results)[i]? = some (j, s.results[i]) :=
      List.getElem?_zip_eq_some.2 ⟨hj, hx⟩
    exact ⟨s.results[i], hx, by simp [collect, hz]⟩
  refine ⟨by simp [collect, h.mail.results_length], ?refused, ?answer, ?overdue⟩
  case refused =>
    intro i j why hj hr
    obtain ⟨x, hx, hget⟩ := hslot i j hj
    obtain ⟨-, hfilled⟩ := h.mail.refused i j why hj ((refused_iff hp d i why).1 hr)
    obtain rfl := Option.some.inj (hx.symm.trans hfilled)
    exact hget
  case answer =>
    intro i j hj hr hin
    obtain ⟨x, hx, hget⟩ := hslot i j hj
    obtain ⟨-, r, hfilled⟩ := h.noted.filled i hin.1.tells
    obtain rfl := Option.some.inj (hx.symm.trans hfilled)
    obtain ⟨-, j', hj', hres⟩ := h.mail.filled i r hx (granted hp hr)
    obtain rfl : j = j' := Option.some.inj (hj.symm.trans hj')
    exact ⟨r, hres, hget⟩
  case overdue =>
    intro i j hj hr hout
    obtain ⟨x, hx, hget⟩ := hslot i j hj
    cases x with
    | none =>
      obtain ⟨hexp, w, b, -, hb, -⟩ := h.overdue_of_empty hs hx
      exact ⟨b, hb, by rw [hget, Option.getD_none, if_pos hexp, overdue_of_budget hb]⟩
    | some r => exact absurd (h.inTime_of_filled hp hx (granted hp hr)) hout

end Parallel
end Evaluation
end ShellPrompt
