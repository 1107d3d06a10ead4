import ShellPrompt.Evaluation.Sequential
import ShellPrompt.Proofs.Evaluation.Diary

/-!
# ShellPrompt.Proofs.Evaluation.Sequential

What holds of the chain of workers under every schedule.

* `marks`: what a step adds to the diary. Of the workers only the current one is listened to.
* `Queue`: the invariant of the current worker. Its messages are about consecutive jobs, from the
  one that is waited for up to the one it is at.
* `Filled`: the invariant of the results. Slots before the job that is waited for are filled, once
  each and as the diary has it; the others are empty.
* `Sound`: both, and what each point of the evaluating thread knows. `step_sound` is the step
  lemma, by a lemma for each of these points; `run_sound` is the run lemma, and `Sound.reports` what
  follows at the end.
-/

namespace ShellPrompt
namespace Evaluation
namespace Sequential

def Chain.marks (jobs : List Job) (c : Chain) : List Mark :=
  match jobs[c.position]?, c.started with
  | some _, none => [.began c.position]
  | some j, some _ => if j.result?.isSome then [.answered c.position] else []
  | none, _ => []

theorem Chain.began_or_answered {jobs : List Job} {c : Chain} {mark : Mark}
    (h : mark ∈ c.marks jobs) : mark = .began c.position ∨ mark = .answered c.position := by
  unfold Chain.marks at h
  split at h
  · exact .inl (List.mem_singleton.1 h)
  · split at h
    · exact .inr (List.mem_singleton.1 h)
    · cases h
  · cases h

def marks (jobs : List Job) (s : State) : Action → List Mark
  | .main =>
    match s.control with
    | .spawn => if s.next < jobs.length && !s.token.isCancelled then [.started s.next] else []
    | .arm => [.armed]
    | .clock =>
      if s.next < jobs.length && expired s.deadline s.now then [.looked, .gaveUp s.next]
      else [.looked]
    | .receive => ((s.current.bind fun c => c.sent.head?).map fun m => Mark.took m.1).toList
    | _ => []
  | .worker 0 => (s.current.map (Chain.marks jobs)).getD []
  | _ => []

theorem lawful (o : Options) (jobs : List Job) : (machine o jobs).Lawful where
  others := by
    intro s a ha
    cases a with
    | main => exact absurd rfl ha
    | worker i =>
      cases i <;>
        · simp only [machine, step, workerStep]
          split <;> rfl
    | tick ns => rfl
    | cancel => rfl
  ended := by
    intro s v hv
    simp only [machine] at hv ⊢
    simp only [step, mainStep, hv]
  now := by
    intro s a
    cases a with
    | main =>
      simp only [machine, step, mainStep]
      repeat' split
      all_goals rfl
    | worker i =>
      cases i <;>
        · simp only [machine, step, workerStep]
          split <;> rfl
    | tick ns => rfl
    | cancel => rfl
  token := by
    intro s a
    cases a with
    | main =>
      refine ⟨false, ?_⟩
      simp only [machine, step, mainStep]
      repeat' split
      all_goals rfl
    | worker i =>
      cases i <;>
        · simp only [machine, step, workerStep]
          split
          · exact ⟨false, rfl⟩
          · exact ⟨_, rfl⟩
    | tick ns => exact ⟨false, rfl⟩
    | cancel => exact ⟨true, rfl⟩

/-! ## The current worker -/

variable {o : Options} {jobs : List Job} {d : Diary} {more : List Mark}

/-- A result is the answer about a job, as its worker timed it. -/
def Answer (o : Options) (jobs : List Job) (d : Diary) (i : Nat) (r : ModuleResult) : Prop :=
  ∃ j a e, jobs[i]? = some j ∧ j.result? = some a ∧ d.runTime? i = some e ∧ r = timely o j e a

theorem Answer.note {i : Nat} {r : ModuleResult} (h : Answer o jobs d i r) (t : Nat)
    (hbegan : .began i ∉ more) (hanswered : .answered i ∉ more) :
    Answer o jobs (d.note t more) i r := by
  obtain ⟨j, a, e, hj, ha, he, hr⟩ := h
  exact ⟨j, a, e, hj, ha, by rwa [Diary.runTime?_note_of_notMem t hbegan hanswered], hr⟩

/-- The messages of a worker are about the jobs from `next` on, one each, up to its position. -/
structure Queue (o : Options) (jobs : List Job) (d : Diary) (next : Nat) (c : Chain) :
    Prop where
  indices : c.sent.map Prod.fst = List.range' next c.sent.length
  position : c.position = next + c.sent.length
  position_le : c.position ≤ jobs.length
  began : ∀ t, c.started = some t → d.last? (.began c.position) = some t
  answers : ∀ m ∈ c.sent, Answer o jobs d m.1 m.2

namespace Queue

variable {next : Nat} {c : Chain}

theorem start (hn : next ≤ jobs.length) : Queue o jobs d next { position := next } where
  indices := rfl
  position := rfl
  position_le := hn
  began := nofun
  answers := nofun

/-- What the evaluating thread does leaves the worker as it is. -/
theorem note (hq : Queue o jobs d next c) (t : Nat)
    (hmore : ∀ i, .began i ∉ more ∧ .answered i ∉ more) : Queue o jobs (d.note t more) next c :=
  { hq with
    began := fun t' ht' => by
      rw [Diary.last?_note_of_notMem t (hmore _).1]
      exact hq.began t' ht'
    answers := fun m hm => (hq.answers m hm).note t (hmore _).1 (hmore _).2 }

theorem index_lt (hq : Queue o jobs d next c) {m : Nat × ModuleResult} (hm : m ∈ c.sent) :
    m.1 < c.position := by
  have hi : m.1 ∈ List.range' next c.sent.length := hq.indices ▸ List.mem_map_of_mem hm
  have := List.mem_range'_1.1 hi
  have := hq.position
  omega

theorem begin (hq : Queue o jobs d next c) (t : Nat) :
    Queue o jobs (d.note t [.began c.position]) next { c with started := some t } where
  indices := hq.indices
  position := hq.position
  position_le := hq.position_le
  began := by
    rintro _ ⟨⟩
    exact Diary.last?_note_self d t _
  answers := fun m hm => by
    have hne := Nat.ne_of_lt (hq.index_lt hm)
    exact (hq.answers m hm).note t (by simpa using hne) (by simp)

theorem send (hq : Queue o jobs d next c) {j : Job} {a : ModuleResult} {began : Nat}
    (hj : jobs[c.position]? = some j) (hbegan : c.started = some began)
    (ha : j.result? = some a) (t : Nat) :
    Queue o jobs (d.note t [.answered c.position]) next
      { position := c.position + 1
        started := none
        sent := c.sent ++ [(c.position, timely o j (t - began) a)] } where
  indices := by
    rw [List.map_append, hq.indices, List.length_append]
    simp [List.range'_1_concat, hq.position]
  position := by
    simp only [List.length_append, List.length_singleton]
    rw [hq.position]
    omega
  position_le := (List.getElem?_eq_some_iff.1 hj).1
  began := nofun
  answers := List.forall_mem_append.2 ⟨fun m hm => by
      have hne := Nat.ne_of_lt (hq.index_lt hm)
      exact (hq.answers m hm).note t (by simp) (by simpa using hne),
    List.forall_mem_singleton.2
      ⟨j, a, _, hj, ha, Diary.runTime?_answered (hq.began began hbegan) t, rfl⟩⟩

theorem take (hq : Queue o jobs d next c) {i : Nat} {r : ModuleResult}
    {rest : List (Nat × ModuleResult)} (hs : c.sent = (i, r) :: rest) :
    i = next ∧ next < jobs.length ∧ Answer o jobs d i r ∧
      Queue o jobs d (i + 1) { c with sent := rest } := by
  have hidx := hq.indices
  have hpos := hq.position
  have hle := hq.position_le
  rw [hs, List.map_cons, List.length_cons, List.range'_succ, List.cons.injEq] at hidx
  rw [hs, List.length_cons] at hpos
  obtain ⟨rfl, hrest⟩ : i = next ∧ _ := hidx
  refine ⟨rfl, by omega, hq.answers (i, r) (hs ▸ List.mem_cons_self ..), hrest, ?_,
    hq.position_le, hq.began, fun m hm => hq.answers m (hs ▸ List.mem_cons_of_mem _ hm)⟩
  show c.position = i + 1 + rest.length
  omega

end Queue

/-! ## Results -/

/-- A slot was filled with the answer of its job, or its job was given up. -/
def Settled (o : Options) (jobs : List Job) (d : Diary) (i : Nat) (r : ModuleResult) : Prop :=
  (d.Taken o i ∧ ¬ d.Tells (.gaveUp i) ∧ Answer o jobs d i r) ∨
    (d.GivenUp o i ∧ ¬ d.Tells (.took i) ∧ ∃ j, jobs[i]? = some j ∧ r = .error (overdue o j))

theorem Settled.note {i : Nat} {r : ModuleResult} (h : Settled o jobs d i r) (t : Nat)
    (hmore : .began i ∉ more ∧ .answered i ∉ more ∧ .took i ∉ more ∧ .gaveUp i ∉ more) :
    Settled o jobs (d.note t more) i r := by
  obtain ⟨hbegan, hanswered, htook, hgaveUp⟩ := hmore
  rcases h with ⟨htaken, hnot, hanswer⟩ | ⟨hgiven, hnot, hj⟩
  · refine .inl ⟨htaken.note t more, ?_, hanswer.note t hbegan hanswered⟩
    rw [Diary.tells_note]
    exact not_or.2 ⟨hnot, hgaveUp⟩
  · refine .inr ⟨hgiven.note t more, ?_, hj⟩
    rw [Diary.tells_note]
    exact not_or.2 ⟨hnot, htook⟩

structure Filled (o : Options) (jobs : List Job) (d : Diary) (next : Nat)
    (results : List (Option ModuleResult)) : Prop where
  length : results.length = jobs.length
  next_le : next ≤ jobs.length
  empty : ∀ i, next ≤ i → i < jobs.length → results[i]? = some none
  ahead : ∀ i, next ≤ i → ¬ d.Tells (.took i) ∧ ¬ d.Tells (.gaveUp i)
  settled : ∀ i, i < next → ∃ r, results[i]? = some (some r) ∧ Settled o jobs d i r

namespace Filled

variable {next : Nat} {results : List (Option ModuleResult)}

theorem initial (o : Options) (jobs : List Job) :
    Filled o jobs [] 0 (jobs.map fun _ => none) where
  length := by simp
  next_le := Nat.zero_le _
  empty := fun i _ hi => by simp [hi]
  ahead := by simp [Diary.Tells]
  settled := by simp

/-- Runs of jobs whose slots are empty yet do not matter. -/
theorem note (hf : Filled o jobs d next results) (t : Nat)
    (hruns : ∀ i, i < next → .began i ∉ more ∧ .answered i ∉ more)
    (hslots : ∀ i, .took i ∉ more ∧ .gaveUp i ∉ more) :
    Filled o jobs (d.note t more) next results :=
  { hf with
    ahead := fun i hi => by
      obtain ⟨htook, hgaveUp⟩ := hf.ahead i hi
      simp only [Diary.tells_note, not_or]
      exact ⟨⟨htook, (hslots i).1⟩, hgaveUp, (hslots i).2⟩
    settled := fun i hi => by
      obtain ⟨r, hr, hs⟩ := hf.settled i hi
      exact ⟨r, hr, hs.note t ⟨(hruns i hi).1, (hruns i hi).2, hslots i⟩⟩ }

/-- The slot of the job that is waited for is filled, with what the diary then tells of it. -/
theorem fill (hf : Filled o jobs d next results) (hn : next < jobs.length) (t : Nat)
    (hruns : ∀ i, .began i ∉ more ∧ .answered i ∉ more)
    (hslots : ∀ i, i ≠ next → .took i ∉ more ∧ .gaveUp i ∉ more) {r : ModuleResult}
    (hr : Settled o jobs (d.note t more) next r) :
    Filled o jobs (d.note t more) (next + 1) (results.set next (some r)) where
  length := by rw [List.length_set, hf.length]
  next_le := hn
  empty := fun i hi hlt => by
    rw [List.getElem?_set_ne (by omega)]
    exact hf.empty i (by omega) hlt
  ahead := fun i hi => by
    obtain ⟨htook, hgaveUp⟩ := hf.ahead i (by omega)
    obtain ⟨htook', hgaveUp'⟩ := hslots i (by omega)
    simp only [Diary.tells_note, not_or]
    exact ⟨⟨htook, htook'⟩, hgaveUp, hgaveUp'⟩
  settled := fun i hi => by
    by_cases hin : i = next
    · subst hin
      exact ⟨r, List.getElem?_set_self (by rw [hf.length]; exact hn), hr⟩
    · obtain ⟨r', hr', hs⟩ := hf.settled i (by omega)
      exact ⟨r', by rwa [List.getElem?_set_ne (Ne.symm hin)],
        hs.note t ⟨(hruns i).1, (hruns i).2, hslots i hin⟩⟩

end Filled

/-! ## Refusals -/

/-- The system refuses none of the workers it is asked for but the last. -/
structure Asked (o : Options) (d : Diary) (next : Nat) (refusal : Option String) : Prop where
  last : ∀ why, refusal = some why → d.Tells (.started next) ∧ o.refuses next = some why
  only : ∀ k why, d.Tells (.started k) → o.refuses k = some why →
    k = next ∧ refusal = some why

namespace Asked

variable {next : Nat} {refusal : Option String}

theorem note (h : Asked o d next refusal) (t : Nat) (hmore : ∀ i, .started i ∉ more) :
    Asked o (d.note t more) next refusal := by
  have htells : ∀ k, (d.note t more).Tells (.started k) ↔ d.Tells (.started k) := fun k => by
    rw [Diary.tells_note]
    exact or_iff_left (hmore k)
  exact ⟨fun why hwhy => by rw [htells]; exact h.last why hwhy,
    fun k why hk => h.only k why ((htells k).1 hk)⟩

/-- Where no worker has been refused, it does not matter which job is waited for. -/
theorem move (h : Asked o d next none) (next' : Nat) : Asked o d next' none :=
  ⟨nofun, fun k why hk hr => nomatch (h.only k why hk hr).2⟩

theorem grant (h : Asked o d next none) (hr : o.refuses next = none) (t : Nat) :
    Asked o (d.note t [.started next]) next none := by
  refine ⟨nofun, fun k why hk hk' => ?_⟩
  rw [Diary.tells_note, List.mem_singleton] at hk
  rcases hk with hk | hk
  · exact nomatch (h.only k why hk hk').2
  · cases hk
    exact nomatch hr.symm.trans hk'

theorem refuse (h : Asked o d next none) {why : String} (hr : o.refuses next = some why)
    (t : Nat) : Asked o (d.note t [.started next]) next (some why) := by
  refine ⟨?_, fun k why' hk hk' => ?_⟩
  · rintro _ ⟨⟩
    exact ⟨(Diary.tells_note ..).2 (.inr (List.mem_singleton_self _)), hr⟩
  · rw [Diary.tells_note, List.mem_singleton] at hk
    rcases hk with hk | hk
    · exact nomatch (h.only k why' hk hk').2
    · cases hk
      exact ⟨rfl, hr.symm.trans hk'⟩

end Asked

/-! ## Runs -/

def Waiting (c : Control) : Prop := c = .arm ∨ c.Looking

/-- Every slot is filled, or there are no more workers. -/
def Over (jobs : List Job) (s : State) : Prop := jobs.length ≤ s.next ∨ s.refusal ≠ none

/-- What holds of a state that can be reached. -/
structure Sound (o : Options) (jobs : List Job) (d : Diary) (s : State) : Prop where
  filled : Filled o jobs d s.next s.results
  queue : ∀ c, s.current = some c → Queue o jobs d s.next c
  asked : (∀ e, s.control ≠ .done (.crashed e)) → Asked o d s.next s.refusal
  willing : s.control = .spawn ∨ Waiting s.control → s.refusal = none
  waiting : Waiting s.control → ∃ c, s.current = some c
  clock : s.control = .clock → s.next < jobs.length
  waits : s.control.Looking → ∃ w, d.wait? o = some w ∧ s.deadline = o.deadline w.since ∧
    (s.control = .receive → ∀ b, o.budget = some b → w.seen < w.since + b.nanos)
  finish : s.control = .finish → Over jobs s
  cancelled : s.control = .done .cancelled → s.token.isCancelled = true
  results : ∀ rs, s.control = .done (.results rs) → rs = collect jobs s ∧ Over jobs s

variable {s : State}

theorem initial_sound (o : Options) (jobs : List Job) (token : Token) :
    Sound o jobs [] (initial jobs token) where
  filled := .initial o jobs
  queue := nofun
  asked := fun _ => ⟨nofun, fun k why hk => by simp [Diary.Tells] at hk⟩
  willing := fun _ => rfl
  waiting := by simp [Waiting, Control.Looking, initial]
  clock := nofun
  waits := by simp [Control.Looking, initial]
  finish := nofun
  cancelled := nofun
  results := nofun

/-- What the current worker does is noted, and changes nothing for the evaluating thread. -/
theorem Sound.current (h : Sound o jobs d s) {c c' : Chain} (hcur : s.current = some c) (t : Nat)
    (hmore : ∀ mark ∈ more, mark = .began c.position ∨ mark = .answered c.position)
    (hqueue : Queue o jobs (d.note t more) s.next c') (cancels : Bool) :
    Sound o jobs (d.note t more)
      { s with current := some c', token := s.token.cancelIf cancels } := by
  have hahead : s.next ≤ c.position := (h.queue c hcur).position ▸ Nat.le_add_right ..
  have other : ∀ mark, mark ≠ .began c.position → mark ≠ .answered c.position → mark ∉ more :=
    fun mark hbegan hanswered hmem => (hmore mark hmem).elim hbegan hanswered
  exact {
    filled := h.filled.note t
      (fun i hi => ⟨other _ (by simpa using by omega) (by simp),
        other _ (by simp) (by simpa using by omega)⟩)
      (fun i => ⟨other _ (by simp) (by simp), other _ (by simp) (by simp)⟩)
    queue := by
      rintro _ ⟨⟩
      exact hqueue
    asked := fun hc => (h.asked hc).note t fun i => other _ (by simp) (by simp)
    willing := h.willing
    waiting := fun _ => ⟨c', rfl⟩
    clock := h.clock
    waits := fun hl => by
      rw [Diary.wait?_worker t fun mark hmark => ⟨c.position, hmore mark hmark⟩]
      exact h.waits hl
    finish := h.finish
    cancelled := fun hv => Token.isCancelled_cancelIf _ (h.cancelled hv)
    results := h.results }

theorem currentStep_sound (h : Sound o jobs d s) :
    Sound o jobs (d.note s.now (marks jobs s (.worker 0))) (workerStep o jobs s 0) := by
  cases hcur : s.current with
  | none =>
    simp only [marks, workerStep, hcur, Option.map_none, Option.getD_none, Diary.note_nil]
    exact h
  | some c =>
    have hq := h.queue c hcur
    simp only [marks, workerStep, hcur, Option.map_some, Option.getD_some]
    refine h.current hcur s.now (fun _ => Chain.began_or_answered) ?_ _
    cases hj : jobs[c.position]? with
    | none => simpa [Chain.marks, chainStep, hj] using hq
    | some j =>
      cases ht : c.started with
      | none =>
        simp only [Chain.marks, chainStep, hj, ht]
        exact hq.begin s.now
      | some t =>
        cases ha : j.result? with
        | none => simpa [Chain.marks, chainStep, hj, ht, ha] using hq
        | some a =>
          simp only [Chain.marks, chainStep, hj, ht, ha, Option.isSome_some, if_true]
          exact hq.send hj ht ha s.now

/-- An abandoned worker changes nothing but the token. -/
theorem abandonedStep_sound (h : Sound o jobs d s) (i : Nat) :
    Sound o jobs d (workerStep o jobs s (i + 1)) := by
  simp only [workerStep]
  split
  case h_1 => exact h
  case h_2 =>
    exact { h with cancelled := fun hv => Token.isCancelled_cancelIf _ (h.cancelled hv) }

/-! ### The evaluating thread -/

theorem sound_of_waiting {c : Control} (hc : Waiting c) {w : Chain} (hcur : s.current = some w)
    (hfilled : Filled o jobs d s.next s.results) (hqueue : Queue o jobs d s.next w)
    (hasked : Asked o d s.next s.refusal) (hwilling : s.refusal = none)
    (hclock : c = .clock → s.next < jobs.length)
    (hwaits : c.Looking → ∃ w, d.wait? o = some w ∧ s.deadline = o.deadline w.since ∧
      (c = .receive → ∀ b, o.budget = some b → w.seen < w.since + b.nanos)) :
    Sound o jobs d { s with control := c } where
  filled := hfilled
  queue := fun c' h' => Option.some.inj (hcur.symm.trans h') ▸ hqueue
  asked := fun _ => hasked
  willing := fun _ => hwilling
  waiting := fun _ => ⟨w, hcur⟩
  clock := hclock
  waits := hwaits
  finish := by rintro rfl; simp [Waiting, Control.Looking] at hc
  cancelled := by rintro rfl; simp [Waiting, Control.Looking] at hc
  results := by rintro rs rfl; simp [Waiting, Control.Looking] at hc

/-- Where the thread waits no longer. -/
def Ending (jobs : List Job) (s : State) (c : Control) : Prop :=
  c = .finish ∧ Over jobs s ∨ c = .done .cancelled ∧ s.token.isCancelled = true ∨
    c = .done (.results (collect jobs s)) ∧ Over jobs s ∨ ∃ e, c = .done (.crashed e)

theorem sound_of_ending {c : Control} (hc : Ending jobs s c)
    (hfilled : Filled o jobs d s.next s.results)
    (hqueue : ∀ c, s.current = some c → Queue o jobs d s.next c)
    (hasked : (∀ e, c ≠ .done (.crashed e)) → Asked o d s.next s.refusal) :
    Sound o jobs d { s with control := c } := by
  refine ⟨hfilled, hqueue, hasked, ?_, ?_, ?_, ?_, ?_, ?_, ?_⟩
  all_goals rcases hc with ⟨rfl, hover⟩ | ⟨rfl, ht⟩ | ⟨rfl, hover⟩ | ⟨e, rfl⟩
  case refine_5.inl => exact fun _ => hover
  case refine_6.inr.inl => exact fun _ => ht
  case refine_7.inr.inr.inl =>
    rintro rs hrs
    cases hrs
    exact ⟨rfl, hover⟩
  all_goals simp [Waiting, Control.Looking]

theorem spawn_sound (h : Sound o jobs d s) (hc : s.control = .spawn) :
    Sound o jobs (d.note s.now (marks jobs s .main)) (mainStep o jobs s) := by
  have hwilling := h.willing (.inl hc)
  have hasked := h.asked (by simp [hc])
  rw [hwilling] at hasked
  simp only [mainStep, marks, hc]
  cases hj : jobs[s.next]? with
  | none =>
    have hn : jobs.length ≤ s.next := List.getElem?_eq_none_iff.1 hj
    rw [decide_eq_false (Nat.not_lt.2 hn), Bool.false_and, if_neg Bool.false_ne_true,
      Diary.note_nil]
    exact sound_of_ending (.inl ⟨rfl, .inl hn⟩) h.filled h.queue fun _ => hwilling ▸ hasked
  | some j =>
    have hn : s.next < jobs.length := (List.getElem?_eq_some_iff.1 hj).1
    cases ht : s.token.isCancelled with
    | true =>
      simp only [hn, decide_true, Bool.not_true, Bool.and_false, Bool.false_eq_true, if_false,
        if_true, Diary.note_nil]
      exact sound_of_ending (.inr (.inl ⟨rfl, ht⟩)) h.filled h.queue fun _ => hwilling ▸ hasked
    | false =>
      have hfilled : Filled o jobs (d.note s.now [.started s.next]) s.next s.results :=
        h.filled.note s.now (by simp) (by simp)
      have hqueue : ∀ c, s.current = some c →
          Queue o jobs (d.note s.now [.started s.next]) s.next c :=
        fun c hcur => (h.queue c hcur).note s.now (by simp)
      simp only [hn, decide_true, Bool.not_false, Bool.and_true, Bool.false_eq_true, if_false,
        if_true]
      split
      case isTrue =>
        exact sound_of_ending (.inr (.inr (.inr ⟨_, rfl⟩))) hfilled hqueue fun hne =>
          absurd rfl (hne _)
      case isFalse =>
        cases hr : o.refuses s.next with
        | some why =>
          exact sound_of_ending (s := { s with refusal := some why })
            (.inl ⟨rfl, .inr (Option.some_ne_none why)⟩) hfilled hqueue fun _ =>
              hasked.refuse hr s.now
        | none =>
          exact sound_of_waiting (s := { s with current := some { position := s.next } })
            (.inl rfl) rfl hfilled (.start h.filled.next_le)
            (hwilling ▸ hasked.grant hr s.now) hwilling nofun nofun

theorem arm_sound (h : Sound o jobs d s) (hc : s.control = .arm) :
    Sound o jobs (d.note s.now (marks jobs s .main)) (mainStep o jobs s) := by
  obtain ⟨c, hcur⟩ := h.waiting (.inl hc)
  have hasked : Asked o (d.note s.now [.armed]) s.next s.refusal :=
    (h.asked (by simp [hc])).note s.now (by simp)
  have hfilled : Filled o jobs (d.note s.now [.armed]) s.next s.results :=
    h.filled.note s.now (by simp) (by simp)
  have hqueue : ∀ c, s.current = some c → Queue o jobs (d.note s.now [.armed]) s.next c :=
    fun c hcur => (h.queue c hcur).note s.now (by simp)
  simp only [mainStep, marks, hc]
  split
  case isTrue =>
    exact sound_of_ending (.inr (.inr (.inr ⟨_, rfl⟩))) hfilled hqueue fun _ => hasked
  case isFalse =>
    exact sound_of_waiting (s := { s with deadline := o.deadline s.now }) (.inr (.inl rfl)) hcur
      hfilled (hqueue c hcur) hasked (h.willing (.inr (.inl hc))) nofun
      fun _ => ⟨_, Diary.wait?_armed o d s.now, rfl, nofun⟩

theorem poll_sound (h : Sound o jobs d s) (hc : s.control = .poll) :
    Sound o jobs (d.note s.now (marks jobs s .main)) (mainStep o jobs s) := by
  have hwaiting : Waiting s.control := .inr (.inl hc)
  obtain ⟨c, hcur⟩ := h.waiting hwaiting
  obtain ⟨w, hw, hdeadline, -⟩ := h.waits (.inl hc)
  have hasked := h.asked (by simp [hc])
  simp only [mainStep, marks, hc, Diary.note_nil]
  split
  case isTrue hn => exact sound_of_ending (.inl ⟨rfl, .inl hn⟩) h.filled h.queue fun _ => hasked
  case isFalse hn =>
    split
    case isTrue ht =>
      exact sound_of_ending (.inr (.inl ⟨rfl, ht⟩)) h.filled h.queue fun _ => hasked
    case isFalse =>
      exact sound_of_waiting (.inr (.inr (.inl rfl))) hcur h.filled (h.queue c hcur) hasked
        (h.willing (.inr hwaiting)) (fun _ => Nat.lt_of_not_le hn)
        fun _ => ⟨w, hw, hdeadline, nofun⟩

theorem clock_sound (h : Sound o jobs d s) (hc : s.control = .clock) :
    Sound o jobs (d.note s.now (marks jobs s .main)) (mainStep o jobs s) := by
  have hwaiting : Waiting s.control := .inr (.inr (.inl hc))
  have hwilling := h.willing (.inr hwaiting)
  have hasked := h.asked (by simp [hc])
  have hn := h.clock hc
  obtain ⟨c, hcur⟩ := h.waiting hwaiting
  obtain ⟨w, hw, hdeadline, -⟩ := h.waits (.inr (.inl hc))
  simp only [mainStep, marks, hc, List.getElem?_eq_getElem hn, hn, decide_true, Bool.true_and]
  cases hpast : expired s.deadline s.now with
  | true =>
    obtain ⟨b, hb, hover⟩ := (expired_iff o w.since s.now).1 (hdeadline ▸ hpast)
    have hgiven : (d.note s.now [.looked, .gaveUp s.next]).GivenUp o s.next := by
      rw [Diary.note_cons]
      exact ⟨_, b, Diary.during_note (Diary.wait?_looked hw s.now) s.now _, hb, hover⟩
    have hnot : ¬ (d.note s.now [.looked, .gaveUp s.next]).Tells (.took s.next) := by
      simpa [Diary.tells_note] using (h.filled.ahead s.next (Nat.le_refl _)).1
    have hfilled := h.filled.fill hn s.now (by simp) (fun i hi => by simpa using hi)
      (.inr ⟨hgiven, hnot, _, List.getElem?_eq_getElem hn, rfl⟩)
    rw [if_pos rfl, if_pos rfl]
    rw [hwilling] at hasked
    exact {
      filled := hfilled
      queue := nofun
      asked := fun _ => hwilling ▸ (hasked.note s.now (by simp)).move _
      willing := fun _ => hwilling
      waiting := by simp [Waiting, Control.Looking]
      clock := nofun
      waits := by simp [Control.Looking]
      finish := nofun
      cancelled := nofun
      results := nofun }
  | false =>
    rw [if_neg Bool.false_ne_true, if_neg Bool.false_ne_true]
    refine sound_of_waiting (.inr (.inr (.inr rfl))) hcur
      (h.filled.note s.now (by simp) (by simp)) ((h.queue c hcur).note s.now (by simp))
      (hasked.note s.now (by simp)) hwilling nofun
      fun _ => ⟨_, Diary.wait?_looked hw s.now, hdeadline, fun _ => ?_⟩
    exact (not_expired_iff o w.since s.now).1 (hdeadline ▸ hpast)

theorem receive_sound (h : Sound o jobs d s) (hc : s.control = .receive) :
    Sound o jobs (d.note s.now (marks jobs s .main)) (mainStep o jobs s) := by
  have hwaiting : Waiting s.control := .inr (.inr (.inr hc))
  have hwilling := h.willing (.inr hwaiting)
  have hasked := h.asked (by simp [hc])
  obtain ⟨c, hcur⟩ := h.waiting hwaiting
  obtain ⟨w, hw, hdeadline, hseen⟩ := h.waits (.inr (.inr hc))
  have hqueue := h.queue c hcur
  cases hsent : c.sent with
  | cons m rest =>
    obtain ⟨i, r⟩ := m
    obtain ⟨rfl, hn, hanswer, hrest⟩ := hqueue.take hsent
    simp only [mainStep, marks, hc, hcur, hsent, Option.bind_some, List.head?_cons,
      Option.map_some, Option.toList_some]
    have htaken : (d.note s.now [.took s.next]).Taken o s.next :=
      ⟨w, Diary.during_note hw s.now _, hseen hc⟩
    have hnot : ¬ (d.note s.now [.took s.next]).Tells (.gaveUp s.next) := by
      simpa [Diary.tells_note] using (h.filled.ahead s.next (Nat.le_refl _)).2
    rw [hwilling] at hasked
    exact sound_of_waiting (s := { s with
        current := some { c with sent := rest }
        results := s.results.set s.next (some r)
        next := s.next + 1 }) (.inl rfl) rfl
      (h.filled.fill hn s.now (by simp) (fun i hi => by simpa using hi)
        (.inl ⟨htaken, hnot, hanswer.note s.now (by simp) (by simp)⟩))
      (hrest.note s.now (by simp)) (hwilling ▸ (hasked.note s.now (by simp)).move _) hwilling
      nofun nofun
  | nil =>
    have hposition : c.position = s.next := by simpa [hsent] using hqueue.position
    simp only [mainStep, marks, hc, hcur, hsent, Option.bind_some, List.head?_nil,
      Option.map_none, Option.toList_none, Diary.note_nil, hposition]
    rw [← hcur]
    split
    case isTrue hn => exact sound_of_ending (.inl ⟨rfl, .inl hn⟩) h.filled h.queue fun _ => hasked
    case isFalse =>
      exact sound_of_waiting (.inr (.inl rfl)) hcur h.filled hqueue hasked hwilling nofun
        fun _ => ⟨w, hw, hdeadline, nofun⟩

theorem finish_sound (h : Sound o jobs d s) (hc : s.control = .finish) :
    Sound o jobs (d.note s.now (marks jobs s .main)) (mainStep o jobs s) := by
  have hasked := h.asked (by simp [hc])
  simp only [mainStep, marks, hc, Diary.note_nil]
  split
  case isTrue ht => exact sound_of_ending (.inr (.inl ⟨rfl, ht⟩)) h.filled h.queue fun _ => hasked
  case isFalse =>
    exact sound_of_ending (.inr (.inr (.inl ⟨rfl, h.finish hc⟩))) h.filled h.queue fun _ => hasked

theorem mainStep_sound (h : Sound o jobs d s) :
    Sound o jobs (d.note s.now (marks jobs s .main)) (mainStep o jobs s) := by
  cases hc : s.control with
  | spawn => exact spawn_sound h hc
  | arm => exact arm_sound h hc
  | poll => exact poll_sound h hc
  | clock => exact clock_sound h hc
  | receive => exact receive_sound h hc
  | finish => exact finish_sound h hc
  | done v =>
    have hsame : mainStep o jobs s = s := by
      simp only [mainStep, hc]
      rw [← hc]
    have hmarks : marks jobs s .main = [] := by simp only [marks, hc]
    rw [hsame, hmarks, Diary.note_nil]
    exact h

theorem step_sound (h : Sound o jobs d s) (a : Action) :
    Sound o jobs (d.note s.now (marks jobs s a)) (step o jobs s a) := by
  cases a with
  | main => exact mainStep_sound h
  | worker i =>
    cases i with
    | zero => exact currentStep_sound h
    | succ i => exact (Diary.note_nil d s.now).symm ▸ abandonedStep_sound h i
  | tick ns => exact (Diary.note_nil d s.now).symm ▸ { h with }
  | cancel =>
    exact (Diary.note_nil d s.now).symm ▸ { h with
      cancelled := fun hc => Token.isCancelled_cancel_of_isCancelled (h.cancelled hc) }

def diary (o : Options) (jobs : List Job) : State → Schedule → Diary :=
  (machine o jobs).diary (marks jobs)

theorem run_sound (o : Options) (jobs : List Job) (token : Token) (schedule : Schedule) :
    Sound o jobs (diary o jobs (initial jobs token) schedule)
      (run o jobs (initial jobs token) schedule) :=
  Machine.run_record (Sound o jobs) (fun _ _ a hs => step_sound hs a)
    (initial_sound o jobs token) schedule

/-! ## The end -/

theorem timely_eq (o : Options) (j : Job) (elapsed : Nat) (r : ModuleResult) :
    (timely o j elapsed r = r ∧ ∀ b, o.budget = some b → elapsed ≤ b.nanos) ∨
      ∃ b, o.budget = some b ∧ b.nanos < elapsed ∧
        timely o j elapsed r = .error (.timedOut j.name b.millis) := by
  cases hb : o.budget with
  | none => simp [timely, hb]
  | some b =>
    by_cases hlt : b.nanos < elapsed
    · exact .inr ⟨b, rfl, hlt, by simp only [timely, hb, if_pos hlt]⟩
    · refine .inl ⟨by simp only [timely, hb, if_neg hlt], ?_⟩
      rintro _ ⟨⟩
      exact Nat.le_of_not_lt hlt

theorem Asked.refused_iff (h : Asked o d s.next s.refusal) (hp : o.parallel = false) (i : Nat)
    (why : String) : d.Refused o i why ↔ s.next ≤ i ∧ s.refusal = some why := by
  rw [Diary.Refused, if_neg (by simp [hp])]
  constructor
  · rintro ⟨k, hk, htells, hr⟩
    obtain ⟨rfl, hrefusal⟩ := h.only k why htells hr
    exact ⟨hk, hrefusal⟩
  · rintro ⟨hi, hrefusal⟩
    exact ⟨s.next, hi, h.last why hrefusal⟩

theorem Settled.inTime_or_overdue {i : Nat} {r : ModuleResult} (h : Settled o jobs d i r)
    (hp : o.parallel = false) :
    (d.InTime o i ∧ ∃ j, jobs[i]? = some j ∧ j.result? = some r) ∨
      (d.Overdue o i ∧ ∃ j b, jobs[i]? = some j ∧ o.budget = some b ∧
        r = .error (.timedOut j.name b.millis)) := by
  rcases h with ⟨htaken, -, j, a, e, hj, ha, he, rfl⟩ | ⟨hgiven, -, j, hj, rfl⟩
  · rcases timely_eq o j e a with ⟨hsame, hle⟩ | ⟨b, hb, hlt, hlate⟩
    · exact .inl ⟨⟨htaken, e, he, fun _ => hle⟩, j, hj, hsame.symm ▸ ha⟩
    · exact .inr ⟨.inr ⟨htaken, hp, e, b, he, hb, hlt⟩, j, b, hj, hb, hlate⟩
  · obtain ⟨w, b, -, hb, -⟩ := id hgiven
    exact .inr ⟨.inl hgiven, j, b, hj, hb, congrArg _ (overdue_of_budget hb j)⟩

theorem Filled.once {next : Nat} {results : List (Option ModuleResult)}
    (h : Filled o jobs d next results) (i : Nat) :
    ¬ (d.Tells (.took i) ∧ d.Tells (.gaveUp i)) := by
  rintro ⟨htook, hgaveUp⟩
  by_cases hi : i < next
  · obtain ⟨r, -, ⟨-, hnot, -⟩ | ⟨-, hnot, -⟩⟩ := h.settled i hi
    · exact hnot hgaveUp
    · exact hnot htook
  · exact (h.ahead i (Nat.le_of_not_lt hi)).1 htook

/-- Jobs that nobody has come to are neither in time nor overdue. -/
theorem Filled.open_of_le {next : Nat} {results : List (Option ModuleResult)}
    (h : Filled o jobs d next results) {i : Nat} (hi : next ≤ i) :
    ¬ d.InTime o i ∧ ¬ d.Overdue o i := by
  obtain ⟨htook, hgaveUp⟩ := h.ahead i hi
  refine ⟨fun hin => htook hin.1.tells, ?_⟩
  rintro (hgiven | ⟨htaken, -⟩)
  · exact hgaveUp hgiven.tells
  · exact htook htaken.tells

theorem Sound.refused_of_le (h : Sound o jobs d s) {rs : List ModuleResult}
    (hs : s.control = .done (.results rs)) {i : Nat} (hi : i < jobs.length) (hn : s.next ≤ i) :
    ∃ why, s.refusal = some why :=
  Option.ne_none_iff_exists'.1 ((h.results rs hs).2.resolve_left (by omega))

theorem Sound.decided (h : Sound o jobs d s) (hp : o.parallel = false) {rs : List ModuleResult}
    (hs : s.control = .done (.results rs)) : d.Decided o jobs where
  all := by
    intro i hi
    by_cases hn : i < s.next
    · obtain ⟨r, -, hsettled⟩ := h.filled.settled i hn
      exact .inr ((hsettled.inTime_or_overdue hp).imp And.left And.left)
    · obtain ⟨why, hwhy⟩ := h.refused_of_le hs hi (Nat.le_of_not_lt hn)
      exact .inl ⟨why, ((h.asked (by simp [hs])).refused_iff hp i why).2
        ⟨Nat.le_of_not_lt hn, hwhy⟩⟩
  refused := fun i why hr =>
    h.filled.open_of_le (((h.asked (by simp [hs])).refused_iff hp i why).1 hr).1
  inTime := fun i hin => hin.not_overdue (h.filled.once i)

theorem Sound.reports (h : Sound o jobs d s) (hp : o.parallel = false) {rs : List ModuleResult}
    (hs : s.control = .done (.results rs)) : Reports o jobs (d.InTime o) (d.Refused o) rs := by
  obtain ⟨rfl, -⟩ := h.results rs hs
  have hasked := h.asked (by simp [hs])
  have hslot : ∀ (i : Nat) j x, jobs[i]? = some j → s.results[i]? = some x →
      (collect jobs s)[i]? =
        some (x.getD (.error (s.refusal.elim (.panicked j.name) (unspawned j)))) := by
    intro i j x hj hx
    have hz : (jobs.zip s.results)[i]? = some (j, x) := List.getElem?_zip_eq_some.2 ⟨hj, hx⟩
    cases hr : s.refusal <;> simp [collect, hz, hr]
  have hdone : ∀ (i : Nat) j, jobs[i]? = some j → (∀ why, ¬ d.Refused o i why) →
      ∃ r, (collect jobs s)[i]? = some r ∧ Settled o jobs d i r := by
    intro i j hj hr
    have hn : i < s.next := Nat.lt_of_not_le fun hn => by
      obtain ⟨why, hwhy⟩ := h.refused_of_le hs (List.getElem?_eq_some_iff.1 hj).1 hn
      exact hr why ((hasked.refused_iff hp i why).2 ⟨hn, hwhy⟩)
    obtain ⟨r, hx, hsettled⟩ := h.filled.settled i hn
    exact ⟨r, hslot i j _ hj hx, hsettled⟩
  refine ⟨by simp [collect, h.filled.length], ?refused, ?answer, ?overdue⟩
  case refused =>
    intro i j why hj hr
    obtain ⟨hn, hwhy⟩ := (hasked.refused_iff hp i why).1 hr
    have hx := h.filled.empty i hn (List.getElem?_eq_some_iff.1 hj).1
    rw [hslot i j _ hj hx, hwhy, Option.getD_none, Option.elim_some]
  case answer =>
    intro i j hj hr hin
    obtain ⟨r, hget, hsettled⟩ := hdone i j hj hr
    rcases hsettled.inTime_or_overdue hp with ⟨-, j', hj', hres⟩ | ⟨hover, -⟩
    · obtain rfl : j = j' := Option.some.inj (hj.symm.trans hj')
      exact ⟨r, hres, hget⟩
    · exact absurd hover (hin.not_overdue (h.filled.once i))
  case overdue =>
    intro i j hj hr hout
    obtain ⟨r, hget, hsettled⟩ := hdone i j hj hr
    rcases hsettled.inTime_or_overdue hp with ⟨hin, -⟩ | ⟨-, j', b, hj', hb, rfl⟩
    · exact absurd hin hout
    · obtain rfl : j = j' := Option.some.inj (hj.symm.trans hj')
      exact ⟨b, hb, hget⟩

end Sequential
end Evaluation
end ShellPrompt
