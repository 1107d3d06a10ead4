import ShellPrompt.Proofs.Registry.Outcomes

/-!
# ShellPrompt.Proofs.Registry.Isolation

What one module can do to the evaluation it is part of.

A module may fail or panic as it likes: that is its own outcome, and the others have the outcomes
they would have had in any other company (`outcome_unique`). Its name is another matter. The worker
it runs in is named after it by the evaluating thread, and a name that holds NUL stops that thread.
So does a budget so long that there is no time to wait until.

* `Trips`: a name at which this happens. `Oversteps`: a deadline at which it does.
  `evaluated_crashed_iff` says that nothing else makes an evaluation crash.
* `evaluated_returns`: among modules that answer an evaluation comes to an end.
* `evaluate_isolates`: both, and what the others get, for requested names and for all modules.
-/

namespace ShellPrompt
namespace Registry

variable {r : Registry} {names : List String} {s : Snapshot} {scheduler : Evaluation.Scheduler}
  {o : Evaluation.Options} {token : Token}

/-- The evaluating thread comes to start a worker for the name at a position. -/
def Starts (r : Registry) (names : List String) (s : Snapshot) (scheduler : Evaluation.Scheduler)
    (o : Evaluation.Options) (token : Token) (i : Nat) : Prop :=
  Evaluation.Starts o (r.work names s) token (scheduler o (r.work names s)) (r.rank names i)

/-- A worker is to be started for an enabled module whose name no worker can have. -/
def Trips (r : Registry) (names : List String) (s : Snapshot) (scheduler : Evaluation.Scheduler)
    (o : Evaluation.Options) (token : Token) (name : String) : Prop :=
  ∃ i m settings, names[i]? = some name ∧ r.Enabled name m settings ∧
    Char.ofNat 0 ∈ name.toList ∧ r.Starts names s scheduler o token i

/-- The evaluating thread comes to work out a time to wait until, and there is none. -/
def Oversteps (r : Registry) (names : List String) (s : Snapshot)
    (scheduler : Evaluation.Scheduler) (o : Evaluation.Options) (token : Token) : Prop :=
  Evaluation.Oversteps o (r.work names s) token (scheduler o (r.work names s))

/-! ## Names behind jobs -/

theorem exists_name_of_getElem?_work {k : Nat} {j : Evaluation.Job}
    (h : (r.work names s)[k]? = some j) : ∃ i name m settings, names[i]? = some name ∧
      r.Enabled name m settings ∧ r.rank names i = k ∧ j = ⟨m.name, m.run s⟩ := by
  induction names generalizing k with
  | nil => cases h
  | cons first rest ih =>
    rcases idle_or_enabled r first with ⟨x, hidle⟩ | ⟨m, settings, hslot, he⟩
    · rw [hidle.work] at h
      obtain ⟨i, name, m, settings, hi, he, hrank, hj⟩ := ih h
      exact ⟨i + 1, name, m, settings, hi, he, by rw [rank_cons, hidle.runnable, hrank]; rfl, hj⟩
    · rw [work_cons hslot] at h
      cases k with
      | zero => exact ⟨0, first, m, settings, rfl, he, rfl, (Option.some.inj h).symm⟩
      | succ k =>
        obtain ⟨i, name, m', settings', hi, he', hrank, hj⟩ := ih h
        exact ⟨i + 1, name, m', settings', hi, he', by rw [rank_cons, hslot, hrank]; rfl, hj⟩

theorem length_work (r : Registry) (names : List String) (s : Snapshot) :
    (r.work names s).length = r.rank names names.length := by
  induction names with
  | nil => rfl
  | cons first rest ih =>
    rw [List.length_cons, rank_cons]
    rcases idle_or_enabled r first with ⟨x, hidle⟩ | ⟨m, settings, hslot, -⟩
    · rw [hidle.work, hidle.runnable, ih]
      rfl
    · rw [work_cons hslot, hslot, List.length_cons, ih]
      rfl

/-- The enabled name right before a position. -/
theorem exists_name_of_rank_succ (s : Snapshot) {i k : Nat} (h : r.rank names i = k + 1) :
    ∃ i' name m settings, names[i']? = some name ∧ r.Enabled name m settings ∧
      r.rank names i' = k := by
  have hlength : ((r.work (names.take i) s)).length = k + 1 := by
    rw [length_work, rank, List.take_length]
    exact h
  have hk : k < (r.work (names.take i) s).length := by omega
  obtain ⟨i', name, m, settings, hi', he, hrank, -⟩ :=
    exists_name_of_getElem?_work (List.getElem?_eq_getElem hk)
  have hlt : i' < i := by
    have := (List.getElem?_eq_some_iff.1 hi').1
    rw [List.length_take] at this
    omega
  rw [List.getElem?_take_of_lt hlt] at hi'
  rw [rank, List.take_take, Nat.min_eq_left (Nat.le_of_lt hlt)] at hrank
  exact ⟨i', name, m, settings, hi', he, hrank⟩

theorem nameable_eq_false_iff (j : Evaluation.Job) :
    j.nameable = false ↔ Char.ofNat 0 ∈ j.name.toList := by
  simp [Evaluation.Job.nameable]

theorem nameable_work_of_names (s : Snapshot) (h : ∀ name ∈ names, Char.ofNat 0 ∉ name.toList) :
    Evaluation.Nameable (r.work names s) := by
  intro j hj
  obtain ⟨k, hk⟩ := List.getElem?_of_mem hj
  obtain ⟨i, name, m, settings, hi, he, -, rfl⟩ := exists_name_of_getElem?_work hk
  obtain rfl : m.name = name := name_of_find? he.1
  rw [← Bool.not_eq_false, nameable_eq_false_iff]
  exact h _ (List.mem_of_getElem? hi)

/-! ## Crashes -/

theorem evaluated_crashed_iff (c : Crash) :
    (r.evaluated scheduler names s o token).1 = .error (.crash c) ↔
      (∃ name, r.Trips names s scheduler o token name ∧ c = .workerName name) ∨
        (c = .deadline ∧ r.Oversteps names s scheduler o token) := by
  rw [evaluated_eq_crash_iff, Evaluation.evaluate_crashed_iff]
  refine or_congr_left ?_
  constructor
  · rintro ⟨k, j, hstarts, hj, hname, rfl⟩
    obtain ⟨i, name, m, settings, hi, he, rfl, rfl⟩ := exists_name_of_getElem?_work hj
    rw [nameable_eq_false_iff] at hname
    obtain rfl : m.name = name := name_of_find? he.1
    exact ⟨m.name, ⟨i, m, settings, hi, he, hname, hstarts⟩, rfl⟩
  · rintro ⟨name, ⟨i, m, settings, hi, he, hname, hstarts⟩, rfl⟩
    obtain rfl : m.name = name := name_of_find? he.1
    exact ⟨_, _, hstarts, work_rank hi he, (nameable_eq_false_iff _).2 hname, rfl⟩

theorem crashed_of_trips {name : String} (h : r.Trips names s scheduler o token name) :
    (r.evaluated scheduler names s o token).1 = .error (.crash (.workerName name)) :=
  (evaluated_crashed_iff _).2 (.inl ⟨name, h, rfl⟩)

/-- With a budget that is short enough only names make an evaluation crash. -/
theorem exists_trips_of_crashed (ho : o.Attainable) {c : Crash}
    (h : (r.evaluated scheduler names s o token).1 = .error (.crash c)) :
    ∃ name, r.Trips names s scheduler o token name ∧ c = .workerName name :=
  ((evaluated_crashed_iff c).1 h).resolve_right fun hover => Evaluation.not_oversteps ho hover.2

/-- One worker for each module, and a budget as long as all times there are: the first step of the
evaluating thread is the last. -/
theorem crashed_of_horizon (hp : o.parallel = true) {b : Evaluation.Span}
    (hb : o.budget = some b) (hfar : Evaluation.horizon ≤ b.nanos)
    (hn : ∀ name ∈ names, Char.ofNat 0 ∉ name.toList)
    (hmain : .main ∈ scheduler o (r.work names s)) :
    (r.evaluated scheduler names s o token).1 = .error (.crash .deadline) :=
  (evaluated_crashed_iff _).2 (.inr ⟨rfl,
    Evaluation.oversteps_of_horizon hp hb hfar (nameable_work_of_names s hn) token hmain⟩)

/-- One worker for each module: each of them is to be named. -/
theorem exists_trips_iff_of_parallel (hp : o.parallel = true) :
    (∃ name, r.Trips names s scheduler o token name) ↔
      ∃ name ∈ names, ∃ m settings, r.Enabled name m settings ∧ Char.ofNat 0 ∈ name.toList := by
  constructor
  · rintro ⟨name, i, m, settings, hi, he, hname, -⟩
    exact ⟨name, List.mem_of_getElem? hi, m, settings, he, hname⟩
  · rintro ⟨name, hmem, m, settings, he, hname⟩
    obtain ⟨i, hi⟩ := List.getElem?_of_mem hmem
    obtain rfl : m.name = name := name_of_find? he.1
    have hjob := List.mem_of_getElem? (work_rank (s := s) hi he)
    -- the first job that cannot be named is come to
    have hfind : ((r.work names s).find? fun j => !j.nameable).isSome = true := by
      rw [List.find?_isSome]
      exact ⟨_, hjob, by rw [(nameable_eq_false_iff _).2 hname]; rfl⟩
    obtain ⟨j, hj⟩ := Option.isSome_iff_exists.1 hfind
    have hstart : (Evaluation.Parallel.initial o (r.work names s) token).control =
        .done (.crashed (.workerName j.name)) := by simp only [Evaluation.Parallel.initial, hj]
    obtain ⟨k, j', hstarts, hj', hname', -⟩ :=
      (Evaluation.Parallel.initial_crashed_iff o token _).1 hstart
    obtain ⟨i', name, m', settings', hi', he', hrank, rfl⟩ := exists_name_of_getElem?_work hj'
    obtain rfl : m'.name = name := name_of_find? he'.1
    refine ⟨m'.name, i', m', settings', hi', he', (nameable_eq_false_iff _).1 hname', ?_⟩
    rw [Starts, Evaluation.Starts, if_pos hp, hrank]
    exact hstarts

/-- A chain of workers: one is named after the first module, and others after modules behind one
that is overdue. -/
theorem Starts.cases (hp : o.parallel = false) {i : Nat}
    (h : r.Starts names s scheduler o token i) :
    r.rank names i = 0 ∨ ∃ i' name m settings, names[i']? = some name ∧
      r.Enabled name m settings ∧ r.rank names i = r.rank names i' + 1 ∧
      r.Overdue names s scheduler o token i' ∧ ¬ r.InTime names s scheduler o token i' := by
  rcases Evaluation.Starts.cases hp h with h | ⟨k, hk, hover, hout⟩
  · exact .inl h
  · obtain ⟨i', name, m, settings, hi', he, rfl⟩ := exists_name_of_rank_succ s hk
    exact .inr ⟨i', name, m, settings, hi', he, hk, hover, hout⟩

/-- The first module is always run in a chain under a token nobody can set. -/
theorem trips_of_first (hp : o.parallel = false) {i : Nat} {name : String} {m : Module}
    {settings : ModuleSettings} (hi : names[i]? = some name) (he : r.Enabled name m settings)
    (hname : Char.ofNat 0 ∈ name.toList) (hfirst : r.rank names i = 0)
    (hmain : .main ∈ scheduler o (r.work names s)) : r.Trips names s scheduler o .own name := by
  refine ⟨i, m, settings, hi, he, hname, ?_⟩
  have hjobs : r.work names s ≠ [] :=
    List.ne_nil_of_mem (List.mem_of_getElem? (work_rank (s := s) hi he))
  rw [Starts, hfirst]
  exact Evaluation.starts_zero hp hjobs hmain

/-! ## Returning -/

theorem result_evaluate (r : Registry) (scheduler : Evaluation.Scheduler) (names : List String)
    (s : Snapshot) (o : Evaluation.Options) (token : Token) (w : Observers) :
    ((r.evaluate scheduler names s o token).watchedBy w).1 =
      (r.evaluated scheduler names s o token).1 := by
  rw [evaluate_ends]

theorem evaluated_returns (ha : Evaluation.Answering (r.work names s)) (o : Evaluation.Options)
    (token : Token) {actions : Nat → Evaluation.Action} (hfair : Evaluation.Fair actions) :
    ∃ n, ∀ m, n ≤ m →
      (r.evaluated (fun _ _ => Evaluation.upTo actions m) names s o token).1 ≠ .error .waits := by
  obtain ⟨n, v, hv⟩ := Evaluation.evaluate_returns ha o token hfair
  refine ⟨n, fun m hm => ?_⟩
  rw [ne_eq, evaluated_eq_waits_iff, hv m hm]
  exact nofun

/-- The only error is that the token was set, and nobody sets a token of the evaluation's own. -/
theorem eq_cancelled_of_evaluated {e : PromptError}
    (h : (r.evaluated scheduler names s o token).1 = .error (.error e)) :
    e = .cancelled ∧ token ≠ .own := by
  obtain ⟨rfl, after, hv⟩ := (evaluated_eq_error_iff e).1 h
  refine ⟨rfl, ?_⟩
  rintro rfl
  have hafter := Evaluation.token_evaluate_own o (r.work names s) (scheduler o (r.work names s))
  rw [hv] at hafter
  have hset := Evaluation.isCancelled_of_cancelled hv
  rw [show after = .own from hafter] at hset
  cases hset

theorem eq_own_of_evaluated {found : List Outcome} {after : Token}
    (h : (r.evaluated scheduler names s o .own).1 = .ok (found, after)) : after = .own := by
  obtain ⟨results, hv, -⟩ := evaluated_eq_ok_iff.1 h
  have hafter := Evaluation.token_evaluate_own o (r.work names s) (scheduler o (r.work names s))
  rwa [hv] at hafter

/-! ## Outcomes -/

section Outcomes

variable {found : List Outcome} {after : Token}

theorem inTime_of_unlimited
    (h : (r.evaluated scheduler names s o token).1 = .ok (found, after)) (hb : o.budget = none)
    {i : Nat} {name : String} {m : Module} {settings : ModuleSettings}
    (hi : names[i]? = some name) (he : r.Enabled name m settings)
    (hgranted : ∀ why, ¬ r.Refused names s scheduler o token i why) :
    r.InTime names s scheduler o token i := by
  have hdecides := decides_of_evaluated h hi he
  rcases hdecides.all with ⟨why, hwhy⟩ | hin | hover
  · exact absurd hwhy (hgranted why)
  · exact hin
  · obtain ⟨b, hb', -⟩ := hdecides.overdue hover
    rw [hb] at hb'
    cases hb'

/-- What a name calls for is up to what is registered under it. -/
theorem CallsFor.of_find?_eq {r₂ : Registry} {name : String} {budget : Option UInt64}
    {inTime : Prop} {x : Outcome} (hfind : r₂.find? name = r.find? name)
    (hx : CallsFor r s budget name inTime x) : CallsFor r₂ s budget name inTime x := by
  have enabled : ∀ {m settings}, r.Enabled name m settings → r₂.Enabled name m settings :=
    fun he => ⟨hfind.trans he.1, he.2⟩
  cases hx with
  | unknown hf => exact .unknown (hfind.trans hf)
  | disabled hf he => exact .disabled (hfind.trans hf) he
  | timedOut he hout hb => exact .timedOut (enabled he) hout hb
  | panicked he hin hend => exact .panicked (enabled he) hin hend
  | failed he hin hend => exact .failed (enabled he) hin hend
  | nothing he hin hend => exact .nothing (enabled he) hin hend
  | blank he hin hend hf => exact .blank (enabled he) hin hend hf
  | rendered he hin hend hf => exact .rendered (enabled he) hin hend hf

theorem Yields.of_find?_eq {r₂ : Registry} {name : String} {denied : String → Prop}
    {inTime : Prop} {x : Outcome} (hfind : r₂.find? name = r.find? name)
    (hx : Yields r s o name denied inTime x) : Yields r₂ s o name denied inTime x :=
  ⟨hx.refused, fun hgranted => (hx.granted hgranted).of_find?_eq hfind⟩

/-- A module in two companies: other modules, other names requested before and behind it, another
mode. If it has a worker in both or is refused one for the same reason, and answers in time in both
or in neither, its outcome is the same. -/
theorem outcome_unique {r₂ : Registry} {names₂ : List String}
    {scheduler₂ : Evaluation.Scheduler} {o₂ : Evaluation.Options} {token₂ : Token}
    {found₂ : List Outcome} {after₂ : Token}
    (h : (r.evaluated scheduler names s o token).1 = .ok (found, after))
    (h₂ : (r₂.evaluated scheduler₂ names₂ s o₂ token₂).1 = .ok (found₂, after₂))
    (hbudget : o₂.budget = o.budget) {i i₂ : Nat} {name : String} (hi : names[i]? = some name)
    (hi₂ : names₂[i₂]? = some name) (hfind : r₂.find? name = r.find? name)
    (hrefused : ∀ why, r₂.Refused names₂ s scheduler₂ o₂ token₂ i₂ why ↔
      r.Refused names s scheduler o token i why)
    (htime : o.budget ≠ none → ∀ m settings, r.Enabled name m settings →
      (r₂.InTime names₂ s scheduler₂ o₂ token₂ i₂ ↔ r.InTime names s scheduler o token i)) :
    found₂[i₂]? = found[i]? := by
  obtain ⟨x, hx, hyields⟩ := (yields_of_evaluated h).2 i name hi
  obtain ⟨x₂, hx₂, hyields₂⟩ := (yields_of_evaluated h₂).2 i₂ name hi₂
  rw [hx, hx₂, hyields.unique (hyields₂.of_find?_eq hfind.symm) hbudget hrefused ?_]
  intro hgranted m settings he
  by_cases hb : o.budget = none
  · have he₂ : r₂.Enabled name m settings := ⟨hfind.trans he.1, he.2⟩
    have hgranted₂ : ∀ why, ¬ r₂.Refused names₂ s scheduler₂ o₂ token₂ i₂ why :=
      fun why hwhy => hgranted why ((hrefused why).1 hwhy)
    exact iff_of_true (inTime_of_unlimited h₂ (hbudget.trans hb) hi₂ he₂ hgranted₂)
      (inTime_of_unlimited h hb hi he hgranted)
  · exact htime hb m settings he

end Outcomes

/-! ## All modules -/

theorem renderAll_ends (r : Registry) (scheduler : Evaluation.Scheduler) (s : Snapshot) :
    (r.renderAll scheduler s).Ends
      ((r.evaluated scheduler r.names s {} .own).1.map
        fun p => p.1.filterMap Outcome.fragment?)
      (r.evaluated scheduler r.names s {} .own).2 := by
  have hends := r.evaluate_ends scheduler r.names s {} .own
  rcases he : r.evaluated scheduler r.names s {} .own with ⟨halt | ⟨found, after⟩, notes⟩
  all_goals rw [he] at hends
  · have hhalt : ∀ e, halt ≠ .error e := by
      rintro e rfl
      exact (eq_cancelled_of_evaluated (congrArg Prod.fst he)).2 rfl
    exact (hends.bind_error _).recover_halt hhalt _
  · have hpure := hends.bind
      (f := fun p => (pure (p.1.filterMap Outcome.fragment?) : Render (List Fragment))) (.pure _)
    rw [List.append_nil] at hpure
    exact hpure.recover_ok _

/-- Two things stop an evaluation, and neither is what modules answer or that they panic. One is the
name of a worker (`Trips`): with one worker for each module every requested name is one; a chain of
workers always has one for the first module, and others only behind modules that are overdue. The
other is a budget too long for there to be a time to wait until (`Oversteps`). Otherwise, among
modules that answer, names are evaluated to what they yield unless the token is set, and the outcome
of a name does not depend on the company. `evaluateAll` evaluates all names, and `renderAll` keeps
their fragments. -/
theorem evaluate_isolates (r : Registry) (names : List String) (s : Snapshot)
    (o : Evaluation.Options) (token : Token) :
    (∀ scheduler w c,
      ((r.evaluate scheduler names s o token).watchedBy w).1 = .error (.crash c) ↔
        (∃ name, r.Trips names s scheduler o token name ∧ c = .workerName name) ∨
          (c = .deadline ∧ r.Oversteps names s scheduler o token)) ∧
    (∀ scheduler, o.parallel = true →
      ((∃ name, r.Trips names s scheduler o token name) ↔
        ∃ name ∈ names, ∃ m settings, r.Enabled name m settings ∧ Char.ofNat 0 ∈ name.toList)) ∧
    (∀ scheduler i, o.parallel = false → r.Starts names s scheduler o token i →
      r.rank names i = 0 ∨ ∃ i' name m settings, names[i']? = some name ∧
        r.Enabled name m settings ∧ r.rank names i = r.rank names i' + 1 ∧
        r.Overdue names s scheduler o token i' ∧ ¬ r.InTime names s scheduler o token i') ∧
    (∀ scheduler i name m settings, o.parallel = false → token = .own →
      names[i]? = some name → r.Enabled name m settings → Char.ofNat 0 ∈ name.toList →
      r.rank names i = 0 → .main ∈ scheduler o (r.work names s) →
      r.Trips names s scheduler o token name) ∧
    ((∀ b, o.budget = some b → Evaluation.lastReading + b.nanos < Evaluation.horizon) →
      ∀ scheduler, ¬ r.Oversteps names s scheduler o token) ∧
    (∀ scheduler w b, o.parallel = true → o.budget = some b → Evaluation.horizon ≤ b.nanos →
      (∀ name ∈ names, Char.ofNat 0 ∉ name.toList) → .main ∈ scheduler o (r.work names s) →
      ((r.evaluate scheduler names s o token).watchedBy w).1 = .error (.crash .deadline)) ∧
    (Evaluation.Answering (r.work names s) → ∀ actions, Evaluation.Fair actions →
      ∃ n, ∀ m, n ≤ m → ∀ w,
        let scheduler := fun _ _ => Evaluation.upTo actions m
        let result := ((r.evaluate scheduler names s o token).watchedBy w).1
        (∃ found after, result = .ok (found, after)) ∨
          (result = .error (.error .cancelled) ∧ token ≠ .own) ∨
          (∃ name, r.Trips names s scheduler o token name ∧
            result = .error (.crash (.workerName name))) ∨
          (r.Oversteps names s scheduler o token ∧ result = .error (.crash .deadline))) ∧
    (∀ scheduler w found after,
      ((r.evaluate scheduler names s o token).watchedBy w).1 = .ok (found, after) →
      found.length = names.length ∧
        (∀ i name, names[i]? = some name → ∃ x, found[i]? = some x ∧
          Yields r s o name (r.Refused names s scheduler o token i)
            (r.InTime names s scheduler o token i) x) ∧
        ∀ (r₂ : Registry) scheduler₂ names₂ o₂ token₂ w₂ found₂ after₂,
          ((r₂.evaluate scheduler₂ names₂ s o₂ token₂).watchedBy w₂).1 = .ok (found₂, after₂) →
          o₂.budget = o.budget →
          ∀ i i₂ name, names[i]? = some name → names₂[i₂]? = some name →
            r₂.find? name = r.find? name →
            (∀ why, r₂.Refused names₂ s scheduler₂ o₂ token₂ i₂ why ↔
              r.Refused names s scheduler o token i why) →
            (o.budget ≠ none → ∀ m settings, r.Enabled name m settings →
              (r₂.InTime names₂ s scheduler₂ o₂ token₂ i₂ ↔
                r.InTime names s scheduler o token i)) →
            found₂[i₂]? = found[i]?) ∧
    (∀ scheduler, r.evaluateAll scheduler s o token = r.evaluate scheduler r.names s o token) ∧
    (∀ scheduler w, (r.renderAll scheduler s).watchedBy w =
      let (result, w') := (r.evaluate scheduler r.names s {} .own).watchedBy w
      (result.map fun p => p.1.filterMap Outcome.fragment?, w')) := by
  refine ⟨?crash, fun _ => exists_trips_iff_of_parallel, fun _ _ hp => Starts.cases hp, ?first,
    fun ho _ => Evaluation.not_oversteps ((Evaluation.attainable_iff o).2 ho), ?far, ?returns,
    ?outcomes, fun _ => rfl, ?all⟩
  case crash =>
    intro scheduler w c
    rw [result_evaluate]
    exact evaluated_crashed_iff c
  case first =>
    rintro scheduler i name m settings hp rfl hi he hname hfirst hmain
    exact trips_of_first hp hi he hname hfirst hmain
  case far =>
    intro scheduler w b hp hb hfar hn hmain
    rw [result_evaluate]
    exact crashed_of_horizon hp hb hfar hn hmain
  case returns =>
    intro ha actions hfair
    obtain ⟨n, hn⟩ := evaluated_returns ha o token hfair
    refine ⟨n, fun m hm w => ?_⟩
    have hreturns := hn m hm
    simp only [result_evaluate]
    rcases he : (r.evaluated (fun _ _ => Evaluation.upTo actions m) names s o token).1 with
      (e | c | _) | ⟨found, after⟩
    · obtain ⟨rfl, hown⟩ := eq_cancelled_of_evaluated he
      exact .inr (.inl ⟨rfl, hown⟩)
    · rcases (evaluated_crashed_iff c).1 he with ⟨name, htrips, rfl⟩ | ⟨rfl, hover⟩
      · exact .inr (.inr (.inl ⟨name, htrips, rfl⟩))
      · exact .inr (.inr (.inr ⟨hover, rfl⟩))
    · exact absurd he hreturns
    · exact .inl ⟨found, after, rfl⟩
  case outcomes =>
    intro scheduler w found after h
    rw [result_evaluate] at h
    obtain ⟨hlength, hyields⟩ := yields_of_evaluated h
    refine ⟨hlength, hyields, ?_⟩
    intro r₂ scheduler₂ names₂ o₂ token₂ w₂ found₂ after₂ h₂ hbudget i i₂ name hi hi₂ hfind hrefused
      htime
    rw [result_evaluate] at h₂
    exact outcome_unique h h₂ hbudget hi hi₂ hfind hrefused htime
  case all =>
    intro scheduler w
    rw [renderAll_ends, evaluate_ends]

/-- A module that answers, one that panics, one that fails, and one named as no worker can be. -/
def noisy : Registry where
  entries := [
    (⟨"dir", fun _ => { ending := .returns (.ok (some { text := "~" })) }⟩, {}),
    (⟨"weather", fun _ => { ending := .panics }⟩, {}),
    (⟨"git", fun _ => { ending := .returns (.error (.render "git" "no repository")) }⟩, {}),
    (⟨"clock\x00", fun _ => { ending := .returns (.ok (some { text := "12:00" })) }⟩, {})]

def noisyFound : List Outcome := [.rendered { text := "~", module := "dir" },
  .failed (.panicked "weather"), .failed (.render "git" "no repository"),
  .rendered { text := "12:00", module := "clock\x00" }]

/-- The longest budget there is. -/
def longest : Evaluation.Span := ⟨0x10000000000000000 * 1000000000 - 1, by decide⟩

theorem answering_noisy : Evaluation.Answering (noisy.work noisy.names ⟨{}, by decide⟩) := by
  intro j hj
  obtain ⟨e, he, rfl⟩ := exists_entry_of_work hj
  simp only [noisy, List.mem_cons, List.not_mem_nil, or_false] at he
  rcases he with rfl | rfl | rfl | rfl <;> exact nofun

/-- In a chain without a budget the one worker is named after `dir`, and along a fair schedule it
comes to what it comes to under the eager one. With one worker for each module, or with `clock` in
front, a worker is to be named after `clock`. And there is no time to wait until with the longest
budget of all. -/
theorem evaluate_isolates_noisy :
    (∃ n, ∀ m, n ≤ m → ∃ found after,
      ((noisy.evaluate (fun _ _ => Evaluation.upTo Evaluation.dovetail m) noisy.names
          ⟨{}, by decide⟩ { parallel := false, budget := none } .own).watchedBy {}).1 =
        .ok (found, after) ∧
      found.length = noisyFound.length ∧ ∀ i, i < 4 → noisyFound[i]? = found[i]?) ∧
    (∃ name, noisy.Trips noisy.names ⟨{}, by decide⟩ Evaluation.eager {} .own name) ∧
    noisy.Trips ["clock\x00", "dir"] ⟨{}, by decide⟩ Evaluation.eager { parallel := false } .own
      "clock\x00" ∧
    ((noisy.evaluate Evaluation.eager ["dir"] ⟨{}, by decide⟩
        { budget := some longest } .own).watchedBy {}).1 =
      .error (.crash .deadline) := by
  refine ⟨?chain, ?each, ?front, ?far⟩
  case chain =>
    obtain ⟨-, -, hstarts, -, hshort, -, hreturns, houtcomes, -⟩ := evaluate_isolates noisy
      noisy.names ⟨{}, by decide⟩ { parallel := false, budget := none } .own
    obtain ⟨n, hn⟩ := hreturns answering_noisy _ Evaluation.fair_dovetail
    refine ⟨n, fun m hm => ?_⟩
    rcases hn m hm {} with ⟨found, after, hok⟩ | ⟨-, hown⟩ |
      ⟨name, ⟨i, -, -, hi, -, hname, hst⟩, -⟩ | ⟨hover, -⟩
    · obtain ⟨hlength, -, hsame⟩ := houtcomes _ _ _ _ hok
      refine ⟨found, after, hok, hlength, fun i hi => ?_⟩
      have heager : ((noisy.evaluate Evaluation.eager noisy.names ⟨{}, by decide⟩
        { parallel := false, budget := none } .own).watchedBy {}).1 = .ok (noisyFound, .own) := by
        decide +kernel
      have hget : noisy.names[i]? = some noisy.names[i] := List.getElem?_eq_getElem hi
      exact hsame noisy _ _ _ _ _ _ _ heager rfl i i _ hget hget rfl (fun why => iff_of_false
        (not_refused (fun _ => rfl) i why) (not_refused (fun _ => rfl) i why))
        fun h => absurd rfl h
    · exact absurd rfl hown
    · -- only `dir` comes first, and without a budget nothing is overdue
      rcases hstarts _ i rfl hst with hfirst | ⟨_, _, _, _, _, _, _, hover, -⟩
      · obtain rfl : i = 0 := by
          rcases i with _ | _ | _ | _ | i
          · rfl
          · cases hfirst
          · cases hfirst
          · cases hfirst
          · cases hi
        obtain rfl : "dir" = name := Option.some.inj hi
        exact absurd hname (by decide)
      · obtain ⟨b, hb, -⟩ := Evaluation.Overdue.le_duration hover
        cases hb
    · have hunlimited : ∀ b, (none : Option Evaluation.Span) = some b →
          Evaluation.lastReading + b.nanos < Evaluation.horizon := by simp
      exact absurd hover (hshort hunlimited _)
  case each =>
    obtain ⟨-, heach, -⟩ := evaluate_isolates noisy noisy.names ⟨{}, by decide⟩ {} .own
    exact (heach _ rfl).2 ⟨"clock\x00", by decide, _, _, ⟨rfl, rfl⟩, by decide⟩
  case front =>
    obtain ⟨-, -, -, hfirst, -⟩ := evaluate_isolates noisy ["clock\x00", "dir"] ⟨{}, by decide⟩
      { parallel := false } .own
    exact hfirst Evaluation.eager 0 _ _ _ rfl rfl rfl ⟨rfl, rfl⟩ (by decide) rfl (by decide)
  case far =>
    obtain ⟨-, -, -, -, -, hfar, -⟩ := evaluate_isolates noisy ["dir"] ⟨{}, by decide⟩
      { budget := some longest } .own
    exact hfar Evaluation.eager {} _ rfl rfl (by decide) (by decide) (by decide)

/-- With one worker for each module, a name that holds NUL lets a panic out of every evaluation,
and the modules that answer have no outcome either; a chain of workers evaluates the same names. -/
theorem nul_name_escapes :
    ((noisy.evaluate Evaluation.eager ["dir", "clock\x00"] ⟨{}, by decide⟩ {} .own).watchedBy
        {}).1 = .error (.crash (.workerName "clock\x00")) ∧
      ((noisy.renderAll Evaluation.eager ⟨{}, by decide⟩).watchedBy {}).1 =
        .error (.crash (.workerName "clock\x00")) ∧
      ((noisy.evaluate Evaluation.eager ["clock\x00"] ⟨{}, by decide⟩ { parallel := false }
        .own).watchedBy {}).1 = .error (.crash (.workerName "clock\x00")) ∧
      ((noisy.evaluate Evaluation.eager ["dir", "clock\x00"] ⟨{}, by decide⟩
          { parallel := false } .own).watchedBy {}).1 =
        .ok ([.rendered { text := "~", module := "dir" },
          .rendered { text := "12:00", module := "clock\x00" }], .own) :=
  ⟨by rfl, by rfl, by rfl, by rfl⟩

end Registry
end ShellPrompt
