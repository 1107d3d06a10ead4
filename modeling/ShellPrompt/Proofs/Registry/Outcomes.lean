import ShellPrompt.Proofs.Registry.Modules

/-!
# ShellPrompt.Proofs.Registry.Outcomes

What evaluating names gives, whichever machine runs the modules and under whatever schedule.

* `CallsFor`: what one name calls for by itself, given whether its module answered in time. It
  mentions neither other names nor jobs nor results. `Yields` adds what becomes of a name whose
  module the system refuses a worker.
* `Undisturbed`: an evaluation that returns under a token nobody sets.
* `evaluate_outcomes`: such an evaluation returns what each name yields and logs the unknown names,
  then the failures. By the clock, each module was refused a worker, in time or overdue, and that
  decides all of it. Modules that answer are evaluated to an end, and in time where less goes by
  than the budget.
-/

namespace ShellPrompt
namespace Registry

def Enabled (r : Registry) (name : String) (m : Module) (settings : ModuleSettings) : Prop :=
  r.find? name = some (m, settings) ∧ settings.enabled = true

/-- What a name calls for, `inTime` telling whether its module answered within the budget. -/
inductive CallsFor (r : Registry) (s : Snapshot) (budget : Option UInt64) (name : String)
    (inTime : Prop) : Outcome → Prop where
  | unknown : r.find? name = none → CallsFor r s budget name inTime (.unknown name)
  | disabled {m : Module} {settings : ModuleSettings} : r.find? name = some (m, settings) →
      settings.enabled = false → CallsFor r s budget name inTime (.disabled name)
  | timedOut {m : Module} {settings : ModuleSettings} {b : UInt64} :
      r.Enabled name m settings → ¬ inTime → budget = some b →
      CallsFor r s budget name inTime (.failed (.timedOut m.name b))
  | panicked {m : Module} {settings : ModuleSettings} :
      r.Enabled name m settings → inTime → (m.run s).ending = .panics →
      CallsFor r s budget name inTime (.failed (.panicked m.name))
  | failed {m : Module} {settings : ModuleSettings} {failure : ModuleFailure} :
      r.Enabled name m settings → inTime → (m.run s).ending = .returns (.error failure) →
      CallsFor r s budget name inTime (.failed failure)
  | nothing {m : Module} {settings : ModuleSettings} :
      r.Enabled name m settings → inTime → (m.run s).ending = .returns (.ok none) →
      CallsFor r s budget name inTime (.empty m.name)
  | blank {m : Module} {settings : ModuleSettings} {f : Fragment} :
      r.Enabled name m settings → inTime → (m.run s).ending = .returns (.ok (some f)) →
      f.text = "" → CallsFor r s budget name inTime (.empty m.name)
  | rendered {m : Module} {settings : ModuleSettings} {f : Fragment} :
      r.Enabled name m settings → inTime → (m.run s).ending = .returns (.ok (some f)) →
      f.text ≠ "" → CallsFor r s budget name inTime (.rendered {
        text := f.text
        style := settings.style.or f.style
        priority := settings.priority.getD f.priority
        module := m.name })

section CallsFor

variable {r : Registry} {s : Snapshot} {budget : Option UInt64} {name : String} {inTime : Prop}
  {m : Module} {settings : ModuleSettings}

theorem name_of_find? (h : r.find? name = some (m, settings)) : m.name = name := by
  have := List.find?_some h
  simpa using this

theorem CallsFor.unique {x y : Outcome} (hx : CallsFor r s budget name inTime x)
    (hy : CallsFor r s budget name inTime y) : x = y := by
  cases hx <;> cases hy <;> simp_all [Enabled]

/-- Whether a module answered in time matters only where one is to be run. -/
theorem CallsFor.congr {inTime' : Prop} {x : Outcome} (hx : CallsFor r s budget name inTime x)
    (h : ∀ m settings, r.Enabled name m settings → (inTime ↔ inTime')) :
    CallsFor r s budget name inTime' x := by
  cases hx with
  | unknown hf => exact .unknown hf
  | disabled hf he => exact .disabled hf he
  | timedOut he hout hb => exact .timedOut he (fun hin => hout ((h _ _ he).2 hin)) hb
  | panicked he hin hend => exact .panicked he ((h _ _ he).1 hin) hend
  | failed he hin hend => exact .failed he ((h _ _ he).1 hin) hend
  | nothing he hin hend => exact .nothing he ((h _ _ he).1 hin) hend
  | blank he hin hend hf => exact .blank he ((h _ _ he).1 hin) hend hf
  | rendered he hin hend hf => exact .rendered he ((h _ _ he).1 hin) hend hf

/-- Settling the result of a module that is waited for gives what its name calls for. -/
theorem callsFor_settled (he : r.Enabled name m settings) {result : ModuleResult}
    (hin : inTime → (⟨m.name, m.run s⟩ : Evaluation.Job).result? = some result)
    (hout : ¬ inTime → ∃ b, budget = some b ∧ result = .error (.timedOut m.name b)) :
    CallsFor r s budget name inTime (settled m.name settings result) := by
  by_cases h : inTime
  · have hres := hin h
    cases hend : (m.run s).ending with
    | stalls => simp [Evaluation.Job.result?, hend] at hres
    | panics =>
      simp only [Evaluation.Job.result?, hend, Option.some.injEq] at hres
      subst hres
      exact .panicked he h hend
    | returns answer =>
      simp only [Evaluation.Job.result?, hend, Option.some.injEq] at hres
      subst hres
      cases answer with
      | error failure => exact .failed he h hend
      | ok found =>
        cases found with
        | none => exact .nothing he h hend
        | some f =>
          by_cases hf : f.text = ""
          · have hempty : f.text.isEmpty = true := by simpa using hf
            simp only [settled, hempty, if_true]
            exact .blank he h hend hf
          · have hne : f.text.isEmpty = false := by simpa using hf
            simp only [settled, hne, Bool.false_eq_true, if_false]
            exact .rendered he h hend hf
  · obtain ⟨b, hb, rfl⟩ := hout h
    exact .timedOut he h hb

theorem not_stalls_of_inTime {x : Outcome} (hx : CallsFor r s budget name inTime x)
    (he : r.Enabled name m settings) (hin : inTime) : (m.run s).ending ≠ .stalls := by
  intro hstalls
  cases hx <;> simp_all [Enabled]

/-- What is no time-out came in time. -/
theorem inTime_of_not_isTimeout {x : Outcome} (hx : CallsFor r s budget name inTime x)
    (he : r.Enabled name m settings) (htimeout : x.isTimeout = false) : inTime := by
  cases hx with
  | timedOut _ _ _ => cases htimeout
  | unknown hf => simp_all [Enabled]
  | disabled hf hoff => simp_all [Enabled]
  | panicked _ hin _ => exact hin
  | failed _ hin _ => exact hin
  | nothing _ hin _ => exact hin
  | blank _ hin _ _ => exact hin
  | rendered _ hin _ _ => exact hin

end CallsFor

/-- What comes out for a name: why its module has no worker, if `denied` tells of that, or what the
name calls for. -/
structure Yields (r : Registry) (s : Snapshot) (o : Evaluation.Options) (name : String)
    (denied : String → Prop) (inTime : Prop) (x : Outcome) : Prop where
  refused : ∀ why, denied why → x = .failed (.render name ("worker spawn failed: " ++ why))
  granted : (∀ why, ¬ denied why) →
    CallsFor r s (o.budget.map Evaluation.Span.millis) name inTime x

theorem Yields.unique {r : Registry} {s : Snapshot} {o o₂ : Evaluation.Options} {name : String}
    {denied denied₂ : String → Prop} {inTime inTime₂ : Prop} {x y : Outcome}
    (hx : Yields r s o name denied inTime x) (hy : Yields r s o₂ name denied₂ inTime₂ y)
    (hbudget : o₂.budget = o.budget) (hdenied : ∀ why, denied₂ why ↔ denied why)
    (htime : (∀ why, ¬ denied why) → ∀ m settings, r.Enabled name m settings →
      (inTime₂ ↔ inTime)) : y = x := by
  by_cases h : ∃ why, denied why
  · obtain ⟨why, hwhy⟩ := h
    rw [hx.refused why hwhy, hy.refused why ((hdenied why).2 hwhy)]
  · have hgranted : ∀ why, ¬ denied why := fun why hwhy => h ⟨why, hwhy⟩
    have hcalls := hy.granted fun why hwhy => hgranted why ((hdenied why).1 hwhy)
    rw [hbudget] at hcalls
    exact (hcalls.congr (htime hgranted)).unique (hx.granted hgranted)

/-! ## Events -/

/-- The event of an outcome under the name it was requested by: failures are logged. -/
def failureEvent? : String × Outcome → Option Log.Event
  | (name, .failed failure) => some (failedEvent name failure)
  | _ => none

def events (r : Registry) (names : List String) (found : List Outcome) : List Log.Event :=
  (names.filter fun name => !r.contains name).map unknownEvent ++
    (names.zip found).filterMap failureEvent?

/-! ## Names and jobs -/

def Slot.isRunnable : Slot → Bool
  | .runnable _ _ => true
  | _ => false

/-- The job of the name at a position: names before it that call for no worker have none. -/
def rank (r : Registry) (names : List String) (i : Nat) : Nat :=
  (names.take i).countP fun name => (r.slot name).isRunnable

/-- A name whose outcome is known beforehand. Its slot takes no result and logs no failure. -/
structure Idle (r : Registry) (name : String) (x : Outcome) : Prop where
  runnable : (r.slot name).isRunnable = false
  jobs : ∀ s slots, jobs s (r.slot name :: slots) = jobs s slots
  settles : ∀ slots results,
    settleAll (r.slot name :: slots) results = x :: settleAll slots results
  silent : ∀ slots results,
    failureEvents (r.slot name :: slots) results = failureEvents slots results
  succeeds : failureEvent? (name, x) = none
  calls : ∀ s budget inTime, CallsFor r s budget name inTime x

section Names

variable {r : Registry} {s : Snapshot} {first : String} {rest : List String}

theorem idle_unknown (hf : r.find? first = none) : r.Idle first (.unknown first) := by
  have hslot : r.slot first = .unknown first := by simp [slot, hf]
  constructor
  case calls => exact fun _ _ _ => .unknown hf
  case succeeds => rfl
  all_goals
    rw [hslot]
    intros
    rfl

theorem idle_disabled {m : Module} {settings : ModuleSettings}
    (hf : r.find? first = some (m, settings)) (he : settings.enabled = false) :
    r.Idle first (.disabled first) := by
  have hslot : r.slot first = .disabled first := by simp [slot, hf, he]
  constructor
  case calls => exact fun _ _ _ => .disabled hf he
  case succeeds => rfl
  all_goals
    rw [hslot]
    intros
    rfl

theorem idle_or_enabled (r : Registry) (name : String) :
    (∃ x, r.Idle name x) ∨
      ∃ m settings, r.slot name = .runnable m settings ∧ r.Enabled name m settings := by
  cases hf : r.find? name with
  | none => exact .inl ⟨_, idle_unknown hf⟩
  | some e =>
    obtain ⟨m, settings⟩ := e
    cases he : settings.enabled with
    | false => exact .inl ⟨_, idle_disabled hf he⟩
    | true => exact .inr ⟨m, settings, by simp [slot, hf, he], hf, he⟩

theorem rank_cons (r : Registry) (first : String) (rest : List String) (i : Nat) :
    r.rank (first :: rest) (i + 1) =
      r.rank rest i + if (r.slot first).isRunnable then 1 else 0 := by
  simp [rank, List.countP_cons]

theorem Idle.work {x : Outcome} (h : r.Idle first x) : r.work (first :: rest) s = r.work rest s :=
  h.jobs s (rest.map r.slot)

theorem work_cons {m : Module} {settings : ModuleSettings}
    (hslot : r.slot first = .runnable m settings) :
    r.work (first :: rest) s = ⟨m.name, m.run s⟩ :: r.work rest s := by
  simp [work, Registry.jobs, hslot]

theorem work_rank {names : List String} {i : Nat} {name : String} {m : Module}
    {settings : ModuleSettings} (hi : names[i]? = some name) (he : r.Enabled name m settings) :
    (r.work names s)[r.rank names i]? = some ⟨m.name, m.run s⟩ := by
  induction names generalizing i with
  | nil => cases hi
  | cons first rest ih =>
    cases i with
    | zero =>
      obtain rfl : first = name := Option.some.inj hi
      have hslot : r.slot first = .runnable m settings := by simp [slot, he.1, he.2]
      rw [work_cons hslot]
      rfl
    | succ i =>
      have htail := ih (i := i) hi
      rw [rank_cons]
      rcases idle_or_enabled r first with ⟨x, hidle⟩ | ⟨m', settings', hslot, -⟩
      · rw [hidle.work, hidle.runnable]
        exact htail
      · rw [work_cons hslot, hslot]
        exact htail

theorem Idle.not_enabled {name : String} {x : Outcome} (h : r.Idle name x) (m : Module)
    (settings : ModuleSettings) : ¬ r.Enabled name m settings := by
  rintro ⟨hf, he⟩
  have hidle := h.runnable
  simp [slot, hf, he, Slot.isRunnable] at hidle

theorem reports_cons {o : Evaluation.Options} {j : Evaluation.Job} {jobs : List Evaluation.Job}
    {inTime : Nat → Prop} {denied : Nat → String → Prop} {results : List ModuleResult}
    (h : Evaluation.Reports o (j :: jobs) inTime denied results) :
    ∃ result rest, results = result :: rest ∧
      (∀ why, denied 0 why → result = .error (Evaluation.unspawned j why)) ∧
      ((∀ why, ¬ denied 0 why) → (inTime 0 → j.result? = some result) ∧
        (¬ inTime 0 → ∃ b, o.budget = some b ∧ result = .error (.timedOut j.name b.millis))) ∧
      Evaluation.Reports o jobs (fun k => inTime (k + 1)) (fun k => denied (k + 1)) rest := by
  cases results with
  | nil => exact absurd h.length (by simp)
  | cons result rest =>
    refine ⟨result, rest, rfl, ?_, fun hgranted => ⟨?_, ?_⟩, ?_⟩
    · exact fun why hwhy => Option.some.inj (h.refused 0 j why rfl hwhy)
    · intro hin
      obtain ⟨a, ha, hr⟩ := h.answer 0 j rfl hgranted hin
      rw [ha, ← hr]
      rfl
    · intro hout
      obtain ⟨b, hb, hr⟩ := h.overdue 0 j rfl hgranted hout
      exact ⟨b, hb, Option.some.inj hr⟩
    · exact ⟨Nat.succ.inj h.length, fun i j' why hj => h.refused (i + 1) j' why hj,
        fun i j' hj => h.answer (i + 1) j' hj, fun i j' hj => h.overdue (i + 1) j' hj⟩

theorem settleAll_yields {o : Evaluation.Options} {names : List String} {inTime : Nat → Prop}
    {denied : Nat → String → Prop} {results : List ModuleResult}
    (h : Evaluation.Reports o (r.work names s) inTime denied results) :
    (settleAll (names.map r.slot) results).length = names.length ∧
      ∀ i name, names[i]? = some name → ∃ x, (settleAll (names.map r.slot) results)[i]? = some x ∧
        Yields r s o name
          (fun why => (∃ m settings, r.Enabled name m settings) ∧ denied (r.rank names i) why)
          (inTime (r.rank names i)) x := by
  induction names generalizing results inTime denied with
  | nil => exact ⟨rfl, nofun⟩
  | cons first rest ih =>
    rw [List.map_cons]
    -- only a runnable slot consumes a result, and only it moves the job count on
    rcases idle_or_enabled r first with ⟨x, hidle⟩ | ⟨m, settings, hslot, he⟩
    · obtain ⟨hlen, hall⟩ := ih (hidle.work ▸ h)
      rw [hidle.settles]
      refine ⟨congrArg Nat.succ hlen, ?_⟩
      intro i name hi
      cases i with
      | zero =>
        cases hi
        refine ⟨x, rfl, ?_, fun _ => hidle.calls _ _ _⟩
        rintro why ⟨⟨m, settings, he⟩, -⟩
        exact absurd he (hidle.not_enabled m settings)
      | succ i =>
        rw [rank_cons, hidle.runnable]
        exact hall i name hi
    · obtain ⟨result, tail, rfl, hdenied, hgranted, htail⟩ := reports_cons (work_cons hslot ▸ h)
      obtain ⟨hlen, hall⟩ := ih htail
      rw [hslot, settleAll]
      refine ⟨congrArg Nat.succ hlen, ?_⟩
      intro i name hi
      cases i with
      | zero =>
        cases hi
        refine ⟨_, rfl, ?_, fun hnone => ?_⟩
        · rintro why ⟨-, hwhy⟩
          rw [hdenied why hwhy]
          exact congrArg (fun name => Outcome.failed (.render name _)) (name_of_find? he.1)
        · obtain ⟨hin, hout⟩ := hgranted fun why hwhy => hnone why ⟨⟨m, settings, he⟩, hwhy⟩
          refine callsFor_settled he hin fun h => ?_
          obtain ⟨b, hb, hr⟩ := hout h
          exact ⟨b.millis, by rw [hb, Option.map_some], hr⟩
      | succ i =>
        rw [rank_cons, hslot]
        exact hall i name hi

theorem unknownEvents_slots (r : Registry) (names : List String) :
    unknownEvents (names.map r.slot) =
      (names.filter fun name => !r.contains name).map unknownEvent := by
  induction names with
  | nil => rfl
  | cons first rest ih =>
    rw [List.map_cons]
    cases hf : r.find? first with
    | none => simp [slot, contains, hf, unknownEvents, ih]
    | some e => cases he : e.2.enabled <;> simp [slot, contains, hf, he, unknownEvents, ih]

theorem failureEvents_slots {names : List String} {results : List ModuleResult}
    (h : results.length = (r.work names s).length) :
    failureEvents (names.map r.slot) results =
      (names.zip (settleAll (names.map r.slot) results)).filterMap failureEvent? := by
  induction names generalizing results with
  | nil => rfl
  | cons first rest ih =>
    rw [List.map_cons]
    rcases idle_or_enabled r first with ⟨x, hidle⟩ | ⟨m, settings, hslot, hf, -⟩
    · rw [hidle.work] at h
      rw [hidle.silent, hidle.settles, List.zip_cons_cons, List.filterMap_cons_none hidle.succeeds,
        ih h]
    · rw [work_cons hslot] at h
      cases results with
      | nil => cases h
      | cons result tail =>
        have htail := ih (Nat.succ.inj h)
        cases result with
        | error failure =>
          rw [hslot, failureEvents, settleAll, htail, name_of_find? hf]
          rfl
        | ok found =>
          rw [hslot, failureEvents, settleAll, htail]
          rcases found with _ | f
          · rfl
          · simp only [settled]
            split <;> rfl

end Names

/-! ## Evaluations -/

/-- What comes out is told of by its unknown names and its failures. -/
theorem notes_of_ok {r : Registry} {scheduler : Evaluation.Scheduler} {names : List String}
    {s : Snapshot} {o : Evaluation.Options} {token after : Token} {found : List Outcome}
    (h : (r.evaluated scheduler names s o token).1 = .ok (found, after)) :
    (r.evaluated scheduler names s o token).2 = (r.events names found).map .logged := by
  obtain ⟨results, hv, rfl⟩ := evaluated_eq_ok_iff.1 h
  rw [evaluated, hv, events, List.map_append, ← unknownEvents_slots,
    ← failureEvents_slots (Evaluation.reports_of_results hv).length]

section Diary

variable (r : Registry) (names : List String) (s : Snapshot) (scheduler : Evaluation.Scheduler)
  (o : Evaluation.Options) (token : Token)

/-- What goes on while names are evaluated, by the clock. -/
def diary : Evaluation.Diary :=
  Evaluation.diary o (r.work names s) token (scheduler o (r.work names s))

variable (i : Nat)

/-- Did the module of the name at a position answer in time? -/
def InTime : Prop :=
  Evaluation.InTime o (r.work names s) token (scheduler o (r.work names s)) (r.rank names i)

/-- Was its budget used up before it answered? -/
def Overdue : Prop :=
  Evaluation.Overdue o (r.work names s) token (scheduler o (r.work names s)) (r.rank names i)

/-- The system refuses the worker of the module of the name at a position. -/
def Refused (why : String) : Prop :=
  (∃ name m settings, names[i]? = some name ∧ r.Enabled name m settings) ∧
    Evaluation.Refused o (r.work names s) token (scheduler o (r.work names s)) (r.rank names i) why

/-- Of the modules that answer, none is overdue. -/
def OnTime : Prop :=
  ∀ (i : Nat) name m settings, names[i]? = some name → r.Enabled name m settings →
    (m.run s).ending ≠ .stalls → ¬ r.Overdue names s scheduler o token i

end Diary

section Evaluated

variable {r : Registry} {names : List String} {s : Snapshot} {scheduler : Evaluation.Scheduler}
  {o : Evaluation.Options} {token : Token} {found : List Outcome} {after : Token}

theorem yields_of_evaluated
    (h : (r.evaluated scheduler names s o token).1 = .ok (found, after)) :
    found.length = names.length ∧
      ∀ i name, names[i]? = some name → ∃ x, found[i]? = some x ∧
        Yields r s o name (r.Refused names s scheduler o token i)
          (r.InTime names s scheduler o token i) x := by
  obtain ⟨results, hv, rfl⟩ := evaluated_eq_ok_iff.1 h
  obtain ⟨hlen, hall⟩ := settleAll_yields (Evaluation.reports_of_results hv)
  refine ⟨hlen, fun i name hi => ?_⟩
  obtain ⟨x, hx, hyields⟩ := hall i name hi
  have hrefused : ∀ why, r.Refused names s scheduler o token i why ↔
      (∃ m settings, r.Enabled name m settings) ∧
        Evaluation.Refused o (r.work names s) token (scheduler o (r.work names s))
          (r.rank names i) why := fun why => by simp [Refused, hi]
  exact ⟨x, hx, fun why hwhy => hyields.refused why ((hrefused why).1 hwhy),
    fun hnone => hyields.granted fun why hwhy => hnone why ((hrefused why).2 hwhy)⟩

theorem not_refused (hgrants : o.Grants) (i : Nat) (why : String) :
    ¬ r.Refused names s scheduler o token i why :=
  fun hwhy => Evaluation.Diary.not_refused hgrants _ _ why hwhy.2

/-- Where the system refuses no workers, what comes out is what each name calls for. -/
theorem callsFor_of_evaluated (hgrants : o.Grants)
    (h : (r.evaluated scheduler names s o token).1 = .ok (found, after)) :
    found.length = names.length ∧
      ∀ i name, names[i]? = some name → ∃ x, found[i]? = some x ∧
        CallsFor r s (o.budget.map Evaluation.Span.millis) name
          (r.InTime names s scheduler o token i) x := by
  obtain ⟨hlen, hall⟩ := yields_of_evaluated h
  refine ⟨hlen, fun i name hi => ?_⟩
  obtain ⟨x, hx, hyields⟩ := hall i name hi
  exact ⟨x, hx, hyields.granted (not_refused hgrants i)⟩

/-- The module of a name has been refused a worker, was in time or is overdue, and no two of these.
The answer of one that was in time was taken when the budget, as it is counted for this module, was
not used up; one that is overdue was given up when it was. In a chain, moreover, the run of one in
time took no longer, and one whose run took longer is overdue. -/
structure Decides (r : Registry) (names : List String) (s : Snapshot)
    (scheduler : Evaluation.Scheduler) (o : Evaluation.Options) (token : Token) (i : Nat)
    (m : Module) : Prop where
  all : (∃ why, r.Refused names s scheduler o token i why) ∨
    r.InTime names s scheduler o token i ∨ r.Overdue names s scheduler o token i
  refused : ∀ why, r.Refused names s scheduler o token i why →
    ¬ r.InTime names s scheduler o token i ∧ ¬ r.Overdue names s scheduler o token i
  inTime : r.InTime names s scheduler o token i →
    ¬ r.Overdue names s scheduler o token i ∧ (m.run s).ending ≠ .stalls
  taken : r.InTime names s scheduler o token i → ∃ since seen ran,
    (r.diary names s scheduler o token).Counted o (.took (r.rank names i)) since seen ∧
    (r.diary names s scheduler o token).runTime? (r.rank names i) = some ran ∧
    ∀ b, o.budget = some b → seen < since + b.nanos ∧ (o.parallel = false → ran ≤ b.nanos)
  givenUp : r.Overdue names s scheduler o token i → ∃ b, o.budget = some b ∧
    ((∃ since seen,
      (r.diary names s scheduler o token).Counted o (.gaveUp (r.rank names i)) since seen ∧
      since + b.nanos ≤ seen) ∨
    o.parallel = false ∧ ∃ ran,
      (r.diary names s scheduler o token).runTime? (r.rank names i) = some ran ∧ b.nanos < ran)
  overdue : r.Overdue names s scheduler o token i →
    ∃ b, o.budget = some b ∧ b.nanos ≤ Evaluation.duration (scheduler o (r.work names s))

theorem decides_of_evaluated
    (h : (r.evaluated scheduler names s o token).1 = .ok (found, after)) {i : Nat} {name : String}
    {m : Module} {settings : ModuleSettings} (hi : names[i]? = some name)
    (he : r.Enabled name m settings) : Decides r names s scheduler o token i m := by
  obtain ⟨results, hv, -⟩ := evaluated_eq_ok_iff.1 h
  have hdecided := Evaluation.decided_of_results hv
  have hjob := work_rank (s := s) hi he
  have hrank := (List.getElem?_eq_some_iff.1 hjob).1
  refine ⟨?_, fun why hwhy => hdecided.refused _ why hwhy.2, fun hin => ?_,
    Evaluation.InTime.counted, Evaluation.Overdue.counted, Evaluation.Overdue.le_duration⟩
  · refine (hdecided.all _ hrank).imp_left fun ⟨why, hwhy⟩ => ?_
    exact ⟨why, ⟨name, m, settings, hi, he⟩, hwhy⟩
  · refine ⟨hdecided.inTime _ hin, fun hstalls => ?_⟩
    have hgranted : ∀ why, ¬ Evaluation.Refused o (r.work names s) token
        (scheduler o (r.work names s)) (r.rank names i) why :=
      fun why hwhy => (hdecided.refused _ why hwhy).1 hin
    obtain ⟨a, ha, -⟩ := (Evaluation.reports_of_results hv).answer _ _ hjob hgranted hin
    simp [Evaluation.Job.result?, hstalls] at ha

theorem onTime_of_duration
    (hshort : ∀ b, o.budget = some b →
      Evaluation.duration (scheduler o (r.work names s)) < b.nanos) :
    r.OnTime names s scheduler o token := by
  intro i name m settings _ _ _ hover
  obtain ⟨b, hb, hle⟩ := Evaluation.Overdue.le_duration hover
  exact absurd (hshort b hb) (Nat.not_lt.2 hle)

/-- Where none of the modules that answer is overdue, those that have workers are in time. -/
theorem OnTime.inTime (hon : r.OnTime names s scheduler o token)
    (h : (r.evaluated scheduler names s o token).1 = .ok (found, after)) {i : Nat} {name : String}
    {m : Module} {settings : ModuleSettings} (hi : names[i]? = some name)
    (he : r.Enabled name m settings) (hgranted : ∀ why, ¬ r.Refused names s scheduler o token i why)
    (hanswers : (m.run s).ending ≠ .stalls) : r.InTime names s scheduler o token i := by
  rcases (decides_of_evaluated h hi he).all with ⟨why, hwhy⟩ | hin | hover
  · exact absurd hwhy (hgranted why)
  · exact hin
  · exact absurd hover (hon i name m settings hi he hanswers)

end Evaluated

/-- An evaluation that returns, with a value or an error, and whose token is never set. A token
that is set stays set, so it is enough to look at it in the end. -/
structure Undisturbed (r : Registry) (names : List String) (s : Snapshot) (w : Observers)
    (scheduler : Evaluation.Scheduler) (o : Evaluation.Options) (token : Token)
    (result : Except Halt (List Outcome × Token)) (w' : Observers) : Prop where
  run : (r.evaluate scheduler names s o token).watchedBy w = (result, w')
  returns : ∀ halt, result = .error halt → ∃ e, halt = .error e
  unset : (Evaluation.evaluate o (r.work names s) token
    (scheduler o (r.work names s))).2.isCancelled = false

section Undisturbed

variable {r : Registry} {names : List String} {s : Snapshot} {w w' w₂ : Observers}
  {scheduler scheduler₂ : Evaluation.Scheduler} {o o₂ : Evaluation.Options} {token token₂ : Token}
  {result result₂ : Except Halt (List Outcome × Token)}

theorem Undisturbed.eq_ok (h : Undisturbed r names s w scheduler o token result w') :
    ∃ found after, result = .ok (found, after) ∧ w' = w.logAll (r.events names found) ∧
      (r.evaluated scheduler names s o token).1 = .ok (found, after) := by
  have hrun := h.run
  rw [evaluate_ends, Prod.mk.injEq] at hrun
  obtain ⟨hresult, hnotes⟩ := hrun
  rcases result with halt | ⟨found, after⟩
  · obtain ⟨e, rfl⟩ := h.returns halt rfl
    obtain ⟨-, after, hv⟩ := (evaluated_eq_error_iff e).1 hresult
    have hunset := h.unset
    rw [hv, Evaluation.isCancelled_of_cancelled hv] at hunset
    cases hunset
  · rw [notes_of_ok hresult, Observers.tellAll_logged] at hnotes
    exact ⟨found, after, rfl, hnotes.symm, hresult⟩

/-- Two evaluations of the same names, in either mode and under any schedules, agree where the same
workers are refused and the same of the modules that answer are in time. -/
theorem Undisturbed.agree (h : Undisturbed r names s w scheduler o token result w')
    (h₂ : Undisturbed r names s w scheduler₂ o₂ token₂ result₂ w₂) (hbudget : o₂.budget = o.budget)
    (hrefused : ∀ i why, r.Refused names s scheduler₂ o₂ token₂ i why ↔
      r.Refused names s scheduler o token i why)
    (htime : ∀ (i : Nat) name m settings, names[i]? = some name → r.Enabled name m settings →
      (∀ why, ¬ r.Refused names s scheduler o token i why) → (m.run s).ending ≠ .stalls →
      (r.InTime names s scheduler₂ o₂ token₂ i ↔ r.InTime names s scheduler o token i)) :
    result₂.map Prod.fst = result.map Prod.fst ∧ w₂ = w' := by
  obtain ⟨found, after, rfl, rfl, hev⟩ := h.eq_ok
  obtain ⟨found₂, after₂, rfl, rfl, hev₂⟩ := h₂.eq_ok
  obtain ⟨hlen, hall⟩ := yields_of_evaluated hev
  obtain ⟨hlen₂, hall₂⟩ := yields_of_evaluated hev₂
  have hsame : ∀ (i : Nat) name, names[i]? = some name → found₂[i]? = found[i]? := by
    intro i name hi
    obtain ⟨x, hx, hyields⟩ := hall i name hi
    obtain ⟨x₂, hx₂, hyields₂⟩ := hall₂ i name hi
    rw [hx, hx₂, hyields.unique hyields₂ hbudget (hrefused i) fun hgranted m settings he => ?_]
    by_cases hstalls : (m.run s).ending = .stalls
    · exact iff_of_false (fun hin => ((decides_of_evaluated hev₂ hi he).inTime hin).2 hstalls)
        fun hin => ((decides_of_evaluated hev hi he).inTime hin).2 hstalls
    · exact htime i name m settings hi he hgranted hstalls
  have heq : found₂ = found := by
    refine List.ext_getElem? fun i => ?_
    cases hi : names[i]? with
    | none =>
      have hlt : names.length ≤ i := List.getElem?_eq_none_iff.1 hi
      rw [List.getElem?_eq_none (hlen₂ ▸ hlt), List.getElem?_eq_none (hlen ▸ hlt)]
    | some name => exact hsame i name hi
  rw [heq]
  exact ⟨rfl, rfl⟩

/-- In less time than the budget, with workers for all of them, modules are in time. -/
theorem inTime_of_duration {found : List Outcome} {after : Token} (hgrants : o.Grants)
    (h : (r.evaluated scheduler names s o token).1 = .ok (found, after))
    (hshort : ∀ b, o.budget = some b →
      Evaluation.duration (scheduler o (r.work names s)) < b.nanos) {i : Nat} {name : String}
    {m : Module} {settings : ModuleSettings} (hi : names[i]? = some name)
    (he : r.Enabled name m settings) : r.InTime names s scheduler o token i := by
  have hdecides := decides_of_evaluated h hi he
  rcases hdecides.all with ⟨why, hwhy⟩ | hin | hover
  · exact absurd hwhy (not_refused hgrants i why)
  · exact hin
  · obtain ⟨b, hb, hle⟩ := hdecides.overdue hover
    exact absurd (hshort b hb) (Nat.not_lt.2 hle)

/-- Modules that answer are evaluated to an end along every fair schedule. -/
theorem exists_undisturbed (hgrants : o.Grants) (ho : o.Attainable)
    (hn : Evaluation.Nameable (r.work names s)) (ha : Evaluation.Answering (r.work names s))
    {actions : Nat → Evaluation.Action} (hfair : Evaluation.Fair actions)
    (hshort : ∀ b, o.budget = some b → ∀ n,
      Evaluation.duration (Evaluation.upTo actions n) < b.nanos) (w : Observers) :
    ∃ n found, (∀ k, n ≤ k → Undisturbed r names s w (fun _ _ => Evaluation.upTo actions k) o .own
        (.ok (found, .own)) (w.logAll (r.events names found))) ∧
      ∀ (i : Nat) name, names[i]? = some name → ∃ x, found[i]? = some x ∧
        CallsFor r s (o.budget.map Evaluation.Span.millis) name True x := by
  obtain ⟨n, found, notes, hev⟩ := evaluated_settles hn ha ho hfair
  have hok : ∀ k, n ≤ k → (r.evaluated (fun _ _ => Evaluation.upTo actions k) names s o .own).1 =
      .ok (found, .own) := fun k hk => by rw [hev k hk]
  refine ⟨n, found, fun k hk => ⟨?_, nofun, ?_⟩, fun i name hi => ?_⟩
  · rw [evaluate_ends, hok k hk, notes_of_ok (hok k hk), Observers.tellAll_logged]
  · rw [Evaluation.token_evaluate_own]
    rfl
  · obtain ⟨x, hx, hcalls⟩ := (callsFor_of_evaluated hgrants (hok n (Nat.le_refl n))).2 i name hi
    exact ⟨x, hx, hcalls.congr fun m settings he => iff_of_true
      (inTime_of_duration hgrants (hok n (Nat.le_refl n)) (fun b hb => hshort b hb n) hi he)
      trivial⟩

end Undisturbed

/-- An evaluation that is `Undisturbed` gives what each name `Yields` by itself, and logs the
unknown names, then the failures. By the clock each module was refused a worker, was in time or
overdue (`Decides`). Another evaluation of the same names, in either mode and under any schedule,
comes out and logs the same if the system refuses the same workers and the same of the modules that
answer are in time, as they all are where both are `OnTime`: only modules that never answer are
overdue, as in less time than the budget. And modules that answer are evaluated to an end. -/
theorem evaluate_outcomes (r : Registry) (names : List String) (s : Snapshot) (w : Observers) :
    (∀ scheduler o token result w', Undisturbed r names s w scheduler o token result w' →
      ∃ found after, result = .ok (found, after) ∧ found.length = names.length ∧
        (∀ (i : Nat) name, names[i]? = some name → ∃ x, found[i]? = some x ∧
          Yields r s o name (r.Refused names s scheduler o token i)
            (r.InTime names s scheduler o token i) x) ∧
        (∀ (i : Nat) name m settings, names[i]? = some name → r.Enabled name m settings →
          Decides r names s scheduler o token i m) ∧
        ((∀ b, o.budget = some b →
            Evaluation.duration (scheduler o (r.work names s)) < b.nanos) →
          r.OnTime names s scheduler o token) ∧
        w' = w.logAll (r.events names found) ∧
        ∀ scheduler₂ o₂ token₂ result₂ w₂,
          Undisturbed r names s w scheduler₂ o₂ token₂ result₂ w₂ → o₂.budget = o.budget →
          (∀ i why, r.Refused names s scheduler₂ o₂ token₂ i why ↔
            r.Refused names s scheduler o token i why) →
          (r.OnTime names s scheduler o token ∧ r.OnTime names s scheduler₂ o₂ token₂ ∨
            ∀ (i : Nat) name m settings, names[i]? = some name → r.Enabled name m settings →
              (∀ why, ¬ r.Refused names s scheduler o token i why) → (m.run s).ending ≠ .stalls →
              (r.InTime names s scheduler₂ o₂ token₂ i ↔ r.InTime names s scheduler o token i)) →
          (∃ after₂, result₂ = .ok (found, after₂)) ∧ w₂ = w') ∧
    (∀ o : Evaluation.Options, o.Grants → o.Attainable →
      Evaluation.Nameable (r.work names s) → Evaluation.Answering (r.work names s) →
      ∀ actions, Evaluation.Fair actions →
        (∀ b, o.budget = some b → ∀ n,
          Evaluation.duration (Evaluation.upTo actions n) < b.nanos) →
        ∃ n found, (∀ k, n ≤ k →
            Undisturbed r names s w (fun _ _ => Evaluation.upTo actions k) o .own
              (.ok (found, .own)) (w.logAll (r.events names found))) ∧
          ∀ (i : Nat) name, names[i]? = some name → ∃ x, found[i]? = some x ∧
            CallsFor r s (o.budget.map Evaluation.Span.millis) name True x) := by
  refine ⟨?undisturbed, fun o hgrants ho hn ha actions hfair hshort =>
    exists_undisturbed hgrants ho hn ha hfair hshort w⟩
  intro scheduler o token result w' h
  obtain ⟨found, after, rfl, rfl, hev⟩ := h.eq_ok
  obtain ⟨hlen, hall⟩ := yields_of_evaluated hev
  refine ⟨found, after, rfl, hlen, hall,
    fun i name m settings hi he => decides_of_evaluated hev hi he, onTime_of_duration, rfl, ?_⟩
  intro scheduler₂ o₂ token₂ result₂ w₂ h₂ hbudget hrefused hsame
  have hagree : result₂.map Prod.fst = .ok found ∧ w₂ = w.logAll (r.events names found) := by
    refine h.agree h₂ hbudget hrefused ?_
    rcases hsame with ⟨hon, hon₂⟩ | htime
    · obtain ⟨found₂, after₂, rfl, rfl, hev₂⟩ := id h₂.eq_ok
      intro i name m settings hi he hgranted hanswers
      have hgranted₂ : ∀ why, ¬ r.Refused names s scheduler₂ o₂ token₂ i why :=
        fun why hwhy => hgranted why ((hrefused i why).1 hwhy)
      exact iff_of_true (hon₂.inTime hev₂ hi he hgranted₂ hanswers)
        (hon.inTime hev hi he hgranted hanswers)
    · exact htime
  obtain ⟨found₂, after₂, rfl, -, -⟩ := h₂.eq_ok
  obtain ⟨heq, hw⟩ := hagree
  cases heq
  exact ⟨⟨after₂, rfl⟩, hw⟩

/-- A module that answers, one that does not, one that panics, and one that is switched off. -/
def medley : Registry where
  entries := [
    (⟨"dir", fun _ => { ending := .returns (.ok (some { text := "~", priority := 70 })) }⟩,
      { style := some "path" }),
    (⟨"clock", fun _ => { ending := .stalls }⟩, {}),
    (⟨"weather", fun _ => { ending := .panics }⟩, {}),
    (⟨"jobs", fun _ => { ending := .stalls }⟩, { enabled := false })]

def medleyNames : List String := ["clock", "git", "dir", "jobs", "weather"]

def medleyFound : List Outcome := [.failed (.timedOut "clock" 200), .unknown "git",
  .rendered { text := "~", style := some "path", priority := 70, module := "dir" },
  .disabled "jobs", .failed (.panicked "weather")]

/-- Names of it whose modules answer, and what they call for. -/
def answeringNames : List String := ["git", "dir", "weather"]

def answeringFound : List Outcome := [.unknown "git",
  .rendered { text := "~", style := some "path", priority := 70, module := "dir" },
  .failed (.panicked "weather")]

theorem work_answeringNames (s : Snapshot) : medley.work answeringNames s =
    [⟨"dir", { ending := .returns (.ok (some { text := "~", priority := 70 })) }⟩,
      ⟨"weather", { ending := .panics }⟩] := rfl

theorem eq_answeringFound {s : Snapshot} {budget : Option UInt64} {found : List Outcome}
    (hlength : found.length = answeringNames.length)
    (hall : ∀ (i : Nat) name, answeringNames[i]? = some name → ∃ x, found[i]? = some x ∧
      CallsFor medley s budget name True x) : found = answeringFound := by
  refine List.ext_getElem? fun i => ?_
  rcases i with _ | _ | _ | i
  · obtain ⟨x, hx, hcalls⟩ := hall 0 "git" rfl
    rw [hx, hcalls.unique (.unknown rfl)]
    rfl
  · obtain ⟨x, hx, hcalls⟩ := hall 1 "dir" rfl
    rw [hx, hcalls.unique (.rendered ⟨rfl, rfl⟩ trivial rfl (by decide))]
    rfl
  · obtain ⟨x, hx, hcalls⟩ := hall 2 "weather" rfl
    rw [hx, hcalls.unique (.panicked ⟨rfl, rfl⟩ trivial rfl)]
    rfl
  · rw [List.getElem?_eq_none (by rw [hlength]; exact Nat.le_add_left ..)]
    rfl

/-- In a mode: under the eager schedule `clock` is overdue and those that answer are in time, and
names of modules that answer come out along a fair schedule on which no time goes by. -/
def MedleyComesOut (s : Snapshot) (parallel : Bool) : Prop :=
  (Undisturbed medley medleyNames s {} Evaluation.eager { parallel := parallel } .own
      (.ok (medleyFound, .own)) {} ∧
    medley.Overdue medleyNames s Evaluation.eager { parallel := parallel } .own 0 ∧
    medley.InTime medleyNames s Evaluation.eager { parallel := parallel } .own 2 ∧
    medley.InTime medleyNames s Evaluation.eager { parallel := parallel } .own 4 ∧
    medley.OnTime medleyNames s Evaluation.eager { parallel := parallel } .own) ∧
  ∃ n, ∀ k, n ≤ k → Undisturbed medley answeringNames s {}
    (fun _ _ => Evaluation.upTo Evaluation.dovetail k) { parallel := parallel } .own
    (.ok (answeringFound, .own)) {}

theorem evaluate_outcomes_medley :
    MedleyComesOut ⟨{}, by decide⟩ true ∧ MedleyComesOut ⟨{}, by decide⟩ false := by
  have each : ∀ parallel, Undisturbed medley medleyNames ⟨{}, by decide⟩ {} Evaluation.eager
      { parallel := parallel } .own (.ok (medleyFound, .own)) {} →
      MedleyComesOut ⟨{}, by decide⟩ parallel := by
    intro parallel h
    have hgrants : ({ parallel := parallel } : Evaluation.Options).Grants := fun _ => rfl
    obtain ⟨houtcomes, -⟩ := evaluate_outcomes medley medleyNames ⟨{}, by decide⟩ {}
    obtain ⟨found, after, hok, -, hyields, hdecides, -⟩ := houtcomes _ _ _ _ _ h
    cases hok
    have hdir : medley.InTime medleyNames ⟨{}, by decide⟩ Evaluation.eager
        { parallel := parallel } .own 2 := by
      obtain ⟨x, hx, hy⟩ := hyields 2 "dir" rfl
      cases hx
      exact inTime_of_not_isTimeout (hy.granted (not_refused hgrants 2)) ⟨rfl, rfl⟩ rfl
    have hweather : medley.InTime medleyNames ⟨{}, by decide⟩ Evaluation.eager
        { parallel := parallel } .own 4 := by
      obtain ⟨x, hx, hy⟩ := hyields 4 "weather" rfl
      cases hx
      exact inTime_of_not_isTimeout (hy.granted (not_refused hgrants 4)) ⟨rfl, rfl⟩ rfl
    refine ⟨⟨h, ?clock, hdir, hweather, ?onTime⟩, ?fair⟩
    case clock =>
      have hclock := hdecides 0 "clock" _ _ rfl ⟨rfl, rfl⟩
      rcases hclock.all with ⟨why, hwhy⟩ | hin | hover
      · exact absurd hwhy (not_refused hgrants 0 why)
      · exact absurd rfl (hclock.inTime hin).2
      · exact hover
    case onTime =>
      intro i name m settings hi he hanswers
      have hin := fun h => ((hdecides i name m settings hi he).inTime h).1
      obtain ⟨hfind, hon⟩ := he
      rcases i with _ | _ | _ | _ | _ | i <;> cases hi
      · cases hfind
        exact absurd rfl hanswers
      · cases hfind
      · exact hin hdir
      · cases hfind
        cases hon
      · exact hin hweather
    case fair =>
      obtain ⟨hcome, hreturn⟩ := evaluate_outcomes medley answeringNames ⟨{}, by decide⟩ {}
      obtain ⟨n, found, hrun, hall⟩ := hreturn { parallel := parallel } hgrants
        (Evaluation.attainable_ofMillis fun b hb => ⟨200, (Option.some.inj hb).symm⟩)
        (by rw [work_answeringNames, Evaluation.Nameable]; decide)
        (by rw [work_answeringNames]; simp [Evaluation.Answering, Evaluation.Job.result?])
        _ Evaluation.fair_dovetail fun b hb k => by
          rw [Evaluation.duration_dovetail, ← Option.some.inj hb]
          decide
      obtain ⟨_, _, hok, hlength, -⟩ := hcome _ _ _ _ _ (hrun n (Nat.le_refl n))
      cases hok
      obtain rfl := eq_answeringFound hlength hall
      exact ⟨n, hrun⟩
  exact ⟨each true ⟨by rfl, nofun, by rfl⟩, each false ⟨by rfl, nofun, by rfl⟩⟩

end Registry
end ShellPrompt
