import ShellPrompt.Proofs.Evaluation.Cancel
import ShellPrompt.Proofs.Registry.Isolation

/-!
# ShellPrompt.Proofs.Registry.Cancel

What a set token does to the evaluation of names.

A schedule is cut in two, `before ++ rest`, at the moment of interest. `IsSet` and `Awaits` tell
how the token stands then and which names are still waited for.

* `evaluate_cancelled`: a cancelled evaluation delivers nothing and logs unknown names only.
* `evaluate_after_set`: how an evaluation goes on that is not over when the token is set.
* `evaluated_set`: how an evaluation ends whose token is set beforehand.
* `evaluate_heeds`: outcomes are delivered only past a token that is unset when nothing is waited
  for any more.
-/

namespace ShellPrompt
namespace Registry

section Cancel

variable (r : Registry) (names : List String) (s : Snapshot) (o : Evaluation.Options)
  (token : Token) (schedule : Evaluation.Schedule)

/-- After part of a schedule the token is set. -/
def IsSet : Prop := (Evaluation.evaluate o (r.work names s) token schedule).2.isCancelled = true

/-- After part of a schedule a name is waited for: the result of its module has not been taken, nor
its time been found to be up. -/
def Awaits (name : String) : Prop :=
  ∃ i m settings, names[i]? = some name ∧ r.Enabled name m settings ∧
    Evaluation.Awaits o (r.work names s) token schedule (r.rank names i)

/-- What is logged of requested names before any module runs. -/
def unknownIn : List Log.Event := (names.filter fun name => !r.contains name).map unknownEvent

end Cancel

variable {r : Registry} {names : List String} {s : Snapshot} {scheduler : Evaluation.Scheduler}
  {o : Evaluation.Options} {token : Token} {before rest : Evaluation.Schedule}

/-- What ends without outcomes has told of nothing but unknown names. -/
theorem notes_of_error {halt : Halt}
    (h : (r.evaluated scheduler names s o token).1 = .error halt) :
    (r.evaluated scheduler names s o token).2 = (r.unknownIn names).map .logged := by
  rw [unknownIn, ← unknownEvents_slots]
  simp only [evaluated] at h ⊢
  rcases hv : Evaluation.evaluate o (r.work names s) token (scheduler o (r.work names s)) with
    ⟨_ | _ | c | results, after⟩
  case some.results =>
    rw [hv] at h
    cases h
  all_goals rfl

theorem evaluate_of_error {halt : Halt}
    (h : (r.evaluated scheduler names s o token).1 = .error halt) (w : Observers) :
    (r.evaluate scheduler names s o token).watchedBy w =
      (.error halt, w.logAll (r.unknownIn names)) := by
  rw [evaluate_ends, notes_of_error h, h, Observers.tellAll_logged]

theorem evaluate_cancelled (h : (Evaluation.evaluate o (r.work names s) token
      (scheduler o (r.work names s))).1 = some .cancelled) (w : Observers) :
    (r.evaluate scheduler names s o token).watchedBy w =
      (.error (.error .cancelled), w.logAll (r.unknownIn names)) := by
  exact evaluate_of_error ((evaluated_eq_error_iff _).2 ⟨rfl, _, Prod.ext h rfl⟩) w

/-- How an evaluation ends that crashes, in more of the schedule as well. -/
theorem evaluate_crashed {c : Crash}
    (h : (r.evaluated (fun _ _ => before) names s o token).1 = .error (.crash c))
    (rest : Evaluation.Schedule) (w : Observers) :
    (r.evaluate (fun _ _ => before ++ rest) names s o token).watchedBy w =
      (.error (.crash c), w.logAll (r.unknownIn names)) :=
  evaluate_of_error ((evaluated_eq_crash_iff _).2
    (Evaluation.evaluate_append ((evaluated_eq_crash_iff _).1 h) rest)) w

theorem oversteps_of_crashed
    (h : (r.evaluated scheduler names s o token).1 = .error (.crash .deadline)) :
    r.Oversteps names s scheduler o token := by
  rcases (evaluated_crashed_iff _).1 h with ⟨name, -, hc⟩ | ⟨-, hover⟩
  · cases hc
  · exact hover

theorem evaluate_after_set (hset : r.IsSet names s o token before)
    (hopen : (r.evaluated (fun _ _ => before) names s o token).1 = .error .waits ∨
      (r.evaluated (fun _ _ => before) names s o token).1 = .error (.error .cancelled))
    (rest : Evaluation.Schedule) (w : Observers) :
    (r.evaluate (fun _ _ => before ++ rest) names s o token).watchedBy w =
        (.error (.error .cancelled), w.logAll (r.unknownIn names)) ∨
      (r.Oversteps names s (fun _ _ => before ++ rest) o token ∧
        (r.evaluate (fun _ _ => before ++ rest) names s o token).watchedBy w =
          (.error (.crash .deadline), w.logAll (r.unknownIn names))) ∨
      (rest.count .main < 5 ∧
        ((r.evaluate (fun _ _ => before ++ rest) names s o token).watchedBy w).1 =
          .error .waits) := by
  have hverdict : (Evaluation.evaluate o (r.work names s) token before).1 = none ∨
      (Evaluation.evaluate o (r.work names s) token before).1 = some .cancelled := by
    refine hopen.imp evaluated_eq_waits_iff.1 fun h => ?_
    obtain ⟨-, after, hv⟩ := (evaluated_eq_error_iff _).1 h
    rw [hv]
  rcases Evaluation.evaluate_set hset hverdict rest with hv | hv | ⟨hfew, hv⟩
  · exact .inl (evaluate_cancelled hv w)
  · have hcrash : (r.evaluated (fun _ _ => before ++ rest) names s o token).1 =
        .error (.crash .deadline) := (evaluated_eq_crash_iff _).2 hv
    exact .inr (.inl ⟨oversteps_of_crashed hcrash, evaluate_of_error hcrash w⟩)
  · exact .inr (.inr ⟨hfew, by rw [result_evaluate]; exact evaluated_eq_waits_iff.2 hv⟩)

/-- One worker is to be started for each module, and one of them named as none can be. -/
def Unnameable (r : Registry) (names : List String) (o : Evaluation.Options) : Prop :=
  o.parallel = true ∧
    ∃ name ∈ names, ∃ m settings, r.Enabled name m settings ∧ Char.ofNat 0 ∈ name.toList

/-- Under a token that is set from the beginning, and with a budget that is short enough, a worker
that cannot be named is the only other end than being cancelled. -/
theorem evaluated_set (ho : o.Attainable) (hset : token.isCancelled = true)
    (hsteps : 5 ≤ (scheduler o (r.work names s)).count .main) :
    (¬ r.Unnameable names o ∧
      (r.evaluated scheduler names s o token).1 = .error (.error .cancelled)) ∨
    (r.Unnameable names o ∧ ∃ name ∈ names, Char.ofNat 0 ∈ name.toList ∧
      (r.evaluated scheduler names s o token).1 = .error (.crash (.workerName name))) := by
  rcases Evaluation.evaluate_nil o (r.work names s) token with hnil | ⟨hp, c, hnil⟩
  · have hafter := Evaluation.evaluate_set (by rw [hnil]; exact hset) (.inl (by rw [hnil]))
      (scheduler o (r.work names s))
    rw [List.nil_append] at hafter
    rcases hafter with hcancelled | hcrash | ⟨hfew, -⟩
    · refine .inl ⟨?_, (evaluated_eq_error_iff _).2 ⟨rfl, _, Prod.ext hcancelled rfl⟩⟩
      rintro ⟨hp, hname⟩
      obtain ⟨name, htrips⟩ : ∃ name, r.Trips names s scheduler o token name :=
        (exists_trips_iff_of_parallel hp).2 hname
      have hcrash := (evaluated_eq_crash_iff _).1 (crashed_of_trips htrips)
      rw [hcancelled] at hcrash
      cases hcrash
    · exact absurd (oversteps_of_crashed ((evaluated_eq_crash_iff _).2 hcrash))
        (Evaluation.not_oversteps ho)
    · exact absurd hsteps (Nat.not_le.2 hfew)
  · have hcrash := Evaluation.evaluate_append (congrArg Prod.fst hnil)
      (scheduler o (r.work names s))
    rw [List.nil_append] at hcrash
    have hresult := (evaluated_eq_crash_iff _).2 hcrash
    obtain ⟨name, htrips, rfl⟩ := exists_trips_of_crashed ho hresult
    obtain ⟨i, -, -, hi, -, hnul, -⟩ := id htrips
    exact .inr ⟨⟨hp, (exists_trips_iff_of_parallel hp).1 ⟨name, htrips⟩⟩, name,
      List.mem_of_getElem? hi, hnul, hresult⟩

/-- A chain does not start its first worker under a set token. -/
theorem not_trips_of_set (hp : o.parallel = false) (hset : token.isCancelled = true)
    (name : String) : ¬ r.Trips names s scheduler o token name := by
  intro htrips
  have hcrash := (evaluated_eq_crash_iff _).1 (crashed_of_trips htrips)
  rcases Evaluation.evaluate_nil o (r.work names s) token with hnil | ⟨hp', -⟩
  · have hafter := Evaluation.evaluate_set (by rw [hnil]; exact hset) (.inl (by rw [hnil]))
      (scheduler o (r.work names s))
    rw [List.nil_append, hcrash] at hafter
    rcases hafter with h | h | ⟨-, h⟩ <;> cases h
  · rw [hp] at hp'
    cases hp'

/-- What has come out was looked at once more when nothing was waited for, and the token was
unset. -/
theorem exists_last_look_of_ok {schedule : Evaluation.Schedule} {found : List Outcome}
    {after : Token}
    (h : (r.evaluated (fun _ _ => schedule) names s o token).1 = .ok (found, after)) :
    ∃ before rest, schedule = before ++ rest ∧
      (r.evaluated (fun _ _ => before) names s o token).1 = .error .waits ∧
      (∀ name, ¬ r.Awaits names s o token before name) ∧ ¬ r.IsSet names s o token before := by
  obtain ⟨results, hv, -⟩ := evaluated_eq_ok_iff.1 h
  obtain ⟨before, rest, rfl, hopen, hunset, hall⟩ :=
    Evaluation.exists_last_look (congrArg Prod.fst hv)
  refine ⟨before, rest, rfl, evaluated_eq_waits_iff.2 hopen, ?_, ?_⟩
  · rintro name ⟨i, -, -, -, -, hawaits⟩
    exact hall _ hawaits
  · rw [IsSet, hunset]
    exact Bool.false_ne_true

/-- An evaluation that waits for a name, or for anything at all, and trips over none can still be
cancelled, unless it has overstepped. -/
theorem open_of_awaits
    (h : (∃ name, r.Awaits names s o token before name) ∨
      (r.evaluated (fun _ _ => before) names s o token).1 = .error .waits)
    (hnone : ∀ name, ¬ r.Trips names s (fun _ _ => before) o token name) :
    ((r.evaluated (fun _ _ => before) names s o token).1 = .error .waits ∨
      (r.evaluated (fun _ _ => before) names s o token).1 = .error (.error .cancelled)) ∨
      (r.evaluated (fun _ _ => before) names s o token).1 = .error (.crash .deadline) := by
  rcases he : (r.evaluated (fun _ _ => before) names s o token).1 with
    (e | c | _) | ⟨found, after⟩
  · obtain ⟨rfl, -⟩ := eq_cancelled_of_evaluated he
    exact .inl (.inr rfl)
  · rcases (evaluated_crashed_iff c).1 he with ⟨name, htrips, -⟩ | ⟨rfl, -⟩
    · exact absurd htrips (hnone name)
    · exact .inr rfl
  · exact .inl (.inl rfl)
  · -- what has come out is not waited for
    obtain ⟨results, hv, -⟩ := evaluated_eq_ok_iff.1 he
    rcases h with ⟨name, i, -, -, -, -, hawaits⟩ | hwaits
    · exact absurd hawaits (Evaluation.not_awaits_of_results (congrArg Prod.fst hv) _)
    · rw [he] at hwaits
      cases hwaits

/-- Whoever sets the token while a name is waited for (`Awaits`), or before anything is, the
evaluation is cancelled as soon as the evaluating thread gets around to it, and what has come in by
then is neither delivered nor logged. So it comes out only past a token that was unset when nothing
was waited for any more, and it is cancelled only under a set token. There are two exceptions, and
with one worker for each module both come before anyone looks at the token, while a chain looks
first: a worker that is to be named as none can be (`Trips`), and a budget too long for there to be
a time to wait until (`Oversteps`). -/
theorem evaluate_heeds (r : Registry) (names : List String) (s : Snapshot)
    (o : Evaluation.Options) (token : Token) (w : Observers) :
    let run := fun schedule => (r.evaluate (fun _ _ => schedule) names s o token).watchedBy w
    (∀ schedule found after, (run schedule).1 = .ok (found, after) →
      ∃ before rest, schedule = before ++ rest ∧ (run before).1 = .error .waits ∧
        (∀ name, ¬ r.Awaits names s o token before name) ∧ ¬ r.IsSet names s o token before) ∧
    (∀ before rest, r.IsSet names s o token before →
      ((∃ name, r.Awaits names s o token before name) ∨ (run before).1 = .error .waits) →
      (∀ name, ¬ r.Trips names s (fun _ _ => before) o token name) →
      run (before ++ rest) = (.error (.error .cancelled), w.logAll (r.unknownIn names)) ∨
        (r.Oversteps names s (fun _ _ => before ++ rest) o token ∧
          run (before ++ rest) = (.error (.crash .deadline), w.logAll (r.unknownIn names))) ∨
        (rest.count .main < 5 ∧ (run (before ++ rest)).1 = .error .waits)) ∧
    (∀ schedule, ¬ r.IsSet names s o token schedule →
      (run schedule).1 ≠ .error (.error .cancelled)) ∧
    (∀ before rest name, r.Trips names s (fun _ _ => before) o token name →
      (run (before ++ rest)).1 = .error (.crash (.workerName name))) ∧
    (o.parallel = true → ∀ schedule,
      (∃ name, r.Trips names s (fun _ _ => schedule) o token name) ↔
        ∃ name ∈ names, ∃ m settings, r.Enabled name m settings ∧ Char.ofNat 0 ∈ name.toList) ∧
    (∀ before rest, r.Oversteps names s (fun _ _ => before) o token →
      (run (before ++ rest)).1 = .error (.crash .deadline)) ∧
    ((∀ b, o.budget = some b → Evaluation.lastReading + b.nanos < Evaluation.horizon) →
      ∀ schedule, ¬ r.Oversteps names s (fun _ _ => schedule) o token) ∧
    (∀ schedule b, o.parallel = true → o.budget = some b → Evaluation.horizon ≤ b.nanos →
      (∀ name ∈ names, Char.ofNat 0 ∉ name.toList) → .main ∈ schedule →
      (run schedule).1 = .error (.crash .deadline)) ∧
    (o.parallel = false → token.isCancelled = true → ∀ schedule,
      (∀ name, ¬ r.Trips names s (fun _ _ => schedule) o token name) ∧
        ¬ r.Oversteps names s (fun _ _ => schedule) o token) := by
  refine ⟨?outcomes, ?set, ?unset, ?trips, fun hp _ => exists_trips_iff_of_parallel hp, ?oversteps,
    fun ho _ => Evaluation.not_oversteps ((Evaluation.attainable_iff o).2 ho), ?far,
    fun hp hset _ => ⟨not_trips_of_set hp hset, Evaluation.not_oversteps_of_set hp hset⟩⟩
  case outcomes =>
    intro schedule found after h
    rw [result_evaluate] at h
    obtain ⟨before, rest, hcut, hopen, hnone, hunset⟩ := exists_last_look_of_ok h
    exact ⟨before, rest, hcut, by rw [result_evaluate]; exact hopen, hnone, hunset⟩
  case set =>
    intro before rest hset hbefore hnone
    rw [result_evaluate] at hbefore
    rcases open_of_awaits hbefore hnone with hopen | hcrash
    · exact evaluate_after_set hset hopen rest w
    · have hend := evaluate_crashed hcrash rest w
      refine .inr (.inl ⟨oversteps_of_crashed ?_, hend⟩)
      rw [← result_evaluate _ _ _ _ _ _ w, hend]
  case unset =>
    intro schedule hunset h
    rw [result_evaluate] at h
    obtain ⟨-, after, hv⟩ := (evaluated_eq_error_iff _).1 h
    refine hunset ?_
    rw [IsSet, hv]
    exact Evaluation.isCancelled_of_cancelled hv
  case trips =>
    intro before rest name htrips
    exact congrArg Prod.fst (evaluate_crashed (crashed_of_trips htrips) rest w)
  case oversteps =>
    intro before rest hover
    exact congrArg Prod.fst
      (evaluate_crashed ((evaluated_crashed_iff _).2 (.inr ⟨rfl, hover⟩)) rest w)
  case far =>
    intro schedule b hp hb hfar hn hmain
    simp only [result_evaluate]
    exact crashed_of_horizon hp hb hfar hn hmain

/-- A module that answers, one that cancels the evaluation it runs in, and one named as no worker
can be. -/
def guarded : Registry where
  entries := [
    (⟨"dir", fun _ => { ending := .returns (.ok (some { text := "~" })) }⟩, {}),
    (⟨"watch", fun _ => { ending := .returns (.ok none), cancels := true }⟩, {}),
    (⟨"clock\x00", fun _ => { ending := .returns (.ok (some { text := "12:00" })) }⟩, {})]

/-- The result of `dir` has been taken when `watch`, the last module that is waited for, sets the
token. -/
theorem evaluate_heeds_watch :
    let before := [.worker 0, .worker 0, .main, .main, .main, .main, .worker 1]
    let rest := .worker 1 :: Evaluation.mains 5
    (guarded.IsSet ["dir", "watch"] ⟨{}, by decide⟩ {} (.shared false) before ∧
      guarded.Awaits ["dir", "watch"] ⟨{}, by decide⟩ {} (.shared false) before "watch" ∧
      ¬ guarded.Awaits ["dir", "watch"] ⟨{}, by decide⟩ {} (.shared false) before "dir") ∧
    (guarded.evaluate (fun _ _ => before ++ rest) ["dir", "watch"] ⟨{}, by decide⟩ {}
      (.shared false)).watchedBy {} = (.error (.error .cancelled), {}) := by
  intro before rest
  have hset : guarded.IsSet ["dir", "watch"] ⟨{}, by decide⟩ {} (.shared false) before := by rfl
  have hdiary : Evaluation.diary {} (guarded.work ["dir", "watch"] ⟨{}, by decide⟩)
      (.shared false) before = [(0, .began 0), (0, .answered 0), (0, .armed), (0, .looked),
        (0, .took 0), (0, .began 1)] := by rfl
  have hwatch : guarded.Awaits ["dir", "watch"] ⟨{}, by decide⟩ {} (.shared false) before
      "watch" := by
    refine ⟨1, _, _, rfl, ⟨rfl, rfl⟩, by decide, fun why =>
      Evaluation.Diary.not_refused (fun _ => rfl) _ _ why, ?_⟩
    rw [hdiary, show guarded.rank ["dir", "watch"] 1 = 1 from rfl]
    simp [Evaluation.Diary.Tells]
  have hdir : ¬ guarded.Awaits ["dir", "watch"] ⟨{}, by decide⟩ {} (.shared false) before
      "dir" := by
    rintro ⟨i, -, -, hi, -, -, -, htook, -⟩
    rcases i with _ | _ | i
    · exact htook ⟨0, by rw [hdiary]; decide⟩
    · exact absurd hi (by decide)
    · cases hi
  obtain ⟨-, hcancel, -, -, htrips, -, hshort, -⟩ :=
    evaluate_heeds guarded ["dir", "watch"] ⟨{}, by decide⟩ {} (.shared false) {}
  have hnamed : ∀ name, ¬ guarded.Trips ["dir", "watch"] ⟨{}, by decide⟩ (fun _ _ => before) {}
      (.shared false) name := by
    intro name h
    obtain ⟨name, hmem, -, -, -, hnul⟩ := (htrips rfl before).1 ⟨name, h⟩
    simp only [List.mem_cons, List.not_mem_nil, or_false] at hmem
    rcases hmem with rfl | rfl <;> revert hnul <;> decide
  refine ⟨⟨hset, hwatch, hdir⟩, ?_⟩
  rcases hcancel before rest hset (.inl ⟨"watch", hwatch⟩) hnamed with h | ⟨hover, -⟩ | ⟨hfew, -⟩
  · exact h
  · exact absurd hover (hshort (by decide) _)
  · exact absurd hfew (by decide)

/-- One worker for each module: the token is set from the beginning, and a name that holds NUL lets
a panic out all the same. A chain of workers is cancelled. -/
theorem nul_name_defies_token :
    ((guarded.evaluate Evaluation.eager ["clock\x00"] ⟨{}, by decide⟩ {}
        (.shared true)).watchedBy {}).1 = .error (.crash (.workerName "clock\x00")) ∧
      ((guarded.evaluate Evaluation.eager ["clock\x00"] ⟨{}, by decide⟩ { parallel := false }
        (.shared true)).watchedBy {}).1 = .error (.error .cancelled) :=
  ⟨by rfl, by rfl⟩

end Registry
end ShellPrompt
