import ShellPrompt.Proofs.Evaluation.Returns
import ShellPrompt.Proofs.Registry.Evaluate

/-!
# ShellPrompt.Proofs.Registry.Modules

What all modules of a registry have in common.

* `All`: a property of every registered module; registering and configuring keep it.
* `Module.Reliable`: a module whose runs always answer and whose name a worker can have.
  `reliable_builtin` says that the built-in modules are.
* `evaluated_reliable`: names evaluated among reliable modules, under a token of their own and with
  a budget that is short enough, come out; `evaluated_settles`: along a fair schedule names do so
  once and for all.
-/

namespace ShellPrompt

namespace Module

def Reliable (m : Module) : Prop :=
  (∀ s, (⟨m.name, m.run s⟩ : Evaluation.Job).result? ≠ none) ∧
    ¬ Char.ofNat 0 ∈ m.name.toList

theorem reliable_ofFragment {name : String} (h : ¬ Char.ofNat 0 ∈ name.toList)
    (render : Snapshot → Option Fragment) : (ofFragment name render).Reliable :=
  ⟨fun _ => nofun, h⟩

theorem reliable_builtin {config : Config} {m : Module} (h : m ∈ builtin config) :
    m.Reliable := by
  simp only [builtin, List.mem_cons, List.not_mem_nil, or_false] at h
  rcases h with rfl | rfl | rfl | rfl | rfl | rfl
  all_goals exact reliable_ofFragment (by decide) _

end Module

namespace Registry

def All (r : Registry) (P : Module → Prop) : Prop := ∀ e ∈ r.entries, P e.1

variable {P : Module → Prop} {r : Registry}

theorem all_modifyFirst {name : String} {f : Module × ModuleSettings → Module × ModuleSettings}
    (hf : ∀ e, P e.1 → P (f e).1) {entries : List (Module × ModuleSettings)}
    (h : ∀ e ∈ entries, P e.1) : ∀ e ∈ modifyFirst name f entries, P e.1 := by
  induction entries with
  | nil => exact h
  | cons e rest ih =>
    obtain ⟨he, hrest⟩ := List.forall_mem_cons.1 h
    rw [modifyFirst]
    split
    · exact List.forall_mem_cons.2 ⟨hf e he, hrest⟩
    · exact List.forall_mem_cons.2 ⟨he, ih hrest⟩

theorem All.register (h : r.All P) {m : Module} (hm : P m) : (r.register m).All P := by
  rw [Registry.register]
  split
  · exact all_modifyFirst (fun _ _ => hm) h
  · intro e he
    rcases List.mem_append.1 he with he | he
    · exact h e he
    · obtain rfl := List.mem_singleton.1 he
      exact hm

theorem All.configure (h : r.All P) (c : Config) : (r.configure c).All P := by
  intro e he
  obtain ⟨e', he', rfl⟩ := List.mem_map.1 he
  split <;> exact h e' he'

theorem all_foldl_register {modules : List Module} (hall : ∀ m ∈ modules, P m) (h : r.All P) :
    (modules.foldl Registry.register r).All P := by
  induction modules generalizing r with
  | nil => exact h
  | cons m rest ih =>
    obtain ⟨hm, hrest⟩ := List.forall_mem_cons.1 hall
    exact ih hrest (h.register hm)

theorem all_withBuiltins (c : Config) : (withBuiltins c).All Module.Reliable :=
  have hnone : empty.All Module.Reliable := fun _ he => absurd he List.not_mem_nil
  (all_foldl_register (fun _ => Module.reliable_builtin) hnone).configure c

theorem exists_entry_of_work {names : List String} {s : Snapshot} {j : Evaluation.Job}
    (h : j ∈ r.work names s) : ∃ e ∈ r.entries, j = ⟨e.1.name, e.1.run s⟩ := by
  obtain ⟨x, hx, hj⟩ := List.mem_filterMap.1 h
  obtain ⟨name, -, rfl⟩ := List.mem_map.1 hx
  cases hf : r.find? name with
  | none => simp [slot, hf] at hj
  | some e =>
    refine ⟨e, List.mem_of_find?_eq_some hf, ?_⟩
    cases he : e.2.enabled with
    | false => simp [slot, hf, he] at hj
    | true =>
      simp only [slot, hf, he, if_true, Option.some.injEq] at hj
      exact hj.symm

variable {names : List String} {s : Snapshot}

theorem answering_work (h : r.All Module.Reliable) :
    Evaluation.Answering (r.work names s) := by
  intro j hj
  obtain ⟨e, he, rfl⟩ := exists_entry_of_work hj
  exact (h e he).1 s

theorem nameable_work (h : r.All Module.Reliable) : Evaluation.Nameable (r.work names s) := by
  intro j hj
  obtain ⟨e, he, rfl⟩ := exists_entry_of_work hj
  simpa [Evaluation.Job.nameable] using (h e he).2

theorem evaluated_reliable (h : r.All Module.Reliable) (scheduler : Evaluation.Scheduler)
    (names : List String) (s : Snapshot) {o : Evaluation.Options} (ho : o.Attainable) :
    (r.evaluated scheduler names s o .own).1 = .error .waits ∨
      ∃ found, (r.evaluated scheduler names s o .own).1 = .ok (found, .own) := by
  rw [evaluated]
  rcases Evaluation.evaluate_own (nameable_work h) ho (scheduler o (r.work names s)) with
    hv | ⟨results, hv⟩
  · exact .inl (by rw [hv])
  · exact .inr ⟨_, by rw [hv]⟩

/-- Along a fair schedule names come out once and for all, if their modules answer and workers can
be named after them. -/
theorem evaluated_settles {o : Evaluation.Options} (hn : Evaluation.Nameable (r.work names s))
    (ha : Evaluation.Answering (r.work names s)) (ho : o.Attainable)
    {actions : Nat → Evaluation.Action} (hfair : Evaluation.Fair actions) :
    ∃ n found notes, ∀ m, n ≤ m →
      r.evaluated (fun _ _ => Evaluation.upTo actions m) names s o .own =
        (.ok (found, .own), notes) := by
  obtain ⟨n, v, hv⟩ := Evaluation.evaluate_returns ha o .own hfair
  -- the verdict is the same at every later point, and what it can be is known at any of them
  have hresults : ∀ m, n ≤ m → ∃ results, v = .results results ∧
      Evaluation.evaluate o (r.work names s) .own (Evaluation.upTo actions m) =
        (some (.results results), .own) := by
    intro m hm
    have hvm := hv m hm
    rcases Evaluation.evaluate_own hn ho (Evaluation.upTo actions m) with he | ⟨results, he⟩
    · rw [he] at hvm
      cases hvm
    · rw [he] at hvm
      cases hvm
      exact ⟨results, rfl, he⟩
  obtain ⟨results, rfl, -⟩ := hresults n (Nat.le_refl n)
  refine ⟨n, settleAll (names.map r.slot) results,
    (unknownEvents (names.map r.slot)).map Note.logged ++
      (failureEvents (names.map r.slot) results).map Note.logged, fun m hm => ?_⟩
  obtain ⟨results', heq, he⟩ := hresults m hm
  cases heq
  rw [evaluated, he]

end Registry
end ShellPrompt
