import ShellPrompt.Module.Builtin

/-!
# ShellPrompt.Proofs.Module.Jobs

From how many jobs on the job counter is shown, whatever JSON value the option holds.

The option may ask for a number of 64 bits, while jobs are counted in 32. A greater number is taken
for the greatest count, so that count still meets it (`saturated_threshold_is_met`).
-/

namespace ShellPrompt

namespace Json.Value

theorem nat_inj {m n : Nat} : nat m = nat n ↔ m = n := by
  simp only [nat, number.injEq, Number.int.injEq]
  omega

theorem asUInt64?_nat {n : Nat} (h : n < 0x10000000000000000) :
    (nat n).asUInt64? = some (UInt64.ofNat n) := by
  rw [nat, asUInt64?, if_pos (by omega), Int.toNat_natCast]

theorem asUInt64?_eq_none {v : Value} (h : ∀ n < 0x10000000000000000, v ≠ nat n) :
    v.asUInt64? = none := by
  unfold asUInt64?
  split
  case h_1 z =>
    refine if_neg fun hz => h z.toNat (by omega) ?_
    rw [nat, Int.toNat_of_nonneg hz.1]
  case h_2 => rfl

end Json.Value

namespace Module
namespace Jobs

/-- The number of jobs an option asks for: itself, if it is an integer that 64 bits hold without a
sign, and otherwise one. -/
def Asks (option : Option Json.Value) (t : Nat) : Prop :=
  t < 0x10000000000000000 ∧ option = some (.nat t) ∨
    t = 1 ∧ ∀ n < 0x10000000000000000, option ≠ some (.nat n)

theorem exists_asks (option : Option Json.Value) : ∃ t, ∀ t', Asks option t' ↔ t' = t := by
  by_cases h : ∃ n < 0x10000000000000000, option = some (.nat n)
  · obtain ⟨n, hn, rfl⟩ := h
    refine ⟨n, fun t' => ⟨?_, fun heq => .inl ⟨by omega, by rw [heq]⟩⟩⟩
    rintro (⟨-, heq⟩ | ⟨-, hnone⟩)
    · exact (Json.Value.nat_inj.1 (Option.some.inj heq)).symm
    · exact absurd rfl (hnone n hn)
  · have hnone : ∀ n < 0x10000000000000000, option ≠ some (.nat n) :=
      fun n hn heq => h ⟨n, hn, heq⟩
    refine ⟨1, fun t' => ⟨?_, fun heq => .inr ⟨heq, hnone⟩⟩⟩
    rintro (⟨ht, heq⟩ | ⟨ht, -⟩)
    · exact absurd heq (hnone t' ht)
    · exact ht

theorem thresholdOf_eq {c : ModuleConfig} {t : Nat}
    (h : Asks (Table.get? "threshold" c.options) t) :
    thresholdOf c = max 1 (min t 0xFFFFFFFF) := by
  rw [thresholdOf, ModuleConfig.optionUInt64?]
  rcases h with ⟨ht, hoption⟩ | ⟨rfl, hnone⟩
  · have htoNat : (UInt64.ofNat t).toNat = t := by
      simp only [UInt64.toNat_ofNat']
      omega
    rw [hoption, Option.bind_some, Json.Value.asUInt64?_nat ht, Option.map_some, Option.getD_some,
      htoNat]
  · have hoption : (Table.get? "threshold" c.options).bind Json.Value.asUInt64? = none := by
      cases hv : Table.get? "threshold" c.options with
      | none => rfl
      | some v =>
        exact Json.Value.asUInt64?_eq_none fun n hn heq => hnone n hn (by rw [hv, heq])
    rw [hoption]
    rfl

/-- The fragment of a number of jobs that is shown. -/
def counted (symbol : String) (jobs : Nat) : Fragment where
  text := if jobs = 1 then symbol else symbol ++ String.ofList (Text.Numeral.decimal jobs)
  style := some "jobs"
  priority := 20

theorem render_of_lt {threshold : Nat} {s : Snapshot} (h : s.jobCount.toNat < threshold)
    (symbol : String) : render threshold symbol s = none := if_pos h

theorem render_of_le {threshold : Nat} {s : Snapshot} (h : threshold ≤ s.jobCount.toNat)
    (symbol : String) : render threshold symbol s = some (counted symbol s.jobCount.toNat) :=
  if_neg (Nat.not_lt.2 h)

/-- `jobs` shows the counter from as many jobs on as the option `Asks` for, but from one at the
least and from the greatest number of jobs that can be counted at the most. A single job is the
symbol alone, several have their number behind it. -/
theorem shown_from (c : ModuleConfig) :
    ∃ t, (∀ t', Asks (Table.get? "threshold" c.options) t' ↔ t' = t) ∧ ∀ s : Snapshot,
      (s.jobCount.toNat < max 1 (min t 0xFFFFFFFF) →
        ((jobs c).run s).ending = .returns (.ok none)) ∧
      (max 1 (min t 0xFFFFFFFF) ≤ s.jobCount.toNat →
        ∃ f, ((jobs c).run s).ending = .returns (.ok (some f)) ∧
          (s.jobCount.toNat = 1 → f.text = symbolOf c) ∧
          (s.jobCount.toNat ≠ 1 → f.text.toList =
            (symbolOf c).toList ++ Text.Numeral.decimal s.jobCount.toNat)) := by
  obtain ⟨t, ht⟩ := exists_asks (Table.get? "threshold" c.options)
  have hthreshold := thresholdOf_eq ((ht t).2 rfl)
  have hrun : ∀ s : Snapshot, ((jobs c).run s).ending =
      .returns (.ok (render (max 1 (min t 0xFFFFFFFF)) (symbolOf c) s)) := by
    intro s
    rw [← hthreshold]
    rfl
  refine ⟨t, ht, fun s => ⟨fun h => ?_, fun h => ?_⟩⟩
  · rw [hrun, render_of_lt h]
  · refine ⟨_, by rw [hrun, render_of_le h], fun hone => if_pos hone, fun hseveral => ?_⟩
    rw [counted, if_neg hseveral, String.toList_append, String.toList_ofList]

def withJobs (count : UInt32) : Snapshot where
  jobCount := count
  termWidth_ne_zero := termWidth_standard

/-- A negative number asks for one job, which is then shown. -/
theorem shown_from_negative :
    let c : ModuleConfig := { options := [("symbol", .string "&"), ("threshold", .int (-3))] }
    ((jobs c).run (withJobs 0)).ending = .returns (.ok none) ∧
      (∃ f, ((jobs c).run (withJobs 1)).ending = .returns (.ok (some f)) ∧ f.text = "&") ∧
      ∃ f, ((jobs c).run (withJobs 12)).ending = .returns (.ok (some f)) ∧
        f.text.toList = "&12".toList := by
  intro c
  obtain ⟨t, ht, hshown⟩ := shown_from c
  have hnone : ∀ n < 0x10000000000000000, Table.get? "threshold" c.options ≠ some (.nat n) := by
    intro n _ heq
    cases heq
  obtain rfl : 1 = t := (ht 1).1 (.inr ⟨rfl, hnone⟩)
  refine ⟨(hshown _).1 (by decide), ?_, ?_⟩
  · obtain ⟨f, hf, hone, -⟩ := (hshown (withJobs 1)).2 (by decide)
    exact ⟨f, hf, hone rfl⟩
  · obtain ⟨f, hf, -, hseveral⟩ := (hshown (withJobs 12)).2 (by decide)
    exact ⟨f, hf, (hseveral (by decide)).trans (by decide)⟩

/-- More jobs than can be counted are asked for, and the greatest count is shown. -/
theorem saturated_threshold_is_met :
    let c : ModuleConfig := { options := [("threshold", .nat 0x100000000)] }
    Asks (Table.get? "threshold" c.options) 0x100000000 ∧
      (withJobs 0xFFFFFFFF).jobCount.toNat < max 1 0x100000000 ∧
      ((jobs c).run (withJobs 0xFFFFFFFF)).ending =
        .returns (.ok (some { text := "✦4294967295", style := some "jobs", priority := 20 })) :=
  ⟨.inl ⟨by decide, rfl⟩, by decide, by rfl⟩

end Jobs
end Module
end ShellPrompt
