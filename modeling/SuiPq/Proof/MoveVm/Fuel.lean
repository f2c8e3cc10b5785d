import SuiPq.Proof.MoveVm.Runs

/-!
# Fuel

A run either uses its fuel up, and then goes on from its last state with any
fuel that it is given besides (`Exhausts.run_add`), or ends in a state that
does not depend on the fuel (`run_of_not_exhausts`). So more fuel does not
change a run without an error (`fuel_monotone`).
-/

namespace SuiPq.Proof.MoveVm

open SuiPq.Impl.MoveVm

/-- A run from the state `s` is in the state `t` when it has used `fuel` up. -/
inductive Exhausts (H : Hash) (code : Bytecode) : State → Nat → State → Prop where
  | zero (s : State) : Exhausts H code s 0 s
  | next {s t : State} {op : Opcode} {fuel : Nat} (he : s.error = none) (hop : code[s.pc]? = some op)
    (hr : op ≠ .Ret) (h : Exhausts H code (step H op s) fuel t) : Exhausts H code s (fuel + 1) t

variable {H : Hash} {code : Bytecode} {s t : State} {fuel : Nat}

/-- A run that has used its fuel up goes on with the fuel that it is given. -/
theorem Exhausts.run_add (h : Exhausts H code s fuel t) (extra : Nat) :
    run H code s (fuel + extra) = run H code t extra := by
  induction h with
  | zero s => rw [Nat.zero_add]
  | next he hop hr _ ih => rw [Nat.succ_add, run_next he hop hr, ih]

theorem Exhausts.run_eq (h : Exhausts H code s fuel t) : run H code s fuel = t.fail "out of fuel" := by
  rw [← Nat.add_zero fuel, h.run_add, run_zero]

/-- A run that does not use its fuel up ends the same way with more. -/
theorem run_of_not_exhausts {fuel' : Nat} (h : ∀ t, ¬ Exhausts H code s fuel t) (hle : fuel ≤ fuel') :
    run H code s fuel' = run H code s fuel := by
  induction fuel generalizing s fuel' with
  | zero => exact absurd (.zero s) (h s)
  | succ fuel ih =>
    obtain ⟨fuel', rfl⟩ : ∃ n, fuel' = n + 1 := ⟨fuel' - 1, by omega⟩
    have hf := Nat.succ_ne_zero fuel
    have hf' := Nat.succ_ne_zero fuel'
    by_cases he : s.error = none
    · by_cases hpc : s.pc < code.size
      · have hop := Array.getElem?_eq_getElem hpc
        by_cases hr : code[s.pc] = .Ret
        · rw [hr] at hop
          rw [run_ret hf' he hop, run_ret hf he hop]
        · rw [run_next he hop hr, run_next he hop hr]
          apply ih
          · exact fun t ht => h t (.next he hop hr ht)
          · omega
      · have hpc := Nat.not_lt.mp hpc
        rw [run_past hf' he hpc, run_past hf he hpc]
    · rw [run_failed hf' he, run_failed hf he]

/-- With more fuel a run without an error ends in the same state, as it does with any fuel with which it ends
without an error; a run that has used its fuel up goes on from its last state; and any other run does not
depend on the fuel. -/
theorem fuel_monotone (H : Hash) (code : Bytecode) (s : State) (fuel : Nat) :
    ((run H code s fuel).error = none → (∀ fuel' ≥ fuel, run H code s fuel' = run H code s fuel) ∧
      ∀ fuel', (run H code s fuel').error = none → run H code s fuel' = run H code s fuel) ∧
    (∀ t, Exhausts H code s fuel t → run H code s fuel = t.fail "out of fuel" ∧
      ∀ fuel', run H code t fuel' = run H code s (fuel + fuel')) ∧
    ((∀ t, ¬ Exhausts H code s fuel t) → ∀ fuel' ≥ fuel, run H code s fuel' = run H code s fuel) := by
  have hends {n : Nat} (h : (run H code s n).error = none) (t : State) : ¬ Exhausts H code s n t := by
    intro ht
    rw [ht.run_eq] at h
    cases h
  refine ⟨fun h => ⟨fun n hn => run_of_not_exhausts (hends h) hn, fun n hn => ?_⟩,
    fun t ht => ⟨ht.run_eq, fun n => (ht.run_add n).symm⟩, fun h n hn => run_of_not_exhausts h hn⟩
  rcases Nat.le_total fuel n with hle | hle
  · exact run_of_not_exhausts (hends h) hle
  · exact (run_of_not_exhausts (hends hn) hle).symm

end SuiPq.Proof.MoveVm
