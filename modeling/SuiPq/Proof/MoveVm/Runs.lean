import SuiPq.Proof.MoveVm.Termination

/-!
# Runs of the VM

What `run` does in a state: it has no fuel (`run_zero`), has failed
(`run_failed`), is past the end (`run_past`), returns (`run_ret`) or goes on
in the next state (`run_next`). `step` is `stepOp`, or calls a bytecode.
-/

namespace SuiPq.Proof.MoveVm

open SuiPq.Impl.MoveVm

variable {H : Hash} {code : Bytecode} {s : State} {fuel : Nat}

theorem not_isSome_of_none {e : Option String} (h : e = none) : ¬ e.isSome = true := by
  rw [h]
  exact Bool.false_ne_true

theorem isSome_of_ne_none {e : Option String} (h : e ≠ none) : e.isSome = true :=
  Option.isSome_iff_ne_none.mpr h

/-! ## Steps -/

theorem step_failed (op : Opcode) (h : s.error ≠ none) : step H op s = s :=
  (step_eq op s).trans (if_pos (isSome_of_ne_none h))

theorem step_op {op : Opcode} (h : s.error = none)
    (hc : ∀ callee localsTail arity, op ≠ .Call callee localsTail arity) :
    step H op s = stepOp H op s := by
  refine (step_eq op s).trans ((if_neg (not_isSome_of_none h)).trans ?_)
  cases op with
  | Call => exact absurd rfl (hc _ _ _)
  | _ => rfl

section Calls

variable {callee : Bytecode} {localsTail : List Value} {arity : Nat}

theorem step_call (h : s.error = none) (ha : arity ≤ s.stack.length) :
    step H (.Call callee localsTail arity) s =
      s.leave localsTail arity (run H callee (s.enter localsTail arity) 1000000) :=
  (step_eq _ s).trans ((if_neg (not_isSome_of_none h)).trans (if_neg (Nat.not_lt.mpr ha)))

theorem step_call_short (h : s.error = none) (ha : s.stack.length < arity) :
    step H (.Call callee localsTail arity) s = s.fail "Call: stack underflow" :=
  (step_eq _ s).trans ((if_neg (not_isSome_of_none h)).trans (if_pos ha))

end Calls

/-! ## Runs -/

theorem run_zero (s : State) : run H code s 0 = s.fail "out of fuel" :=
  (run_eq code s 0).trans (if_pos rfl)

theorem run_failed (hf : fuel ≠ 0) (h : s.error ≠ none) : run H code s fuel = s :=
  (run_eq code s fuel).trans ((if_neg hf).trans (if_pos (isSome_of_ne_none h)))

theorem run_past (hf : fuel ≠ 0) (h : s.error = none) (hpc : code.size ≤ s.pc) :
    run H code s fuel = s.fail s!"pc out of bounds: {s.pc}" :=
  (run_eq code s fuel).trans ((if_neg hf).trans ((if_neg (not_isSome_of_none h)).trans
    (dif_neg (Nat.not_lt.mpr hpc))))

theorem run_ret (hf : fuel ≠ 0) (h : s.error = none) (hop : code[s.pc]? = some .Ret) :
    run H code s fuel = s := by
  obtain ⟨hpc, hret⟩ := Array.getElem?_eq_some_iff.mp hop
  rw [run_eq, runBody, if_neg hf, if_neg (not_isSome_of_none h), dif_pos hpc, hret]

theorem run_next {op : Opcode} (h : s.error = none) (hop : code[s.pc]? = some op) (hr : op ≠ .Ret) :
    run H code s (fuel + 1) = run H code (step H op s) fuel := by
  obtain ⟨hpc, rfl⟩ := Array.getElem?_eq_some_iff.mp hop
  rw [run_eq, runBody, if_neg (Nat.succ_ne_zero _), if_neg (not_isSome_of_none h), dif_pos hpc]
  split
  · exact absurd ‹_› hr
  · rfl

end SuiPq.Proof.MoveVm
