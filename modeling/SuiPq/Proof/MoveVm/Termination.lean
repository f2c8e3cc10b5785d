import SuiPq.Impl.MoveVm
import Mathlib.Order.WellFounded

/-!
# The Move VM terminates

A `Call` starts its callee with new fuel, but the callee's calls are nested
less deep than the caller's: `calls_decrease` is the measure, by which no
invocation of `step` or `run` leads to infinitely many, and the equations of
the two functions have one solution (`vm_terminates`).
-/

namespace SuiPq.Proof.MoveVm

open SuiPq.Impl.MoveVm

/-! ## The recursive calls -/

/-- An invocation of one of the functions. -/
inductive Invocation where
  | step (op : Opcode) (s : State)
  | run (code : Bytecode) (s : State) (fuel : Nat)

/-- `Calls x y`: the invocation `x` makes the invocation `y`. The state that `run` goes on in is
that returned by `step`, whichever it is. -/
inductive Calls : Invocation → Invocation → Prop where
  | call {callee localsTail arity s} : s.error = none → arity ≤ s.stack.length →
    Calls (.step (.Call callee localsTail arity) s) (.run callee (s.enter localsTail arity) 1000000)
  | step {code s fuel} (h : s.pc < code.size) : fuel ≠ 0 → s.error = none → code[s.pc] ≠ .Ret →
    Calls (.run code s fuel) (.step code[s.pc] s)
  | next {code s s' fuel} (h : s.pc < code.size) : fuel ≠ 0 → s.error = none → code[s.pc] ≠ .Ret →
    Calls (.run code s fuel) (.run code s' (fuel - 1))

/-- How deep the calls of an invocation are nested, and its fuel. -/
def Invocation.measure : Invocation → Nat × Nat
  | .step op _ => (op.nesting, 0)
  | .run code _ fuel => (code.nesting, fuel)

/-- The order of the measure: nesting first. -/
abbrev Below (a b : Nat × Nat) : Prop := Prod.Lex (· < ·) (· < ·) a b

/-- An opcode of a bytecode is below it, with any fuel left. -/
theorem below_of_mem {code : Bytecode} {pc fuel : Nat} (h : pc < code.size) (hf : fuel ≠ 0) :
    Below (code[pc].nesting, 0) (code.nesting, fuel) := by
  rcases Nat.lt_or_eq_of_le (code.nesting_getElem h) with hlt | heq
  · exact Prod.Lex.left _ _ hlt
  · rw [heq]
    exact Prod.Lex.right _ (Nat.pos_of_ne_zero hf)

theorem calls_decrease {x y : Invocation} (h : Calls x y) : Below y.measure x.measure := by
  cases h with
  | call => exact Prod.Lex.left _ _ (Nat.lt_succ_self _)
  | step h hf => exact below_of_mem h hf
  | next _ hf => exact Prod.Lex.right _ (Nat.sub_one_lt hf)

theorem calls_wf : WellFounded fun y x => Calls x y :=
  Subrelation.wf (fun h => calls_decrease h)
    (InvImage.wf Invocation.measure (WellFounded.prod_lex Nat.lt_wfRel.wf Nat.lt_wfRel.wf))

/-! ## The equations -/

section Equations

variable (H : Hash)

/-- The body of `step`, with `run` for the function that it calls. -/
def stepBody (run : Bytecode → State → Nat → State) (op : Opcode) (s : State) : State :=
  if s.error.isSome then s
  else
    match op with
    | .Call callee localsTail arity =>
      if s.stack.length < arity then
        s.fail "Call: stack underflow"
      else
        s.leave localsTail arity (run callee (s.enter localsTail arity) 1000000)
    | op => stepOp H op s

/-- The body of `run`. -/
def runBody (step : Opcode → State → State) (run : Bytecode → State → Nat → State) (code : Bytecode)
    (s : State) (fuel : Nat) : State :=
  if fuel = 0 then s.fail "out of fuel"
  else if s.error.isSome then s
  else if h : s.pc < code.size then
    match code[s.pc] with
    | .Ret => s
    | _ => run code (step code[s.pc] s) (fuel - 1)
  else s.fail s!"pc out of bounds: {s.pc}"

/-- Functions that satisfy the equations of `step` and `run`. -/
structure Solves (F : (Opcode → State → State) × (Bytecode → State → Nat → State)) : Prop where
  step_eq (op : Opcode) (s : State) : F.1 op s = stepBody H F.2 op s
  run_eq (code : Bytecode) (s : State) (fuel : Nat) : F.2 code s fuel = runBody F.1 F.2 code s fuel

variable {H}

theorem step_eq (op : Opcode) (s : State) : step H op s = stepBody H (run H) op s := by
  rw [step.eq_def]
  rfl

theorem run_eq (code : Bytecode) (s : State) (fuel : Nat) :
    run H code s fuel = runBody (step H) (run H) code s fuel := by
  rw [run.eq_def]
  rfl

variable {F : (Opcode → State → State) × (Bytecode → State → Nat → State)}

mutual

theorem step_unique (h : Solves H F) (op : Opcode) (s : State) : F.1 op s = step H op s := by
  rw [h.step_eq, step_eq]
  cases op with
  | Call callee localsTail arity => simp only [stepBody, run_unique h callee]
  | _ => rfl
termination_by (op.nesting, 0)
decreasing_by exact Prod.Lex.left _ _ (Nat.lt_succ_self _)

theorem run_unique (h : Solves H F) (code : Bytecode) (s : State) (fuel : Nat) :
    F.2 code s fuel = run H code s fuel := by
  rw [h.run_eq, run_eq, runBody, runBody]
  by_cases hf : fuel = 0
  · rw [if_pos hf, if_pos hf]
  rw [if_neg hf, if_neg hf]
  by_cases hpc : s.pc < code.size
  · rw [dif_pos hpc, dif_pos hpc, step_unique h code[s.pc] s, run_unique h code _ (fuel - 1)]
  · rw [dif_neg hpc, dif_neg hpc]
termination_by (code.nesting, fuel)
decreasing_by
  · exact below_of_mem hpc hf
  · exact Prod.Lex.right _ (Nat.sub_one_lt hf)

end

/-- An invocation calls only invocations below it, so that none leads to infinitely many, and exactly one
pair of functions satisfies the equations. -/
theorem vm_terminates (H : Hash) :
    (∀ x y, Calls x y → Below y.measure x.measure) ∧
    (¬ ∃ x : Nat → Invocation, ∀ n, Calls (x n) (x (n + 1))) ∧
    ∃! F, Solves H F := by
  refine ⟨fun _ _ => calls_decrease, ?_, (step H, run H), ⟨step_eq, run_eq⟩, fun F h => ?_⟩
  · rintro ⟨x, hx⟩
    exact (wellFounded_iff_isEmpty_descending_chain.mp calls_wf).false ⟨x, hx⟩
  · exact Prod.ext (funext fun op => funext (step_unique h op))
      (funext fun code => funext fun s => funext (run_unique h code s))

end Equations

end SuiPq.Proof.MoveVm
