import SuiPq.Proof.MoveVm.Runs
import SuiPq.Spec.StrictVm

/-!
# Strict runs

A strict run that ends without an error ends as the run of the VM does
(`strictRun_eq`), so that only the errors are left to rule out. `Reaches`
counts the opcodes from a state to another, and a run that reaches a `Ret`
before its fuel is used up ends there (`Reaches.ends`).
-/

namespace SuiPq.Proof.MoveVm

open SuiPq.Impl.MoveVm SuiPq.Spec.StrictVm

variable {H : Hash} {code : Bytecode}

/-! ## The equations -/

theorem strictRun_fails {s : StrictState} (h : s.error ≠ none) (fuel : Nat) :
    (strictRun H code s fuel).error ≠ none := by
  rw [strictRun.eq_def]
  split
  · exact Option.some_ne_none _
  · rwa [if_pos (isSome_of_ne_none h)]

theorem strictRun_past {s : StrictState} {fuel : Nat} (hf : fuel ≠ 0) (he : s.error = none)
    (hpc : code.size ≤ s.pc) : strictRun H code s fuel = s.fail s!"pc out of bounds: {s.pc}" := by
  rw [strictRun.eq_def, if_neg hf, if_neg (not_isSome_of_none he), dif_neg (Nat.not_lt.mpr hpc)]

theorem strictRun_ret {s : StrictState} {fuel : Nat} (hf : fuel ≠ 0) (he : s.error = none)
    (hop : code[s.pc]? = some .Ret) : strictRun H code s fuel = s := by
  obtain ⟨hpc, hret⟩ := Array.getElem?_eq_some_iff.mp hop
  rw [strictRun.eq_def, if_neg hf, if_neg (not_isSome_of_none he), dif_pos hpc, hret]

theorem strictRun_next {s : StrictState} {fuel : Nat} {op : Opcode} (he : s.error = none)
    (hop : code[s.pc]? = some op) (hr : op ≠ .Ret) :
    strictRun H code s (fuel + 1) = strictRun H code (strictStep H op s) fuel := by
  obtain ⟨hpc, rfl⟩ := Array.getElem?_eq_some_iff.mp hop
  rw [strictRun.eq_def, if_neg (Nat.succ_ne_zero _), if_neg (not_isSome_of_none he), dif_pos hpc]
  split
  · exact absurd ‹_› hr
  · rfl

/-- An opcode other than `Call`, whose checks hold. -/
theorem strictStep_of {op : Opcode} {s : StrictState} (he : s.error = none)
    (hu : ∀ i ∈ uses op s.stack, i ∉ s.moved) (hx : exact op s.stack = true)
    (hc : ∀ callee localsTail arity, op ≠ .Call callee localsTail arity) :
    strictStep H op s = ⟨stepOp H op s.toState, moves op s.moved⟩ := by
  have hu' : ¬ (uses op s.stack).any s.moved.contains = true := by simpa using hu
  rw [strictStep.eq_def, if_neg (not_isSome_of_none he), if_neg hu',
    if_neg (by rw [hx]; exact Bool.false_ne_true)]
  cases op with
  | Call => exact absurd rfl (hc _ _ _)
  | _ => rfl

/-- A call whose arguments may be used, after which no copy of theirs is moved from. -/
theorem strictStep_call {s : StrictState} {callee : Bytecode} {localsTail : List Value} {arity : Nat}
    (he : s.error = none) (hu : ∀ i ∈ uses (.Call callee localsTail arity) s.stack, i ∉ s.moved)
    (ha : arity ≤ s.stack.length)
    (hb : ∀ b ∈ (s.copies localsTail arity).2.2,
      b.2 ∉ (strictRun H callee ⟨s.enter localsTail arity, []⟩ 1000000).moved) :
    strictStep H (.Call callee localsTail arity) s =
      ⟨s.leave localsTail arity (strictRun H callee ⟨s.enter localsTail arity, []⟩ 1000000).toState,
        s.moved⟩ := by
  have hu' : ¬ (uses (.Call callee localsTail arity) s.stack).any s.moved.contains = true := by
    simpa using hu
  rw [strictStep.eq_def, if_neg (not_isSome_of_none he), if_neg hu',
    if_neg (show ¬ (!exact (.Call callee localsTail arity) s.stack) = true from Bool.false_ne_true)]
  dsimp only
  rw [if_neg (Nat.not_lt.mpr ha), if_neg]
  simpa using hb

/-! ## Agreement with the VM -/

mutual

theorem strictStep_eq (op : Opcode) (s : StrictState) (h : (strictStep H op s).error = none) :
    (strictStep H op s).toState = step H op s.toState := by
  rw [strictStep.eq_def] at h ⊢
  rw [step.eq_def]
  split at h
  · rename_i he
    rw [if_pos he, if_pos he]
  · rename_i he
    rw [if_neg he, if_neg he]
    split at h
    · cases h
    · rename_i hu
      rw [if_neg hu]
      split at h
      · cases h
      · rename_i hx
        rw [if_neg hx]
        cases hop : op with
        | Call callee localsTail arity =>
          subst hop
          dsimp only at h ⊢
          split at h
          · cases h
          · rename_i ha
            rw [if_neg ha, if_neg ha]
            split at h
            · cases h
            · rename_i hb
              rw [if_neg hb]
              -- The caller goes on only after a callee without an error.
              have hf : (strictRun H callee ⟨s.enter localsTail arity, []⟩ 1000000).error = none := by
                unfold State.leave at h
                dsimp only at h
                split at h
                · cases h
                · assumption
              rw [strictRun_eq callee _ _ hf]
        | _ => rfl
termination_by (op.nesting, 0)
decreasing_by all_goals (subst_vars; exact Prod.Lex.left _ _ (Nat.lt_succ_self _))

/-- The two semantics agree on the runs without an error of the strict one. -/
theorem strictRun_eq (code : Bytecode) (s : StrictState) (fuel : Nat)
    (h : (strictRun H code s fuel).error = none) :
    (strictRun H code s fuel).toState = run H code s.toState fuel := by
  match fuel, h with
  | 0, h =>
    rw [strictRun.eq_def, if_pos rfl] at h
    cases h
  | fuel + 1, h =>
    have he : s.error = none := Classical.byContradiction fun he => strictRun_fails he _ h
    by_cases hpc : s.pc < code.size
    · have hop : code[s.pc]? = some code[s.pc] := Array.getElem?_eq_getElem hpc
      by_cases hret : code[s.pc] = .Ret
      · rw [hret] at hop
        rw [strictRun_ret (Nat.succ_ne_zero _) he hop, run_ret (Nat.succ_ne_zero _) he hop]
      · rw [strictRun_next he hop hret] at h
        have hs : (strictStep H code[s.pc] s).error = none :=
          Classical.byContradiction fun hs => strictRun_fails hs _ h
        rw [strictRun_next he hop hret, run_next he hop hret, strictRun_eq code _ fuel h,
          strictStep_eq code[s.pc] s hs]
    · rw [strictRun_past (Nat.succ_ne_zero _) he (Nat.not_lt.mp hpc)] at h
      cases h
termination_by (code.nesting, fuel)
decreasing_by
  · exact Prod.Lex.right _ (Nat.lt_succ_self _)
  · exact below_of_mem hpc (Nat.succ_ne_zero _)

end

theorem agrees_of {s : State} (h : (strictRun H code ⟨s, []⟩ 1000000).error = none) : Agrees H code s :=
  ⟨h, strictRun_eq _ _ _ h⟩

/-! ## Counting opcodes -/

/-- A strict run in the state `s` is in `t` after `n` opcodes. -/
def Reaches (H : Hash) (code : Bytecode) (s : StrictState) (n : Nat) (t : StrictState) : Prop :=
  ∀ fuel, strictRun H code s (fuel + n) = strictRun H code t fuel

namespace Reaches

variable {s t u : StrictState} {m n : Nat}

theorem refl (s : StrictState) : Reaches H code s 0 s := fun _ => rfl

theorem trans (h : Reaches H code s m t) (h' : Reaches H code t n u) : Reaches H code s (m + n) u := by
  intro fuel
  rw [show fuel + (m + n) = fuel + n + m by omega, h, h']

theorem step {op : Opcode} (he : s.error = none) (hop : code[s.pc]? = some op) (hr : op ≠ .Ret) :
    Reaches H code s 1 (strictStep H op s) :=
  fun _ => strictRun_next he hop hr

/-- A run that reaches a `Ret` in time ends there. -/
theorem ends (h : Reaches H code s n t) (he : t.error = none) (hop : code[t.pc]? = some .Ret) {fuel : Nat}
    (hf : n < fuel) : strictRun H code s fuel = t := by
  rw [show fuel = fuel - n + n by omega, h]
  exact strictRun_ret (by omega) he hop

end Reaches

/-- A strict run in the state `s` comes to a state with `Q` within `n` opcodes. -/
def Within (H : Hash) (code : Bytecode) (s : StrictState) (n : Nat) (Q : StrictState → Prop) : Prop :=
  ∃ t m, m ≤ n ∧ Reaches H code s m t ∧ Q t

namespace Within

variable {s : StrictState} {m n : Nat} {Q R : StrictState → Prop}

theorem done (h : Q s) : Within H code s 0 Q := ⟨s, 0, le_rfl, .refl s, h⟩

theorem bind (h : Within H code s m Q) (h' : ∀ t, Q t → Within H code t n R) :
    Within H code s (m + n) R := by
  obtain ⟨t, i, hi, hs, hq⟩ := h
  obtain ⟨u, j, hj, ht, hr⟩ := h' t hq
  exact ⟨u, i + j, Nat.add_le_add hi hj, hs.trans ht, hr⟩

theorem mono (h : Within H code s m Q) (hn : m ≤ n) (hQ : ∀ t, Q t → R t) : Within H code s n R := by
  obtain ⟨t, i, hi, hs, hq⟩ := h
  exact ⟨t, i, hi.trans hn, hs, hQ t hq⟩

theorem step {op : Opcode} (he : s.error = none) (hop : code[s.pc]? = some op) (hr : op ≠ .Ret)
    (h : Within H code (strictStep H op s) n Q) : Within H code s (n + 1) Q := by
  obtain ⟨t, i, hi, hs, hq⟩ := h
  refine ⟨t, 1 + i, by omega, (Reaches.step he hop hr).trans hs, hq⟩

/-- A loop whose invariant counts up to `limit`. -/
theorem loop (Inv : Nat → StrictState → Prop) {limit : Nat}
    (hbody : ∀ v < limit, ∀ s, Inv v s → Within H code s m (Inv (v + 1)))
    (hexit : ∀ s, Inv limit s → Within H code s n Q) {v : Nat} (hv : v ≤ limit) (hs : Inv v s) :
    Within H code s ((limit - v) * m + n) Q := by
  induction h : limit - v generalizing v s with
  | zero =>
    obtain rfl : v = limit := by omega
    exact (hexit s hs).mono (by omega) fun _ h => h
  | succ d ih =>
    have hb := hbody v (by omega) s hs
    refine (hb.bind fun t ht => ih (by omega) ht (by omega)).mono ?_ fun _ h => h
    rw [Nat.succ_mul]
    omega

end Within

end SuiPq.Proof.MoveVm
