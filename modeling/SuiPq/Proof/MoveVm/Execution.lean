import SuiPq.Framework.Fuel
import SuiPq.Impl.RealBytecode
import SuiPq.Proof.MoveVm.Calls
import SuiPq.Proof.MoveVm.Frames

/-!
# Execution of bytecodes

How the VM comes from one state of a bytecode to another, with the fuel it
spends there (`Spends`): by opcodes that call nothing (`ops`, whose equation
the kernel evaluates on states with unknown values), by one opcode whose
effect depends on such a value (`op`), by a jump (`brTrue`, `brFalse`) and by
a call of a bytecode that is known to return (`call`, from `Returns`).
-/

namespace SuiPq.Proof.MoveVm

open SuiPq.Impl SuiPq.Impl.MoveVm
open SuiPq.Fuel (Spends)

variable {H : Hash} {code : Bytecode}

/-! ## Opcodes -/

/-- An opcode that neither calls a bytecode nor returns. -/
def callFree : Opcode → Bool
  | .Call _ _ _ => false
  | .Ret => false
  | _ => true

/-- The state after the first `n` of a stretch of opcodes that call nothing, of which only the last may jump. -/
def straight (H : Hash) : Nat → List Opcode → State → Option State
  | 0, _, s => some s
  | _ + 1, [], _ => none
  | n + 1, op :: ops, s =>
    if callFree op ∧ s.error = none then
      if n = 0 ∨ (stepOp H op s).pc = s.pc + 1 then straight H n ops (stepOp H op s) else none
    else none

theorem toList_getElem? (code : Bytecode) (pc : Nat) : code[pc]? = code.toList[pc]? :=
    (Array.getElem?_toList ..).symm

theorem run_plain {s : State} {op : Opcode} (he : s.error = none) (hop : code.toList[s.pc]? = some op)
    (hp : callFree op = true) (fuel : Nat) : run H code s (fuel + 1) = run H code (stepOp H op s) fuel := by
  have hr : op ≠ .Ret := fun h => by
    rw [h] at hp
    cases hp
  have hc : ∀ callee localsTail arity, op ≠ .Call callee localsTail arity := fun _ _ _ h => by
    rw [h] at hp
    cases hp
  rw [run_next he (by rw [toList_getElem?, hop]) hr, step_op he hc]

theorem run_straight {n : Nat} {s t : State} (h : straight H n (code.toList.drop s.pc) s = some t)
    (fuel : Nat) :
    run H code s (fuel + n) = run H code t fuel := by
  induction n generalizing s with
  | zero =>
    obtain rfl : s = t := Option.some.inj h
    rfl
  | succ n ih =>
    cases hd : code.toList.drop s.pc with
    | nil =>
      rw [hd] at h
      cases h
    | cons op ops =>
      have hop : code.toList[s.pc]? = some op := by
        have h0 := congrArg (·[0]?) hd
        simpa using h0
      have hops : code.toList.drop (s.pc + 1) = ops := by
        rw [← List.drop_drop, hd]
        rfl
      rw [hd, straight] at h
      split at h
      · rename_i hp
        rw [← Nat.add_assoc, run_plain hp.2 hop hp.1]
        split at h
        · rename_i hpc
          rcases hpc with rfl | hpc
          · obtain rfl := Option.some.inj h
            rfl
          · exact ih (by rwa [hpc, hops])
        · cases h
      · cases h

section Rules

variable {m n : Nat} {s t : State} {Q : State → Prop}

/-- A stretch of `m` opcodes that call nothing. -/
theorem ops (m : Nat) (h : straight H m (code.toList.drop s.pc) s = some t) (h' : Spends (run H code) n t Q) :
    Spends (run H code) (n + m) s Q :=
  h'.step (run_straight h)

/-- One opcode whose effect depends on the values. -/
theorem op {o : Opcode} {stack L : List Value} {pc : Nat} (hop : code.toList[pc]?.filter callFree = some o)
    (h : stepOp H o ⟨stack, L, pc, none⟩ = t) (h' : Spends (run H code) n t Q) :
    Spends (run H code) (n + 1) ⟨stack, L, pc, none⟩ Q := by
  obtain ⟨hop, hp⟩ := Option.filter_eq_some_iff.mp hop
  exact h'.step fun fuel => (run_plain rfl hop hp fuel).trans (by rw [h])

/-- A conditional jump that is not taken. -/
theorem brTrue {b : Bool} {stack L : List Value} {pc off : Nat}
    (hop : code.toList[pc]?.filter callFree = some (.BrFalse off)) (hb : b = true)
    (h : Spends (run H code) n ⟨stack, L, pc + 1, none⟩ Q) :
    Spends (run H code) (n + 1) ⟨.bool b :: stack, L, pc, none⟩ Q := by
  subst hb
  exact op hop rfl h

/-- A conditional jump that is taken. -/
theorem brFalse {b : Bool} {stack L : List Value} {pc off : Nat}
    (hop : code.toList[pc]?.filter callFree = some (.BrFalse off)) (hb : b = false)
    (h : Spends (run H code) n ⟨stack, L, off, none⟩ Q) :
    Spends (run H code) (n + 1) ⟨.bool b :: stack, L, pc, none⟩ Q := by
  subst hb
  exact op hop rfl h

end Rules

/-! ## Values -/

/-- A number as an integer of the VM. -/
abbrev int8 (n : Nat) : Value := .u8 (UInt8.ofNat n)
abbrev int32 (n : Nat) : Value := .u32 (UInt32.ofNat n)
abbrev int64 (n : Nat) : Value := .u64 (UInt64.ofNat n)

/-- A vector of numbers. -/
abbrev ints (ns : List Nat) : Value := .vecU32 (ns.map UInt32.ofNat)

theorem toNat32 {n : Nat} (h : n < 2 ^ 32) : (UInt32.ofNat n).toNat = n := by
  rw [UInt32.toNat_ofNat', Nat.mod_eq_of_lt h]

theorem toNat64 {n : Nat} (h : n < 2 ^ 64) : (UInt64.ofNat n).toNat = n := by
  rw [UInt64.toNat_ofNat', Nat.mod_eq_of_lt h]

theorem lt_true {a b : Nat} (h : a < b) (hb : b < 2 ^ 64) :
    decide ((UInt64.ofNat a).toNat < (UInt64.ofNat b).toNat) = true := by
  rw [toNat64 hb, toNat64 (by omega), decide_eq_true h]

theorem lt_true32 {a b : Nat} (h : a < b) (hb : b < 2 ^ 32) :
    decide ((UInt32.ofNat a).toNat < (UInt32.ofNat b).toNat) = true := by
  rw [toNat32 hb, toNat32 (by omega), decide_eq_true h]

theorem lt_false {n : Nat} : decide ((UInt64.ofNat n).toNat < (UInt64.ofNat n).toNat) = false :=
  decide_eq_false (Nat.lt_irrefl _)

/-- An argument that is a byte string, or a reference to the local `i` with it. -/
def passed (byRef : Bool) (i : Nat) (v : Bytes) : Value := if byRef then .locRef i else .vecU8 v

/-- The local of such an argument. -/
def held (byRef : Bool) (v : Bytes) : List Value := if byRef then [.vecU8 v] else []

/-- An argument that is a vector of numbers, or a reference to the local `i` with it. -/
def passedInts (byRef : Bool) (i : Nat) (ns : List Nat) : Value := if byRef then .locRef i else ints ns

def heldInts (byRef : Bool) (ns : List Nat) : List Value := if byRef then [ints ns] else []

/-! ## Arithmetic -/

theorem ofNat_mask32 (n : Nat) : UInt32.ofNat (n &&& 0xffffffff) = UInt32.ofNat n := by
  apply UInt32.toNat_inj.mp
  rw [UInt32.toNat_ofNat', UInt32.toNat_ofNat', Nat.and_two_pow_sub_one_eq_mod n 32, Nat.mod_mod]

section Arithmetic

variable {stack L : List Value} {pc a k : Nat} {b : Value}

theorem asNat8 (h : a < 2 ^ 8) : (int8 a).asNat = a := by
  show (UInt8.ofNat a).toNat = a
  rw [UInt8.toNat_ofNat', Nat.mod_eq_of_lt h]

theorem asNat32 (h : a < 2 ^ 32) : (int32 a).asNat = a := toNat32 h

theorem asNat64 (h : a < 2 ^ 64) : (int64 a).asNat = a := toNat64 h

theorem arith8 (f : Nat → Nat → Nat) (ha : a < 2 ^ 8) (hb : b.asNat = k) :
    State.arith f ⟨b :: int8 a :: stack, L, pc, none⟩ = ⟨int8 (f a k) :: stack, L, pc + 1, none⟩ := by
  show State.mk (.u8 (UInt8.ofNat (f (int8 a).asNat b.asNat &&& 0xff)) :: stack) L (pc + 1) none = _
  rw [asNat8 ha, hb, ofNat_and_ff]

theorem arith32 (f : Nat → Nat → Nat) (ha : a < 2 ^ 32) (hb : b.asNat = k) :
    State.arith f ⟨b :: int32 a :: stack, L, pc, none⟩ = ⟨int32 (f a k) :: stack, L, pc + 1, none⟩ := by
  show State.mk (.u32 (UInt32.ofNat (f (UInt32.ofNat a).toNat b.asNat &&& 0xffffffff)) :: stack) L
    (pc + 1) none = _
  rw [toNat32 ha, hb, ofNat_mask32]

theorem arith64 (f : Nat → Nat → Nat) (ha : a < 2 ^ 64) (hb : b.asNat = k) :
    State.arith f ⟨b :: int64 a :: stack, L, pc, none⟩ = ⟨int64 (f a k) :: stack, L, pc + 1, none⟩ := by
  show State.mk (.u64 (UInt64.ofNat (f (UInt64.ofNat a).toNat b.asNat)) :: stack) L (pc + 1) none = _
  rw [toNat64 ha, hb]

theorem castU8 (hb : b.asNat = k) :
    stepOp H .CastU8 ⟨b :: stack, L, pc, none⟩ = ⟨int8 k :: stack, L, pc + 1, none⟩ := by
  show State.mk (.u8 (UInt8.ofNat (b.asNat &&& 0xff)) :: stack) L (pc + 1) none = _
  rw [hb, ofNat_and_ff]

theorem castU32 (hb : b.asNat = k) :
    stepOp H .CastU32 ⟨b :: stack, L, pc, none⟩ = ⟨int32 k :: stack, L, pc + 1, none⟩ := by
  show State.mk (.u32 (UInt32.ofNat (b.asNat &&& 0xffffffff)) :: stack) L (pc + 1) none = _
  rw [hb, ofNat_mask32]

theorem castU64 (hb : b.asNat = k) :
    stepOp H .CastU64 ⟨b :: stack, L, pc, none⟩ = ⟨int64 k :: stack, L, pc + 1, none⟩ := by
  show State.mk (.u64 (UInt64.ofNat b.asNat) :: stack) L (pc + 1) none = _
  rw [hb]

end Arithmetic

/-! ## Opcodes that may fail -/

section Fallible

variable {stack L : List Value} {pc i j : Nat}

theorem ldU64 (n : UInt64) : stepOp H (.LdU64 n) ⟨stack, L, pc, none⟩ =
    ⟨.u64 n :: stack, L, pc + 1, none⟩ := rfl

theorem copyLoc {v : Value} (h : L[i]? = some v) :
    stepOp H (.CopyLoc i) ⟨stack, L, pc, none⟩ = ⟨v :: stack, L, pc + 1, none⟩ := by
  unfold stepOp
  simp only [State.getLocal, h]
  rfl

theorem moveLoc {v : Value} (h : L[i]? = some v) :
    stepOp H (.MoveLoc i) ⟨stack, L, pc, none⟩ = ⟨v :: stack, L, pc + 1, none⟩ := copyLoc (H := H) h

theorem stLoc {v : Value} (h : i < L.length) :
    stepOp H (.StLoc i) ⟨v :: stack, L, pc, none⟩ = ⟨stack, L.set i v, pc + 1, none⟩ := by
  show (State.setLocal ⟨stack, L, pc, none⟩ i v).jump (pc + 1) = _
  rw [State.setLocal, if_pos h]
  rfl

theorem readRef {v : Value} (h : L[i]? = some v) :
    stepOp H .ReadRef ⟨.locRef i :: stack, L, pc, none⟩ = ⟨v :: stack, L, pc + 1, none⟩ := by
  unfold stepOp
  simp only [State.pop, h]
  rfl

theorem native {name : String} {x y : Value} (h : applyNative H name 1 [x] = some y) :
    stepOp H (.CallNative name 1) ⟨x :: stack, L, pc, none⟩ = ⟨y :: stack, L, pc + 1, none⟩ := by
  unfold stepOp
  simp [State.callNative, h]

theorem sha256 (v : Bytes) : stepOp H (.CallNative "sha2_256" 1) ⟨.vecU8 v :: stack, L, pc, none⟩ =
    ⟨.vecU8 (H v) :: stack, L, pc + 1, none⟩ := native rfl

theorem immBorrow (byRef : Bool) {v : Bytes} {x : UInt8} (hi : i < 2 ^ 64)
    (hL : byRef = true → L[j]? = some (.vecU8 v)) (h : v[i]? = some x) :
    stepOp H .VecImmBorrow ⟨int64 i :: passed byRef j v :: stack, L, pc, none⟩ =
      ⟨.u8 x :: stack, L, pc + 1, none⟩ := by
  have hd : State.deref ⟨stack, L, pc, none⟩ (.vecU8 []) (passed byRef j v) = .vecU8 v := by
    cases byRef with
    | false => rfl
    | true =>
      show L[j]?.getD _ = _
      rw [hL rfl]
      rfl
  obtain ⟨hlt, rfl⟩ := List.getElem?_eq_some_iff.mp h
  rw [vecImmBorrow_eq (by rw [hd, toNat64 hi]; exact hlt), hd, toNat64 hi]
  exact congrArg (fun y => State.mk (.u8 y :: stack) L (pc + 1) none) (getElem!_pos v i hlt)

theorem immBorrow32 (byRef : Bool) {ns : List Nat} {n : Nat} (hi : i < 2 ^ 64)
    (hL : byRef = true → L[j]? = some (ints ns)) (h : ns[i]? = some n) :
    stepOp H .VecU32ImmBorrow ⟨int64 i :: passedInts byRef j ns :: stack, L, pc, none⟩ =
      ⟨int32 n :: stack, L, pc + 1, none⟩ := by
  have hd : State.deref ⟨stack, L, pc, none⟩ (.vecU32 []) (passedInts byRef j ns) = ints ns := by
    cases byRef with
    | false => rfl
    | true =>
      show L[j]?.getD _ = _
      rw [hL rfl]
      rfl
  obtain ⟨hlt, rfl⟩ := List.getElem?_eq_some_iff.mp h
  have hlt' : i < (ns.map UInt32.ofNat).length := by rwa [List.length_map]
  rw [vecU32ImmBorrow_eq (by rw [hd, toNat64 hi]; exact hlt'), hd, toNat64 hi]
  refine congrArg (fun y => State.mk (.u32 y :: stack) L (pc + 1) none) ?_
  exact (getElem!_pos _ i hlt').trans (List.getElem_map _)

theorem writeByte {v : Bytes} {x : UInt8} (hL : L[j]? = some (.vecU8 v)) (hi : i < v.length) :
    stepOp H .WriteRef ⟨.vecElemRef j i :: .u8 x :: stack, L, pc, none⟩ =
      ⟨stack, L.set j (.vecU8 (v.set i x)), pc + 1, none⟩ := by
  have hlt : ¬ i ≥ (Value.vecU8 v).asVecU8!.length := Nat.not_le.mpr hi
  unfold stepOp
  simp only [State.writeRef, State.pop2, State.pop, hL, if_neg hlt]
  rfl

theorem popBack {v : Bytes} (hL : L[j]? = some (.vecU8 v)) (hv : v ≠ []) :
    stepOp H .VecPopBack ⟨.locRef j :: stack, L, pc, none⟩ =
      ⟨.u8 v[v.length - 1]! :: stack, L.set j (.vecU8 v.dropLast), pc + 1, none⟩ := by
  have hlen : ¬ (Value.vecU8 v).asVecU8!.length = 0 := fun h => hv (List.length_eq_zero_iff.mp h)
  unfold stepOp
  simp only [State.vecPopBack, State.pop, hL, if_neg hlen]
  rfl

theorem popBackValue {v : Bytes} (hv : v ≠ []) : stepOp H .VecPopBack ⟨.vecU8 v :: stack, L, pc, none⟩ =
    ⟨.u8 v[v.length - 1]! :: .vecU8 v.dropLast :: stack, L, pc + 1, none⟩ := by
  have hlen : ¬ (Value.vecU8 v).asVecU8!.length = 0 := fun h => hv (List.length_eq_zero_iff.mp h)
  unfold stepOp
  simp only [State.vecPopBack, State.pop, if_neg hlen]
  rfl

theorem vecSet {v : Bytes} {x : UInt8} (hi : i < 2 ^ 64) (hv : i < v.length) :
    stepOp H .VecSet ⟨.u8 x :: int64 i :: .vecU8 v :: stack, L, pc, none⟩ =
      ⟨.vecU8 (v.set i x) :: stack, L, pc + 1, none⟩ := by
  have hlt : ¬ (int64 i).asU64!.toNat ≥ (Value.vecU8 v).asVecU8!.length := by
    show ¬ (UInt64.ofNat i).toNat ≥ v.length
    rw [toNat64 hi]
    exact Nat.not_le.mpr hv
  unfold stepOp
  simp only [State.vecSet, State.pop, if_neg hlt]
  show State.mk (.vecU8 (v.set (UInt64.ofNat i).toNat x) :: stack) L (pc + 1) none = _
  rw [toNat64 hi]

theorem u64ToU8 (n : UInt64) : stepOp H (.CallNative "u64_to_u8" 1) ⟨.u64 n :: stack, L, pc, none⟩ =
    ⟨int8 n.toNat :: stack, L, pc + 1, none⟩ := by
  rw [native (y := int8 (n.toNat &&& 0xff)) rfl, int8, ofNat_and_ff]

theorem u64ToU32 (n : UInt64) : stepOp H (.CallNative "u64_to_u32" 1) ⟨.u64 n :: stack, L, pc, none⟩ =
    ⟨int32 n.toNat :: stack, L, pc + 1, none⟩ := by
  rw [native (y := int32 (n.toNat &&& 0xffffffff)) rfl, int32, ofNat_mask32]

theorem u8ToU64 (x : UInt8) : stepOp H (.CallNative "u8_to_u64" 1) ⟨.u8 x :: stack, L, pc, none⟩ =
    ⟨int64 x.toNat :: stack, L, pc + 1, none⟩ := native rfl

end Fallible

/-! ## Calls -/

/-- `code`, entered with the locals `L`, stops with `values` on its stack and `outs` in its last locals. -/
def Returns (H : Hash) (code : Bytecode) (L values outs : List Value) : Prop :=
  ∃ t, run H code ⟨[], L, 0, none⟩ 1000000 = t ∧ t.error = none ∧ t.stack = values ∧ ∃ k,
    t.locals.drop k = outs

/-- A state at a `Ret` of `code`. -/
def Stops (code : Bytecode) (values outs : List Value) (t : State) : Prop :=
  t.error = none ∧ code.toList[t.pc]? = some .Ret ∧ t.stack = values ∧ ∃ k, t.locals.drop k = outs

theorem stops {L values : List Value} {pc : Nat} (k : Nat) {outs : List Value}
    (hop : code.toList[pc]? = some .Ret)
    (hl : L.drop k = outs) {n : Nat} : Spends (run H code) n ⟨values, L, pc, none⟩ (Stops code values outs) :=
  .done ⟨rfl, hop, rfl, k, hl⟩

theorem returns_of_stops {L values outs : List Value} {n : Nat} (hn : n < 1000000)
    (h : Spends (run H code) n ⟨[], L, 0, none⟩ (Stops code values outs)) :
    Returns H code L values outs := by
  obtain ⟨t, m, hm, hs, he, hop, hstack, k, hk⟩ := h
  refine ⟨t, ?_, he, hstack, k, hk⟩
  rw [show (1000000 : Nat) = 1000000 - m + m by omega, hs]
  exact run_ret (by omega) he (by rw [toList_getElem?, hop])

/-- The state that a bytecode which returns ends in. -/
theorem Returns.final {L values outs : List Value} (h : Returns H code L values outs) :
    (runDefault H code ⟨[], L, 0, none⟩).error = none ∧ (runDefault H code ⟨[], L, 0, none⟩).stack = values ∧
      (runDefault H code ⟨[], L, 0, none⟩).locals.drop (L.length - outs.length) = outs := by
  obtain ⟨t, hrun, he, hs, k, hk⟩ := h
  have hlocals : t.locals.length = L.length := by rw [← hrun, run_length]
  rw [runDefault, hrun]
  refine ⟨he, hs, ?_⟩
  have hl := congrArg List.length hk
  rw [List.length_drop] at hl
  rcases Nat.eq_zero_or_pos outs.length with h0 | h0
  · obtain rfl := List.length_eq_zero_iff.mp h0
    exact List.drop_eq_nil_of_le (Nat.le_of_eq hlocals)
  · rwa [show L.length - outs.length = k by omega]

/-- What is read off the last state. -/
theorem Returns.topBytes {L outs : List Value} {v : Bytes} (h : Returns H code L [.vecU8 v] outs) :
    (runDefault H code ⟨[], L, 0, none⟩).topBytes = v := by
  obtain ⟨t, hrun, -, hs, -⟩ := h
  rw [runDefault, hrun, State.topBytes, hs]

theorem Returns.topInts {L outs : List Value} {ns : List Nat} (h : Returns H code L [ints ns] outs) :
    (runDefault H code ⟨[], L, 0, none⟩).topInts = ns.map UInt32.ofNat := by
  obtain ⟨t, hrun, -, hs, -⟩ := h
  rw [runDefault, hrun, State.topInts, hs]

/-- The caller's locals, with the values that a callee leaves in those that its arguments refer to. -/
def assign (refs : List Nat) (outs L : List Value) : List Value :=
  (refs.zip outs).foldl (fun L p => L.set p.1 p.2) L

theorem copyOut_assign {calleeLocals outs : List Value} {k : Nat} : ∀ {refs : List Nat} {L : List Value},
    refs.length = outs.length → calleeLocals.drop k = outs →
    copyOut calleeLocals (refs.zipIdx k) L = assign refs outs L := by
  induction outs generalizing k with
  | nil =>
    intro refs L hl _
    obtain rfl : refs = [] := List.length_eq_zero_iff.mp hl
    rfl
  | cons v outs ih =>
    intro refs L hl hd
    obtain ⟨i, refs, rfl⟩ : ∃ i is, refs = i :: is := List.exists_cons_of_length_eq_add_one hl
    have hv : calleeLocals[k]? = some v := by
      have h := congrArg (·[0]?) hd
      simpa using h
    rw [List.zipIdx_cons, copyOut_cons hv]
    refine ih (by simpa using hl) ?_
    rw [← List.drop_drop, hd]
    rfl

section Call

variable {callee : Bytecode} {localsTail : List Value} {arity n pc : Nat} {stack L values outs : List Value}
  {Q : State → Prop}

theorem leave_returned' (ha : arity ≤ stack.length)
    (h : Returns H callee (State.enter ⟨stack, L, pc, none⟩ localsTail arity).locals values outs)
    (ho : (referenced L (stack.take arity).reverse).length = outs.length) :
    State.leave ⟨stack, L, pc, none⟩ localsTail arity
        (run H callee (State.enter ⟨stack, L, pc, none⟩ localsTail arity) 1000000) =
      ⟨values.take 1 ++ stack.drop arity, assign (referenced L (stack.take arity).reverse) outs L,
        pc + 1, none⟩ := by
  obtain ⟨t, hrun, he, hs, k, hk⟩ := h
  have hlen : t.locals.length = arity + localsTail.length + outs.length := by
    rw [← hrun, run_length, ← ho]
    exact length_enter (s := ⟨stack, L, pc, none⟩) ha
  have hdrop : t.locals.drop (arity + localsTail.length) = outs := by
    have hl := congrArg List.length hk
    rw [List.length_drop] at hl
    rcases Nat.eq_zero_or_pos outs.length with h0 | h0
    · rw [List.length_eq_zero_iff.mp h0]
      exact List.drop_eq_nil_of_le (by omega)
    · rwa [show arity + localsTail.length = k by omega]
  have hrun' : run H callee (State.enter ⟨stack, L, pc, none⟩ localsTail arity) 1000000 = t := hrun
  rw [hrun', leave_returned _ _ _ he]
  have hb : (State.copies ⟨stack, L, pc, none⟩ localsTail arity).2.2 =
      (referenced L (stack.take arity).reverse).zipIdx (arity + localsTail.length) := copyIn_backings ..
  rw [hb, copyOut_assign ho hdrop, hs]

/-- A call of a bytecode that returns. -/
theorem call (hop : code.toList[pc]? = some (.Call callee localsTail arity))
    (h : Returns H callee (State.enter ⟨stack, L, pc, none⟩ localsTail arity).locals values outs)
    (ha : (stack.take arity).length = arity)
    (ho : (referenced L (stack.take arity).reverse).length = outs.length)
    {S M : List Value} (hs : values.take 1 ++ stack.drop arity = S)
    (hl : assign (referenced L (stack.take arity).reverse) outs L = M)
    (h' : Spends (run H code) n ⟨S, M, pc + 1, none⟩ Q) : Spends (run H code) (n + 1)
    ⟨stack, L, pc, none⟩ Q := by
  have ha' : arity ≤ stack.length := by
    rw [List.length_take] at ha
    omega
  refine h'.step fun fuel => ?_
  have hop' : code[pc]? = some (.Call callee localsTail arity) := (toList_getElem? ..).trans hop
  rw [run_next rfl hop' (fun h => by cases h), step_call rfl ha', leave_returned' ha' h ho, hs, hl]

end Call

end SuiPq.Proof.MoveVm
