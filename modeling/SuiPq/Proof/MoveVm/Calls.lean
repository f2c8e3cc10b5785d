import SuiPq.Proof.MoveVm.Runs

/-!
# Calls

A call copies the locals that its arguments refer to into slots behind the
callee's own locals, one for each in order (`copyIn_backings`), and copies the
slots back when the callee has returned (`copyOut_zipIdx`). No opcode changes
the number of locals (`run_length`), so that every slot is there to be copied.

`call_frame` is what a call does to its caller.
-/

namespace SuiPq.Proof.MoveVm

open SuiPq.Impl.MoveVm

/-! ## The number of locals -/

section Length

variable {H : Hash} {code : Bytecode} (s : State)

theorem length_pop : s.pop.1.locals.length = s.locals.length := by
  unfold State.pop
  split <;> rfl

theorem length_unop (f : Value → Value) : (s.unop f).locals.length = s.locals.length := by
  obtain ⟨_ | ⟨a, st⟩, locals, pc, e⟩ := s <;> rfl

theorem length_binop (f : Value → Value → Value) : (s.binop f).locals.length = s.locals.length := by
  obtain ⟨_ | ⟨a, _ | ⟨b, st⟩⟩, locals, pc, e⟩ := s <;> rfl

theorem length_divide (f : Nat → Nat → Nat) (e : String) :
    (s.divide f e).locals.length = s.locals.length := by
  obtain ⟨_ | ⟨a, _ | ⟨b, st⟩⟩, locals, pc, e⟩ := s <;> try rfl
  unfold State.divide
  dsimp only [State.pop2, State.pop]
  split <;> rfl

theorem length_branch (taken : Bool → Bool) (off : Nat) :
    (s.branch taken off).locals.length = s.locals.length := by
  obtain ⟨_ | ⟨a, st⟩, locals, pc, e⟩ := s <;> rfl

theorem length_setLocal (i : Nat) (v : Value) : (s.setLocal i v).locals.length = s.locals.length := by
  unfold State.setLocal
  split
  · exact List.length_set
  · rfl

theorem length_getLocal (i : Nat) : (s.getLocal i).1.locals.length = s.locals.length := by
  unfold State.getLocal
  split <;> rfl

theorem length_writeRef : s.writeRef.locals.length = s.locals.length := by
  obtain ⟨_ | ⟨a, _ | ⟨b, st⟩⟩, locals, pc, e⟩ := s <;> try rfl
  unfold State.writeRef
  dsimp only [State.pop2, State.pop]
  split
  · split
    · rfl
    · exact List.length_set
  · split
    · rfl
    · split
      · rfl
      · exact List.length_set
  · rfl

theorem length_vecPushBack (append : Value → Value → Value) (e : String) :
    (s.vecPushBack append e).locals.length = s.locals.length := by
  obtain ⟨_ | ⟨a, _ | ⟨b, st⟩⟩, locals, pc, e⟩ := s <;> try rfl
  unfold State.vecPushBack
  dsimp only [State.pop2, State.pop]
  split
  · split
    · rfl
    · exact List.length_set
  · rfl

theorem length_vecPopBack : s.vecPopBack.locals.length = s.locals.length := by
  obtain ⟨_ | ⟨a, st⟩, locals, pc, e⟩ := s <;> try rfl
  unfold State.vecPopBack
  dsimp only [State.pop]
  split
  · rfl
  · split
    · rfl
    · split
      · rfl
      · exact List.length_set
  · split <;> rfl

theorem length_vecMutBorrow : s.vecMutBorrow.locals.length = s.locals.length := by
  obtain ⟨_ | ⟨a, _ | ⟨b, st⟩⟩, locals, pc, e⟩ := s <;> try rfl
  unfold State.vecMutBorrow
  dsimp only [State.pop2, State.pop]
  split
  · rfl
  · split <;> rfl

theorem length_vecImmBorrow : s.vecImmBorrow.locals.length = s.locals.length := by
  obtain ⟨_ | ⟨a, _ | ⟨b, st⟩⟩, locals, pc, e⟩ := s <;> try rfl
  unfold State.vecImmBorrow
  dsimp only [State.pop2, State.pop]
  split <;> rfl

theorem length_vecU32ImmBorrow : s.vecU32ImmBorrow.locals.length = s.locals.length := by
  obtain ⟨_ | ⟨a, _ | ⟨b, st⟩⟩, locals, pc, e⟩ := s <;> try rfl
  unfold State.vecU32ImmBorrow
  dsimp only [State.pop2, State.pop]
  split <;> rfl

theorem length_vecSet : s.vecSet.locals.length = s.locals.length := by
  obtain ⟨_ | ⟨a, _ | ⟨b, _ | ⟨c, st⟩⟩⟩, locals, pc, e⟩ := s <;> try rfl
  unfold State.vecSet
  dsimp only [State.pop]
  split <;> rfl

theorem length_callNative (name : String) (arity : Nat) :
    (s.callNative H name arity).locals.length = s.locals.length := by
  unfold State.callNative
  split
  · rfl
  · split <;> rfl

theorem length_stepOp (op : Opcode) : (stepOp H op s).locals.length = s.locals.length := by
  cases op with
  | CopyLoc i | MoveLoc i =>
    have hl := length_getLocal s i
    unfold stepOp
    dsimp only
    generalize s.getLocal i = r at hl ⊢
    obtain ⟨s', _ | v⟩ := r <;> exact hl
  | StLoc i =>
    obtain ⟨_ | ⟨a, st⟩, locals, pc, e⟩ := s
    · rfl
    · exact length_setLocal ⟨st, locals, pc, e⟩ i a
  | Pop => exact length_pop s
  | ReadRef =>
    obtain ⟨_ | ⟨a, st⟩, locals, pc, e⟩ := s
    · rfl
    · unfold stepOp
      dsimp only [State.pop]
      split
      · rfl
      · split <;> rfl
      · rfl
  | WriteRef => exact length_writeRef s
  | Add | Sub | Mul | Shl | Shr | BitAnd | BitOr | Eq | Neq | Lt | Gt | VecAppend => exact length_binop s _
  | Div | Mod => exact length_divide s _ _
  | CastU8 | CastU32 | CastU64 | VecLen | VecU32Len => exact length_unop s _
  | BrTrue | BrFalse => exact length_branch s _ _
  | VecPushBack | VecU32PushBack => exact length_vecPushBack s _ _
  | VecPopBack => exact length_vecPopBack s
  | VecMutBorrow => exact length_vecMutBorrow s
  | VecImmBorrow => exact length_vecImmBorrow s
  | VecU32ImmBorrow => exact length_vecU32ImmBorrow s
  | VecSet => exact length_vecSet s
  | CallNative => exact length_callNative s _ _
  | _ => rfl

theorem length_copyOut (calleeLocals : List Value) (backings : List (Nat × Nat)) (locals : List Value) :
    (copyOut calleeLocals backings locals).length = locals.length := by
  induction backings generalizing locals with
  | nil => rfl
  | cons b backings ih =>
    unfold copyOut
    rw [List.foldl_cons]
    refine (ih _).trans ?_
    dsimp only
    split
    · rfl
    · exact List.length_set

end Length

/-! ## Leaving a call -/

section Leave

variable (s : State) (localsTail : List Value) (arity : Nat) {final : State}

/-- Only the value on the top of the callee's stack is pushed. -/
theorem leave_returned (h : final.error = none) : s.leave localsTail arity final =
    ⟨final.stack.take 1 ++ s.stack.drop arity,
      copyOut final.locals (s.copies localsTail arity).2.2 s.locals, s.pc + 1, none⟩ := by
  obtain ⟨_ | ⟨v, st⟩, locals, pc, e⟩ := final <;> cases h <;> rfl

theorem leave_failed {e : String} (h : final.error = some e) :
    s.leave localsTail arity final = s.fail s!"Call: callee error: {e}" := by
  obtain ⟨st, locals, pc, e⟩ := final
  cases h
  rfl

end Leave

section Runs

variable {H : Hash} {code : Bytecode}

theorem length_leave (s : State) (localsTail : List Value) (arity : Nat) (final : State) :
    (s.leave localsTail arity final).locals.length = s.locals.length := by
  cases h : final.error with
  | none =>
    rw [leave_returned s localsTail arity h]
    exact length_copyOut _ _ _
  | some e =>
    rw [leave_failed s localsTail arity h]
    rfl

theorem length_step (op : Opcode) (s : State) : (step H op s).locals.length = s.locals.length := by
  by_cases he : s.error = none
  · cases op with
    | Call callee localsTail arity =>
      by_cases ha : arity ≤ s.stack.length
      · rw [step_call he ha]
        exact length_leave _ _ _ _
      · rw [step_call_short he (Nat.lt_of_not_le ha)]
        rfl
    | _ =>
      rw [step_op he (by simp)]
      exact length_stepOp _ _
  · rw [step_failed op he]

/-- A run keeps the number of locals. -/
theorem run_length (s : State) (fuel : Nat) : (run H code s fuel).locals.length = s.locals.length := by
  induction fuel generalizing s with
  | zero => rw [run_zero]; rfl
  | succ fuel ih =>
    have hf := Nat.succ_ne_zero fuel
    by_cases he : s.error = none
    · by_cases hpc : s.pc < code.size
      · have hop := Array.getElem?_eq_getElem hpc
        by_cases hr : code[s.pc] = .Ret
        · rw [hr] at hop
          rw [run_ret hf he hop]
        · rw [run_next he hop hr, ih, length_step]
      · rw [run_past hf he (Nat.not_lt.mp hpc)]
        rfl
    · rw [run_failed hf he]

end Runs

/-! ## Copying in -/

/-- The caller's local that an argument refers to. -/
def refersTo (locals : List Value) : Value → Option Nat
  | .locRef i => if i < locals.length then some i else none
  | _ => none

/-- The caller's locals that the arguments refer to, in order. -/
def referenced (locals : List Value) (args : List Value) : List Nat := args.filterMap (refersTo locals)

section CopyIn

variable {locals : List Value} {a : Value} {i : Nat}

theorem refersTo_some (h : refersTo locals a = some i) : a = .locRef i ∧ i < locals.length := by
  unfold refersTo at h
  split at h
  · split at h
    · cases h
      exact ⟨rfl, by assumption⟩
    · cases h
  · cases h

theorem refersTo_locRef (h : i < locals.length) : refersTo locals (.locRef i) = some i := if_pos h

theorem copyIn_ref {u : Value} (h : locals[i]? = some u) (n : Nat) (args : List Value) :
    copyIn locals n (.locRef i :: args) =
      (.locRef n :: (copyIn locals (n + 1) args).1, u :: (copyIn locals (n + 1) args).2.1,
        (i, n) :: (copyIn locals (n + 1) args).2.2) := by
  rw [copyIn, h]

theorem copyIn_other (h : refersTo locals a = none) (n : Nat) (args : List Value) :
    copyIn locals n (a :: args) = (a :: (copyIn locals n args).1, (copyIn locals n args).2) := by
  cases a with
  | locRef i =>
    have hi : ¬ i < locals.length := by
      intro hi
      rw [refersTo_locRef hi] at h
      cases h
    rw [copyIn, List.getElem?_eq_none (Nat.not_lt.mp hi)]
  | _ => rfl

variable (locals)

/-- The slots are numbered from `n` on, one for each reference. -/
theorem copyIn_backings (n : Nat) (args : List Value) :
    (copyIn locals n args).2.2 = (referenced locals args).zipIdx n := by
  induction args generalizing n with
  | nil => rfl
  | cons a args ih =>
    cases h : refersTo locals a with
    | none => rw [copyIn_other h, referenced, List.filterMap_cons_none h]; exact ih n
    | some i =>
      obtain ⟨rfl, hi⟩ := refersTo_some h
      rw [copyIn_ref (List.getElem?_eq_getElem hi), referenced, List.filterMap_cons_some h, List.zipIdx_cons]
      exact congrArg _ (ih (n + 1))

/-- The slots hold the values of the locals. -/
theorem copyIn_values (n : Nat) (args : List Value) :
    (copyIn locals n args).2.1.map some = (referenced locals args).map (locals[·]?) := by
  induction args generalizing n with
  | nil => rfl
  | cons a args ih =>
    cases h : refersTo locals a with
    | none => rw [copyIn_other h, referenced, List.filterMap_cons_none h]; exact ih n
    | some i =>
      obtain ⟨rfl, hi⟩ := refersTo_some h
      have hget := List.getElem?_eq_getElem hi
      rw [copyIn_ref hget, referenced, List.filterMap_cons_some h, List.map_cons, List.map_cons, hget]
      exact congrArg _ (ih (n + 1))

/-- An argument that refers to a local becomes a reference to its slot, and the others stay. -/
theorem copyIn_args (n : Nat) (args : List Value) (p : Nat) :
    (copyIn locals n args).1[p]? = args[p]?.map fun a =>
      match refersTo locals a with
      | some _ => .locRef (n + (referenced locals (args.take p)).length)
      | none => a := by
  induction args generalizing n p with
  | nil => rfl
  | cons a args ih =>
    cases h : refersTo locals a with
    | none =>
      rw [copyIn_other h]
      cases p with
      | zero => simp [h]
      | succ p =>
        rw [List.getElem?_cons_succ, List.getElem?_cons_succ, ih, List.take_succ_cons, referenced, referenced,
          List.filterMap_cons_none h]
    | some i =>
      obtain ⟨rfl, hi⟩ := refersTo_some h
      rw [copyIn_ref (List.getElem?_eq_getElem hi)]
      cases p with
      | zero => simp [h, referenced]
      | succ p =>
        rw [List.getElem?_cons_succ, List.getElem?_cons_succ, ih, List.take_succ_cons, referenced, referenced,
          List.filterMap_cons_some h, List.length_cons]
        simp only [Nat.add_assoc, Nat.add_comm 1]

theorem length_copyIn (n : Nat) (args : List Value) : (copyIn locals n args).1.length = args.length := by
  induction args generalizing n with
  | nil => rfl
  | cons a args ih =>
    cases h : refersTo locals a with
    | none => rw [copyIn_other h, List.length_cons, List.length_cons, ih]
    | some i =>
      obtain ⟨rfl, hi⟩ := refersTo_some h
      rw [copyIn_ref (List.getElem?_eq_getElem hi), List.length_cons, List.length_cons, ih]

end CopyIn

/-! ## Copying out -/

theorem copyOut_cons {calleeLocals : List Value} {i j : Nat} {v : Value} (h : calleeLocals[j]? = some v)
    (backings : List (Nat × Nat)) (locals : List Value) :
    copyOut calleeLocals ((i, j) :: backings) locals =
      copyOut calleeLocals backings (locals.set i v) := by
  simp only [copyOut, List.foldl_cons, h]

section CopyOut

variable {calleeLocals : List Value} {refs : List Nat}

/-- A local that nothing refers to stays as it was. -/
theorem copyOut_frame {backings : List (Nat × Nat)} {i : Nat} (h : ∀ b ∈ backings, b.1 ≠ i)
    (locals : List Value) : (copyOut calleeLocals backings locals)[i]? = locals[i]? := by
  induction backings generalizing locals with
  | nil => rfl
  | cons b backings ih =>
    have hb : b.1 ≠ i := h b List.mem_cons_self
    refine (ih (fun c hc => h c (List.mem_cons_of_mem _ hc)) _).trans ?_
    dsimp only
    split
    · rfl
    · exact List.getElem?_set_ne hb

/-- The locals, each referred to once, get what the slots from `n` on hold. -/
theorem copyOut_zipIdx (hnd : refs.Nodup) {n : Nat} (hn : n + refs.length ≤ calleeLocals.length)
    {locals : List Value} (hlt : ∀ i ∈ refs, i < locals.length) {q i : Nat} (hq : refs[q]? = some i) :
    (copyOut calleeLocals (refs.zipIdx n) locals)[i]? = calleeLocals[n + q]? := by
  induction refs generalizing n locals q with
  | nil => cases hq
  | cons j refs ih =>
    obtain ⟨hj, hnd⟩ := List.nodup_cons.mp hnd
    rw [List.length_cons] at hn
    have hget : calleeLocals[n]? = some calleeLocals[n] := List.getElem?_eq_getElem (by omega)
    rw [List.zipIdx_cons, copyOut_cons hget]
    cases q with
    | zero =>
      rw [← Option.some.inj hq, copyOut_frame, List.getElem?_set_self (hlt j List.mem_cons_self),
        Nat.add_zero, hget]
      intro b hb he
      exact hj (he ▸ List.fst_mem_of_mem_zipIdx hb)
    | succ q =>
      have hlt' : ∀ i ∈ refs, i < (locals.set j calleeLocals[n]).length := by
        intro i hi
        rw [List.length_set]
        exact hlt i (List.mem_cons_of_mem _ hi)
      rw [ih hnd (by omega) hlt' hq, Nat.add_assoc, Nat.add_comm 1]

end CopyOut

/-! ## The frame law -/

/-- The arguments of a call, in order. -/
def arguments (s : State) (arity : Nat) : List Value := (s.stack.take arity).reverse

/-- The slot of the argument at `p`, if that refers to a local. -/
def slot (s : State) (localsTail : List Value) (arity p : Nat) : Nat :=
  arity + localsTail.length + (referenced s.locals ((arguments s arity).take p)).length

section Slots

variable {s : State} {localsTail : List Value} {arity p i : Nat}

theorem length_arguments (ha : arity ≤ s.stack.length) : (arguments s arity).length = arity := by
  rw [arguments, List.length_reverse, List.length_take, Nat.min_eq_left ha]

/-- A reference comes after those of the arguments before it. -/
theorem referenced_getElem {locals args : List Value} {a : Value} (hp : args[p]? = some a)
    (hi : refersTo locals a = some i) :
    (referenced locals args)[(referenced locals (args.take p)).length]? = some i := by
  obtain ⟨hlt, rfl⟩ := List.getElem?_eq_some_iff.mp hp
  have hsplit : referenced locals args =
      referenced locals (args.take p) ++ i :: referenced locals (args.drop (p + 1)) := by
    conv_lhs => rw [← List.take_append_drop p args, List.drop_eq_getElem_cons hlt]
    rw [referenced, List.filterMap_append, List.filterMap_cons_some hi]
    rfl
  rw [hsplit, List.getElem?_append_right le_rfl, Nat.sub_self]
  rfl

theorem length_copied (s : State) (localsTail : List Value) (arity : Nat) :
    (s.copies localsTail arity).2.1.length = (referenced s.locals (arguments s arity)).length := by
  have h := congrArg List.length (copyIn_values s.locals (arity + localsTail.length) (arguments s arity))
  rwa [List.length_map, List.length_map] at h

theorem enter_locals (s : State) (localsTail : List Value) (arity : Nat) : (s.enter localsTail arity).locals =
    (s.copies localsTail arity).1 ++ localsTail ++ (s.copies localsTail arity).2.1 := rfl

theorem length_translated (ha : arity ≤ s.stack.length) : (s.copies localsTail arity).1.length = arity :=
  (length_copyIn _ _ _).trans (length_arguments ha)

theorem length_enter (ha : arity ≤ s.stack.length) : (s.enter localsTail arity).locals.length =
    arity + localsTail.length + (referenced s.locals (arguments s arity)).length := by
  rw [enter_locals, List.length_append, List.length_append, length_copied, length_translated ha]

/-- The callee gets a reference to the slot in place of one to the local. -/
theorem enter_arg (ha : arity ≤ s.stack.length) (hp : (arguments s arity)[p]? = some (.locRef i))
    (hi : i < s.locals.length) :
    (s.enter localsTail arity).locals[p]? = some (.locRef (slot s localsTail arity p)) := by
  have hlt : p < arity := length_arguments ha ▸ (List.getElem?_eq_some_iff.mp hp).1
  have hlen : (s.copies localsTail arity).1.length = arity := length_translated ha
  have hargs : (s.copies localsTail arity).1[p]? = _ := copyIn_args s.locals _ (arguments s arity) p
  rw [enter_locals, List.append_assoc, List.getElem?_append_left (by omega), hargs, hp, Option.map_some,
    refersTo_locRef hi]
  rfl

/-- The slot holds the value of the local. -/
theorem enter_slot (ha : arity ≤ s.stack.length) (hp : (arguments s arity)[p]? = some (.locRef i))
    (hi : i < s.locals.length) :
    (s.enter localsTail arity).locals[slot s localsTail arity p]? = s.locals[i]? := by
  have hq := referenced_getElem hp (refersTo_locRef hi)
  have hv := congrArg (·[(referenced s.locals ((arguments s arity).take p)).length]?)
    (copyIn_values s.locals (arity + localsTail.length) (arguments s arity))
  have hlen : (s.copies localsTail arity).1.length = arity := length_translated ha
  have hlen' : ((s.copies localsTail arity).1 ++ localsTail).length = arity + localsTail.length := by
    rw [List.length_append, hlen]
  rw [List.getElem?_map, List.getElem?_map, hq, Option.map_some, Option.map_eq_some_iff] at hv
  obtain ⟨v, hv, he⟩ := hv
  rw [enter_locals, slot, List.getElem?_append_right (by omega), hlen', Nat.add_sub_cancel_left, ← he]
  exact hv

end Slots

/-- What a call that ends without an error does to its caller: the stack below the arguments and the locals
that they do not refer to stay; a local that an argument refers to is in a slot of the callee, to which the
callee has a reference instead, and gets what the callee leaves there. -/
structure CallFrame (s s' final : State) (localsTail : List Value) (arity : Nat) : Prop where
  stack : s'.stack = final.stack.take 1 ++ s.stack.drop arity
  unreferenced : ∀ i, .locRef i ∉ arguments s arity → s'.locals[i]? = s.locals[i]?
  referenced : ∀ p i, (arguments s arity)[p]? = some (.locRef i) → i < s.locals.length →
    (s.enter localsTail arity).locals[p]? = some (.locRef (slot s localsTail arity p)) ∧
    (s.enter localsTail arity).locals[slot s localsTail arity p]? = s.locals[i]? ∧
    ∃ v, final.locals[slot s localsTail arity p]? = some v ∧ s'.locals[i]? = some v

section Frame

variable {H : Hash} {callee : Bytecode} {localsTail : List Value} {arity : Nat} {s : State}

theorem call_ends (h : (step H (.Call callee localsTail arity) s).error = none) :
    s.error = none ∧ arity ≤ s.stack.length ∧
      (run H callee (s.enter localsTail arity) 1000000).error = none := by
  by_cases he : s.error = none
  · by_cases ha : arity ≤ s.stack.length
    · refine ⟨he, ha, ?_⟩
      rw [step_call he ha] at h
      cases hf : (run H callee (s.enter localsTail arity) 1000000).error with
      | none => rfl
      | some e =>
        rw [leave_failed s localsTail arity hf] at h
        cases h
    · rw [step_call_short he (Nat.lt_of_not_le ha)] at h
      cases h
  · rw [step_failed _ he] at h
    exact absurd h he

theorem call_failed (h : (step H (.Call callee localsTail arity) s).error ≠ none) :
    (step H (.Call callee localsTail arity) s).stack = s.stack ∧
      (step H (.Call callee localsTail arity) s).locals = s.locals := by
  by_cases he : s.error = none
  · by_cases ha : arity ≤ s.stack.length
    · rw [step_call he ha] at h ⊢
      cases hf : (run H callee (s.enter localsTail arity) 1000000).error with
      | none =>
        rw [leave_returned s localsTail arity hf] at h
        exact absurd rfl h
      | some e =>
        rw [leave_failed s localsTail arity hf]
        exact ⟨rfl, rfl⟩
    · rw [step_call_short he (Nat.lt_of_not_le ha)]
      exact ⟨rfl, rfl⟩
  · rw [step_failed _ he]
    exact ⟨rfl, rfl⟩

end Frame

/-- The frame law of `Call`, for arguments that refer to different locals. -/
theorem call_frame (H : Hash) (callee : Bytecode) (localsTail : List Value) (arity : Nat) (s : State)
    (hnd : (referenced s.locals (arguments s arity)).Nodup) :
    ((step H (.Call callee localsTail arity) s).error = none →
      CallFrame s (step H (.Call callee localsTail arity) s) (run H callee (s.enter localsTail arity) 1000000)
        localsTail arity) ∧
    ((run H callee (s.enter localsTail arity) 1000000).error ≠ none →
      (step H (.Call callee localsTail arity) s).error ≠ none ∧
      (step H (.Call callee localsTail arity) s).stack = s.stack ∧
      (step H (.Call callee localsTail arity) s).locals = s.locals) := by
  refine ⟨fun h => ?_, fun hf => ?_⟩
  · obtain ⟨he, ha, hf⟩ := call_ends h
    rw [step_call he ha, leave_returned s localsTail arity hf]
    have hb : (s.copies localsTail arity).2.2 =
        (referenced s.locals (arguments s arity)).zipIdx (arity + localsTail.length) :=
      copyIn_backings s.locals _ _
    refine ⟨rfl, fun i hi => ?_, fun p i hp hi => ⟨enter_arg ha hp hi, enter_slot ha hp hi, ?_⟩⟩
    · apply copyOut_frame
      intro b hmem he
      rw [hb] at hmem
      obtain ⟨a, ha, href⟩ := List.mem_filterMap.mp (List.fst_mem_of_mem_zipIdx hmem)
      obtain ⟨rfl, -⟩ := refersTo_some href
      exact hi (he ▸ ha)
    · have hlen : (run H callee (s.enter localsTail arity) 1000000).locals.length =
          arity + localsTail.length + (referenced s.locals (arguments s arity)).length := by
        rw [run_length, length_enter ha]
      have hq := referenced_getElem hp (refersTo_locRef hi)
      have hslot : slot s localsTail arity p <
          (run H callee (s.enter localsTail arity) 1000000).locals.length := by
        rw [hlen]
        exact Nat.add_lt_add_left (List.getElem?_eq_some_iff.mp hq).1 _
      refine ⟨_, List.getElem?_eq_getElem hslot, ?_⟩
      rw [← List.getElem?_eq_getElem hslot]
      show (copyOut _ _ _)[i]? = _
      rw [hb]
      refine copyOut_zipIdx hnd hlen.ge (fun j hj => ?_) hq
      obtain ⟨a, -, href⟩ := List.mem_filterMap.mp hj
      exact (refersTo_some href).2
  · have h : (step H (.Call callee localsTail arity) s).error ≠ none := fun h => hf (call_ends h).2.2
    exact ⟨h, call_failed h⟩

/-- A callee that pushes a byte on the vector that it has a reference to. -/
def sampleCallee : Bytecode := #[.MoveLoc 0, .LdU8 7, .VecPushBack, .Ret]

def sampleCaller : State := ⟨[.locRef 0, .bool true], [.vecU8 [1], .u8 3], 0, none⟩

theorem sample_run : run .zero sampleCallee (sampleCaller.enter [] 1) 1000000 =
    ⟨[], [.locRef 1, .vecU8 [1, 7]], 3, none⟩ := by
  rw [show (1000000 : Nat) = 999997 + 1 + 1 + 1 from rfl,
    run_next rfl (show sampleCallee[0]? = some (.MoveLoc 0) from rfl) (by simp), step_op rfl (by simp),
    run_next rfl (show sampleCallee[1]? = some (.LdU8 7) from rfl) (by simp), step_op rfl (by simp),
    run_next rfl (show sampleCallee[2]? = some .VecPushBack from rfl) (by simp), step_op rfl (by simp),
    run_ret (by omega) rfl rfl]
  rfl

theorem call_frame_sample : CallFrame sampleCaller (step .zero (.Call sampleCallee [] 1) sampleCaller)
    (run .zero sampleCallee (sampleCaller.enter [] 1) 1000000) [] 1 :=
  (call_frame .zero sampleCallee [] 1 sampleCaller (by decide)).1 (by
    rw [step_call rfl (by decide), sample_run]
    rfl)

/-! ## What a call returns -/

section Returns

variable {H : Hash} {callee : Bytecode} {localsTail : List Value} {arity : Nat} {s : State}

/-- A call leaves the values on the callee's stack on the caller's, in place of the arguments, exactly when
there is at most one of them; it drops all but the last. The values are those from the bottom of the stack. -/
theorem call_returns_iff (he : s.error = none) (ha : arity ≤ s.stack.length) {values : List Value}
    (hend : (run H callee (s.enter localsTail arity) 1000000).error = none)
    (hvalues : (run H callee (s.enter localsTail arity) 1000000).stack = values.reverse) :
    (step H (.Call callee localsTail arity) s).stack = values.reverse ++ s.stack.drop arity ↔
      values.length ≤ 1 := by
  rw [step_call he ha, leave_returned s localsTail arity hend]
  show (State.stack _).take 1 ++ _ = _ ↔ _
  rw [hvalues, List.append_cancel_right_eq]
  constructor
  · intro h
    have := congrArg List.length h
    rw [List.length_take, List.length_reverse] at this
    omega
  · intro h
    exact List.take_of_length_le (by rwa [List.length_reverse])

end Returns

/-- A function that returns three values. -/
def sampleThree : Bytecode := #[.LdU64 1, .LdU64 2, .LdU64 3, .Ret]

theorem sampleThree_run : run .zero sampleThree (State.enter ⟨[], [], 0, none⟩ [] 0) 1000000 =
    ⟨[.u64 3, .u64 2, .u64 1], [], 3, none⟩ := by
  rw [show (1000000 : Nat) = 999997 + 1 + 1 + 1 from rfl,
    run_next rfl (show sampleThree[0]? = some (.LdU64 1) from rfl) (by simp), step_op rfl (by simp),
    run_next rfl (show sampleThree[1]? = some (.LdU64 2) from rfl) (by simp), step_op rfl (by simp),
    run_next rfl (show sampleThree[2]? = some (.LdU64 3) from rfl) (by simp), step_op rfl (by simp),
    run_ret (by omega) rfl rfl]
  rfl

/-- The caller is left with the last of the three. -/
theorem not_call_returns :
    ¬ ∀ (H : Hash) (callee : Bytecode) (localsTail : List Value) (arity : Nat) (s : State)
    (values : List Value), s.error = none → arity ≤ s.stack.length →
      (run H callee (s.enter localsTail arity) 1000000).error = none →
      (run H callee (s.enter localsTail arity) 1000000).stack = values.reverse →
      (step H (.Call callee localsTail arity) s).stack = values.reverse ++ s.stack.drop arity := by
  intro h
  have h := h .zero sampleThree [] 0 ⟨[], [], 0, none⟩ [.u64 1, .u64 2, .u64 3] rfl (by decide)
    (by rw [sampleThree_run]) (by rw [sampleThree_run]; rfl)
  rw [step_call rfl (by decide), leave_returned _ _ _ (by rw [sampleThree_run]), sampleThree_run] at h
  exact absurd h (by decide)

/-- A function that returns the byte that it gets. -/
def sampleIdentity : Bytecode := #[.MoveLoc 0, .Ret]

theorem sampleIdentity_run : run .zero sampleIdentity
    (State.enter ⟨[.u8 7, .bool true], [], 0, none⟩ [] 1) 1000000 =
    ⟨[.u8 7], [.u8 7], 1, none⟩ := by
  rw [show (1000000 : Nat) = 999999 + 1 from rfl,
    run_next rfl (show sampleIdentity[0]? = some (.MoveLoc 0) from rfl) (by simp), step_op rfl (by simp),
    run_ret (by omega) rfl rfl]
  rfl

theorem call_returns_iff_sample :
    (step .zero (.Call sampleIdentity [] 1) ⟨[.u8 7, .bool true], [], 0, none⟩).stack =
    [.u8 7].reverse ++ [.bool true] := by
  refine (call_returns_iff rfl (by decide) (by rw [sampleIdentity_run]) ?_).mpr (by decide)
  rw [sampleIdentity_run]
  rfl

end SuiPq.Proof.MoveVm
