import SuiPq.Proof.MoveVm.Shapes
import Mathlib.Data.List.Forall2

/-!
# Frames

What is known of a state (`Frame`): shapes of the values on the stack and of
the locals. `next` is the effect on a frame of an opcode that neither calls
nor branches, where the opcode cannot fail. It is sound for the strict
semantics (`next_holds`), by one lemma for each kind of opcodes.
-/

namespace SuiPq.Proof.MoveVm

open SuiPq.Impl.MoveVm SuiPq.Spec.StrictVm

/-! ## States -/

structure Frame where
  stack : List Shape
  locals : List (Option Shape)
  pc : Nat

inductive Frame.Holds (ρ : Nat → Nat) (f : Frame) : StrictState → Prop
  | mk {stack locals moved} : List.Forall₂ (Shape.Holds ρ) f.stack stack →
    LocalsHold ρ f.locals locals moved → f.Holds ρ ⟨⟨stack, locals, f.pc, none⟩, moved⟩

namespace Frame

/-- The shape of a local, if it can be used. -/
def read (f : Frame) (i : Nat) : Option Shape := f.locals[i]?.join

def store (f : Frame) (i : Nat) (a : Option Shape) : Frame := { f with locals := f.locals.set i a }

def push (f : Frame) (a : Shape) : Frame := { f with stack := a :: f.stack }

def advance (f : Frame) : Option Frame := some { f with pc := f.pc + 1 }

def pop (f : Frame) (k : Shape → Frame → Option Frame) : Option Frame :=
  match f.stack with
  | [] => none
  | a :: stack => k a { f with stack := stack }

/-- As `State.pop2`, the value popped first comes first. -/
def pop2 (f : Frame) (k : Shape → Shape → Frame → Option Frame) : Option Frame :=
  f.pop fun b f => f.pop fun a f => k b a f

def deref (f : Frame) : Shape → Option Shape
  | .locRef i => f.read i
  | .elemRef _ _ => none
  | a => some a

/-- A binary operation on integers, with a result of the type of the first. -/
def arith (op : Width → Range → Range → Option Range) (f : Frame) : Option Frame :=
  f.pop2 fun b a f =>
    match a, b with
    | .int w ra, .int _ rb => (op w ra rb).bind fun r => (f.push (.int w r)).advance
    | _, _ => none

def compare (op : Range → Range → Option Bool) (f : Frame) : Option Frame :=
  f.pop2 fun b a f =>
    match a, b with
    | .int w ra, .int w' rb => if w = w' then (f.push (.bool (op ra rb))).advance else none
    | _, _ => none

def cast (w : Width) (f : Frame) : Option Frame :=
  f.pop fun a f =>
    match a with
    | .int _ r => if r.hi < w.bound then (f.push (.int w r)).advance else none
    | _ => none

/-- A local that the value popped refers to gets a new shape. -/
def update (f : Frame) (a : Shape) (op : Shape → Option Shape) : Option Frame :=
  match a with
  | .locRef i => (f.read i).bind fun a => (op a).bind fun a => some (f.store i (some a))
  | _ => none

end Frame

/-- The range, if its numbers are of the type. -/
def within (w : Width) (r : Range) : Option Range := if r.hi < w.bound then some r else none

/-- The effect of an opcode other than calls and branches, if it does not fail. -/
def next (op : Opcode) (f : Frame) : Option Frame :=
  match op with
  | .Pop => f.pop fun _ f => f.advance
  | .LdU8 n => (f.push (.ofValue (.u8 n))).advance
  | .LdU32 n => (f.push (.ofValue (.u32 n))).advance
  | .LdU64 n => (f.push (.ofValue (.u64 n))).advance
  | .LdConst v => (f.push (.ofValue v)).advance
  | .CopyLoc i => (f.read i).bind fun a => (f.push a).advance
  | .MoveLoc i => (f.read i).bind fun a => ((f.store i none).push a).advance
  | .StLoc i => f.pop fun a f => if i < f.locals.length then (f.store i (some a)).advance else none
  | .MutBorrowLoc i | .ImmBorrowLoc i => (f.read i).bind fun _ => (f.push (.locRef i)).advance
  | .ReadRef => f.pop fun a f => (f.deref a).bind fun a => (f.push a).advance
  | .FreezeRef => f.advance
  | .WriteRef => f.pop2 fun b a f =>
    match b, a with
    | .elemRef i j, .int .w8 _ => (f.read i).bind fun
      | .vecU8 l => if l.covers j then (f.store i (some (.vecU8 l))).advance else none
      | _ => none
    | .locRef i, .vecU8 l => (f.read i).bind fun _ => (f.store i (some (.vecU8 l))).advance
    | _, _ => none
  | .Add => f.arith fun w a b => within w (a.add b)
  | .Sub => f.arith fun _ a b => if b.hi ≤ a.lo then some (a.sub b) else none
  | .Mul => f.arith fun w a b => within w (a.mul b)
  | .Div => f.arith fun _ a b => if 0 < b.lo then some (a.div b) else none
  | .Mod => f.arith fun _ a b => if 0 < b.lo then some (a.mod b) else none
  | .Shl => f.arith fun w a b => some (a.shl w.bound b)
  | .Shr => f.arith fun _ a b => some (a.shr b)
  | .BitAnd => f.arith fun _ a b => some (a.and b)
  | .BitOr => f.arith fun w a b => within w (a.or b)
  | .Eq => f.compare Range.eq
  | .Lt => f.compare Range.lt
  | .Gt => f.compare fun a b => b.lt a
  | .CastU8 => f.cast .w8
  | .CastU32 => f.cast .w32
  | .CastU64 => f.cast .w64
  | .VecAppend => f.pop2 fun b a f =>
    match a, b with
    | .vecU8 l, .vecU8 l' => (f.push (.vecU8 (l.add l'.n))).advance
    | _, _ => none
  | .VecPushBack => f.pop2 fun b a f =>
    match b with
    | .int .w8 _ => (f.update a fun
      | .vecU8 l => some (.vecU8 (l.add 1))
      | _ => none).bind Frame.advance
    | _ => none
  | .VecU32PushBack => f.pop2 fun b a f =>
    match b with
    | .int .w32 r => (f.update a fun
      | .vecU32 l m => some (.vecU32 (l.add 1) (max m r.hi))
      | _ => none).bind Frame.advance
    | _ => none
  | .VecPopBack => f.pop fun a f => (f.update a fun
    | .vecU8 l => if 0 < l.n then some (.vecU8 { l with n := l.n - 1 }) else none
    | _ => none).bind fun f => (f.push (.int .w8 (.upTo 255))).advance
  | .VecMutBorrow => f.pop2 fun b a f =>
    match a, b with
    | .locRef i, .int .w64 r => (f.read i).bind fun _ => (f.push (.elemRef i r)).advance
    | _, _ => none
  | .VecImmBorrow => f.pop2 fun b a f => (f.deref a).bind fun a =>
    match a, b with
    | .vecU8 l, .int .w64 r => if l.covers r then (f.push (.int .w8 (.upTo 255))).advance else none
    | _, _ => none
  | .VecU32ImmBorrow => f.pop2 fun b a f => (f.deref a).bind fun a =>
    match a, b with
    | .vecU32 l m, .int .w64 r => if l.covers r then (f.push (.int .w32 (.upTo m))).advance else none
    | _, _ => none
  | .CallNative name arity => f.pop fun a f =>
    match a with
    | .vecU8 _ =>
      if name = "sha2_256" ∧ arity = 1 then (f.push (.vecU8 (.const 32))).advance else none
    | _ => none
  | _ => none

/-! ## Soundness -/

section Soundness

variable {H : Hash} {ρ : Nat → Nat} {f g : Frame} {s : StrictState} {stack : List Value}

theorem advance_eq (h : f.advance = some g) : g = { f with pc := f.pc + 1 } := (Option.some.inj h).symm

theorem pop_holds {k : Shape → Frame → Option Frame} (h : f.pop k = some g)
    (hst : List.Forall₂ (Shape.Holds ρ) f.stack stack) :
    ∃ a v shapes values, stack = v :: values ∧ a.Holds ρ v ∧ List.Forall₂ (Shape.Holds ρ) shapes values ∧
      k a { f with stack := shapes } = some g := by
  unfold Frame.pop at h
  split at h
  · cases h
  · rename_i hf
    rw [hf] at hst
    obtain ⟨v, values, hv, hst', rfl⟩ := List.forall₂_cons_left_iff.mp hst
    exact ⟨_, v, _, values, rfl, hv, hst', h⟩

theorem pop2_holds {k : Shape → Shape → Frame → Option Frame} (h : f.pop2 k = some g)
    (hst : List.Forall₂ (Shape.Holds ρ) f.stack stack) :
    ∃ a b v u shapes values, stack = u :: v :: values ∧ a.Holds ρ v ∧ b.Holds ρ u ∧
      List.Forall₂ (Shape.Holds ρ) shapes values ∧ k b a { f with stack := shapes } = some g := by
  obtain ⟨b, u, _, _, rfl, hb, hst, h⟩ := pop_holds h hst
  obtain ⟨a, v, shapes, values, rfl, ha, hst, h⟩ := pop_holds h hst
  exact ⟨a, b, v, u, shapes, values, rfl, ha, hb, hst, h⟩

/-- An opcode pushes `v` in place of `b` and `a`. -/
def Pushes (H : Hash) (op : Opcode) (a b v : Value) : Prop :=
  (∀ stack, exact op (b :: a :: stack) = true) ∧
    ∀ stack locals pc, stepOp H op ⟨b :: a :: stack, locals, pc, none⟩ =
      ⟨v :: stack, locals, pc + 1, none⟩

/-- An opcode that works on the values on the stack only. -/
structure Plain (op : Opcode) : Prop where
  uses : ∀ stack, uses op stack = []
  moves : ∀ moved, moves op moved = moved
  not_call : ∀ callee localsTail arity, op ≠ .Call callee localsTail arity

section Families

variable {op : Opcode} (hp : Plain op)

include hp

/-- `G` gives the ranges of the results of `F`. -/
theorem arith_holds {F : Nat → Nat → Nat} {G : Width → Range → Range → Option Range}
    (hG : ∀ {w ra rb r a b}, G w ra rb = some r → width a = some w → ra.Holds ρ a.asNat →
      rb.Holds ρ b.asNat → Pushes H op a b (.wrapLikeInt a (F a.asNat b.asNat)) ∧
        r.Holds ρ (F a.asNat b.asNat % w.bound))
    (hf : f.Holds ρ s) (h : f.arith G = some g) : g.Holds ρ (strictStep H op s) := by
  cases hf with
  | mk hst hl =>
    obtain ⟨_, _, v, u, _, _, rfl, ha, hb, hst, h⟩ := pop2_holds h hst
    split at h
    · cases ha with
      | int hw hra =>
        cases hb with
        | int _ hrb =>
          obtain ⟨r, hr, h⟩ := Option.bind_eq_some_iff.mp h
          obtain rfl := advance_eq h
          obtain ⟨hv, hr⟩ := hG hr hw hra hrb
          rw [strictStep_of rfl (by simp [hp.uses]) (hv.1 _) hp.not_call, hv.2, hp.moves]
          refine .mk (.cons (.int (width_wrapLikeInt hw _) ?_) hst) hl
          rwa [asNat_wrapLikeInt hw]
    · cases h

/-- `G` says whether `F` holds. -/
theorem compare_holds {F : Value → Value → Bool} {G : Range → Range → Option Bool}
    (hF : ∀ a b, Pushes H op a b (.bool (F a b)))
    (hG : ∀ {w a b ra rb}, width a = some w → width b = some w → ra.Holds ρ a.asNat →
      rb.Holds ρ b.asNat → ∀ c ∈ G ra rb, F a b = c)
    (hf : f.Holds ρ s) (h : f.compare G = some g) : g.Holds ρ (strictStep H op s) := by
  cases hf with
  | mk hst hl =>
    obtain ⟨_, _, v, u, _, _, rfl, ha, hb, hst, h⟩ := pop2_holds h hst
    split at h
    · split at h
      · rename_i hww
        subst hww
        cases ha with
        | int hw hra =>
          cases hb with
          | int hw' hrb =>
            obtain rfl := advance_eq h
            rw [strictStep_of rfl (by simp [hp.uses]) ((hF _ _).1 _) hp.not_call, (hF _ _).2, hp.moves]
            exact .mk (.cons (.bool (hG hw hw' hra hrb)) hst) hl
      · cases h
    · cases h

theorem cast_holds {w : Width} {F : Value → Value} (hop : ∀ s, stepOp H op s = s.unop F)
    (hx : ∀ {v}, v.asNat < w.bound → ∀ stack, exact op (v :: stack) = true)
    (hF : ∀ {v}, v.asNat < w.bound → width (F v) = some w ∧ (F v).asNat = v.asNat)
    (hf : f.Holds ρ s) (h : f.cast w = some g) : g.Holds ρ (strictStep H op s) := by
  cases hf with
  | mk hst hl =>
    obtain ⟨_, v, _, _, rfl, ha, hst, h⟩ := pop_holds h hst
    split at h
    · split at h
      · rename_i hlt
        cases ha with
        | int hw hr =>
          obtain rfl := advance_eq h
          have hv : v.asNat < w.bound := Nat.lt_of_le_of_lt hr.hi hlt
          rw [strictStep_of rfl (by simp [hp.uses]) (hx hv _) hp.not_call, hop, hp.moves]
          refine .mk (.cons (.int (hF hv).1 ?_) hst) hl
          rwa [(hF hv).2]
      · cases h
    · cases h

/-- An opcode that pushes a constant. -/
theorem load_holds {v : Value} (hop : ∀ s, stepOp H op s = (s.push v).jump (s.pc + 1))
    (hx : ∀ stack, exact op stack = true) (hf : f.Holds ρ s)
    (h : (f.push (.ofValue v)).advance = some g) : g.Holds ρ (strictStep H op s) := by
  cases hf with
  | mk hst hl =>
    obtain rfl := advance_eq h
    rw [strictStep_of rfl (by simp [hp.uses]) (hx _) hp.not_call, hop, hp.moves]
    exact .mk (.cons (Shape.ofValue_holds v) hst) hl

end Families

theorem read_holds {locals : List Value} {moved : List Nat} {i : Nat} {a : Shape}
    (hl : LocalsHold ρ f.locals locals moved) (h : f.read i = some a) :
    i ∉ moved ∧ ∃ v, locals[i]? = some v ∧ a.Holds ρ v :=
  hl.get i a (Option.join_eq_some_iff.mp h)

theorem deref_holds (stack : List Value) {locals : List Value} {moved : List Nat} {a b : Shape} {v : Value}
    (hl : LocalsHold ρ f.locals locals moved) (h : f.deref a = some b) (ha : a.Holds ρ v) :
    (∀ i ∈ target v, i ∉ moved) ∧ (∀ i, v = .locRef i → locals[i]?.isSome) ∧
      ∀ none, b.Holds ρ (State.deref ⟨stack, locals, f.pc, .none⟩ none v) := by
  cases ha with
  | locRef =>
    obtain ⟨hi, u, hu, hb⟩ := read_holds hl h
    refine ⟨by simpa using hi, fun j hj => ?_, fun d => ?_⟩
    · cases hj
      rw [hu]
      rfl
    · rwa [State.deref, hu]
  | @int w r v hw hr =>
    cases h
    refine ⟨by simp [target_eq hw], fun j hj => ?_, fun d => ?_⟩
    · subst hj
      cases hw
    · cases v <;> cases hw <;> exact .int rfl hr
  | elemRef => cases h
  | bool hb => cases h; exact ⟨by simp, nofun, fun _ => .bool hb⟩
  | vecU8 hv => cases h; exact ⟨by simp, nofun, fun _ => .vecU8 hv⟩
  | vecU32 hv hm => cases h; exact ⟨by simp, nofun, fun _ => .vecU32 hv hm⟩

theorem update_holds {locals : List Value} {moved : List Nat} {a : Shape} {v : Value}
    {op : Shape → Option Shape} (h : f.update a op = some g) (hl : LocalsHold ρ f.locals locals moved)
    (ha : a.Holds ρ v) : ∃ i x y u, v = .locRef i ∧ i ∉ moved ∧ locals[i]? = some u ∧
      x.Holds ρ u ∧ op x = some y ∧ g = f.store i (some y) := by
  cases ha with
  | locRef =>
    obtain ⟨x, hx, h⟩ := Option.bind_eq_some_iff.mp h
    obtain ⟨y, hy, h⟩ := Option.bind_eq_some_iff.mp h
    obtain ⟨hi, u, hu, hxu⟩ := read_holds hl hx
    exact ⟨_, x, y, u, rfl, hi, hu, hxu, hy, (Option.some.inj h).symm⟩
  | _ => cases h

theorem within_eq {w : Width} {r r' : Range} (h : within w r = some r') : r.hi < w.bound ∧ r' = r := by
  unfold within at h
  split at h
  · exact ⟨by assumption, (Option.some.inj h).symm⟩
  · cases h

/-- A result in its type is not wrapped. -/
theorem mod_holds {w : Width} {r : Range} {n : Nat} (h : r.Holds ρ n) (hn : n < w.bound) :
    r.Holds ρ (n % w.bound) := by
  rwa [Nat.mod_eq_of_lt hn]

theorem equal_eq {a b : Value} {w : Width} (ha : width a = some w) (hb : width b = some w) :
    Value.equal a b = decide (a.asNat = b.asNat) := by
  cases a <;> cases ha <;> cases b <;> cases hb <;> rw [Bool.eq_iff_iff] <;>
    simp [Value.equal, Value.asNat, UInt8.toNat_inj, UInt32.toNat_inj, UInt64.toNat_inj]

/-! ### What an opcode uses -/

section Uses

variable {op : Opcode} {u v : Value} {i : Nat} {moved : List Nat}

theorem uses_none (hop : uses op stack = []) : ∀ j ∈ uses op stack, j ∉ moved := by
  rw [hop]
  exact List.forall_mem_nil _

/-- An opcode that uses one local. -/
theorem uses_local (hop : uses op stack = [i]) (hi : i ∉ moved) : ∀ j ∈ uses op stack, j ∉ moved := by
  rw [hop]
  exact List.forall_mem_singleton.mpr hi

theorem no_target (h : target v = none) : ∀ j ∈ target v, j ∉ moved := by
  rw [h]
  nofun

theorem one_target (h : target v = some i) (hi : i ∉ moved) : ∀ j ∈ target v, j ∉ moved := by
  rw [h]
  intro j hj
  rwa [← Option.mem_some_iff.mp hj]

/-- An opcode that follows one value. -/
theorem uses_one (hop : uses op (v :: stack) = [v].filterMap target) (hv : ∀ j ∈ target v, j ∉ moved) :
    ∀ j ∈ uses op (v :: stack), j ∉ moved := by
  rw [hop]
  simpa using hv

/-- An opcode that follows two values. -/
theorem uses_two (hop : uses op (u :: v :: stack) = [u, v].filterMap target)
    (hu : ∀ j ∈ target u, j ∉ moved) (hv : ∀ j ∈ target v, j ∉ moved) :
    ∀ j ∈ uses op (u :: v :: stack), j ∉ moved := by
  rw [hop]
  intro j hj
  obtain ⟨w, hw, hj⟩ := List.mem_filterMap.mp hj
  rcases List.mem_cons.mp hw with hw | hw
  · exact hu j (hw ▸ hj)
  · exact hv j (List.mem_singleton.mp hw ▸ hj)

end Uses

/-- A frame of the state that an opcode other than `Call` leads to, if its checks hold. -/
theorem strict_holds {op : Opcode} (he : s.error = none) (hu : ∀ i ∈ uses op s.stack, i ∉ s.moved)
    (hx : exact op s.stack = true) (hc : ∀ callee localsTail arity, op ≠ .Call callee localsTail arity)
    (h : g.Holds ρ ⟨stepOp H op s.toState, moves op s.moved⟩) : g.Holds ρ (strictStep H op s) := by
  rwa [strictStep_of he hu hx hc]

/-! ### Stack and locals -/

theorem pop_next (hf : f.Holds ρ s) (h : next .Pop f = some g) : g.Holds ρ (strictStep H .Pop s) := by
  cases hf with
  | mk hst hl =>
    unfold next at h
    obtain ⟨_, _, _, _, rfl, _, hst, h⟩ := pop_holds h hst
    obtain rfl := advance_eq h
    refine strict_holds rfl (uses_none rfl) rfl (by simp) ?_
    exact .mk hst hl

theorem copyLoc_next {i : Nat} (hf : f.Holds ρ s) (h : next (.CopyLoc i) f = some g) :
    g.Holds ρ (strictStep H (.CopyLoc i) s) := by
  cases hf with
  | mk hst hl =>
    obtain ⟨a, ha, h⟩ := Option.bind_eq_some_iff.mp h
    obtain rfl := advance_eq h
    obtain ⟨hi, v, hv, ha⟩ := read_holds hl ha
    refine strict_holds rfl (uses_local rfl hi) rfl (by simp) ?_
    unfold stepOp
    simp only [State.getLocal, hv]
    exact .mk (.cons ha hst) hl

theorem moveLoc_next {i : Nat} (hf : f.Holds ρ s) (h : next (.MoveLoc i) f = some g) :
    g.Holds ρ (strictStep H (.MoveLoc i) s) := by
  cases hf with
  | mk hst hl =>
    obtain ⟨a, ha, h⟩ := Option.bind_eq_some_iff.mp h
    obtain rfl := advance_eq h
    obtain ⟨hi, v, hv, ha⟩ := read_holds hl ha
    refine strict_holds rfl (uses_local rfl hi) rfl (by simp) ?_
    unfold stepOp
    simp only [State.getLocal, hv]
    exact .mk (.cons ha hst) hl.move

theorem stLoc_next {i : Nat} (hf : f.Holds ρ s) (h : next (.StLoc i) f = some g) :
    g.Holds ρ (strictStep H (.StLoc i) s) := by
  cases hf with
  | mk hst hl =>
    unfold next at h
    obtain ⟨_, v, _, _, rfl, ha, hst, h⟩ := pop_holds h hst
    split at h
    · rename_i hi
      obtain rfl := advance_eq h
      refine strict_holds rfl (uses_none rfl) rfl (by simp) ?_
      unfold stepOp
      simp only [State.pop, State.setLocal, ← hl.size, if_pos hi]
      exact .mk hst (hl.store ha)
    · cases h

theorem borrowLoc_next {op : Opcode} {i : Nat} (hop : op = .MutBorrowLoc i ∨ op = .ImmBorrowLoc i)
    (hf : f.Holds ρ s) (h : next op f = some g) : g.Holds ρ (strictStep H op s) := by
  cases hf with
  | mk hst hl =>
    rcases hop with rfl | rfl <;>
    · obtain ⟨a, ha, h⟩ := Option.bind_eq_some_iff.mp h
      obtain rfl := advance_eq h
      refine strict_holds rfl (uses_local rfl (read_holds hl ha).1) rfl (by simp) ?_
      exact .mk (.cons .locRef hst) hl

theorem freezeRef_next (hf : f.Holds ρ s) (h : next .FreezeRef f = some g) :
    g.Holds ρ (strictStep H .FreezeRef s) := by
  cases hf with
  | mk hst hl =>
    obtain rfl := advance_eq h
    refine strict_holds rfl (uses_none rfl) rfl (by simp) ?_
    exact .mk hst hl

theorem readRef_next (hf : f.Holds ρ s) (h : next .ReadRef f = some g) :
    g.Holds ρ (strictStep H .ReadRef s) := by
  cases hf with
  | @mk _ locals moved hst hl =>
    unfold next at h
    obtain ⟨a, v, _, values, rfl, ha, hst', h'⟩ := pop_holds h hst
    obtain ⟨b, hb, h'⟩ := Option.bind_eq_some_iff.mp h'
    obtain rfl := advance_eq h'
    obtain ⟨hi, hs, hd⟩ := deref_holds _ hl hb ha
    have hop : stepOp H .ReadRef ⟨v :: values, locals, f.pc, none⟩ =
        ⟨State.deref ⟨values, locals, f.pc, none⟩ v v :: values, locals, f.pc + 1, none⟩ := by
      cases v with
      | locRef i =>
        obtain ⟨u, hu⟩ := Option.isSome_iff_exists.mp (hs i rfl)
        unfold stepOp
        simp only [State.pop, State.push, State.jump, State.deref, hu, Option.getD_some]
      | _ => rfl
    refine strict_holds rfl (uses_one rfl hi) rfl (by simp) ?_
    rw [hop]
    exact .mk (.cons (hd v) hst') hl

/-! ### References and vectors -/

theorem writeRef_next (hf : f.Holds ρ s) (h : next .WriteRef f = some g) :
    g.Holds ρ (strictStep H .WriteRef s) := by
  cases hf with
  | mk hst hl =>
    obtain ⟨_, _, v, u, _, _, rfl, ha, hb, hst', h'⟩ := pop2_holds h hst
    split at h'
    · -- a byte, through a reference to an element
      obtain ⟨x, hx, h'⟩ := Option.bind_eq_some_iff.mp h'
      split at h'
      · split at h'
        · rename_i hc
          obtain rfl := advance_eq h'
          cases hb with
          | @elemRef i _ j hj =>
            obtain ⟨hi, _, hlv, hx⟩ := read_holds hl hx
            cases ha with
            | int hw =>
              cases hx with
              | @vecU8 _ bytes hx =>
                have hlt : ¬ j ≥ (Value.vecU8 bytes).asVecU8!.length :=
                  Nat.not_le.mpr (Least.covers_holds hc hx hj)
                refine strict_holds rfl (uses_two rfl (one_target rfl hi) (no_target (target_eq hw))) rfl
                  (by simp) ?_
                unfold stepOp
                simp only [State.writeRef, State.pop2, State.pop, hlv, if_neg hlt]
                exact .mk hst' (hl.write hi (.vecU8 (by rwa [List.length_set])))
        · cases h'
      · cases h'
    · -- a vector, through a reference to a local
      obtain ⟨x, hx, h'⟩ := Option.bind_eq_some_iff.mp h'
      obtain rfl := advance_eq h'
      cases hb with
      | locRef =>
        obtain ⟨hi, _, hlv, _⟩ := read_holds hl hx
        cases ha with
        | vecU8 ha =>
          refine strict_holds rfl (uses_two rfl (one_target rfl hi) (no_target rfl)) rfl (by simp) ?_
          unfold stepOp
          simp only [State.writeRef, State.pop2, State.pop, hlv]
          exact .mk hst' (hl.write hi (.vecU8 ha))
    · cases h'

theorem vecAppend_next (hf : f.Holds ρ s) (h : next .VecAppend f = some g) :
    g.Holds ρ (strictStep H .VecAppend s) := by
  cases hf with
  | mk hst hl =>
    obtain ⟨_, _, v, u, _, _, rfl, ha, hb, hst', h'⟩ := pop2_holds h hst
    split at h'
    · obtain rfl := advance_eq h'
      cases ha with
      | vecU8 ha =>
        cases hb with
        | vecU8 hb =>
          refine strict_holds rfl (uses_two rfl (no_target rfl) (no_target rfl)) rfl (by simp) ?_
          refine .mk (.cons (.vecU8 ?_) hst') hl
          rw [List.length_append]
          exact Least.add_holds ha (Nat.le_of_add_right_le hb)
    · cases h'

theorem vecPushBack_next (hf : f.Holds ρ s) (h : next .VecPushBack f = some g) :
    g.Holds ρ (strictStep H .VecPushBack s) := by
  cases hf with
  | mk hst hl =>
    obtain ⟨_, _, v, u, _, _, rfl, ha, hb, hst', h'⟩ := pop2_holds h hst
    split at h'
    · obtain ⟨g', hg, h'⟩ := Option.bind_eq_some_iff.mp h'
      obtain rfl := advance_eq h'
      obtain ⟨i, x, y, lv, rfl, hi, hlv, hx, hy, rfl⟩ := update_holds hg hl ha
      cases hb with
      | int hw =>
        refine strict_holds rfl (uses_two rfl (no_target (target_eq hw)) (one_target rfl hi)) rfl (by simp) ?_
        unfold stepOp
        simp only [State.vecPushBack, State.pop2, State.pop, hlv]
        refine .mk hst' (hl.write hi ?_)
        cases hx with
        | vecU8 hx =>
          cases hy
          exact .vecU8 (by rw [List.length_append]; exact Least.add_holds hx le_rfl)
        | _ => cases hy
    · cases h'

theorem vecU32PushBack_next (hf : f.Holds ρ s) (h : next .VecU32PushBack f = some g) :
    g.Holds ρ (strictStep H .VecU32PushBack s) := by
  cases hf with
  | mk hst hl =>
    obtain ⟨_, _, v, u, _, _, rfl, ha, hb, hst', h'⟩ := pop2_holds h hst
    split at h'
    · obtain ⟨g', hg, h'⟩ := Option.bind_eq_some_iff.mp h'
      obtain rfl := advance_eq h'
      obtain ⟨i, x, y, lv, rfl, hi, hlv, hx, hy, rfl⟩ := update_holds hg hl ha
      cases hb with
      | int hw hr =>
        refine strict_holds rfl (uses_two rfl (no_target (target_eq hw)) (one_target rfl hi)) rfl (by simp) ?_
        unfold stepOp
        simp only [State.vecPushBack, State.pop2, State.pop, hlv]
        refine .mk hst' (hl.write hi ?_)
        cases hx with
        | vecU32 hx hm =>
          cases hy
          refine .vecU32 (by rw [List.length_append]; exact Least.add_holds hx le_rfl) fun n hn => ?_
          cases u <;> cases hw
          rcases List.mem_append.mp hn with hn | hn
          · exact (hm n hn).trans (le_max_left _ _)
          · obtain rfl := List.mem_singleton.mp hn
            exact hr.hi.trans (le_max_right _ _)
        | _ => cases hy
    · cases h'

theorem vecPopBack_next (hf : f.Holds ρ s) (h : next .VecPopBack f = some g) :
    g.Holds ρ (strictStep H .VecPopBack s) := by
  cases hf with
  | mk hst hl =>
    unfold next at h
    obtain ⟨_, v, _, _, rfl, ha, hst', h'⟩ := pop_holds h hst
    obtain ⟨g', hg, h'⟩ := Option.bind_eq_some_iff.mp h'
    obtain rfl := advance_eq h'
    obtain ⟨i, x, y, lv, rfl, hi, hlv, hx, hy, rfl⟩ := update_holds hg hl ha
    cases hx with
    | @vecU8 l bytes hx =>
      dsimp only at hy
      split at hy
      · rename_i hn
        cases hy
        have hlen : ¬ (Value.vecU8 bytes).asVecU8!.length = 0 := by
          have : l.n ≤ bytes.length := Nat.le_of_add_right_le hx
          exact Nat.ne_of_gt (Nat.lt_of_lt_of_le hn this)
        refine strict_holds rfl (uses_one rfl (one_target rfl hi)) rfl (by simp) ?_
        unfold stepOp
        simp only [State.vecPopBack, State.pop, hlv, if_neg hlen]
        refine .mk (.cons (.int rfl (Range.upTo_holds (Nat.le_of_lt_succ (UInt8.toNat_lt _)))) hst')
          (hl.write hi (.vecU8 ?_))
        rw [List.length_dropLast]
        unfold Least.Holds at *
        show l.n - 1 + l.ghost.elim 0 ρ ≤ bytes.length - 1
        omega
      · cases hy
    | _ => cases hy

theorem vecMutBorrow_next (hf : f.Holds ρ s) (h : next .VecMutBorrow f = some g) :
    g.Holds ρ (strictStep H .VecMutBorrow s) := by
  cases hf with
  | mk hst hl =>
    obtain ⟨_, _, v, u, _, _, rfl, ha, hb, hst', h'⟩ := pop2_holds h hst
    split at h'
    · obtain ⟨x, hx, h'⟩ := Option.bind_eq_some_iff.mp h'
      obtain rfl := advance_eq h'
      cases ha with
      | locRef =>
        cases hb with
        | int hw hr =>
          refine strict_holds rfl (uses_two rfl (no_target (target_eq hw))
            (one_target rfl (read_holds hl hx).1)) rfl
            (by simp) ?_
          cases u <;> cases hw
          exact .mk (.cons (.elemRef hr) hst') hl
    · cases h'

theorem vecImmBorrow_eq {locals : List Value} {pc : Nat} {v : Value} {n : UInt64}
    (h : n.toNat < (State.deref ⟨stack, locals, pc, none⟩ (.vecU8 []) v).asVecU8!.length) :
    stepOp H .VecImmBorrow ⟨.u64 n :: v :: stack, locals, pc, none⟩ =
      ⟨.u8 ((State.deref ⟨stack, locals, pc, none⟩ (.vecU8 []) v).asVecU8![n.toNat]!) :: stack, locals,
        pc + 1, none⟩ :=
  if_neg (Nat.not_le.mpr h)

theorem vecU32ImmBorrow_eq {locals : List Value} {pc : Nat} {v : Value} {n : UInt64}
    (h : n.toNat < (State.deref ⟨stack, locals, pc, none⟩ (.vecU32 []) v).asVecU32!.length) :
    stepOp H .VecU32ImmBorrow ⟨.u64 n :: v :: stack, locals, pc, none⟩ =
      ⟨.u32 ((State.deref ⟨stack, locals, pc, none⟩ (.vecU32 []) v).asVecU32![n.toNat]!) :: stack, locals,
        pc + 1, none⟩ :=
  if_neg (Nat.not_le.mpr h)

theorem vecImmBorrow_next (hf : f.Holds ρ s) (h : next .VecImmBorrow f = some g) :
    g.Holds ρ (strictStep H .VecImmBorrow s) := by
  cases hf with
  | mk hst hl =>
    obtain ⟨_, _, v, u, _, values, rfl, ha, hb, hst', h'⟩ := pop2_holds h hst
    obtain ⟨x, hx, h'⟩ := Option.bind_eq_some_iff.mp h'
    split at h'
    · split at h'
      · rename_i hc
        obtain rfl := advance_eq h'
        obtain ⟨hi, _, hd⟩ := deref_holds values hl hx ha
        cases hb with
        | int hw hr =>
          refine strict_holds rfl (uses_two rfl (no_target (target_eq hw)) hi) rfl (by simp) ?_
          cases u <;> cases hw
          rename_i n
          have hlt := Least.covers_holds hc (Shape.length_vecU8 (hd (.vecU8 []))) hr
          rw [vecImmBorrow_eq hlt]
          exact .mk (.cons (.int rfl (Range.upTo_holds (Nat.le_of_lt_succ (UInt8.toNat_lt _)))) hst') hl
      · cases h'
    · cases h'

theorem vecU32ImmBorrow_next (hf : f.Holds ρ s) (h : next .VecU32ImmBorrow f = some g) :
    g.Holds ρ (strictStep H .VecU32ImmBorrow s) := by
  cases hf with
  | mk hst hl =>
    obtain ⟨_, _, v, u, _, values, rfl, ha, hb, hst', h'⟩ := pop2_holds h hst
    obtain ⟨x, hx, h'⟩ := Option.bind_eq_some_iff.mp h'
    split at h'
    · split at h'
      · rename_i hc
        obtain rfl := advance_eq h'
        obtain ⟨hi, _, hd⟩ := deref_holds values hl hx ha
        cases hb with
        | int hw hr =>
          refine strict_holds rfl (uses_two rfl (no_target (target_eq hw)) hi) rfl (by simp) ?_
          cases u <;> cases hw
          rename_i n
          have hlt := Least.covers_holds hc (Shape.length_vecU32 (hd (.vecU32 []))) hr
          rw [vecU32ImmBorrow_eq hlt]
          exact .mk (.cons (.int rfl (Range.upTo_holds (Shape.entry_vecU32 (hd _) hlt))) hst') hl
      · cases h'
    · cases h'

theorem callNative_next {name : String} {arity : Nat} (hf : f.Holds ρ s)
    (h : next (.CallNative name arity) f = some g) :
    g.Holds ρ (strictStep H (.CallNative name arity) s) := by
  cases hf with
  | mk hst hl =>
    unfold next at h
    obtain ⟨_, v, _, _, rfl, ha, hst', h'⟩ := pop_holds h hst
    split at h'
    · split at h'
      · rename_i hn
        obtain ⟨rfl, rfl⟩ := hn
        obtain rfl := advance_eq h'
        cases ha with
        | vecU8 =>
          refine strict_holds rfl (uses_none rfl) rfl (by simp) ?_
          exact .mk (.cons (.vecU8 (Least.const_holds (H.length_apply _).ge)) hst') hl
      · cases h'
    · cases h'

/-- A frame's next frame is one of the next state. -/
theorem next_holds {op : Opcode} (hf : f.Holds ρ s) (h : next op f = some g) :
    g.Holds ρ (strictStep H op s) := by
  cases op with
  | Pop => exact pop_next hf h
  | LdU8 n =>
    exact load_holds (v := .u8 n) ⟨fun _ => rfl, fun _ => rfl, by simp⟩ (fun _ => rfl) (fun _ => rfl) hf h
  | LdU32 n =>
    exact load_holds (v := .u32 n) ⟨fun _ => rfl, fun _ => rfl, by simp⟩ (fun _ => rfl) (fun _ => rfl) hf h
  | LdU64 n =>
    exact load_holds (v := .u64 n) ⟨fun _ => rfl, fun _ => rfl, by simp⟩ (fun _ => rfl) (fun _ => rfl) hf h
  | LdConst v =>
    exact load_holds ⟨fun _ => rfl, fun _ => rfl, by simp⟩ (fun _ => rfl) (fun _ => rfl) hf h
  | CopyLoc => exact copyLoc_next hf h
  | MoveLoc => exact moveLoc_next hf h
  | StLoc => exact stLoc_next hf h
  | MutBorrowLoc => exact borrowLoc_next (.inl rfl) hf h
  | ImmBorrowLoc => exact borrowLoc_next (.inr rfl) hf h
  | FreezeRef => exact freezeRef_next hf h
  | ReadRef => exact readRef_next hf h
  | WriteRef => exact writeRef_next hf h
  | Add =>
    refine arith_holds (F := (· + ·)) ⟨fun _ => rfl, fun _ => rfl, by simp⟩ ?_ hf h
    intro w ra rb r a b hr hw ha hb
    obtain ⟨hlt, rfl⟩ := within_eq hr
    have hn := Range.add_holds ha hb
    have hn' := Nat.lt_of_le_of_lt hn.hi hlt
    exact ⟨⟨fun _ => decide_eq_true (bound_eq hw ▸ hn'), fun _ _ _ => rfl⟩, mod_holds hn hn'⟩
  | Sub =>
    refine arith_holds (F := (· - ·)) ⟨fun _ => rfl, fun _ => rfl, by simp⟩ ?_ hf h
    intro w ra rb r a b hr hw ha hb
    split at hr
    · rename_i hle
      cases hr
      have hba : b.asNat ≤ a.asNat := hb.hi.trans (hle.trans ha.lo)
      exact ⟨⟨fun _ => decide_eq_true hba, fun _ _ _ => rfl⟩,
        mod_holds (Range.sub_holds ha hb) (Nat.lt_of_le_of_lt (Nat.sub_le _ _) (asNat_lt hw))⟩
    · cases hr
  | Mul =>
    refine arith_holds (F := (· * ·)) ⟨fun _ => rfl, fun _ => rfl, by simp⟩ ?_ hf h
    intro w ra rb r a b hr hw ha hb
    obtain ⟨hlt, rfl⟩ := within_eq hr
    have hn := Range.mul_holds ha hb
    have hn' := Nat.lt_of_le_of_lt hn.hi hlt
    exact ⟨⟨fun _ => decide_eq_true (bound_eq hw ▸ hn'), fun _ _ _ => rfl⟩, mod_holds hn hn'⟩
  | Div =>
    refine arith_holds (F := (· / ·)) ⟨fun _ => rfl, fun _ => rfl, by simp⟩ ?_ hf h
    intro w ra rb r a b hr hw ha hb
    split at hr
    · rename_i hlo
      cases hr
      have hb0 : b.asNat ≠ 0 := by have := hb.lo; omega
      exact ⟨⟨fun _ => rfl, fun _ _ _ => if_neg hb0⟩,
        mod_holds (Range.div_holds ha hb hlo) (Nat.lt_of_le_of_lt (Nat.div_le_self _ _) (asNat_lt hw))⟩
    · cases hr
  | Mod =>
    refine arith_holds (F := (· % ·)) ⟨fun _ => rfl, fun _ => rfl, by simp⟩ ?_ hf h
    intro w ra rb r a b hr hw ha hb
    split at hr
    · rename_i hlo
      cases hr
      have hb0 : b.asNat ≠ 0 := by have := hb.lo; omega
      exact ⟨⟨fun _ => rfl, fun _ _ _ => if_neg hb0⟩,
        mod_holds (Range.mod_holds hb hlo) (Nat.lt_of_le_of_lt (Nat.mod_le _ _) (asNat_lt hw))⟩
    · cases hr
  | Shl =>
    refine arith_holds (F := (· <<< ·)) ⟨fun _ => rfl, fun _ => rfl, by simp⟩ ?_ hf h
    intro w ra rb r a b hr hw ha hb
    cases hr
    exact ⟨⟨fun _ => rfl, fun _ _ _ => rfl⟩, Range.shl_holds w.bound_pos ha hb⟩
  | Shr =>
    refine arith_holds (F := (· >>> ·)) ⟨fun _ => rfl, fun _ => rfl, by simp⟩ ?_ hf h
    intro w ra rb r a b hr hw ha hb
    cases hr
    exact ⟨⟨fun _ => rfl, fun _ _ _ => rfl⟩,
      mod_holds (Range.shr_holds ha hb) (Nat.lt_of_le_of_lt (Nat.shiftRight_le _ _) (asNat_lt hw))⟩
  | BitAnd =>
    refine arith_holds (F := (· &&& ·)) ⟨fun _ => rfl, fun _ => rfl, by simp⟩ ?_ hf h
    intro w ra rb r a b hr hw ha hb
    cases hr
    exact ⟨⟨fun _ => rfl, fun _ _ _ => rfl⟩,
      mod_holds (Range.and_holds ha hb) (Nat.lt_of_le_of_lt Nat.and_le_left (asNat_lt hw))⟩
  | BitOr =>
    refine arith_holds (F := (· ||| ·)) ⟨fun _ => rfl, fun _ => rfl, by simp⟩ ?_ hf h
    intro w ra rb r a b hr hw ha hb
    obtain ⟨hlt, rfl⟩ := within_eq hr
    have hn := Range.or_holds ha hb
    exact ⟨⟨fun _ => rfl, fun _ _ _ => rfl⟩, mod_holds hn (Nat.lt_of_le_of_lt hn.hi hlt)⟩
  | Eq =>
    refine compare_holds ⟨fun _ => rfl, fun _ => rfl, by simp⟩
      (fun _ _ => ⟨fun _ => rfl, fun _ _ _ => rfl⟩) ?_ hf h
    intro w a b ra rb hw hw' ha hb c hc
    rw [equal_eq hw hw']
    exact Range.eq_holds ha hb c hc
  | Lt =>
    refine compare_holds ⟨fun _ => rfl, fun _ => rfl, by simp⟩
      (fun _ _ => ⟨fun _ => rfl, fun _ _ _ => rfl⟩) ?_ hf h
    intro w a b ra rb _ _ ha hb
    exact Range.lt_holds ha hb
  | Gt =>
    refine compare_holds ⟨fun _ => rfl, fun _ => rfl, by simp⟩
      (fun _ _ => ⟨fun _ => rfl, fun _ _ _ => rfl⟩) ?_ hf h
    intro w a b ra rb _ _ ha hb
    exact Range.lt_holds hb ha
  | CastU8 =>
    refine cast_holds (w := .w8) ⟨fun _ => rfl, fun _ => rfl, by simp⟩ (fun _ => rfl)
      (fun h _ => decide_eq_true h) ?_ hf h
    intro v hv
    exact ⟨rfl, (asNat_wrapLikeInt (a := .u8 0) rfl _).trans (Nat.mod_eq_of_lt hv)⟩
  | CastU32 =>
    refine cast_holds (w := .w32) ⟨fun _ => rfl, fun _ => rfl, by simp⟩ (fun _ => rfl)
      (fun h _ => decide_eq_true h) ?_ hf h
    intro v hv
    exact ⟨rfl, (asNat_wrapLikeInt (a := .u32 0) rfl _).trans (Nat.mod_eq_of_lt hv)⟩
  | CastU64 =>
    refine cast_holds (w := .w64) ⟨fun _ => rfl, fun _ => rfl, by simp⟩ (fun _ => rfl)
      (fun h _ => decide_eq_true h) ?_ hf h
    intro v hv
    exact ⟨rfl, (asNat_wrapLikeInt (a := .u64 0) rfl _).trans (Nat.mod_eq_of_lt hv)⟩
  | VecAppend => exact vecAppend_next hf h
  | VecPushBack => exact vecPushBack_next hf h
  | VecU32PushBack => exact vecU32PushBack_next hf h
  | VecPopBack => exact vecPopBack_next hf h
  | VecMutBorrow => exact vecMutBorrow_next hf h
  | VecImmBorrow => exact vecImmBorrow_next hf h
  | VecU32ImmBorrow => exact vecU32ImmBorrow_next hf h
  | CallNative => exact callNative_next hf h
  | _ => cases h

end Soundness

end SuiPq.Proof.MoveVm
