import SuiPq.Impl.MoveVm

/-!
# Strict semantics of Move bytecodes

What a Move VM does that aborts where an addition, a subtraction, a
multiplication or a cast has no exact result in its type, and in which a
local that was moved from cannot be used, directly or through a reference,
until it is stored again. Everything else is as in `Impl.MoveVm`.
-/

namespace SuiPq.Spec.StrictVm

open SuiPq.Impl.MoveVm

/-- A state of the VM, and the locals that were moved from. -/
structure StrictState extends State where
  moved : List Nat

namespace StrictState

def fail (s : StrictState) (e : String) : StrictState := { s with error := some e }

end StrictState

/-! ## What is checked before an opcode runs -/

/-- The local that a value refers to. -/
def target : Value → Option Nat
  | .locRef i => some i
  | .vecElemRef i _ => some i
  | _ => none

/-- How many values on the stack an opcode follows, if they are references. -/
def follows : Opcode → Nat
  | .ReadRef | .VecLen | .VecU32Len | .VecPopBack => 1
  | .WriteRef | .VecPushBack | .VecU32PushBack | .VecImmBorrow | .VecU32ImmBorrow | .VecMutBorrow
  | .VecAppend => 2
  | .Call _ _ arity => arity
  | _ => 0

/-- The locals that an opcode uses, but for the one that `StLoc` stores. -/
def uses (op : Opcode) (stack : List Value) : List Nat :=
  match op with
  | .CopyLoc i | .MoveLoc i | .MutBorrowLoc i | .ImmBorrowLoc i => [i]
  | op => (stack.take (follows op)).filterMap target

/-- The integers of the type of a value are those below its bound. -/
def bound : Value → Nat
  | .u8 _ => 2 ^ 8
  | .u32 _ => 2 ^ 32
  | _ => 2 ^ 64

/-- Whether the exact result of an opcode fits in its type. -/
def exact (op : Opcode) (stack : List Value) : Bool :=
  match op, stack with
  | .Add, b :: a :: _ => a.asNat + b.asNat < bound a
  | .Sub, b :: a :: _ => b.asNat ≤ a.asNat
  | .Mul, b :: a :: _ => a.asNat * b.asNat < bound a
  | .CastU8, a :: _ => a.asNat < 2 ^ 8
  | .CastU32, a :: _ => a.asNat < 2 ^ 32
  | .CastU64, a :: _ => a.asNat < 2 ^ 64
  | _, _ => true

/-- The locals moved from, after an opcode. -/
def moves (op : Opcode) (moved : List Nat) : List Nat :=
  match op with
  | .MoveLoc i => i :: moved
  | .StLoc i => moved.filter (· ≠ i)
  | _ => moved

/-! ## The interpreter -/

mutual

def strictStep (H : Hash) (op : Opcode) (s : StrictState) : StrictState :=
  if s.error.isSome then s
  else if (uses op s.stack).any s.moved.contains then s.fail "moved local"
  else if !exact op s.stack then s.fail "arithmetic error"
  else
    match op with
    | .Call callee localsTail arity =>
      if s.stack.length < arity then
        s.fail "Call: stack underflow"
      else
        let final := strictRun H callee ⟨s.enter localsTail arity, []⟩ 1000000
        if (s.copies localsTail arity).2.2.any fun backing => final.moved.contains backing.2 then
          s.fail "moved local"
        else
          ⟨s.leave localsTail arity final.toState, s.moved⟩
    | op => ⟨stepOp H op s.toState, moves op s.moved⟩
termination_by (op.nesting, 0)
decreasing_by exact Prod.Lex.left _ _ (Nat.lt_succ_self _)

def strictRun (H : Hash) (code : Bytecode) (s : StrictState) (fuel : Nat) : StrictState :=
  if fuel = 0 then s.fail "out of fuel"
  else if s.error.isSome then s
  else if h : s.pc < code.size then
    match code[s.pc] with
    | .Ret => s
    | _ => strictRun H code (strictStep H code[s.pc] s) (fuel - 1)
  else s.fail s!"pc out of bounds: {s.pc}"
termination_by (code.nesting, fuel)
decreasing_by
  · rcases Nat.lt_or_eq_of_le (code.nesting_getElem h) with hlt | heq
    · exact Prod.Lex.left _ _ hlt
    · rw [heq]
      exact Prod.Lex.right _ (by omega)
  · exact Prod.Lex.right _ (by omega)

end

/-- The strict run of a bytecode ends without an error, and in the state in which `run` ends. -/
def Agrees (H : Hash) (code : Bytecode) (s : State) : Prop :=
  (strictRun H code ⟨s, []⟩ 1000000).error = none ∧
    (strictRun H code ⟨s, []⟩ 1000000).toState = runDefault H code s

end SuiPq.Spec.StrictVm
