import SuiPq.Framework.Bytes

/-!
# The Move VM of `proofs/Move`

Values, opcodes, the state of a frame, natives, and the interpreter's `step`
and `run` (`Value.lean`, `Opcode.lean`, `Stack.lean`, `Native.lean` and
`Step.lean`), over a hash `H` for the native `sha2_256`. Vectors, locals and
the stack are lists, with the top of the stack first. A projection that
panics in the source returns its type's default value there, as here. `step`
is `stepOp` but for `Call`, in which it runs the callee.
-/

namespace SuiPq.Impl.MoveVm

/-! ## Values -/

inductive Value where
  | u8 (n : UInt8)
  | u32 (n : UInt32)
  | u64 (n : UInt64)
  | bool (b : Bool)
  | vecU8 (v : Bytes)
  | vecU32 (v : List UInt32)
  | locRef (idx : Nat)
  | vecElemRef (locIdx elemIdx : Nat)
deriving DecidableEq, Inhabited

namespace Value

def asU8! : Value → UInt8
  | .u8 n => n
  | _ => default

def asU32! : Value → UInt32
  | .u32 n => n
  | _ => default

def asU64! : Value → UInt64
  | .u64 n => n
  | _ => default

def asBool! : Value → Bool
  | .bool b => b
  | _ => default

def asVecU8! : Value → Bytes
  | .vecU8 v => v
  | _ => []

def asVecU32! : Value → List UInt32
  | .vecU32 v => v
  | _ => []

def asNat : Value → Nat
  | .u8 n => n.toNat
  | .u32 n => n.toNat
  | .u64 n => n.toNat
  | _ => 0

/-- `n` in the integer type of `template`. -/
def wrapLikeInt (template : Value) (n : Nat) : Value :=
  match template with
  | .u8 _ => .u8 (UInt8.ofNat (n &&& 0xff))
  | .u32 _ => .u32 (UInt32.ofNat (n &&& 0xffffffff))
  | .u64 _ => .u64 (UInt64.ofNat n)
  | _ => .u64 (UInt64.ofNat n)

def equal : Value → Value → Bool
  | .u8 a, .u8 b => a == b
  | .u32 a, .u32 b => a == b
  | .u64 a, .u64 b => a == b
  | .bool a, .bool b => a == b
  | .vecU8 a, .vecU8 b => a == b
  | .vecU32 a, .vecU32 b => a == b
  | _, _ => false

end Value

/-! ## Opcodes -/

inductive Opcode where
  | Pop
  | LdU8 (n : UInt8)
  | LdU32 (n : UInt32)
  | LdU64 (n : UInt64)
  | LdTrue
  | LdFalse
  | CopyLoc (idx : Nat)
  | MoveLoc (idx : Nat)
  | StLoc (idx : Nat)
  | MutBorrowLoc (idx : Nat)
  | ReadRef
  | FreezeRef
  | LdConst (v : Value)
  | WriteRef
  | Add
  | Sub
  | Eq
  | Neq
  | Lt
  | Gt
  | Mul
  | Div
  | Mod
  | CastU8
  | CastU32
  | CastU64
  | ImmBorrowLoc (idx : Nat)
  | Shl
  | Shr
  | BitAnd
  | BitOr
  | Branch (offset : Nat)
  | BrTrue (offset : Nat)
  | BrFalse (offset : Nat)
  | Ret
  | VecEmpty
  | VecLen
  | VecPushBack
  | VecPopBack
  | VecImmBorrow
  | VecMutBorrow
  | VecAppend
  | VecSet
  | VecU32Empty
  | VecU32PushBack
  | VecU32Len
  | VecU32ImmBorrow
  | CallNative (name : String) (arity : Nat)
  | Call (callee : Array Opcode) (localsTail : List Value) (arity : Nat)
deriving Inhabited

abbrev Bytecode := Array Opcode

namespace Opcode

mutual

/-- How deep the calls in an opcode are nested. -/
def nesting : Opcode → Nat
  | .Call callee _ _ => nestingArray callee + 1
  | _ => 0

def nestingArray : Array Opcode → Nat
  | ⟨ops⟩ => nestingList ops

def nestingList : List Opcode → Nat
  | [] => 0
  | op :: ops => max op.nesting (nestingList ops)

end

end Opcode

/-- How deep the calls in a bytecode are nested. -/
def Bytecode.nesting (code : Bytecode) : Nat := Opcode.nestingArray code

theorem Opcode.nesting_le {op : Opcode} : ∀ {ops : List Opcode}, op ∈ ops → op.nesting ≤ nestingList ops
  | _ :: _, .head _ => Nat.le_max_left _ _
  | _ :: _, .tail _ h => Nat.le_trans (nesting_le h) (Nat.le_max_right _ _)

theorem Bytecode.nesting_getElem (code : Bytecode) {pc : Nat} (h : pc < code.size) :
    code[pc].nesting ≤ code.nesting := by
  obtain ⟨ops⟩ := code
  exact Opcode.nesting_le (List.getElem_mem h)

/-! ## States -/

structure State where
  stack : List Value
  locals : List Value
  pc : Nat
  error : Option String
deriving DecidableEq

namespace State

def push (s : State) (v : Value) : State := { s with stack := v :: s.stack }

def pop (s : State) : State × Option Value :=
  match s.stack with
  | [] => ({ s with error := some "stack underflow" }, none)
  | v :: stack => ({ s with stack := stack }, some v)

/-- The value popped first, then the one below it. -/
def pop2 (s : State) : State × Option (Value × Value) :=
  let (s1, v1) := s.pop
  match v1 with
  | none => (s1, none)
  | some a =>
    let (s2, v2) := s1.pop
    match v2 with
    | none => (s2, none)
    | some b => (s2, some (a, b))

def getLocal (s : State) (i : Nat) : State × Option Value :=
  match s.locals[i]? with
  | some v => (s, some v)
  | none => ({ s with error := some s!"local out-of-bounds: {i}" }, none)

def setLocal (s : State) (i : Nat) (v : Value) : State :=
  if i < s.locals.length then
    { s with locals := s.locals.set i v }
  else
    { s with error := some s!"local out-of-bounds: {i}" }

def fail (s : State) (e : String) : State := { s with error := some e }

def jump (s : State) (pc : Nat) : State := { s with pc := pc }

end State

/-! ## Natives -/

def applyNative (H : Hash) (name : String) (arity : Nat) (args : List Value) : Option Value :=
  match name with
  | "sha2_256" =>
    if arity = 1 ∧ args.length = 1 then
      match args with
      | .vecU8 data :: _ => some (.vecU8 (H data))
      | _ => none
    else none
  | "u64_to_u8" =>
    if arity = 1 ∧ args.length = 1 then
      match args with
      | .u64 n :: _ => some (.u8 (UInt8.ofNat (n.toNat &&& 0xff)))
      | _ => none
    else none
  | "u64_to_u32" =>
    if arity = 1 ∧ args.length = 1 then
      match args with
      | .u64 n :: _ => some (.u32 (UInt32.ofNat (n.toNat &&& 0xffffffff)))
      | _ => none
    else none
  | "u8_to_u64" =>
    if arity = 1 ∧ args.length = 1 then
      match args with
      | .u8 n :: _ => some (.u64 (UInt64.ofNat n.toNat))
      | _ => none
    else none
  | "u32_to_u64" =>
    if arity = 1 ∧ args.length = 1 then
      match args with
      | .u32 n :: _ => some (.u64 (UInt64.ofNat n.toNat))
      | _ => none
    else none
  | _ => none

/-! ## Opcodes that call no bytecode -/

namespace State

/-- An opcode that pops a value and pushes one. -/
def unop (f : Value → Value) (s : State) : State :=
  let (s', v) := s.pop
  match v with
  | none => s'
  | some v => (s'.push (f v)).jump (s.pc + 1)

/-- An opcode that pops two values, the second operand first, and pushes one. -/
def binop (f : Value → Value → Value) (s : State) : State :=
  let (s', vs) := s.pop2
  match vs with
  | none => s'
  | some (b, a) => (s'.push (f a b)).jump (s.pc + 1)

/-- An opcode on integers, whose result has the type of the first operand. -/
def arith (f : Nat → Nat → Nat) (s : State) : State :=
  s.binop fun a b => .wrapLikeInt a (f a.asNat b.asNat)

/-- `Div` and `Mod`. -/
def divide (f : Nat → Nat → Nat) (e : String) (s : State) : State :=
  let (s', vs) := s.pop2
  match vs with
  | none => s'
  | some (b, a) =>
    if b.asNat = 0 then s'.fail e
    else (s'.push (.wrapLikeInt a (f a.asNat b.asNat))).jump (s.pc + 1)

def branch (taken : Bool → Bool) (off : Nat) (s : State) : State :=
  let (s', v) := s.pop
  match v with
  | none => s'
  | some v => s'.jump (if taken v.asBool! then off else s.pc + 1)

/-- The value of `v`, if it is a reference: that of a local, or `none` if there is no such local. -/
def deref (s : State) (none : Value) : Value → Value
  | .locRef i => s.locals[i]?.getD none
  | v => v

def writeRef (s : State) : State :=
  let (s', vs) := s.pop2
  match vs with
  | none => s'
  | some (refV, val) =>
    match refV with
    | .locRef i =>
      match s'.locals[i]? with
      | none => s'.fail s!"WriteRef: local {i} OOB"
      | some _ => { s' with locals := s'.locals.set i val, pc := s.pc + 1 }
    | .vecElemRef l j =>
      match s'.locals[l]? with
      | none => s'.fail s!"WriteRef: local {l} OOB"
      | some lv =>
        let arr := lv.asVecU8!
        if j ≥ arr.length then
          s'.fail s!"WriteRef: vec idx {j} OOB"
        else
          { s' with locals := s'.locals.set l (.vecU8 (arr.set j val.asU8!)), pc := s.pc + 1 }
    | _ => s'.fail "WriteRef: expected reference value"

/-- Pops a value and a vector, and pushes the vector with the value behind it; through a reference, the
local is updated and nothing pushed. -/
def vecPushBack (append : Value → Value → Value) (e : String) (s : State) : State :=
  let (s', vs) := s.pop2
  match vs with
  | none => s'
  | some (val, vec) =>
    match vec with
    | .locRef i =>
      match s'.locals[i]? with
      | none => s'.fail s!"{e}: local {i} OOB"
      | some lv => { s' with locals := s'.locals.set i (append lv val), pc := s.pc + 1 }
    | _ => (s'.push (append vec val)).jump (s.pc + 1)

def vecPopBack (s : State) : State :=
  let (s', v) := s.pop
  match v with
  | none => s'
  | some (.locRef i) =>
    match s'.locals[i]? with
    | none => s'.fail s!"VecPopBack: local {i} OOB"
    | some lv =>
      let bytes := lv.asVecU8!
      if bytes.length = 0 then
        s'.fail "VecPopBack on empty vector"
      else
        let last := bytes[bytes.length - 1]!
        { s'.push (.u8 last) with locals := s'.locals.set i (.vecU8 bytes.dropLast), pc := s.pc + 1 }
  | some v =>
    let bytes := v.asVecU8!
    if bytes.length = 0 then
      s'.fail "VecPopBack on empty vector"
    else
      let last := bytes[bytes.length - 1]!
      ((s'.push (.vecU8 bytes.dropLast)).push (.u8 last)).jump (s.pc + 1)

def vecMutBorrow (s : State) : State :=
  let (s', vs) := s.pop2
  match vs with
  | none => s'
  | some (idx, vec) =>
    let i := idx.asU64!.toNat
    match vec with
    | .locRef l => (s'.push (.vecElemRef l i)).jump (s.pc + 1)
    | _ =>
      let arr := vec.asVecU8!
      if i ≥ arr.length then
        s'.fail "VecMutBorrow: index out of bounds"
      else
        (s'.push (.u8 arr[i]!)).jump (s.pc + 1)

def vecImmBorrow (s : State) : State :=
  let (s', vs) := s.pop2
  match vs with
  | none => s'
  | some (idx, vec) =>
    let bytes := (s'.deref (.vecU8 []) vec).asVecU8!
    let i := idx.asU64!.toNat
    if i ≥ bytes.length then
      s'.fail "vector borrow out-of-bounds"
    else
      (s'.push (.u8 bytes[i]!)).jump (s.pc + 1)

def vecU32ImmBorrow (s : State) : State :=
  let (s', vs) := s.pop2
  match vs with
  | none => s'
  | some (idx, vec) =>
    let arr := (s'.deref (.vecU32 []) vec).asVecU32!
    let i := idx.asU64!.toNat
    if i ≥ arr.length then
      s'.fail "vector<u32> borrow out-of-bounds"
    else
      (s'.push (.u32 arr[i]!)).jump (s.pc + 1)

def vecSet (s : State) : State :=
  let (s1, top) := s.pop
  match top with
  | none => s1
  | some valVal =>
    let (s2, idxV) := s1.pop
    match idxV with
    | none => s2
    | some idxVal =>
      let (s3, vecV) := s2.pop
      match vecV with
      | none => s3
      | some vecVal =>
        let bytes := vecVal.asVecU8!
        let idx := idxVal.asU64!.toNat
        if idx ≥ bytes.length then
          s3.fail "VecSet index out-of-bounds"
        else
          (s3.push (.vecU8 (bytes.set idx valVal.asU8!))).jump (s.pc + 1)

def callNative (H : Hash) (name : String) (arity : Nat) (s : State) : State :=
  if s.stack.length < arity then
    s.fail "CallNative: stack underflow"
  else
    match applyNative H name arity (s.stack.take arity).reverse with
    | none => s.fail s!"unknown native: {name}"
    | some v => { s with stack := v :: s.stack.drop arity, pc := s.pc + 1 }

end State

open Value State in
/-- `step` of an opcode other than `Call`, in a state without an error. -/
def stepOp (H : Hash) (op : Opcode) (s : State) : State :=
  match op with
  | .Pop => s.pop.1.jump (s.pc + 1)
  | .LdU8 n => (s.push (.u8 n)).jump (s.pc + 1)
  | .LdU32 n => (s.push (.u32 n)).jump (s.pc + 1)
  | .LdU64 n => (s.push (.u64 n)).jump (s.pc + 1)
  | .LdTrue => (s.push (.bool true)).jump (s.pc + 1)
  | .LdFalse => (s.push (.bool false)).jump (s.pc + 1)
  | .CopyLoc i | .MoveLoc i =>
    let (s', v) := s.getLocal i
    match v with
    | none => s'
    | some v => (s'.push v).jump (s.pc + 1)
  | .StLoc i =>
    let (s', v) := s.pop
    match v with
    | none => s'
    | some v => (s'.setLocal i v).jump (s.pc + 1)
  | .MutBorrowLoc i | .ImmBorrowLoc i => (s.push (.locRef i)).jump (s.pc + 1)
  | .ReadRef =>
    let (s', v) := s.pop
    match v with
    | none => s'
    | some (.locRef i) =>
      match s'.locals[i]? with
      | none => s'.fail s!"ReadRef: local {i} OOB"
      | some lv => (s'.push lv).jump (s.pc + 1)
    | some v => (s'.push v).jump (s.pc + 1)
  | .LdConst v => (s.push v).jump (s.pc + 1)
  | .FreezeRef => s.jump (s.pc + 1)
  | .WriteRef => s.writeRef
  | .Add => s.arith (· + ·)
  | .Sub => s.arith (· - ·)
  | .Eq => s.binop fun a b => .bool (equal a b)
  | .Neq => s.binop fun a b => .bool !(equal a b)
  | .Lt => s.binop fun a b => .bool (a.asNat < b.asNat)
  | .Gt => s.binop fun a b => .bool (a.asNat > b.asNat)
  | .Shl => s.arith (· <<< ·)
  | .Shr => s.arith (· >>> ·)
  | .BitAnd => s.arith (· &&& ·)
  | .BitOr => s.arith (· ||| ·)
  | .CastU8 => s.unop fun v => .u8 (UInt8.ofNat (v.asNat &&& 0xff))
  | .CastU32 => s.unop fun v => .u32 (UInt32.ofNat (v.asNat &&& 0xffffffff))
  | .CastU64 => s.unop fun v => .u64 (UInt64.ofNat v.asNat)
  | .Mul => s.arith (· * ·)
  | .Div => s.divide (· / ·) "Div: division by zero"
  | .Mod => s.divide (· % ·) "Mod: division by zero"
  | .Branch off => s.jump off
  | .BrTrue off => s.branch id off
  | .BrFalse off => s.branch not off
  | .Ret => s
  | .VecEmpty => (s.push (.vecU8 [])).jump (s.pc + 1)
  | .VecLen => s.unop fun v => .u64 (UInt64.ofNat (s.deref (.vecU8 []) v).asVecU8!.length)
  | .VecPushBack => s.vecPushBack (fun vec val => .vecU8 (vec.asVecU8! ++ [val.asU8!])) "VecPushBack"
  | .VecPopBack => s.vecPopBack
  | .VecMutBorrow => s.vecMutBorrow
  | .VecImmBorrow => s.vecImmBorrow
  | .VecAppend => s.binop fun vec1 vec2 =>
    .vecU8 ((s.deref (.vecU8 []) vec1).asVecU8! ++ (s.deref (.vecU8 []) vec2).asVecU8!)
  | .VecSet => s.vecSet
  | .VecU32Empty => (s.push (.vecU32 [])).jump (s.pc + 1)
  | .VecU32Len => s.unop fun v => .u64 (UInt64.ofNat (s.deref (.vecU32 []) v).asVecU32!.length)
  | .VecU32PushBack =>
    s.vecPushBack (fun vec val => .vecU32 (vec.asVecU32! ++ [val.asU32!])) "VecU32PushBack"
  | .VecU32ImmBorrow => s.vecU32ImmBorrow
  | .CallNative name arity => s.callNative H name arity
  | .Call _ _ _ => s

/-! ## Calls -/

/-- The arguments of a call, the values of the locals that they refer to, and for each of these the
caller's local and its copy in the callee, the first of which is its local `next`. -/
def copyIn (locals : List Value) : Nat → List Value → List Value × List Value × List (Nat × Nat)
  | _, [] => ([], [], [])
  | next, .locRef i :: args =>
    match locals[i]? with
    | none =>
      let (translated, values, backings) := copyIn locals next args
      (.locRef i :: translated, values, backings)
    | some v =>
      let (translated, values, backings) := copyIn locals (next + 1) args
      (.locRef next :: translated, v :: values, (i, next) :: backings)
  | next, a :: args =>
    let (translated, values, backings) := copyIn locals next args
    (a :: translated, values, backings)

/-- The caller's locals, with the callee's copies written back. -/
def copyOut (calleeLocals : List Value) (backings : List (Nat × Nat)) (locals : List Value) : List Value :=
  backings.foldl (fun nl (callerIdx, calleeIdx) =>
    match calleeLocals[calleeIdx]? with
    | none => nl
    | some v => nl.set callerIdx v) locals

namespace State

/-- What a call copies from the caller. -/
def copies (s : State) (localsTail : List Value) (arity : Nat) :
    List Value × List Value × List (Nat × Nat) :=
  copyIn s.locals (arity + localsTail.length) (s.stack.take arity).reverse

/-- The callee's first state. -/
def enter (s : State) (localsTail : List Value) (arity : Nat) : State :=
  let (translated, values, _) := s.copies localsTail arity
  { stack := [], locals := translated ++ localsTail ++ values, pc := 0, error := none }

/-- The caller's state after the callee has stopped in `calleeFinal`. -/
def leave (s : State) (localsTail : List Value) (arity : Nat) (calleeFinal : State) : State :=
  let (_, _, backings) := s.copies localsTail arity
  match calleeFinal.error with
  | some e => s.fail s!"Call: callee error: {e}"
  | none =>
    let newStack := s.stack.drop arity
    let s1 : State :=
      { stack := newStack, locals := copyOut calleeFinal.locals backings s.locals, pc := s.pc + 1, error := none }
    match calleeFinal.stack with
    | [] => s1
    | v :: _ => { s1 with stack := v :: newStack }

end State

/-! ## The interpreter -/

mutual

/-- Execute one opcode. -/
def step (H : Hash) (op : Opcode) (s : State) : State :=
  if s.error.isSome then s
  else
    match op with
    | .Call callee localsTail arity =>
      if s.stack.length < arity then
        s.fail "Call: stack underflow"
      else
        s.leave localsTail arity (run H callee (s.enter localsTail arity) 1000000)
    | op => stepOp H op s
termination_by (op.nesting, 0)
decreasing_by exact Prod.Lex.left _ _ (Nat.lt_succ_self _)

/-- The state after up to `fuel` opcodes, or that at the first `Ret` or error. -/
def run (H : Hash) (code : Bytecode) (s : State) (fuel : Nat) : State :=
  if fuel = 0 then s.fail "out of fuel"
  else if s.error.isSome then s
  else if h : s.pc < code.size then
    match code[s.pc] with
    | .Ret => s
    | _ => run H code (step H code[s.pc] s) (fuel - 1)
  else s.fail s!"pc out of bounds: {s.pc}"
termination_by (code.nesting, fuel)
decreasing_by
  · rcases Nat.lt_or_eq_of_le (code.nesting_getElem h) with hlt | heq
    · exact Prod.Lex.left _ _ hlt
    · rw [heq]
      exact Prod.Lex.right _ (by omega)
  · exact Prod.Lex.right _ (by omega)

end

def runDefault (H : Hash) (code : Bytecode) (s : State) : State := run H code s 1000000

end SuiPq.Impl.MoveVm
