import Mathlib.Logic.Function.Basic
import SuiPq.Framework.Runs
import SuiPq.Impl.Sui

/-!
# `seal_demo::allowlist`

The allowlists that gate decryption (`move/seal_demo/sources/allowlist.move`)
and the transactions that call the module. A `&mut` argument is returned as a
value, before what a function emits. A key server releases its share of a key
when the transaction that it is asked to run calls `seal_approve` and goes
through.
-/

namespace SuiPq.Impl.SealDemo

open SuiPq.Move

def ENotAllowed : Code := ⟨.allowlist, 0⟩
def ENotOwner : Code := ⟨.allowlist, 1⟩

/-- A shared allowlist. -/
structure Allowlist where
  id : ID
  owner : Address
  members : List Address
deriving DecidableEq

structure MemberAdded where
  allowlist : ID
  member : Address
deriving DecidableEq

structure MemberRemoved where
  allowlist : ID
  member : Address
deriving DecidableEq

/-- `vector::index_of`. -/
def indexOf (v : List Address) (e : Address) : Bool × Nat :=
  if e ∈ v then (true, v.idxOf e) else (false, 0)

/-- `vector::remove`, its result dropped. -/
def removeAt (v : List Address) (i : Nat) : MoveFn (List Address) :=
  if i < v.length then pure (v.eraseIdx i) else Comp.stop .vector

/-- The allowlist is shared. -/
def create (ctx : TxContext) : MoveFn (TxContext × Allowlist) := do
  let (id, ctx) := ctx.new
  let al : Allowlist := ⟨id, ctx.sender, []⟩
  pure (ctx, al)

def add (al : Allowlist) (addr : Address) (ctx : TxContext) : MoveFn (Allowlist × Option MemberAdded) := do
  require (al.owner = ctx.sender) ENotOwner
  if addr ∉ al.members then
    let al := { al with members := al.members ++ [addr] }
    return (al, some ⟨al.id, addr⟩)
  return (al, none)

def remove (al : Allowlist) (addr : Address) (ctx : TxContext) :
    MoveFn (Allowlist × Option MemberRemoved) := do
  require (al.owner = ctx.sender) ENotOwner
  let (found, idx) := indexOf al.members addr
  if found then
    let al := { al with members := ← removeAt al.members idx }
    return (al, some ⟨al.id, addr⟩)
  return (al, none)

/-- `id` is not looked at. -/
def sealApprove (id : Bytes) (al : Allowlist) (ctx : TxContext) : MoveFn Unit := do
  let _ := id
  require (ctx.sender ∈ al.members) ENotAllowed

/-! ## Transactions -/

/-- The allowlists by their ids, and the ids that objects have had. -/
structure World where
  allowlists : ID → Option Allowlist
  used : List ID

def World.empty : World := ⟨fun _ => none, []⟩

/-- The allowlists that the transaction has created are not available as inputs. -/
structure TxState where
  world : World
  ctx : TxContext
  created : List ID

namespace TxState

variable (s : TxState)

/-- Any transaction may have a shared object as an input. -/
def input (id : ID) : Option Allowlist := do
  let al ← s.world.allowlists id
  guard (id ∉ s.created)
  some al

def put (id : ID) (al : Allowlist) : TxState :=
  { s with world.allowlists := Function.update s.world.allowlists id (some al) }

end TxState

inductive Command where
  | create
  | add (al : ID) (addr : Address)
  | remove (al : ID) (addr : Address)
  | sealApprove (id : Bytes) (al : ID)
deriving DecidableEq

def step (s : TxState) : Command → Option TxState
  | .create => do
    let (ctx, al) ← (create s.ctx).res.toOption
    guard (al.id ∉ s.world.used)
    some (TxState.put ⟨{ s.world with used := al.id :: s.world.used }, ctx, al.id :: s.created⟩ al.id al)
  | .add id addr => do
    let al ← s.input id
    let (al, _) ← (add al addr s.ctx).res.toOption
    some (s.put id al)
  | .remove id addr => do
    let al ← s.input id
    let (al, _) ← (remove al addr s.ctx).res.toOption
    some (s.put id al)
  | .sealApprove id al => do
    let al ← s.input al
    let _ ← (sealApprove id al s.ctx).res.toOption
    some s

inductive Event where
  | added (e : MemberAdded)
  | removed (e : MemberRemoved)
deriving DecidableEq

/-- What a command that goes through emits. -/
def emits (s : TxState) : Command → List Event
  | .add id addr =>
    let emitted : Option MemberAdded := do
      let al ← s.input id
      let (_, e) ← (add al addr s.ctx).res.toOption
      e
    emitted.toList.map .added
  | .remove id addr =>
    let emitted : Option MemberRemoved := do
      let al ← s.input id
      let (_, e) ← (remove al addr s.ctx).res.toOption
      e
    emitted.toList.map .removed
  | _ => []

structure Tx where
  sender : Address
  ids : Nat → ID
  commands : List Command

/-- Transactions that call the module. -/
def chain : System World TxState Tx Command where
  start w tx := ⟨w, ⟨tx.sender, tx.ids, 0⟩, []⟩
  commands := Tx.commands
  step := step
  finish s := some s.world

end SuiPq.Impl.SealDemo
