import Mathlib.Logic.Function.Basic
import SuiPq.Framework.Runs
import SuiPq.Impl.Sui

/-!
# `pq_attestation::registry`

The attestations on chain (`move/pq_attestation/sources/registry.move`) and the
transactions that register, revoke and transfer them. An attestation has the
abilities `key` and `store`: whoever holds it may make it an input by value,
and transfer it with no function of the module.
-/

namespace SuiPq.Impl.PqAttestation

open SuiPq.Move

def ENotOwner : Code := ⟨.registry, 0⟩
def EBadDigestLen : Code := ⟨.registry, 1⟩

structure Attestation where
  id : ID
  owner : Address
  scheme : UInt8
  publicKey : Bytes
  signature : Bytes
  messageDigest : Bytes
  nonce : Bytes
  appTag : Bytes
  createdAtMs : Nat
deriving DecidableEq

structure Registered where
  attestation : ID
  owner : Address
  scheme : UInt8
deriving DecidableEq

structure Revoked where
  attestation : ID
  owner : Address
deriving DecidableEq

/-- The context of a transaction, with the timestamp of its epoch. -/
structure EpochContext extends TxContext where
  epochTimestampMs : Nat

/-- The context, what is emitted, the attestation and the address it is transferred to. -/
def register (scheme : UInt8) (publicKey signature messageDigest nonce appTag : Bytes) (ctx : EpochContext) :
    MoveFn (EpochContext × Registered × Attestation × Address) := do
  require (messageDigest.length = 32) EBadDigestLen
  let owner := ctx.sender
  let (id, next) := ctx.new
  let att : Attestation := {
    id, owner, scheme, publicKey, signature, messageDigest, nonce, appTag,
    createdAtMs := ctx.epochTimestampMs }
  return ({ ctx with toTxContext := next }, ⟨att.id, owner, scheme⟩, att, owner)

/-- What is emitted; the attestation is deleted. -/
def revoke (att : Attestation) (ctx : TxContext) : MoveFn Revoked := do
  require (att.owner = ctx.sender) ENotOwner
  return ⟨att.id, att.owner⟩

/-! ## Transactions -/

/-- A live attestation and the address that holds it. -/
structure Live where
  att : Attestation
  holder : Address
deriving DecidableEq

/-- The attestations by their ids, and the ids that objects have had. -/
structure World where
  attestations : ID → Option Live
  used : List ID

def World.empty : World := ⟨fun _ => none, []⟩

/-- The attestations that the transaction has created, transferred or deleted are not available as inputs. -/
structure TxState where
  world : World
  ctx : EpochContext
  unavailable : List ID

namespace TxState

variable (s : TxState)

/-- An attestation is an input of its holder's transactions only. -/
def input (id : ID) : Option Attestation := do
  let x ← s.world.attestations id
  guard (x.holder = s.ctx.sender ∧ id ∉ s.unavailable)
  some x.att

/-- The attestation is used up as an input, and `x` is in its place. -/
def put (id : ID) (x : Option Live) : TxState :=
  { s with
    world.attestations := Function.update s.world.attestations id x
    unavailable := id :: s.unavailable }

end TxState

inductive Command where
  | register (scheme : UInt8) (publicKey signature messageDigest nonce appTag : Bytes)
  | revoke (att : ID)
  /-- `TransferObjects`, or `transfer::public_transfer`. -/
  | transfer (att : ID) (recipient : Address)
deriving DecidableEq

def step (s : TxState) : Command → Option TxState
  | .register scheme publicKey signature messageDigest nonce appTag => do
    let (ctx, _, att, recipient) ← (register scheme publicKey signature messageDigest nonce appTag
      s.ctx).res.toOption
    guard (att.id ∉ s.world.used)
    some (TxState.put ⟨{ s.world with used := att.id :: s.world.used }, ctx, s.unavailable⟩ att.id
      (some ⟨att, recipient⟩))
  | .revoke id => do
    let att ← s.input id
    let _ ← (revoke att s.ctx.toTxContext).res.toOption
    some (s.put id none)
  | .transfer id recipient => do
    let att ← s.input id
    some (s.put id (some ⟨att, recipient⟩))

structure Tx where
  sender : Address
  ids : Nat → ID
  epochTimestampMs : Nat
  commands : List Command

/-- Transactions of any users that register, revoke and transfer attestations. -/
def chain : System World TxState Tx Command where
  start w tx := ⟨w, ⟨⟨tx.sender, tx.ids, 0⟩, tx.epochTimestampMs⟩, []⟩
  commands := Tx.commands
  step := step
  finish s := some s.world

end SuiPq.Impl.PqAttestation
