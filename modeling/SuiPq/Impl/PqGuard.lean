import SuiPq.Impl.Sha2128s
import SuiPq.Impl.Sui
import SuiPq.Impl.Verifier

/-!
# `pq_guard::pq_guard`

The post-quantum authorization of Move calls
(`move/pq_guard/sources/pq_guard.move`). A `&mut` argument is returned as a
value, before what a function emits and returns.

The signature verifiers that `verify_pq` dispatches to are a parameter
(`Verifiers`); `onChain` are the ones of `slh_dsa` and `slh_dsa_128s`.
-/

namespace SuiPq.Impl.PqGuard

open SuiPq.Move SuiPq.Impl.MoveBytes

/-- The `verify` of each scheme, on a key, a message and a signature. -/
structure Verifiers where
  slhLite : Bytes → Bytes → Bytes → MoveFn Bool
  slh128s : Bytes → Bytes → Bytes → MoveFn Bool

def onChain (H : Hash) : Verifiers where
  slhLite := Verifier.verify H
  slh128s := Sha2128s.verify H

def SLH_DSA_LITE : UInt8 := 0x60
def SLH_DSA_SHA2_128S : UInt8 := 0x20

/-- The object that holds a user's key. -/
structure PqIdentity where
  id : ID
  owner : Address
  scheme : UInt8
  pk : Bytes
  nonce : Nat

/-- The witness of a successful `unlock`. -/
structure PqAuthorized where
  identityId : ID
  sender : Address
  nonce : Nat
  actionDigest : Bytes
deriving DecidableEq

structure Registered where
  identity : ID
  owner : Address
  scheme : UInt8
deriving DecidableEq

structure Unlocked where
  identity : ID
  sender : Address
  nonce : Nat
  actionDigest : Bytes
deriving DecidableEq

structure Rotated where
  identity : ID
  owner : Address
deriving DecidableEq

def EBadScheme : Code := ⟨.pq_guard, 1⟩
def EBadPkLength : Code := ⟨.pq_guard, 2⟩
def EBadDigestLen : Code := ⟨.pq_guard, 3⟩
def ENotOwner : Code := ⟨.pq_guard, 4⟩
def EInvalidPqSig : Code := ⟨.pq_guard, 5⟩

def expectedPkLen (scheme : UInt8) : MoveFn Nat :=
  if scheme = SLH_DSA_LITE then pure Verifier.pkByteLen
  else if scheme = SLH_DSA_SHA2_128S then pure Sha2128s.pkByteLen
  else Comp.stop (.code EBadScheme)

/-- The identity goes to the sender. -/
def register (scheme : UInt8) (pk : Bytes) (ctx : TxContext) :
    MoveFn (TxContext × PqIdentity × Registered) := do
  require (pk.length = (← expectedPkLen scheme)) EBadPkLength
  let (id, ctx) := ctx.new
  let identity : PqIdentity := ⟨id, ctx.sender, scheme, pk, 0⟩
  pure (ctx, identity, ⟨identity.id, identity.owner, scheme⟩)

def rotate (identity : PqIdentity) (newPk : Bytes) (ctx : TxContext) : MoveFn (PqIdentity × Rotated) := do
  require (identity.owner = ctx.sender) ENotOwner
  require (newPk.length = (← expectedPkLen identity.scheme)) EBadPkLength
  let identity := { identity with pk := newPk }
  let identity := { identity with nonce := 0 }
  pure (identity, ⟨identity.id, identity.owner⟩)

def unlockMessageBytes (identity : PqIdentity) (sender : Address) (actionDigest : Bytes) :
    MoveFn Bytes := do
  require (actionDigest.length = 32) EBadDigestLen
  let out := []
  let out ← concat out (ascii "PQ_GUARD:UNLOCK:v1")
  let out ← concat out sender.bytes
  let out ← concat out (← u64Be identity.nonce)
  concat out actionDigest

def verifyPq (V : Verifiers) (scheme : UInt8) (pk msg sig : Bytes) : MoveFn Bool :=
  if scheme = SLH_DSA_LITE then V.slhLite pk msg sig
  else if scheme = SLH_DSA_SHA2_128S then V.slh128s pk msg sig
  else Comp.stop (.code EBadScheme)

def unlock (V : Verifiers) (identity : PqIdentity) (actionDigest signature : Bytes) (ctx : TxContext) :
    MoveFn (PqIdentity × Unlocked × PqAuthorized) := do
  require (actionDigest.length = 32) EBadDigestLen
  let msg ← unlockMessageBytes identity ctx.sender actionDigest
  let ok ← verifyPq V identity.scheme identity.pk msg signature
  require ok EInvalidPqSig
  let n := identity.nonce
  let identity := { identity with nonce := ← add 64 n 1 }
  let id := identity.id
  pure (identity, ⟨id, ctx.sender, n, actionDigest⟩, ⟨id, ctx.sender, n, actionDigest⟩)

end SuiPq.Impl.PqGuard
