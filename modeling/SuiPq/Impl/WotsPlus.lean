import SuiPq.Impl.MoveBytes

/-!
# `wots::wots_plus`

The on-chain WOTS+ verifier (`move/wots/sources/wots.move`), over SHA-256 as
the hash `H`. `climbChain` is the loop by which both `verify` and `pkFromSig` walk
up a chain.
-/

namespace SuiPq.Impl.WotsPlus

open SuiPq.Move SuiPq.Impl.MoveBytes

@[simp] def N : Nat := 32
@[simp] def W : Nat := 16
@[simp] def LEN_1 : Nat := 64
@[simp] def LEN : Nat := 67
@[simp] def TYPE_WOTS_HASH : Nat := 0

def EBadLength : Code := ⟨.wots_plus, 1⟩

def extend (dst src : Bytes) : MoveFn Bytes := concat dst src

/-- `width` bytes of `v`, big-endian. -/
def u64ToBeBytes (v width : Nat) : MoveFn Bytes :=
  whileLt 64 0 width [] fun i out => do
    let shift ← mul 64 (← sub (← sub width 1) i) 8
    let x ← byte ((← shr 64 v (← cast 8 shift)) &&& 0xff)
    pure (out ++ [x])

def chainHash (H : Hash) (seed adrs m : Bytes) : MoveFn Bytes := do
  let buf ← extend [] seed
  let buf ← extend buf adrs
  let buf ← extend buf m
  Comp.hash H buf

def msgToChains (msg : Bytes) : MoveFn (List Nat) := do
  let out ← whileLt 64 0 N [] fun i out => do
    let b ← borrow msg i
    let hi ← shr 8 b.toNat 4
    pure (out ++ [hi] ++ [b.toNat &&& 0x0f])
  let csum ← whileLt 64 0 LEN_1 0 fun k csum => do
    let d ← borrow out k
    add 64 csum (← sub (← sub W 1) d)
  let csum ← shl 64 csum 4
  let csumBytes ← u64ToBeBytes csum 2
  let b0 ← borrow csumBytes 0
  let b1 ← borrow csumBytes 1
  let b0hi ← shr 8 b0.toNat 4
  let b1hi ← shr 8 b1.toNat 4
  pure (out ++ [b0hi] ++ [b0.toNat &&& 0x0f] ++ [b1hi])

/-- `while (j < steps) { write_u32(&mut local_adrs, 28, start + j); node = chain_hash(..) }`. -/
def climbChain (H : Hash) (seed adrs node : Bytes) (start steps : Nat) : MoveFn (Bytes × Bytes) :=
  whileLt 8 0 steps (adrs, node) fun j (adrs, node) => do
    let adrs ← writeU32 adrs 28 (← cast 32 (← add 8 start j))
    let node ← chainHash H seed adrs node
    pure (adrs, node)

def verify (H : Hash) (seed adrs msgDigest signature pk : Bytes) : MoveFn Bool := do
  require (seed.length = N) EBadLength
  require (adrs.length = 32) EBadLength
  require (msgDigest.length = N) EBadLength
  require (signature.length = LEN * N) EBadLength
  require (pk.length = LEN * N) EBadLength
  let chains ← msgToChains msgDigest
  let r ← searchLt 0 LEN fun i => do
    let start ← cast 8 (← borrow chains i)
    let steps ← sub (← sub W 1) start
    let node ← slice signature (← mul 64 i N) N
    let localAdrs ← writeU32 adrs 16 TYPE_WOTS_HASH
    let localAdrs ← writeU32 localAdrs 24 (← cast 32 i)
    let (_, node) ← climbChain H seed localAdrs node start steps
    let expected ← slice pk (← mul 64 i N) N
    if !(← bytesEq node expected) then return some false
    let _ ← add 64 i 1
    return none
  return r.getD true

def pkFromSig (H : Hash) (seed adrs msgDigest signature : Bytes) : MoveFn Bytes := do
  require (seed.length = N) EBadLength
  require (adrs.length = 32) EBadLength
  require (msgDigest.length = N) EBadLength
  require (signature.length = LEN * N) EBadLength
  let chains ← msgToChains msgDigest
  whileLt 64 0 LEN [] fun i tops => do
    let start ← cast 8 (← borrow chains i)
    let steps ← sub (← sub W 1) start
    let node ← slice signature (← mul 64 i N) N
    let localAdrs ← writeU32 adrs 16 TYPE_WOTS_HASH
    let localAdrs ← writeU32 localAdrs 24 (← cast 32 i)
    let (_, node) ← climbChain H seed localAdrs node start steps
    whileLt 64 0 N tops fun k tops => do
      let x ← borrow node k
      pure (tops ++ [x])

end SuiPq.Impl.WotsPlus
