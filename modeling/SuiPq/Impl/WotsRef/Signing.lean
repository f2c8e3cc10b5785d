import SuiPq.Impl.WotsRef

/-!
# `wots-ref.ts`: keys and signatures

The TypeScript WOTS+ signatures (`packages/pqc/src/wots-ref.ts`), over
SHA-256 as the hash `H`.
-/

namespace SuiPq.Impl.WotsRef.Signing

open SuiPq.Js SuiPq.Impl.JsBytes

@[simp] def TYPE_WOTS_HASH : Nat := 0

def F (H : Hash) (seed adrs m : Bytes) : Js Bytes := do
  Comp.hash H (← concat [seed, adrs, m])

/-- Climb a single chain from `start` for `steps` applications of `F`. -/
def chainStep (H : Hash) (seed baseAdrs : Bytes) (chainIdx start steps : Nat) (value : Bytes) :
    Js Bytes := do
  let adrs := writeU32BE baseAdrs 16 TYPE_WOTS_HASH
  let adrs := writeU32BE adrs 24 chainIdx
  let (v, _) ← forLt 0 steps (value, adrs) fun j (v, adrs) => do
    let adrs := writeU32BE adrs 28 (start + j)
    let v ← F H seed adrs v
    pure (v, adrs)
  pure v

structure WotsKeypair where
  seed : Bytes
  adrs : Bytes
  secretChains : Bytes
  publicKey : Bytes

/-- The bytes of `wots-sk`. -/
def tag : Bytes := [0x77, 0x6f, 0x74, 0x73, 0x2d, 0x73, 0x6b]

def wotsKeygen (H : Hash) (master seed adrs : Bytes) : Js WotsKeypair := do
  if master.length ≠ 32 then Comp.stop (.error "master must be 32 bytes")
  if seed.length ≠ 32 then Comp.stop (.error "seed must be 32 bytes")
  if adrs.length ≠ 32 then Comp.stop (.error "adrs must be 32 bytes")
  let (sk, pk) ← forLt 0 WOTS.len (zeros (WOTS.len * WOTS.n), zeros (WOTS.len * WOTS.n)) fun i (sk, pk) => do
    let counter := writeU32BE (zeros 4) 0 i
    let sk_i ← Comp.hash H (← concat [master, tag, counter])
    let sk ← set sk sk_i (i * WOTS.n)
    let top_i ← chainStep H seed adrs i 0 (WOTS.w - 1) sk_i
    let pk ← set pk top_i (i * WOTS.n)
    pure (sk, pk)
  pure { seed, adrs, secretChains := sk, publicKey := pk }

def wotsSign (H : Hash) (kp : WotsKeypair) (msgDigest : Bytes) : Js Bytes := do
  if msgDigest.length ≠ WOTS.n then Comp.stop (.error "msgDigest must be 32 bytes")
  let chains ← msgToChains msgDigest
  forLt 0 WOTS.len (zeros (WOTS.len * WOTS.n)) fun i sig => do
    let sk_i := slice kp.secretChains (i * WOTS.n) ((i + 1) * WOTS.n)
    let v ← chainStep H kp.seed kp.adrs i 0 (← get chains i) sk_i
    set sig v (i * WOTS.n)

def wotsVerify (H : Hash) (seed adrs msgDigest signature pk : Bytes) : Js Bool := do
  if seed.length ≠ WOTS.n then return false
  if adrs.length ≠ 32 then return false
  if msgDigest.length ≠ WOTS.n then return false
  if signature.length ≠ WOTS.len * WOTS.n then return false
  if pk.length ≠ WOTS.len * WOTS.n then return false
  let chains ← msgToChains msgDigest
  let r ← searchLt 0 WOTS.len fun i => do
    let start ← get chains i
    let steps := WOTS.w - 1 - start
    let sig_i := slice signature (i * WOTS.n) ((i + 1) * WOTS.n)
    let derived ← chainStep H seed adrs i start steps sig_i
    let pk_i := slice pk (i * WOTS.n) ((i + 1) * WOTS.n)
    searchLt 0 WOTS.n fun k => do
      if (← get derived k) ≠ (← get pk_i k) then return some false
      return none
  return r.getD true

end SuiPq.Impl.WotsRef.Signing
