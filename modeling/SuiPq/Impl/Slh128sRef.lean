import SuiPq.Impl.JsBytes

/-!
# `slh-dsa-128s-ref.ts`

The TypeScript verifier of FIPS-205 SLH-DSA-SHA2-128s
(`packages/pqc/src/slh-dsa-128s-ref.ts`), function by function, over SHA-256
as the hash `H`. `xmssPkFromSig` returns the address it was given beside its
result, as it writes to it.
-/

namespace SuiPq.Impl.Slh128sRef

open SuiPq.Js SuiPq.Impl.JsBytes

namespace FIPS205

@[simp] def n : Nat := 16
@[simp] def lg_w : Nat := 4
@[simp] def w : Nat := 16
@[simp] def len_1 : Nat := 32
@[simp] def len_2 : Nat := 3
@[simp] def len : Nat := 35
@[simp] def h : Nat := 63
@[simp] def d : Nat := 7
@[simp] def h_prime : Nat := 9
@[simp] def a : Nat := 12
@[simp] def k : Nat := 14
@[simp] def m : Nat := 30
@[simp] def pkBytes : Nat := 32
@[simp] def sigBytes : Nat := 7856
@[simp] def adrsBytes : Nat := 22

end FIPS205

@[simp] def WOTS_HASH : Nat := 0
@[simp] def WOTS_PK : Nat := 1
@[simp] def TREE : Nat := 2
@[simp] def FORS_TREE : Nat := 3
@[simp] def FORS_ROOTS : Nat := 4

/-! ## Addresses -/

def writeU8 (buf : Bytes) (off v : Nat) : Bytes := put buf off (Js.and v 0xff)

def writeU64BE (buf : Bytes) (off v : Nat) : Js Bytes := do
  let (_, buf) ← forDown 8 (v, buf) fun i (n, buf) => do
    let buf := put buf (off + i) (← number (n &&& 0xff))
    pure (n >>> 8, buf)
  pure buf

structure Adrs where
  layer : Nat
  tree : Nat
  type : Nat
  keypair : Nat
  treeHeight : Nat
  treeIndex : Nat

def newAdrs : Adrs := { layer := 0, tree := 0, type := 0, keypair := 0, treeHeight := 0, treeIndex := 0 }

def compressAdrs (a : Adrs) : Js Bytes := do
  let out := zeros FIPS205.adrsBytes
  let out := writeU8 out 0 a.layer
  let out ← writeU64BE out 1 a.tree
  let out := writeU8 out 9 a.type
  let out := writeU32BE out 10 a.keypair
  let out := writeU32BE out 14 a.treeHeight
  pure (writeU32BE out 18 a.treeIndex)

/-! ## Hashes -/

def PAD48 : Bytes := zeros 48

/-- `F`, `H` and `T_l`. -/
def thash (H : Hash) (pkSeed : Bytes) (adrs : Adrs) (msg : Bytes) : Js Bytes := do
  let adrsC ← compressAdrs adrs
  let x ← Comp.hash H (← concat [pkSeed, PAD48, adrsC, msg])
  pure (slice x 0 FIPS205.n)

def mgf1Sha256 (H : Hash) (seed : Bytes) (outLen : Nat) : Js Bytes := do
  let (_, out) ← Comp.whileFuel .fuel (fun s => s.2.length < outLen) (fun (counter, out) => do
    let c := writeU32BE (zeros 4) 0 counter
    let block ← Comp.hash H (← concat [seed, c])
    let out ← block.foldlM (fun out b => push out [b]) out
    pure (counter + 1, out)) outLen (0, [])
  pure (slice out 0 outLen)

def Hmsg (H : Hash) (R pkSeed pkRoot M : Bytes) : Js Bytes := do
  let inner ← Comp.hash H (← concat [R, pkSeed, pkRoot, M])
  let seed ← concat [R, pkSeed, inner]
  mgf1Sha256 H seed FIPS205.m

/-! ## WOTS+ -/

def baseW (msg : Bytes) (outlen : Nat) : Js (List Nat) := do
  let (_, _, _, out) ← forLt 0 outlen (0, 0, 0, []) fun _ (inIdx, bits, total, out) => do
    let (inIdx, bits, total) ←
      if bits = 0 then do
        let total ← get msg inIdx
        pure (inIdx + 1, 8, total.toNat)
      else pure (inIdx, bits, total)
    let bits := bits - FIPS205.lg_w
    pure (inIdx, bits, total, out ++ [Js.and (← sar total bits) (FIPS205.w - 1)])
  pure out

def wotsChecksum (msgDigits : List Nat) : Js (List Nat) := do
  let csum ← forLt 0 FIPS205.len_1 0 fun i csum => do
    pure (csum + (FIPS205.w - 1 - (← get msgDigits i)))
  let csum ← shl csum ((8 - ((FIPS205.len_2 * FIPS205.lg_w) % 8)) % 8)
  let lenBytes := ceilDiv (FIPS205.len_2 * FIPS205.lg_w) 8
  let (_, csumBytes) ← forDown lenBytes (csum, zeros lenBytes) fun i (csum, csumBytes) =>
    pure (ushr csum 8, put csumBytes i (Js.and csum 0xff))
  baseW csumBytes FIPS205.len_2

def msgToChainDigits (msg16 : Bytes) : Js (List Nat) := do
  let m ← baseW msg16 FIPS205.len_1
  let c ← wotsChecksum m
  pure (m ++ c)

/-- `adrs` is a copy that the callers do not use again. -/
def chain (H : Hash) (x : Bytes) (i s : Nat) (pkSeed : Bytes) (adrs : Adrs) : Js Bytes := do
  let (tmp, _) ← forLt i (i + s) (x, adrs) fun j (tmp, adrs) => do
    let adrs := { adrs with treeIndex := j }
    let tmp ← thash H pkSeed adrs tmp
    pure (tmp, adrs)
  pure tmp

def wotsPkFromSig (H : Hash) (sig msg16 pkSeed : Bytes) (adrs : Adrs) : Js Bytes := do
  let digits ← msgToChainDigits msg16
  let tmp ← forLt 0 FIPS205.len (zeros (FIPS205.len * FIPS205.n)) fun i tmp => do
    let a := { adrs with type := WOTS_HASH, treeHeight := i }
    let digit ← get digits i
    let piece ← chain H (slice sig (i * FIPS205.n) ((i + 1) * FIPS205.n)) digit
      (FIPS205.w - 1 - digit) pkSeed a
    set tmp piece (i * FIPS205.n)
  let tAdrs := { adrs with type := WOTS_PK, treeHeight := 0, treeIndex := 0 }
  thash H pkSeed tAdrs tmp

/-! ## XMSS and the hypertree -/

def xmssPkFromSig (H : Hash) (idx : Nat) (sig msg16 pkSeed : Bytes) (adrs : Adrs) : Js (Bytes × Adrs) := do
  let wotsSig := slice sig 0 (FIPS205.len * FIPS205.n)
  let auth := slice sig (FIPS205.len * FIPS205.n) (FIPS205.len * FIPS205.n + FIPS205.h_prime * FIPS205.n)
  let adrs := { adrs with type := WOTS_HASH, keypair := idx }
  let node ← wotsPkFromSig H wotsSig msg16 pkSeed adrs
  let adrs := { adrs with type := TREE, keypair := 0, treeIndex := idx }
  forLt 0 FIPS205.h_prime (node, adrs) fun i (node, adrs) => do
    let adrs := { adrs with treeHeight := i + 1, treeIndex := ushr adrs.treeIndex 1 }
    let sibling := slice auth (i * FIPS205.n) ((i + 1) * FIPS205.n)
    let bit := Js.and (ushr idx i) 1
    let merged ← if bit = 0 then concat [node, sibling] else concat [sibling, node]
    let node ← thash H pkSeed adrs merged
    pure (node, adrs)

def htRootFromSig (H : Hash) (sigHt msg16 : Bytes) (treeIdx leafIdx : Nat) (pkSeed : Bytes) : Js Bytes := do
  let xmssSigBytes := (FIPS205.len + FIPS205.h_prime) * FIPS205.n
  let (node, _, _) ← forLt 0 FIPS205.d (msg16, treeIdx, leafIdx) fun j (node, curTree, curLeaf) => do
    let adrs := { newAdrs with layer := j, tree := curTree }
    let sliceJ := slice sigHt (j * xmssSigBytes) ((j + 1) * xmssSigBytes)
    let (node, _) ← xmssPkFromSig H curLeaf sliceJ node pkSeed adrs
    let leafMask := 1 <<< FIPS205.h_prime - 1
    let curLeaf ← number (curTree &&& leafMask)
    pure (node, curTree >>> FIPS205.h_prime, curLeaf)
  pure node

/-! ## FORS -/

/-- The loop of `forsPkFromSig` that fills `indices`. -/
def forsIndices (md : Bytes) : Js (List Nat) := do
  let (_, indices) ← forLt 0 FIPS205.k (0, []) fun _ (bitOff, indices) => do
    let v ← forLt 0 FIPS205.a 0 fun b v => do
      let bitIdx := bitOff + b
      let byte ← get md (← sar bitIdx 3)
      Js.or (← shl v 1) (Js.and (← sar byte.toNat (7 - Js.and bitIdx 7)) 1)
    pure (bitOff + FIPS205.a, indices ++ [v])
  pure indices

def forsPkFromSig (H : Hash) (sigFors md pkSeed : Bytes) (adrs : Adrs) : Js Bytes := do
  let chunkBytes := (1 + FIPS205.a) * FIPS205.n
  let indices ← forsIndices md
  let roots ← forLt 0 FIPS205.k [] fun i roots => do
    let sk := slice sigFors (i * chunkBytes) (i * chunkBytes + FIPS205.n)
    let authPath := slice sigFors (i * chunkBytes + FIPS205.n) ((i + 1) * chunkBytes)
    let idx ← get indices i
    let leafAdrs := { adrs with
      type := FORS_TREE, treeHeight := 0, treeIndex := i * (← shl 1 FIPS205.a) + idx }
    let node ← thash H pkSeed leafAdrs sk
    let (_, _, node) ← forLt 0 FIPS205.a (idx, leafAdrs, node) fun j (cur, leafAdrs, node) => do
      let sib := slice authPath (j * FIPS205.n) ((j + 1) * FIPS205.n)
      let leafAdrs := { leafAdrs with
        treeHeight := j + 1, treeIndex := i * (← shl 1 (FIPS205.a - j - 1)) + ushr cur 1 }
      let merged ← if Js.and cur 1 = 0 then concat [node, sib] else concat [sib, node]
      let node ← thash H pkSeed leafAdrs merged
      pure (ushr cur 1, leafAdrs, node)
    pure (roots ++ node)
  let rootsAdrs := { adrs with type := FORS_ROOTS, treeHeight := 0, treeIndex := 0 }
  thash H pkSeed rootsAdrs roots

/-! ## Verification -/

def splitDigest (digest : Bytes) : Js (Bytes × Nat × Nat) := do
  let mdBytes := ceilDiv (FIPS205.k * FIPS205.a) 8
  let treeBits := FIPS205.h - FIPS205.h_prime
  let treeBytes := ceilDiv treeBits 8
  let leafBytes := ceilDiv FIPS205.h_prime 8
  let md := slice digest 0 mdBytes
  let treeIdx ← forLt 0 treeBytes 0 fun i treeIdx => do
    pure (treeIdx <<< 8 ||| (← get digest (mdBytes + i)).toNat)
  let treeIdx := treeIdx &&& (1 <<< treeBits - 1)
  let leafIdx ← forLt 0 leafBytes 0 fun i leafIdx => do
    Js.or (← shl leafIdx 8) (← get digest (mdBytes + treeBytes + i)).toNat
  let leafIdx := Js.and leafIdx ((← shl 1 FIPS205.h_prime) - 1)
  pure (md, treeIdx, leafIdx)

def verify (H : Hash) (pk msg sig ctx : Bytes) : Js Bool := do
  if pk.length ≠ FIPS205.pkBytes then return false
  if sig.length ≠ FIPS205.sigBytes then return false
  if ctx.length > 255 then return false
  let pkSeed := slice pk 0 FIPS205.n
  let pkRoot := slice pk FIPS205.n (2 * FIPS205.n)
  let wrappedM ← concat [[0x00, UInt8.ofNat ctx.length], ctx, msg]
  let R := slice sig 0 FIPS205.n
  let sigFors := slice sig FIPS205.n (FIPS205.n + FIPS205.k * (1 + FIPS205.a) * FIPS205.n)
  let sigHt := sig.drop (FIPS205.n + FIPS205.k * (1 + FIPS205.a) * FIPS205.n)
  let digest ← Hmsg H R pkSeed pkRoot wrappedM
  let (md, treeIdx, leafIdx) ← splitDigest digest
  let adrs := { newAdrs with layer := 0, tree := treeIdx, type := FORS_TREE, keypair := leafIdx }
  let forsRoot ← forsPkFromSig H sigFors md pkSeed adrs
  let htRoot ← htRootFromSig H sigHt forsRoot treeIdx leafIdx pkSeed
  sameBytes htRoot pkRoot

end SuiPq.Impl.Slh128sRef
