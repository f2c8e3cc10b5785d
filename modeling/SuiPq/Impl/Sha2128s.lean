import SuiPq.Impl.MoveBytes

/-!
# `slh_dsa_128s::sha2_128s`

The on-chain verifier of FIPS-205 SLH-DSA-SHA2-128s
(`move/slh_dsa_128s/sources/sha2_128s.move`), function by function: a `&mut`
argument is returned beside the result, and SHA-256 is the hash `H`.
-/

namespace SuiPq.Impl.Sha2128s

open SuiPq.Move SuiPq.Impl.MoveBytes

/-! ## Parameters -/

@[simp] def N : Nat := 16
@[simp] def LG_W : Nat := 4
@[simp] def W : Nat := 16
@[simp] def LEN_1 : Nat := 32
@[simp] def LEN_2 : Nat := 3
@[simp] def LEN : Nat := 35
@[simp] def H_PRIME : Nat := 9
@[simp] def D : Nat := 7
@[simp] def A : Nat := 12
@[simp] def K : Nat := 14
@[simp] def M_BYTES : Nat := 30
@[simp] def PK_BYTES : Nat := 32
@[simp] def SIG_BYTES : Nat := 7856
@[simp] def ADRS_BYTES : Nat := 22

@[simp] def ADRS_WOTS_HASH : UInt8 := 0
@[simp] def ADRS_WOTS_PK : UInt8 := 1
@[simp] def ADRS_TREE : UInt8 := 2
@[simp] def ADRS_FORS_TREE : UInt8 := 3
@[simp] def ADRS_FORS_ROOTS : UInt8 := 4

def EBadPkLength : Code := ⟨.sha2_128s, 1⟩

/-! ## Bytes -/

def concat3 (a b c : Bytes) : MoveFn Bytes := do
  let out ← concat a b
  whileLt 64 0 c.length out fun i out => do
    let x ← borrow c i
    pure (out ++ [x])

def concat4 (a b c d : Bytes) : MoveFn Bytes := do
  let out ← concat3 a b c
  whileLt 64 0 d.length out fun i out => do
    let x ← borrow d i
    pure (out ++ [x])

def appendSlice (dst src : Bytes) (start len : Nat) : MoveFn Bytes :=
  whileLt 64 0 len dst fun i dst => do
    let x ← (do borrow src (← add 64 start i))
    pure (dst ++ [x])

def writeU64Be (buf : Bytes) (off v : Nat) : MoveFn Bytes := do
  let (_, buf) ← whileGt0 8 (v, buf) fun i (n, buf) => do
    let buf ← write buf (← add 64 off i) (← byte (n &&& 0xff))
    let n ← shr 64 n 8
    pure (n, buf)
  pure buf

/-! ## Compressed addresses -/

def adrsNew : MoveFn Bytes :=
  whileLt 64 0 ADRS_BYTES [] fun _ a => pure (a ++ [0])

def adrsSetLayer (a : Bytes) (layer : UInt8) : MoveFn Bytes := write a 0 layer
def adrsSetTree (a : Bytes) (tree : Nat) : MoveFn Bytes := writeU64Be a 1 tree
def adrsSetType (a : Bytes) (t : UInt8) : MoveFn Bytes := write a 9 t
def adrsSetKeypair (a : Bytes) (kp : Nat) : MoveFn Bytes := writeU32 a 10 kp
def adrsSetTreeHeight (a : Bytes) (h : Nat) : MoveFn Bytes := writeU32 a 14 h
def adrsSetTreeIndex (a : Bytes) (idx : Nat) : MoveFn Bytes := writeU32 a 18 idx

/-! ## Hashes -/

def pkSeedPadded (pkSeed : Bytes) : MoveFn Bytes :=
  whileLt 64 0 48 pkSeed fun _ out => pure (out ++ [0])

/-- `hash::sha2_256(buf)`, then 16 times `pop_back`: `thash` and the code that inlines it. -/
def sha256Trunc (H : Hash) (buf : Bytes) : MoveFn Bytes := do
  let h ← Comp.hash H buf
  whileLt 64 0 16 h fun _ h => popBack h

def thash (H : Hash) (pre adrs m : Bytes) : MoveFn Bytes :=
  sha256Trunc H (pre ++ adrs ++ m)

def mgf1Sha256 (H : Hash) (seed : Bytes) (outLen : Nat) : MoveFn Bytes := do
  let (_, out) ← whileGas (fun s => s.2.length < outLen) (fun (counter, out) => do
    let ctr ← writeU32 [0, 0, 0, 0] 0 counter
    let block ← Comp.hash H (← concat seed ctr)
    let (_, out) ← whileGas (fun s => s.1 < 32 && s.2.length < outLen) (fun (j, out) => do
      let x ← borrow block j
      let j ← add 64 j 1
      pure (j, out ++ [x])) 32 (0, out)
    let counter ← add 32 counter 1
    pure (counter, out)) outLen (0, [])
  pure out

def hmsg (H : Hash) (r pkSeed pkRoot m : Bytes) : MoveFn Bytes := do
  let inner ← Comp.hash H (← concat4 r pkSeed pkRoot m)
  let seed ← concat3 r pkSeed inner
  mgf1Sha256 H seed M_BYTES

/-! ## Digits -/

def baseW (msg : Bytes) (outlen : Nat) : MoveFn (List Nat) := do
  let (_, _, _, out) ← whileLt 64 0 outlen (0, 0, 0, []) fun _ (inIdx, bits, total, out) => do
    let (inIdx, bits, total) ← if bits = 0 then do
        let x ← borrow msg inIdx
        let inIdx ← add 64 inIdx 1
        pure (inIdx, 8, x.toNat)
      else pure (inIdx, bits, total)
    let bits ← sub bits LG_W
    let d ← shr 32 total (← cast 8 bits)
    let mask ← sub (← cast 32 W) 1
    pure (inIdx, bits, total, out ++ [d &&& mask])
  pure out

def wotsChecksum (digits : List Nat) : MoveFn (List Nat) := do
  let csum ← whileLt 64 0 LEN_1 0 fun i csum => do
    let d ← borrow digits i
    add 64 csum (← sub (← sub W 1) d)
  let shift ← cast 8 ((← sub 8 ((← mul 64 LEN_2 LG_W) % 8)) % 8)
  let csum ← shl 64 csum shift
  let lenBytes := (← add 64 (← mul 64 LEN_2 LG_W) 7) / 8
  let csumBytes ← whileLt 64 0 lenBytes [] fun _ out => pure (out ++ [0])
  let (_, csumBytes) ← whileGt0 lenBytes (csum, csumBytes) fun j (csum, csumBytes) => do
    let csumBytes ← write csumBytes j (← byte (csum &&& 0xff))
    let csum ← shr 64 csum 8
    pure (csum, csumBytes)
  baseW csumBytes LEN_2

def msgToChainDigits (msgN : Bytes) : MoveFn (List Nat) := do
  let digits ← baseW msgN LEN_1
  let csumDigits ← wotsChecksum digits
  whileLt 64 0 LEN_2 digits fun i digits => do
    let x ← borrow csumDigits i
    pure (digits ++ [x])

/-! ## WOTS+ -/

def chain (H : Hash) (src : Bytes) (srcOff iStart steps : Nat) (pre adrs : Bytes) :
    MoveFn (Bytes × Bytes) := do
  let tmp ← whileLt 64 0 N [] fun s tmp => do
    let x ← (do borrow src (← add 64 srcOff s))
    pure (tmp ++ [x])
  let fin ← add 32 iStart steps
  whileLt 32 iStart fin (tmp, adrs) fun j (tmp, adrs) => do
    let adrs ← adrsSetTreeIndex adrs j
    let tmp ← sha256Trunc H (pre ++ adrs ++ tmp)
    pure (tmp, adrs)

def wotsPkFromSig (H : Hash) (sig msgN pre adrs : Bytes) : MoveFn Bytes := do
  let digits ← msgToChainDigits msgN
  let a ← adrsSetType adrs ADRS_WOTS_HASH
  let (_, tmp) ← whileLt 64 0 LEN (a, []) fun i (a, tmp) => do
    let a ← adrsSetTreeHeight a (← cast 32 i)
    let d ← borrow digits i
    let steps ← sub (← sub (← cast 32 W) 1) d
    let (piece, a) ← chain H sig (← mul 64 i N) d steps pre a
    pure (a, tmp ++ piece)
  let tAdrs ← adrsSetType adrs ADRS_WOTS_PK
  let tAdrs ← adrsSetTreeHeight tAdrs 0
  let tAdrs ← adrsSetTreeIndex tAdrs 0
  thash H pre tAdrs tmp

/-! ## XMSS and the hypertree -/

def xmssPkFromSig (H : Hash) (idx : Nat) (sig msgN pre adrs : Bytes) : MoveFn (Bytes × Bytes) := do
  let wotsSig ← slice sig 0 (← mul 64 LEN N)
  let auth ← slice sig (← mul 64 LEN N) (← mul 64 H_PRIME N)
  let adrs ← adrsSetType adrs ADRS_WOTS_HASH
  let adrs ← adrsSetKeypair adrs idx
  let node ← wotsPkFromSig H wotsSig msgN pre adrs
  let adrs ← adrsSetType adrs ADRS_TREE
  let adrs ← adrsSetKeypair adrs 0
  let (_, adrs, node) ← whileLt 64 0 H_PRIME (idx, adrs, node) fun i (curIdx, adrs, node) => do
    let adrs ← adrsSetTreeHeight adrs (← add 32 (← cast 32 i) 1)
    let adrs ← adrsSetTreeIndex adrs (← shr 32 curIdx 1)
    let bit := (← shr 32 idx (← cast 8 i)) &&& 1
    let buf := pre ++ adrs
    let buf ← if bit = 0 then appendSlice (buf ++ node) auth (← mul 64 i N) N
      else do
        let buf ← appendSlice buf auth (← mul 64 i N) N
        pure (buf ++ node)
    let node ← sha256Trunc H buf
    let curIdx ← shr 32 curIdx 1
    pure (curIdx, adrs, node)
  pure (node, adrs)

def htRootFromSig (H : Hash) (sigHt msgN : Bytes) (treeIdx0 leafIdx0 : Nat) (pre : Bytes) :
    MoveFn Bytes := do
  let xmssSigBytes ← mul 64 (← add 64 LEN H_PRIME) N
  let (_, _, node) ← whileLt 64 0 D (treeIdx0, leafIdx0, msgN) fun j (curTree, curLeaf, node) => do
    let a ← adrsNew
    let a ← adrsSetLayer a (← byte j)
    let a ← adrsSetTree a curTree
    let sliceJ ← slice sigHt (← mul 64 j xmssSigBytes) xmssSigBytes
    let (node, _) ← xmssPkFromSig H curLeaf sliceJ node pre a
    let leafMask ← sub (← shl 64 1 (← cast 8 H_PRIME)) 1
    let curLeaf ← cast 32 (curTree &&& leafMask)
    let curTree ← shr 64 curTree (← cast 8 H_PRIME)
    pure (curTree, curLeaf, node)
  pure node

/-! ## FORS -/

def extractForsIndices (md : Bytes) : MoveFn (List Nat) := do
  let (_, out) ← whileLt 64 0 K (0, []) fun _ (bitOff, out) => do
    let v ← whileLt 64 0 A 0 fun b v => do
      let bitIdx ← add 64 bitOff b
      let x ← borrow md (← shr 64 bitIdx 3)
      let s ← sub 7 (← cast 8 (bitIdx &&& 7))
      let bit := (← shr 8 x.toNat s) &&& 1
      let v ← shl 32 v 1
      pure (v ||| bit)
    let bitOff ← add 64 bitOff A
    pure (bitOff, out ++ [v])
  pure out

def forsPkFromSig (H : Hash) (sigFors md pre adrs : Bytes) : MoveFn Bytes := do
  let chunkBytes ← mul 64 (← add 64 1 A) N
  let indices ← extractForsIndices md
  let rootsBuf ← whileLt 64 0 K [] fun i rootsBuf => do
    let off ← mul 64 i chunkBytes
    let skLeaf ← slice sigFors off N
    let authPath ← slice sigFors (← add 64 off N) (← mul 64 A N)
    let idx ← borrow indices i
    let leafAdrs ← adrsSetType adrs ADRS_FORS_TREE
    let leafAdrs ← adrsSetTreeHeight leafAdrs 0
    let leafTreeIndex ← add 32 (← shl 32 (← cast 32 i) (← cast 8 A)) idx
    let leafAdrs ← adrsSetTreeIndex leafAdrs leafTreeIndex
    let node ← thash H pre leafAdrs skLeaf
    let (_, _, node) ← whileLt 64 0 A (idx, leafAdrs, node) fun j (cur, leafAdrs, node) => do
      let leafAdrs ← adrsSetTreeHeight leafAdrs (← add 32 (← cast 32 j) 1)
      let nodesAtHeight ← shl 32 1 (← cast 8 (← sub (← sub A j) 1))
      let parentIdx ← add 32 (← mul 32 (← cast 32 i) nodesAtHeight) (← shr 32 cur 1)
      let leafAdrs ← adrsSetTreeIndex leafAdrs parentIdx
      let bit := cur &&& 1
      let buf := pre ++ leafAdrs
      let buf ← if bit = 0 then appendSlice (buf ++ node) authPath (← mul 64 j N) N
        else do
          let buf ← appendSlice buf authPath (← mul 64 j N) N
          pure (buf ++ node)
      let node ← sha256Trunc H buf
      let cur ← shr 32 cur 1
      pure (cur, leafAdrs, node)
    pure (rootsBuf ++ node)
  let rootsAdrs ← adrsSetType adrs ADRS_FORS_ROOTS
  let rootsAdrs ← adrsSetTreeHeight rootsAdrs 0
  let rootsAdrs ← adrsSetTreeIndex rootsAdrs 0
  thash H pre rootsAdrs rootsBuf

/-! ## Verification -/

def splitDigest (digest : Bytes) : MoveFn (Bytes × Nat × Nat) := do
  let mdBytes := (← add 64 (← mul 64 K A) 7) / 8
  let treeBits ← sub (← mul 64 H_PRIME D) H_PRIME
  let treeBytes := (← add 64 treeBits 7) / 8
  let leafBytes := (← add 64 H_PRIME 7) / 8
  let md ← slice digest 0 mdBytes
  let treeIdx ← whileLt 64 0 treeBytes 0 fun i treeIdx => do
    let t ← shl 64 treeIdx 8
    let x ← borrow digest (← add 64 mdBytes i)
    pure (t ||| x.toNat)
  let treeMask ← sub (← shl 64 1 (← cast 8 treeBits)) 1
  let treeIdx := treeIdx &&& treeMask
  let leafIdx ← whileLt 64 0 leafBytes 0 fun p leafIdx => do
    let l ← shl 32 leafIdx 8
    let x ← borrow digest (← add 64 (← add 64 mdBytes treeBytes) p)
    pure (l ||| x.toNat)
  let leafMask ← sub (← shl 32 1 (← cast 8 H_PRIME)) 1
  let leafIdx := leafIdx &&& leafMask
  pure (md, treeIdx, leafIdx)

def verifyWithContext (H : Hash) (pk msg sig ctx : Bytes) : MoveFn Bool := do
  require (pk.length = PK_BYTES) EBadPkLength
  if sig.length ≠ SIG_BYTES then return false
  if ctx.length > 255 then return false
  let pkSeed ← slice pk 0 N
  let pkRoot ← slice pk N N
  let wrapped := [0, ← byte ctx.length] ++ ctx ++ msg
  let r ← slice sig 0 N
  let forsBytesLen ← mul 64 (← mul 64 K (← add 64 1 A)) N
  let sigFors ← slice sig N forsBytesLen
  let sigHt ← slice sig (← add 64 N forsBytesLen) (← sub (← sub SIG_BYTES N) forsBytesLen)
  let digest ← hmsg H r pkSeed pkRoot wrapped
  let (md, treeIdx, leafIdx) ← splitDigest digest
  let pre ← pkSeedPadded pkSeed
  let adrs ← adrsNew
  let adrs ← adrsSetLayer adrs 0
  let adrs ← adrsSetTree adrs treeIdx
  let adrs ← adrsSetType adrs ADRS_FORS_TREE
  let adrs ← adrsSetKeypair adrs leafIdx
  let forsRoot ← forsPkFromSig H sigFors md pre adrs
  let htRoot ← htRootFromSig H sigHt forsRoot treeIdx leafIdx pre
  bytesEq htRoot pkRoot

/-- `verify`: the empty context. -/
def verify (H : Hash) (pk msg sig : Bytes) : MoveFn Bool := verifyWithContext H pk msg sig []

def pkByteLen : Nat := PK_BYTES

end SuiPq.Impl.Sha2128s
