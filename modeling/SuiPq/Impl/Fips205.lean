import SuiPq.Framework.Bytes

/-!
# `Fips205.Verify`

The repository's Lean transcription of FIPS-205 SLH-DSA-SHA2-128s
(`proofs/Fips205`), over SHA-256 as the hash `H`. Byte arrays and arrays are
lists, and `get!` and `[i]!` past their end give the default (`get`).
-/

namespace SuiPq.Impl.Fips205

@[simp] def n : Nat := 16
@[simp] def lg_w : Nat := 4
@[simp] def w : Nat := 16
@[simp] def len_1 : Nat := 32
@[simp] def len_2 : Nat := 3
@[simp] def len : Nat := 35
@[simp] def h : Nat := 63
@[simp] def d : Nat := 7
@[simp] def h_prime : Nat := 9
@[simp] def a : Nat := 12
@[simp] def k : Nat := 14
@[simp] def m_bytes : Nat := 30
@[simp] def pk_bytes : Nat := 32
@[simp] def sig_bytes : Nat := 7856

namespace AdrsType

@[simp] def wots_hash : UInt8 := 0
@[simp] def wots_pk : UInt8 := 1
@[simp] def tree : UInt8 := 2
@[simp] def fors_tree : UInt8 := 3
@[simp] def fors_roots : UInt8 := 4

end AdrsType

/-! ## Bytes -/

/-- `b.get! i`. -/
def get (b : Bytes) (i : Nat) : UInt8 := b.getD i 0

/-- `while c s do s := body s`, for `n` rounds at most. -/
def whileFuel {σ : Type} (c : σ → Bool) (body : σ → σ) : Nat → σ → σ
  | 0, s => s
  | n + 1, s => if c s then whileFuel c body n (body s) else s

def natToBytesBE (n len : Nat) : Bytes := Id.run do
  forDown len [] fun i out => do
    let shift := i * 8
    let b := UInt8.ofNat ((n >>> shift) &&& 0xff)
    return out ++ [b]

def u32BE (n : Nat) : Bytes := natToBytesBE n 4

def u64BE (n : Nat) : Bytes := natToBytesBE n 8

def slice (b : Bytes) (start len : Nat) : Bytes := Id.run do
  forLt 0 len [] fun i out => return out ++ [get b (start + i)]

def zeros (len : Nat) : Bytes := Id.run do
  forLt 0 len [] fun _ out => return out ++ [0]

/-! ## Addresses -/

structure Adrs where
  layer : Nat
  tree : Nat
  type : UInt8
  keypair : Nat
  treeHeight : Nat
  treeIndex : Nat

def empty : Adrs :=
  { layer := 0, tree := 0, type := 0, keypair := 0, treeHeight := 0, treeIndex := 0 }

def compress (a : Adrs) : Bytes :=
  [UInt8.ofNat (a.layer &&& 0xff)] ++ u64BE a.tree ++ [a.type] ++ u32BE a.keypair ++ u32BE a.treeHeight ++
    u32BE a.treeIndex

def setType (a : Adrs) (t : UInt8) : Adrs := { a with type := t }
def setLayer (a : Adrs) (l : Nat) : Adrs := { a with layer := l }
def setTree (a : Adrs) (t : Nat) : Adrs := { a with tree := t }
def setKeypair (a : Adrs) (kp : Nat) : Adrs := { a with keypair := kp }
def setTreeHeight (a : Adrs) (h : Nat) : Adrs := { a with treeHeight := h }
def setTreeIndex (a : Adrs) (i : Nat) : Adrs := { a with treeIndex := i }

/-! ## Hashes -/

def truncate (b : Bytes) (n : Nat) : Bytes := Id.run do
  forLt 0 n [] fun i out => return out ++ [get b i]

def thash (H : Hash) (pk_seed : Bytes) (adrs : Adrs) (m : Bytes) : Bytes :=
  let input := pk_seed ++ zeros 48 ++ compress adrs ++ m
  truncate (H input) n

def mgf1 (H : Hash) (seed : Bytes) (outLen : Nat) : Bytes :=
  (whileFuel (fun s => s.1.length < outLen) (fun (out, counter) =>
    let block := H (seed ++ u32BE counter)
    let (out, _) := whileFuel (fun s => s.2 < block.length && s.1.length < outLen) (fun (out, j) =>
      (out ++ [get block j], j + 1)) block.length (out, 0)
    (out, counter + 1)) outLen ([], 0)).1

def hmsg (H : Hash) (r pk_seed pk_root m : Bytes) : Bytes :=
  let inner := H (r ++ pk_seed ++ pk_root ++ m)
  let seed := r ++ pk_seed ++ inner
  mgf1 H seed m_bytes

/-! ## WOTS+ -/

def baseW (msg : Bytes) (outlen : Nat) : List Nat := Id.run do
  let (_, _, _, out) ← forLt 0 outlen (0, 0, 0, []) fun _ (inIdx, bits, total, out) => do
    let (inIdx, bits, total) :=
      if bits = 0 then (inIdx + 1, 8, (get msg inIdx).toNat) else (inIdx, bits, total)
    let bits := bits - lg_w
    return (inIdx, bits, total, out ++ [(total >>> bits) &&& (w - 1)])
  return out

def wotsChecksum (msgDigits : List Nat) : List Nat :=
  let csum0 := (List.range len_1).foldl (fun acc i => acc + (w - 1 - msgDigits.getD i 0)) 0
  let shift := (8 - (len_2 * lg_w) % 8) % 8
  let csum := csum0 <<< shift
  let lenBytes := (len_2 * lg_w + 7) / 8
  baseW (natToBytesBE csum lenBytes) len_2

def msgToChainDigits (msg_n : Bytes) : List Nat :=
  baseW msg_n len_1 ++ wotsChecksum (baseW msg_n len_1)

def chain (H : Hash) (x : Bytes) (iStart steps : Nat) (pk_seed : Bytes) (adrs : Adrs) : Bytes := Id.run do
  let (tmp, _) ← forLt iStart (iStart + steps) (x, adrs) fun j (tmp, a) => do
    let a := setTreeIndex a j
    let tmp := thash H pk_seed a tmp
    return (tmp, a)
  return tmp

def wotsPkFromSig (H : Hash) (sig msg_n pk_seed : Bytes) (adrs : Adrs) : Bytes := Id.run do
  let digits := msgToChainDigits msg_n
  let (tmp, _) ← forLt 0 len ([], setType adrs AdrsType.wots_hash) fun i (tmp, a) => do
    let a := setTreeHeight a i
    let piece := chain H (slice sig (i * n) n) (digits.getD i 0) (w - 1 - digits.getD i 0) pk_seed a
    return (tmp ++ piece, a)
  let tAdrs := setTreeIndex (setTreeHeight (setType adrs AdrsType.wots_pk) 0) 0
  return thash H pk_seed tAdrs tmp

/-! ## FORS -/

def extractForsIndices (md : Bytes) : List Nat := Id.run do
  let (_, out) ← forLt 0 k (0, []) fun _ (bitOff, out) => do
    let v ← forLt 0 a 0 fun b v => do
      let bitIdx := bitOff + b
      let byte := (get md (bitIdx >>> 3)).toNat
      let bit := (byte >>> (7 - (bitIdx &&& 7))) &&& 1
      return (v <<< 1) ||| bit
    return (bitOff + a, out ++ [v])
  return out

def forsPkFromSig (H : Hash) (sigFors md pk_seed : Bytes) (adrs : Adrs) : Bytes := Id.run do
  let chunkBytes := (1 + a) * n
  let indices := extractForsIndices md
  let rootsBuf ← forLt 0 k [] fun i rootsBuf => do
    let off := i * chunkBytes
    let skLeaf := slice sigFors off n
    let authPath := slice sigFors (off + n) (a * n)
    let idx := indices.getD i 0
    let leafAdrs := setType adrs AdrsType.fors_tree
    let leafAdrs := setTreeHeight leafAdrs 0
    let leafAdrs := setTreeIndex leafAdrs (i * 2 ^ a + idx)
    let node := thash H pk_seed leafAdrs skLeaf
    let (node, _, _) ← forLt 0 a (node, leafAdrs, idx) fun j (node, leafAdrs, cur) => do
      let sib := slice authPath (j * n) n
      let leafAdrs := setTreeHeight leafAdrs (j + 1)
      let nodesAtHeight := 2 ^ (a - j - 1)
      let parentIdx := i * nodesAtHeight + (cur >>> 1)
      let leafAdrs := setTreeIndex leafAdrs parentIdx
      let bit := cur &&& 1
      let merged := if bit = 0 then node ++ sib else sib ++ node
      return (thash H pk_seed leafAdrs merged, leafAdrs, cur >>> 1)
    return rootsBuf ++ node
  let rootsAdrs := setTreeIndex (setTreeHeight (setType adrs AdrsType.fors_roots) 0) 0
  return thash H pk_seed rootsAdrs rootsBuf

/-! ## XMSS and the hypertree -/

def xmssPkFromSig (H : Hash) (idx : Nat) (sig msg_n pk_seed : Bytes) (adrs : Adrs) : Bytes := Id.run do
  let wotsSigLen := len * n
  let wotsSig := slice sig 0 wotsSigLen
  let authPath := slice sig wotsSigLen (h_prime * n)
  let a := setKeypair (setType adrs AdrsType.wots_hash) idx
  let node := wotsPkFromSig H wotsSig msg_n pk_seed a
  let a := setKeypair (setType a AdrsType.tree) 0
  let (node, _, _) ← forLt 0 h_prime (node, a, idx) fun i (node, a, curIdx) => do
    let a := setTreeHeight a (i + 1)
    let a := setTreeIndex a (curIdx >>> 1)
    let sibling := slice authPath (i * n) n
    let bit := (idx >>> i) &&& 1
    let merged := if bit = 0 then node ++ sibling else sibling ++ node
    return (thash H pk_seed a merged, a, curIdx >>> 1)
  return node

def htRootFromSig (H : Hash) (sigHt msg_n : Bytes) (treeIdx0 leafIdx0 : Nat) (pk_seed : Bytes) :
    Bytes := Id.run do
  let xmssSigBytes := (len + h_prime) * n
  let (node, _, _) ← forLt 0 d (msg_n, treeIdx0, leafIdx0) fun j (node, curTree, curLeaf) => do
    let a := empty
    let a := setLayer a j
    let a := setTree a curTree
    let sliceJ := slice sigHt (j * xmssSigBytes) xmssSigBytes
    let node := xmssPkFromSig H curLeaf sliceJ node pk_seed a
    let leafMask := 2 ^ h_prime - 1
    return (node, curTree >>> h_prime, curTree &&& leafMask)
  return node

/-! ## Verification -/

def splitDigest (digest : Bytes) : Bytes × Nat × Nat := Id.run do
  let mdBytes := (k * a + 7) / 8
  let treeBits := h - h_prime
  let treeBytes := (treeBits + 7) / 8
  let leafBytes := (h_prime + 7) / 8
  let md := slice digest 0 mdBytes
  let treeIdx ← forLt 0 treeBytes 0 fun i treeIdx =>
    return treeIdx <<< 8 ||| (get digest (mdBytes + i)).toNat
  let treeIdx := treeIdx &&& (2 ^ treeBits - 1)
  let leafIdx ← forLt 0 leafBytes 0 fun i leafIdx =>
    return leafIdx <<< 8 ||| (get digest (mdBytes + treeBytes + i)).toNat
  let leafIdx := leafIdx &&& (2 ^ h_prime - 1)
  return (md, treeIdx, leafIdx)

def verify (H : Hash) (pk msg sig ctx : Bytes) : Bool := Id.run do
  if pk.length ≠ pk_bytes then return false
  if sig.length ≠ sig_bytes then return false
  if ctx.length > 255 then return false
  let pkSeed := slice pk 0 n
  let pkRoot := slice pk n n
  let wrapped := [0, UInt8.ofNat ctx.length] ++ ctx ++ msg
  let r := slice sig 0 n
  let forsBytesLen := k * (1 + a) * n
  let sigFors := slice sig n forsBytesLen
  let sigHt := slice sig (n + forsBytesLen) (sig_bytes - n - forsBytesLen)
  let digest := hmsg H r pkSeed pkRoot wrapped
  let (md, treeIdx, leafIdx) := splitDigest digest
  let adrs := empty
  let adrs := setLayer adrs 0
  let adrs := setTree adrs treeIdx
  let adrs := setType adrs AdrsType.fors_tree
  let adrs := setKeypair adrs leafIdx
  let forsRoot := forsPkFromSig H sigFors md pkSeed adrs
  let htRoot := htRootFromSig H sigHt forsRoot treeIdx leafIdx pkSeed
  return decide (htRoot = pkRoot)

end SuiPq.Impl.Fips205
