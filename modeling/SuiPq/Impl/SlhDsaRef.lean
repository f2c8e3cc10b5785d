import SuiPq.Impl.WotsRef

/-!
# `slh-dsa-ref.ts`

The TypeScript SLH-DSA-LITE (`packages/pqc/src/slh-dsa-ref.ts`): keys,
signatures and their verification, function by function, over SHA-256 as the
hash `H`. A loop `for (i = 0; i < nodes.length; i += 2)` counts pairs here.
-/

namespace SuiPq.Impl.SlhDsaRef

open SuiPq.Js SuiPq.Impl.JsBytes SuiPq.Impl.WotsRef

namespace SLH

@[simp] def n : Nat := 32
@[simp] def h : Nat := 8
@[simp] def d : Nat := 2
@[simp] def h_prime : Nat := 4
@[simp] def a : Nat := 3
@[simp] def k : Nat := 4
@[simp] def len : Nat := 67

end SLH

@[simp] def TYPE_WOTS_HASH : Nat := 0
@[simp] def TYPE_WOTS_PK : Nat := 1
@[simp] def TYPE_TREE : Nat := 2
@[simp] def TYPE_FORS_TREE : Nat := 3
@[simp] def TYPE_FORS_ROOTS : Nat := 4

/-- `F`, `H` and `T_len`. -/
def thash (H : Hash) (seed adrs m : Bytes) : Js Bytes := do
  Comp.hash H (← concat [seed, adrs, m])

/-! ## WOTS+ -/

def chainStep (H : Hash) (seed baseAdrs : Bytes) (chainIdx start steps : Nat) (value : Bytes) :
    Js Bytes := do
  let adrs := writeU32BE baseAdrs 16 TYPE_WOTS_HASH
  let adrs := writeU32BE adrs 24 chainIdx
  let (v, _) ← forLt 0 steps (value, adrs) fun j (v, adrs) => do
    let adrs := writeU32BE adrs 28 (start + j)
    let v ← thash H seed adrs v
    pure (v, adrs)
  pure v

/-- The bytes of `wots-sk`. -/
def wotsTag : Bytes := [0x77, 0x6f, 0x74, 0x73, 0x2d, 0x73, 0x6b]

def wotsSk (H : Hash) (skSeed : Bytes) (keyPair chain : Nat) : Js Bytes := do
  let counter := zeros 8
  let counter := writeU32BE counter 0 keyPair
  let counter := writeU32BE counter 4 chain
  Comp.hash H (← concat [skSeed, wotsTag, counter])

def wotsPk (H : Hash) (seed skSeed : Bytes) (keyPair : Nat) (baseAdrs : Bytes) : Js Bytes :=
  forLt 0 SLH.len (zeros (SLH.len * SLH.n)) fun i out => do
    let sk ← wotsSk H skSeed keyPair i
    let top ← chainStep H seed baseAdrs i 0 (WOTS.w - 1) sk
    set out top (i * SLH.n)

def wotsSign (H : Hash) (seed skSeed : Bytes) (keyPair : Nat) (baseAdrs msgDigest : Bytes) : Js Bytes := do
  let chains ← msgToChains msgDigest
  forLt 0 SLH.len (zeros (SLH.len * SLH.n)) fun i out => do
    let sk ← wotsSk H skSeed keyPair i
    let v ← chainStep H seed baseAdrs i 0 (← get chains i) sk
    set out v (i * SLH.n)

def wotsPkFromSig (H : Hash) (seed baseAdrs msgDigest sig : Bytes) : Js Bytes := do
  let chains ← msgToChains msgDigest
  forLt 0 SLH.len (zeros (SLH.len * SLH.n)) fun i out => do
    let start ← get chains i
    let steps := WOTS.w - 1 - start
    let sigI := slice sig (i * SLH.n) ((i + 1) * SLH.n)
    let v ← chainStep H seed baseAdrs i start steps sigI
    set out v (i * SLH.n)

/-! ## XMSS -/

def xmssRootFromLeafChunk (H : Hash) (seed initialAdrs : Bytes) (leafIdx : Nat) (leaf authPath : Bytes) :
    Js Bytes := do
  let adrs := writeU32BE initialAdrs 16 TYPE_TREE
  let (node, _) ← forLt 0 SLH.h_prime (leaf, adrs) fun i (node, adrs) => do
    let adrs := writeU32BE adrs 20 (i + 1)
    let adrs := writeU32BE adrs 24 (← sar leafIdx (i + 1))
    let sibling := slice authPath (i * SLH.n) ((i + 1) * SLH.n)
    let merged ← if Js.and (← sar leafIdx i) 1 = 0 then concat [node, sibling] else concat [sibling, node]
    let node ← thash H seed adrs merged
    pure (node, adrs)
  pure node

def xmssLeafFromKeypair (H : Hash) (seed skSeed : Bytes) (layer treeIdx keyPair : Nat) : Js Bytes := do
  let baseAdrs ← buildAdrs { layer := some layer, tree := some treeIdx, keypair := some keyPair }
  let wpk ← wotsPk H seed skSeed keyPair baseAdrs
  let tAdrs ← buildAdrs
    { layer := some layer, tree := some treeIdx, type := some TYPE_WOTS_PK, keypair := some keyPair }
  thash H seed tAdrs wpk

/-- The leaves of an XMSS tree. -/
def xmssLeaves (H : Hash) (seed skSeed : Bytes) (layer treeIdx : Nat) : Js (List Bytes) := do
  let nLeaves ← shl 1 SLH.h_prime
  forLt 0 nLeaves [] fun i nodes => do
    let leaf ← xmssLeafFromKeypair H seed skSeed layer treeIdx i
    pure (nodes ++ [leaf])

/-- The level above `nodes`, under an address whose index at `i` is `index i`. -/
def nextLevel (H : Hash) (seed adrs : Bytes) (nodes : List Bytes) (index : Nat → Nat) :
    Js (List Bytes × Bytes) :=
  forLt 0 ((nodes.length + 1) / 2) ([], adrs) fun i (next, adrs) => do
    let adrs := writeU32BE adrs 24 (index i)
    let node ← thash H seed adrs (← concat [← get nodes (2 * i), ← get nodes (2 * i + 1)])
    pure (next ++ [node], adrs)

def xmssRoot (H : Hash) (seed skSeed : Bytes) (layer treeIdx : Nat) : Js Bytes := do
  let nodes ← xmssLeaves H seed skSeed layer treeIdx
  let adrs ← buildAdrs { layer := some layer, tree := some treeIdx, type := some TYPE_TREE }
  let (nodes, _) ← forLt 1 (SLH.h_prime + 1) (nodes, adrs) fun height (nodes, adrs) => do
    let adrs := writeU32BE adrs 20 height
    nextLevel H seed adrs nodes fun i => i
  get nodes 0

def xmssAuthPath (H : Hash) (seed skSeed : Bytes) (layer treeIdx leafIdx : Nat) : Js Bytes := do
  let nodes ← xmssLeaves H seed skSeed layer treeIdx
  let adrs ← buildAdrs { layer := some layer, tree := some treeIdx, type := some TYPE_TREE }
  let (_, auth, _, _) ← forLt 1 (SLH.h_prime + 1) (nodes, zeros (SLH.h_prime * SLH.n), leafIdx, adrs)
    fun height (nodes, auth, idx, adrs) => do
      let adrs := writeU32BE adrs 20 height
      let siblingIdx ← Js.xor idx 1
      let auth ← set auth (← get nodes siblingIdx) ((height - 1) * SLH.n)
      let (nodes, adrs) ← nextLevel H seed adrs nodes fun i => i
      pure (nodes, auth, ← sar idx 1, adrs)
  pure auth

structure XmssSig where
  wotsSig : Bytes
  authPath : Bytes

def xmssSign (H : Hash) (seed skSeed : Bytes) (layer treeIdx leafIdx : Nat) (msgDigest : Bytes) :
    Js XmssSig := do
  let baseAdrs ← buildAdrs { layer := some layer, tree := some treeIdx, keypair := some leafIdx }
  let wotsSig ← wotsSign H seed skSeed leafIdx baseAdrs msgDigest
  let authPath ← xmssAuthPath H seed skSeed layer treeIdx leafIdx
  pure { wotsSig, authPath }

def xmssRootFromSig (H : Hash) (seed : Bytes) (layer treeIdx leafIdx : Nat) (msgDigest : Bytes)
    (sig : XmssSig) : Js Bytes := do
  let baseAdrs ← buildAdrs { layer := some layer, tree := some treeIdx, keypair := some leafIdx }
  let wpk ← wotsPkFromSig H seed baseAdrs msgDigest sig.wotsSig
  let tAdrs ← buildAdrs
    { layer := some layer, tree := some treeIdx, type := some TYPE_WOTS_PK, keypair := some leafIdx }
  let leaf ← thash H seed tAdrs wpk
  let initialAdrs ← buildAdrs { layer := some layer, tree := some treeIdx }
  xmssRootFromLeafChunk H seed initialAdrs leafIdx leaf sig.authPath

/-! ## The hypertree -/

structure HtSig where
  layers : List XmssSig

def htSign (H : Hash) (seed skSeed msgDigest : Bytes) (treeIdx leafIdx : Nat) : Js HtSig := do
  let (layers, _, _, _) ← forLt 0 SLH.d ([], msgDigest, treeIdx, leafIdx)
    fun layer (layers, payload, curTree, curLeaf) => do
      let sig ← xmssSign H seed skSeed layer (← number curTree) curLeaf payload
      let payload ← xmssRoot H seed skSeed layer (← number curTree)
      let curLeaf ← number (curTree &&& (1 <<< SLH.h_prime - 1))
      pure (layers ++ [sig], payload, curTree >>> SLH.h_prime, curLeaf)
  pure { layers }

def htRootFromSig (H : Hash) (seed msgDigest : Bytes) (treeIdx leafIdx : Nat) (sig : HtSig) : Js Bytes := do
  let (payload, _, _) ← forLt 0 SLH.d (msgDigest, treeIdx, leafIdx)
    fun layer (payload, curTree, curLeaf) => do
      let payload ← xmssRootFromSig H seed layer (← number curTree) curLeaf payload (← get sig.layers layer)
      let curLeaf ← number (curTree &&& (1 <<< SLH.h_prime - 1))
      pure (payload, curTree >>> SLH.h_prime, curLeaf)
  pure payload

/-! ## FORS -/

structure ForsSig where
  bytes : Bytes

/-- The bytes of `fors-sk`. -/
def forsTag : Bytes := [0x66, 0x6f, 0x72, 0x73, 0x2d, 0x73, 0x6b]

def forsSk (H : Hash) (skSeed : Bytes) (treeIdx treeNum leafNum : Nat) : Js Bytes := do
  let counter := zeros (8 + 4 + 4)
  let hi ← number (treeIdx >>> 32 &&& 0xffffffff)
  let lo ← number (treeIdx &&& 0xffffffff)
  let counter := writeU32BE counter 0 hi
  let counter := writeU32BE counter 4 lo
  let counter := writeU32BE counter 8 treeNum
  let counter := writeU32BE counter 12 leafNum
  Comp.hash H (← concat [skSeed, forsTag, counter])

def forsLeavesAndAuth (H : Hash) (seed skSeed : Bytes) (treeIdx treeNum leafNum : Nat) :
    Js (Bytes × Bytes) := do
  let nLeaves ← shl 1 SLH.a
  let adrsF ← buildAdrs { tree := some treeIdx, type := some TYPE_FORS_TREE }
  let (nodes, _) ← forLt 0 nLeaves ([], adrsF) fun i (nodes, adrsF) => do
    let sk ← forsSk H skSeed treeIdx treeNum i
    let adrsF := writeU32BE adrsF 24 (treeNum * nLeaves + i)
    let leaf ← thash H seed adrsF sk
    pure (nodes ++ [leaf], adrsF)
  let adrsTree ← buildAdrs { tree := some treeIdx, type := some TYPE_FORS_TREE }
  let (_, auth, _, _) ← forLt 1 (SLH.a + 1) (nodes, zeros (SLH.a * SLH.n), leafNum, adrsTree)
    fun height (nodes, auth, idx, adrsTree) => do
      let adrsTree := writeU32BE adrsTree 20 height
      let sib ← Js.xor idx 1
      let auth ← set auth (← get nodes sib) ((height - 1) * SLH.n)
      let width ← shl 1 (SLH.a - height)
      let (nodes, adrsTree) ← nextLevel H seed adrsTree nodes fun i => treeNum * width + i
      pure (nodes, auth, ← sar idx 1, adrsTree)
  let secret ← forsSk H skSeed treeIdx treeNum leafNum
  pure (secret, auth)

def forsSign (H : Hash) (seed skSeed : Bytes) (treeIdx : Nat) (indices : List Nat) : Js ForsSig := do
  let chunkSize := SLH.n + SLH.a * SLH.n
  let out ← forLt 0 SLH.k (zeros (SLH.k * chunkSize)) fun i out => do
    let (secret, auth) ← forsLeavesAndAuth H seed skSeed treeIdx i (← get indices i)
    let out ← set out secret (i * chunkSize)
    set out auth (i * chunkSize + SLH.n)
  pure { bytes := out }

def forsRootFromSig (H : Hash) (seed : Bytes) (treeIdx : Nat) (indices : List Nat) (sig : ForsSig) :
    Js Bytes := do
  let chunkSize := SLH.n + SLH.a * SLH.n
  let adrsLeaf ← buildAdrs { tree := some treeIdx, type := some TYPE_FORS_TREE }
  let adrsTree ← buildAdrs { tree := some treeIdx, type := some TYPE_FORS_TREE }
  let (roots, _, _) ← forLt 0 SLH.k ([], adrsLeaf, adrsTree) fun i (roots, adrsLeaf, adrsTree) => do
    let off := i * chunkSize
    let secret := slice sig.bytes off (off + SLH.n)
    let auth := slice sig.bytes (off + SLH.n) (off + chunkSize)
    let leafIdx ← get indices i
    let adrsLeaf := writeU32BE adrsLeaf 24 (i * (← shl 1 SLH.a) + leafIdx)
    let node ← thash H seed adrsLeaf secret
    let (node, _, adrsTree) ← forLt 1 (SLH.a + 1) (node, leafIdx, adrsTree)
      fun height (node, idx, adrsTree) => do
        let adrsTree := writeU32BE adrsTree 20 height
        let adrsTree := writeU32BE adrsTree 24 (i * (← shl 1 (SLH.a - height)) + (← sar idx 1))
        let sib := slice auth ((height - 1) * SLH.n) (height * SLH.n)
        let merged ← if Js.and idx 1 = 0 then concat [node, sib] else concat [sib, node]
        let node ← thash H seed adrsTree merged
        pure (node, ← sar idx 1, adrsTree)
    pure (roots ++ [node], adrsLeaf, adrsTree)
  let adrsRoots ← buildAdrs { tree := some treeIdx, type := some TYPE_FORS_ROOTS }
  thash H seed adrsRoots (← concat roots)

/-! ## Keys and signatures -/

structure PublicKey where
  seed : Bytes
  root : Bytes

structure SecretKey where
  seed : Bytes
  skSeed : Bytes

def keygen (H : Hash) (seed skSeed : Bytes) : Js (PublicKey × SecretKey) := do
  let root ← xmssRoot H seed skSeed (SLH.d - 1) 0
  pure ({ seed, root }, { seed, skSeed })

/-- The FORS indices, filled in from the last, the tree and the leaf. -/
def splitDigest (digest : Bytes) : Js (List Nat × Nat × Nat) := do
  let forsBits := SLH.k * SLH.a
  let forsBytes := ceilDiv forsBits 8
  let v ← forLt 0 forsBytes 0 fun i v => pure (v <<< 8 ||| (digest.getD i 0).toNat)
  let (_, fors) ← forDown SLH.k (v, []) fun _ (v, fors) => do
    let x ← number (v &&& ((← shl 1 SLH.a) - 1))
    pure (v >>> SLH.a, x :: fors)
  let offset := forsBytes
  let path ← forLt 0 (ceilDiv SLH.h 8) 0 fun i path =>
    pure (path <<< 8 ||| (digest.getD (offset + i) 0).toNat)
  let leafMask := 1 <<< SLH.h_prime - 1
  let treeBits := SLH.h - SLH.h_prime
  let path := path &&& (1 <<< SLH.h - 1)
  let leafIdx ← number (path &&& leafMask)
  let treeIdx := path >>> SLH.h_prime
  let treeMask := 1 <<< treeBits - 1
  pure (fors, treeIdx &&& treeMask, leafIdx)

structure Signature where
  fors : ForsSig
  ht : HtSig

def sign (H : Hash) (sk : SecretKey) (message : Bytes) : Js Signature := do
  let digest ← Comp.hash H (← concat [sk.seed, message])
  let (fors, treeIdx, leafIdx) ← splitDigest digest
  let forsSig ← forsSign H sk.seed sk.skSeed treeIdx fors
  let forsRoot ← forsRootFromSig H sk.seed treeIdx fors forsSig
  let htSig ← htSign H sk.seed sk.skSeed forsRoot treeIdx leafIdx
  pure { fors := forsSig, ht := htSig }

def verify (H : Hash) (pk : PublicKey) (message : Bytes) (signature : Signature) : Js Bool := do
  let digest ← Comp.hash H (← concat [pk.seed, message])
  let (fors, treeIdx, leafIdx) ← splitDigest digest
  let forsRoot ← forsRootFromSig H pk.seed treeIdx fors signature.fors
  let derivedRoot ← htRootFromSig H pk.seed forsRoot treeIdx leafIdx signature.ht
  sameBytes derivedRoot pk.root

def packSignature (sig : Signature) : Js Bytes :=
  concat (sig.fors.bytes :: sig.ht.layers.flatMap fun l => [l.wotsSig, l.authPath])

def unpackSignature (bytes : Bytes) : Js Signature := do
  let forsLen := SLH.k * (SLH.n + SLH.a * SLH.n)
  let forsSig := { bytes := slice bytes 0 forsLen }
  let xmssLen := SLH.len * SLH.n + SLH.h_prime * SLH.n
  let (layers, _) ← forLt 0 SLH.d ([], forsLen) fun _ (layers, off) => do
    let wotsSig := slice bytes off (off + SLH.len * SLH.n)
    let authPath := slice bytes (off + SLH.len * SLH.n) (off + xmssLen)
    pure (layers ++ [{ wotsSig, authPath }], off + xmssLen)
  pure { fors := forsSig, ht := { layers } }

end SuiPq.Impl.SlhDsaRef
