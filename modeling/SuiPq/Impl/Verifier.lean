import SuiPq.Impl.WotsPlus

/-!
# `slh_dsa::verifier`

The on-chain verifier of SLH-DSA-LITE (`move/slh_dsa/sources/slh_dsa.move`),
over SHA-256 as the hash `H`.
-/

namespace SuiPq.Impl.Verifier

open SuiPq.Move SuiPq.Impl.MoveBytes

@[simp] def N : Nat := 32
@[simp] def LEN : Nat := 67
@[simp] def H_PRIME : Nat := 4
@[simp] def D : Nat := 2
@[simp] def A : Nat := 3
@[simp] def K : Nat := 4

@[simp] def TYPE_WOTS_PK : Nat := 1
@[simp] def TYPE_TREE : Nat := 2
@[simp] def TYPE_FORS_TREE : Nat := 3
@[simp] def TYPE_FORS_ROOTS : Nat := 4

def EBadPkLength : Code := ⟨.verifier, 1⟩
def EBadSigLength : Code := ⟨.verifier, 2⟩

/-- A 32-byte address; of the tree index only 32 bits are used. -/
def adrsWith (layer treeIdx type keypair : Nat) : MoveFn Bytes := do
  let a := List.replicate 32 0
  let a ← writeU32 a 0 layer
  let a ← writeU32 a 12 (← cast 32 treeIdx)
  let a ← writeU32 a 16 type
  writeU32 a 20 keypair

def thash (H : Hash) (seed adrs m : Bytes) : MoveFn Bytes := do
  let buf ← concat seed adrs
  let buf ← concat buf m
  Comp.hash H buf

def xmssLeafFromWotsPk (H : Hash) (seed : Bytes) (layer treeIdx keypair : Nat) (wotsPk : Bytes) :
    MoveFn Bytes := do
  let adrs ← adrsWith layer treeIdx TYPE_WOTS_PK keypair
  thash H seed adrs wotsPk

def walkAuthPath (H : Hash) (seed : Bytes) (layer treeIdx leafIdx : Nat) (node auth : Bytes) :
    MoveFn Bytes := do
  let adrs ← adrsWith layer treeIdx TYPE_TREE 0
  let (_, node) ← whileLt 64 0 H_PRIME (adrs, node) fun i (adrs, node) => do
    let adrs ← writeU32 adrs 20 (← add 32 (← cast 32 i) 1)
    let adrs ← writeU32 adrs 24 (← shr 32 leafIdx (← add 8 (← cast 8 i) 1))
    let sibling ← slice auth (← mul 64 i N) N
    let bit := (← shr 32 leafIdx (← cast 8 i)) &&& 1
    let merged ← if bit = 0 then concat node sibling else concat sibling node
    let node ← thash H seed adrs merged
    pure (adrs, node)
  pure node

def xmssRootFromSig (H : Hash) (seed : Bytes) (layer treeIdx leafIdx : Nat)
    (msgDigest wotsSig authPath : Bytes) : MoveFn Bytes := do
  let baseAdrs ← adrsWith layer treeIdx 0 leafIdx
  let wotsPk ← WotsPlus.pkFromSig H seed baseAdrs msgDigest wotsSig
  let leaf ← xmssLeafFromWotsPk H seed layer treeIdx leafIdx wotsPk
  walkAuthPath H seed layer treeIdx leafIdx leaf authPath

def htRootFromSig (H : Hash) (seed msgDigest : Bytes) (treeIdx leafIdx : Nat) (htSig : Bytes) :
    MoveFn Bytes := do
  let xmssSigLen ← add 64 (← mul 64 LEN N) (← mul 64 H_PRIME N)
  let (_, _, payload) ← whileLt 64 0 D (treeIdx, leafIdx, msgDigest)
    fun layer (treeIdx, leafIdx, payload) => do
      let off ← mul 64 layer xmssSigLen
      let wotsSig ← slice htSig off (← mul 64 LEN N)
      let authPath ← slice htSig (← add 64 off (← mul 64 LEN N)) (← mul 64 H_PRIME N)
      let payload ← xmssRootFromSig H seed (← cast 32 layer) treeIdx leafIdx payload wotsSig authPath
      let leafMask ← sub (← shl 64 1 (← cast 8 H_PRIME)) 1
      let leafIdx ← cast 32 (treeIdx &&& leafMask)
      let treeIdx ← shr 64 treeIdx (← cast 8 H_PRIME)
      pure (treeIdx, leafIdx, payload)
  pure payload

def forsRootFromSig (H : Hash) (seed : Bytes) (treeIdx : Nat) (indices : List Nat) (forsSig : Bytes) :
    MoveFn Bytes := do
  require (indices.length = K) EBadSigLength
  let chunk ← add 64 N (← mul 64 A N)
  let nleavesPerTree ← shl 32 1 (← cast 8 A)
  let adrsLeaf ← adrsWith 0 treeIdx TYPE_FORS_TREE 0
  let adrsTree ← adrsWith 0 treeIdx TYPE_FORS_TREE 0
  let (_, _, roots) ← whileLt 64 0 K (adrsLeaf, adrsTree, []) fun i (adrsLeaf, adrsTree, roots) => do
    let off ← mul 64 i chunk
    let secret ← slice forsSig off N
    let auth ← slice forsSig (← add 64 off N) (← mul 64 A N)
    let leafIdx ← borrow indices i
    let adrsLeaf ← writeU32 adrsLeaf 24 (← add 32 (← mul 32 (← cast 32 i) nleavesPerTree) leafIdx)
    let node ← thash H seed adrsLeaf secret
    -- `height` runs from 1 to `A`
    let (_, adrsTree, node) ← whileLt 64 1 (A + 1) (leafIdx, adrsTree, node)
      fun height (leafIdx, adrsTree, node) => do
        let adrsTree ← writeU32 adrsTree 20 (← cast 32 height)
        let nodesAtHeight ← shl 32 1 (← cast 8 (← sub A height))
        let idxAtHeight ← shr 32 leafIdx 1
        let adrsTree ← writeU32 adrsTree 24
          (← add 32 (← mul 32 (← cast 32 i) nodesAtHeight) idxAtHeight)
        let sib ← slice auth (← mul 64 (← sub height 1) N) N
        let bit := leafIdx &&& 1
        let merged ← if bit = 0 then concat node sib else concat sib node
        let node ← thash H seed adrsTree merged
        let leafIdx ← shr 32 leafIdx 1
        pure (leafIdx, adrsTree, node)
    let roots ← whileLt 64 0 N roots fun k roots => do
      let x ← borrow node k
      pure (roots ++ [x])
    pure (adrsLeaf, adrsTree, roots)
  let adrsCompress ← adrsWith 0 treeIdx TYPE_FORS_ROOTS 0
  thash H seed adrsCompress roots

def splitDigest (digest : Bytes) : MoveFn (List Nat × Nat × Nat) := do
  let forsBits ← mul 64 K A
  let forsBytes := (← add 64 forsBits 7) / 8
  let v ← whileLt 64 0 forsBytes 0 fun i v => do
    let t ← shl 64 v 8
    let x ← borrow digest i
    pure (t ||| x.toNat)
  let mask ← sub (← shl 64 1 (← cast 8 A)) 1
  let (_, fors) ← whileLt 64 0 K (v, []) fun _ (v, fors) => do
    let x ← cast 32 (v &&& mask)
    let v ← shr 64 v (← cast 8 A)
    pure (v, fors ++ [x])
  let reversed ← whileGt0 K [] fun r reversed => do
    let x ← borrow fors r
    pure (reversed ++ [x])
  let hBytes := (← add 64 8 7) / 8
  let path ← whileLt 64 0 hBytes 0 fun p path => do
    let t ← shl 64 path 8
    let x ← borrow digest (← add 64 forsBytes p)
    pure (t ||| x.toNat)
  let hMask ← sub (← shl 64 1 8) 1
  let path := path &&& hMask
  let leafMask ← sub (← shl 64 1 (← cast 8 H_PRIME)) 1
  let leafIdx ← cast 32 (path &&& leafMask)
  let treeIdxRaw ← shr 64 path (← cast 8 H_PRIME)
  let treeMask ← sub (← shl 64 1 (← cast 8 (← sub 8 H_PRIME))) 1
  let treeIdx := treeIdxRaw &&& treeMask
  pure (reversed, treeIdx, leafIdx)

def verify (H : Hash) (pk message signature : Bytes) : MoveFn Bool := do
  require (pk.length = 2 * N) EBadPkLength
  let pkSeed ← slice pk 0 N
  let pkRoot ← slice pk N N
  let hInput ← concat pkSeed message
  let digest ← Comp.hash H hInput
  let (forsIndices, treeIdx, leafIdx) ← splitDigest digest
  let forsLen ← mul 64 K (← add 64 N (← mul 64 A N))
  let xmssLen ← add 64 (← mul 64 LEN N) (← mul 64 H_PRIME N)
  let expectedSigLen ← add 64 forsLen (← mul 64 D xmssLen)
  if signature.length ≠ expectedSigLen then return false
  let forsSig ← slice signature 0 forsLen
  let htSig ← slice signature forsLen (← mul 64 D xmssLen)
  let forsRoot ← forsRootFromSig H pkSeed treeIdx forsIndices forsSig
  let htRoot ← htRootFromSig H pkSeed forsRoot treeIdx leafIdx htSig
  bytesEq htRoot pkRoot

def pkByteLen : Nat := 2 * N

end SuiPq.Impl.Verifier
