import SuiPq.Impl.RealBytecode
import SuiPq.Impl.Fips205

/-!
# The hand-assembled bytecodes

The bytecodes that `proofs/Move` writes by hand, a namespace for each of its
files, and the verifiers that `Composition.lean` composes of their runs:
`verifyViaBC`, then `verifyViaBC_full` and `verifyViaBC_total`, in which the
digest is split and hashed by bytecodes too. Vectors are passed by value, and
an address is its 22 bytes.
-/

namespace SuiPq.Impl

open SuiPq.Impl.MoveVm

/-! ## Byte strings -/

namespace Slice

def sliceBytecode : Bytecode := #[
  -- out = vector[], i = 0
  .VecEmpty, .StLoc 3, .LdU64 0, .StLoc 4,
  -- loop test (pc 4)
  .CopyLoc 4, .CopyLoc 2, .Lt, .BrFalse 21,
  -- out.push_back(*src.borrow(start + i))
  .CopyLoc 3, .CopyLoc 0, .CopyLoc 1, .CopyLoc 4, .Add, .VecImmBorrow, .VecPushBack, .StLoc 3,
  -- i = i + 1
  .CopyLoc 4, .LdU64 1, .Add, .StLoc 4, .Branch 4,
  -- exit (pc 21)
  .CopyLoc 3, .Ret
]

/-- The last local is not used. -/
def initialState (src : Bytes) (start len : UInt64) : State :=
  { stack := []
    locals := [.vecU8 src, .u64 start, .u64 len, .vecU8 [], .u64 0, .u8 0]
    pc := 0
    error := none }

def sliceMoveBC (H : Hash) (src : Bytes) (start len : UInt64) : Bytes :=
  (runDefault H sliceBytecode (initialState src start len)).topBytes

end Slice

namespace PkSeedPadded

def pkSeedPaddedBytecode : Bytecode := #[
  .CopyLoc 0, .StLoc 1, .LdU64 0, .StLoc 2,
  -- loop test (pc 4)
  .CopyLoc 2, .LdU64 48, .Lt, .BrFalse 17,
  -- out.push_back(0u8)
  .CopyLoc 1, .LdU8 0, .VecPushBack, .StLoc 1,
  .CopyLoc 2, .LdU64 1, .Add, .StLoc 2, .Branch 4,
  -- exit (pc 17)
  .CopyLoc 1, .Ret
]

def initialState (pk_seed : Bytes) : State :=
  { stack := []
    locals := [.vecU8 pk_seed, .vecU8 [], .u64 0]
    pc := 0
    error := none }

def pkSeedPaddedMoveBC (H : Hash) (pk_seed : Bytes) : Bytes :=
  (runDefault H pkSeedPaddedBytecode (initialState pk_seed)).topBytes

end PkSeedPadded

/-! ## Addresses -/

namespace AdrsSetters

/-- `a` with the bytes from `lo` to `hi` replaced. -/
def replaceMid (a middle : Bytes) (lo hi : Nat) : Bytes :=
  Fips205.slice a 0 lo ++ middle ++ Fips205.slice a hi (a.length - hi)

/-- `a[off] := v`, for a byte `v`. -/
def setU8 (off : Nat) : Bytecode := #[
  .CopyLoc 0, .LdU64 (.ofNat off), .CopyLoc 1, .VecSet, .StLoc 0, .CopyLoc 0, .Ret
]

/-- `a[off] := (v >> shift) & 0xff`, for a `u64` `v`. -/
def setByte (off shift : Nat) : List Opcode :=
  [.CopyLoc 0, .LdU64 (.ofNat off), .CopyLoc 1, .LdU64 (.ofNat shift), .Shr, .LdU64 255, .BitAnd,
    .CallNative "u64_to_u8" 1, .VecSet, .StLoc 0]

/-- `a[off] := v & 0xff`. -/
def setLowByte (off : Nat) : List Opcode :=
  [.CopyLoc 0, .LdU64 (.ofNat off), .CopyLoc 1, .LdU64 255, .BitAnd, .CallNative "u64_to_u8" 1,
    .VecSet, .StLoc 0]

/-- The low four bytes of a `u64`, from `a[off]` on. -/
def setU32 (off : Nat) : Bytecode :=
  ⟨setByte off 24 ++ setByte (off + 1) 16 ++ setByte (off + 2) 8 ++ setLowByte (off + 3) ++
    [.CopyLoc 0, .Ret]⟩

/-- The address that a setter leaves on the stack. -/
def setMoveBC (H : Hash) (code : Bytecode) (a : Bytes) (v : Value) : Bytes :=
  (runDefault H code { stack := [], locals := [.vecU8 a, v], pc := 0, error := none }).topBytes

def adrsSetLayerBytecode : Bytecode := setU8 0

def adrsSetLayerMoveBC (H : Hash) (a : Bytes) (layer : UInt8) : Bytes :=
    setMoveBC H adrsSetLayerBytecode a (.u8 layer)

def adrsSetLayerSpec (a : Bytes) (layer : UInt8) : Bytes := replaceMid a [layer] 0 1

def adrsSetTypeBytecode : Bytecode := setU8 9

def adrsSetTypeMoveBC (H : Hash) (a : Bytes) (t : UInt8) : Bytes := setMoveBC H adrsSetTypeBytecode a (.u8 t)

def adrsSetTypeSpec (a : Bytes) (t : UInt8) : Bytes := replaceMid a [t] 9 10

def adrsSetKeypairBytecode : Bytecode := setU32 10

def adrsSetKeypairMoveBC (H : Hash) (a : Bytes) (kp : UInt64) : Bytes :=
    setMoveBC H adrsSetKeypairBytecode a (.u64 kp)

def adrsSetKeypairSpec (a : Bytes) (kp : Nat) : Bytes := replaceMid a (Fips205.u32BE kp) 10 14

def adrsSetTreeHeightBytecode : Bytecode := setU32 14

def adrsSetTreeHeightMoveBC (H : Hash) (a : Bytes) (h : UInt64) : Bytes :=
  setMoveBC H adrsSetTreeHeightBytecode a (.u64 h)

def adrsSetTreeHeightSpec (a : Bytes) (h : Nat) : Bytes := replaceMid a (Fips205.u32BE h) 14 18

def adrsSetTreeBytecode : Bytecode :=
  ⟨setByte 1 56 ++ setByte 2 48 ++ setByte 3 40 ++ setByte 4 32 ++ setByte 5 24 ++
    setByte 6 16 ++ setByte 7 8 ++ setLowByte 8 ++ [.CopyLoc 0, .Ret]⟩

def adrsSetTreeMoveBC (H : Hash) (a : Bytes) (tree : UInt64) : Bytes :=
    setMoveBC H adrsSetTreeBytecode a (.u64 tree)

def adrsSetTreeSpec (a : Bytes) (tree : Nat) : Bytes := replaceMid a (Fips205.u64BE tree) 1 9

end AdrsSetters

namespace AdrsSetTreeIndex

def adrsSetTreeIndexBytecode : Bytecode := AdrsSetters.setU32 18

def adrsSetTreeIndexMoveBC (H : Hash) (a : Bytes) (idx : UInt64) : Bytes :=
  AdrsSetters.setMoveBC H adrsSetTreeIndexBytecode a (.u64 idx)

def adrsSetTreeIndexSpec (a : Bytes) (idx : Nat) : Bytes := Fips205.slice a 0 18 ++ Fips205.u32BE idx

end AdrsSetTreeIndex

/-! ## Hashes -/

namespace Thash

def thashBytecode : Bytecode := #[
  -- buf := pre ++ adrs ++ m
  .CopyLoc 0, .StLoc 3, .CopyLoc 3, .CopyLoc 1, .VecAppend, .StLoc 3, .CopyLoc 3, .CopyLoc 2,
  .VecAppend, .StLoc 3,
  -- h := sha2_256(buf), k := 0
  .CopyLoc 3, .CallNative "sha2_256" 1, .StLoc 4, .LdU64 0, .StLoc 5,
  -- loop test (pc 15)
  .CopyLoc 5, .LdU64 16, .Lt, .BrFalse 28,
  -- h.pop_back()
  .CopyLoc 4, .VecPopBack, .Pop, .StLoc 4,
  .CopyLoc 5, .LdU64 1, .Add, .StLoc 5, .Branch 15,
  -- exit (pc 28)
  .CopyLoc 4, .Ret
]

def initialState (pre adrs m : Bytes) : State :=
  { stack := []
    locals := [.vecU8 pre, .vecU8 adrs, .vecU8 m, .vecU8 [], .vecU8 [], .u64 0]
    pc := 0
    error := none }

def thashMoveBC (H : Hash) (pre adrs m : Bytes) : Bytes :=
  (runDefault H thashBytecode (initialState pre adrs m)).topBytes

end Thash

namespace Hmsg

/-- The message digest, with MGF1 inlined. The targets of the exits are filled in last. -/
def hmsgBytecode : Bytecode := Id.run do
  let mut code : Bytecode := #[]
  -- inner = sha256(r ++ pk_seed ++ pk_root ++ m)
  code := code.append #[.CopyLoc 0, .CopyLoc 1, .VecAppend, .CopyLoc 2, .VecAppend, .CopyLoc 3, .VecAppend,
    .CallNative "sha2_256" 1, .StLoc 6]
  -- seed = r ++ pk_seed ++ inner
  code := code.append #[.CopyLoc 0, .CopyLoc 1, .VecAppend, .CopyLoc 6, .VecAppend, .StLoc 7]
  -- out := vec[], counter := 0
  code := code.append #[.VecEmpty, .StLoc 5, .LdU64 0, .StLoc 8]
  -- while out.length() < out_len
  let outerTest := code.size
  code := code.append #[.CopyLoc 5, .VecLen, .CopyLoc 4, .Lt, .BrFalse 0]
  let outerExitJump := code.size - 1
  -- ctr := the counter, big-endian
  code := code.append #[.VecEmpty, .StLoc 9]
  for shift in [24, 16, 8, 0] do
    code := code.append #[.CopyLoc 9, .CopyLoc 8, .LdU64 (UInt64.ofNat shift), .Shr, .LdU64 0xff, .BitAnd,
      .CallNative "u64_to_u8" 1, .VecPushBack, .StLoc 9]
  -- block := sha256(seed ++ ctr), j := 0
  code := code.append #[.CopyLoc 7, .CopyLoc 9, .VecAppend, .CallNative "sha2_256" 1, .StLoc 10,
    .LdU64 0, .StLoc 11]
  -- while j < 32 && out.length() < out_len
  let innerTest := code.size
  code := code.append #[.CopyLoc 11, .LdU64 32, .Lt, .BrFalse 0]
  let innerExitJumpJ := code.size - 1
  code := code.append #[.CopyLoc 5, .VecLen, .CopyLoc 4, .Lt, .BrFalse 0]
  let innerExitJumpOut := code.size - 1
  -- out.push_back(block[j])
  code := code.append #[.CopyLoc 5, .CopyLoc 10, .CopyLoc 11, .VecImmBorrow, .VecPushBack, .StLoc 5]
  code := code.append #[.CopyLoc 11, .LdU64 1, .Add, .StLoc 11, .Branch innerTest]
  -- counter += 1
  let afterInner := code.size
  code := code.append #[.CopyLoc 8, .LdU64 1, .Add, .StLoc 8, .Branch outerTest]
  let exitAddr := code.size
  code := code.append #[.CopyLoc 5, .Ret]
  code := code.set! outerExitJump (.BrFalse exitAddr)
  code := code.set! innerExitJumpJ (.BrFalse afterInner)
  code := code.set! innerExitJumpOut (.BrFalse afterInner)
  return code

def initialState (r pk_seed pk_root m : Bytes) (outLen : Nat) : State :=
  { stack := []
    locals := [.vecU8 r, .vecU8 pk_seed, .vecU8 pk_root, .vecU8 m, .u64 (UInt64.ofNat outLen),
      .vecU8 [], .vecU8 [], .vecU8 [], .u64 0, .vecU8 [], .vecU8 [], .u64 0]
    pc := 0
    error := none }

def hmsgMoveBC (H : Hash) (r pk_seed pk_root m : Bytes) : Bytes :=
  (runDefault H hmsgBytecode (initialState r pk_seed pk_root m Fips205.m_bytes)).topBytes

end Hmsg

/-! ## Digests -/

namespace ExtractForsIndices

def extractForsIndicesBytecode : Bytecode := #[
  -- out = [], bit_off = 0, i = 0
  .VecU32Empty, .StLoc 1, .LdU64 0, .StLoc 2, .LdU64 0, .StLoc 3,
  -- outer loop test (pc 6)
  .CopyLoc 3, .LdU64 14, .Lt, .BrFalse 60,
  -- v = 0, b = 0
  .LdU64 0, .StLoc 4, .LdU64 0, .StLoc 5,
  -- inner loop test (pc 14)
  .CopyLoc 5, .LdU64 12, .Lt, .BrFalse 46,
  -- bit_idx = bit_off + b
  .CopyLoc 2, .CopyLoc 5, .Add, .StLoc 6,
  -- v = (v << 1) | ((md[bit_idx >> 3] >> (7 - (bit_idx & 7))) & 1)
  .CopyLoc 0, .CopyLoc 6, .LdU64 3, .Shr, .VecImmBorrow, .CallNative "u8_to_u64" 1,
  .LdU64 7, .CopyLoc 6, .LdU64 7, .BitAnd, .Sub, .Shr, .LdU64 1, .BitAnd,
  .CopyLoc 4, .LdU64 1, .Shl, .BitOr, .StLoc 4,
  -- b += 1
  .CopyLoc 5, .LdU64 1, .Add, .StLoc 5, .Branch 14,
  -- out.push_back(v) (pc 46)
  .CopyLoc 1, .CopyLoc 4, .CallNative "u64_to_u32" 1, .VecU32PushBack, .StLoc 1,
  -- bit_off += 12, i += 1
  .CopyLoc 2, .LdU64 12, .Add, .StLoc 2, .CopyLoc 3, .LdU64 1, .Add, .StLoc 3, .Branch 6,
  -- exit (pc 60)
  .CopyLoc 1, .Ret
]

def initialState (md : Bytes) : State :=
  { stack := []
    locals := [.vecU8 md, .vecU32 [], .u64 0, .u64 0, .u64 0, .u64 0, .u64 0]
    pc := 0
    error := none }

def extractForsIndicesMoveBC (H : Hash) (md : Bytes) : List UInt32 :=
  (runDefault H extractForsIndicesBytecode (initialState md)).topInts

end ExtractForsIndices

namespace SplitDigest

def splitDigestBytecode : Bytecode := #[
  -- md = [], i = 0
  .VecEmpty, .StLoc 1, .LdU64 0, .StLoc 3,
  -- md loop (pc 4)
  .CopyLoc 3, .LdU64 21, .Lt, .BrFalse 19,
  .CopyLoc 1, .CopyLoc 0, .CopyLoc 3, .VecImmBorrow, .VecPushBack, .StLoc 1,
  .CopyLoc 3, .LdU64 1, .Add, .StLoc 3, .Branch 4,
  -- tree_idx = 0, i = 0
  .LdU64 0, .StLoc 2, .LdU64 0, .StLoc 3,
  -- tree loop (pc 23)
  .CopyLoc 3, .LdU64 7, .Lt, .BrFalse 43,
  .CopyLoc 2, .LdU64 8, .Shl, .CopyLoc 0, .CopyLoc 3, .LdU64 21, .Add, .VecImmBorrow,
  .CallNative "u8_to_u64" 1, .BitOr, .StLoc 2,
  .CopyLoc 3, .LdU64 1, .Add, .StLoc 3, .Branch 23,
  -- tree_idx &= 2^54 - 1
  .CopyLoc 2, .LdU64 0x3fffffffffffff, .BitAnd, .StLoc 2,
  -- leaf_idx = 0, p = 0
  .LdU64 0, .StLoc 4, .LdU64 0, .StLoc 5,
  -- leaf loop (pc 51)
  .CopyLoc 5, .LdU64 2, .Lt, .BrFalse 71,
  .CopyLoc 4, .LdU64 8, .Shl, .CopyLoc 0, .CopyLoc 5, .LdU64 28, .Add, .VecImmBorrow,
  .CallNative "u8_to_u64" 1, .BitOr, .StLoc 4,
  .CopyLoc 5, .LdU64 1, .Add, .StLoc 5, .Branch 51,
  -- leaf_idx &= 2^9 - 1
  .CopyLoc 4, .LdU64 0x1ff, .BitAnd, .StLoc 4,
  -- the triple
  .CopyLoc 1, .CopyLoc 2, .CopyLoc 4, .CallNative "u64_to_u32" 1, .Ret
]

/-- The last local is not used. -/
def initialState (digest : Bytes) : State :=
  { stack := []
    locals := [.vecU8 digest, .vecU8 [], .u64 0, .u64 0, .u64 0, .u64 0, .u8 0]
    pc := 0
    error := none }

def splitDigestMoveBC (H : Hash) (digest : Bytes) : Bytes × Nat × Nat :=
  match (runDefault H splitDigestBytecode (initialState digest)).stack with
  | leafIdx :: treeIdx :: md :: _ => (md.asVecU8!, treeIdx.asU64!.toNat, leafIdx.asU32!.toNat)
  | _ => ([], 0, 0)

end SplitDigest

/-! ## The verifier -/

namespace Composition

open Slice PkSeedPadded AdrsSetters AdrsSetTreeIndex Thash Hmsg ExtractForsIndices SplitDigest

section

variable (H : Hash)

def chainViaBC (x : Bytes) (iStart steps : Nat) (pre adrs : Bytes) : Bytes :=
  match steps with
  | 0 => x
  | n + 1 =>
    let adrs' := sliceMoveBC H adrs 0 22
    let adrs'' := adrsSetTreeIndexMoveBC H adrs' (UInt64.ofNat iStart)
    let tmp' := thashMoveBC H pre adrs'' x
    chainViaBC tmp' (iStart + 1) n pre adrs''

/-- The ends of the chains from `i` on. -/
def wotsAccumulator (digits : List Nat) (sig pre adrs : Bytes) (i : Nat) : Bytes :=
  if i ≥ Fips205.len then []
  else
    let aᵢ := adrsSetTreeHeightMoveBC H adrs (UInt64.ofNat i)
    let d := digits.getD i 0
    let piece := chainViaBC H (sliceMoveBC H sig (UInt64.ofNat (i * Fips205.n)) (UInt64.ofNat Fips205.n)) d
      (Fips205.w - 1 - d) pre aᵢ
    piece ++ wotsAccumulator digits sig pre adrs (i + 1)
termination_by Fips205.len - i
decreasing_by exact Nat.sub_succ_lt_self _ _ (Nat.lt_of_not_le ‹_›)

def wotsPkFromSigViaBC (sig msg_n pre adrs : Bytes) : Bytes :=
  let digits := Fips205.msgToChainDigits msg_n
  let aHash := adrsSetTypeMoveBC H adrs Fips205.AdrsType.wots_hash
  let tmp := wotsAccumulator H digits sig pre aHash 0
  let tAdrs := adrsSetTreeIndexMoveBC H
    (adrsSetTreeHeightMoveBC H (adrsSetTypeMoveBC H adrs Fips205.AdrsType.wots_pk) 0) 0
  thashMoveBC H pre tAdrs tmp

/-- The climb in tree `i` from level `j`. -/
def forsTreeWalk (pre adrs authPath node : Bytes) (cur j i : Nat) : Bytes :=
  if j ≥ Fips205.a then node
  else
    let sib := sliceMoveBC H authPath (UInt64.ofNat (j * Fips205.n)) (UInt64.ofNat Fips205.n)
    let aH := adrsSetTreeHeightMoveBC H adrs (UInt64.ofNat (j + 1))
    let nodesAtHeight := 2 ^ (Fips205.a - j - 1)
    let parentIdx := i * nodesAtHeight + cur / 2
    let aHi := adrsSetTreeIndexMoveBC H aH (UInt64.ofNat parentIdx)
    let bit := cur % 2
    let merged := if bit = 0 then node ++ sib else sib ++ node
    let node' := thashMoveBC H pre aHi merged
    forsTreeWalk pre adrs authPath node' (cur / 2) (j + 1) i
termination_by Fips205.a - j
decreasing_by exact Nat.sub_succ_lt_self _ _ (Nat.lt_of_not_le ‹_›)

/-- The roots of the trees from `i` on, behind `acc`. -/
def forsRootAccumulator (sigFors pre adrs : Bytes) (indices : List Nat) (acc : Bytes) (i : Nat) : Bytes :=
  if i ≥ Fips205.k then acc
  else
    let chunkBytes := (1 + Fips205.a) * Fips205.n
    let off := i * chunkBytes
    let skLeaf := sliceMoveBC H sigFors (UInt64.ofNat off) (UInt64.ofNat Fips205.n)
    let authPath := sliceMoveBC H sigFors (UInt64.ofNat (off + Fips205.n))
      (UInt64.ofNat (Fips205.a * Fips205.n))
    let idx := indices.getD i 0
    let leafAdrs := adrsSetTreeIndexMoveBC H
      (adrsSetTreeHeightMoveBC H (adrsSetTypeMoveBC H adrs Fips205.AdrsType.fors_tree) 0)
      (UInt64.ofNat (i * 2 ^ Fips205.a + idx))
    let node₀ := thashMoveBC H pre leafAdrs skLeaf
    let node := forsTreeWalk H pre adrs authPath node₀ idx 0 i
    forsRootAccumulator sigFors pre adrs indices (acc ++ node) (i + 1)
termination_by Fips205.k - i
decreasing_by exact Nat.sub_succ_lt_self _ _ (Nat.lt_of_not_le ‹_›)

def forsPkFromSigViaBC (sigFors md pre adrs : Bytes) : Bytes :=
  let indices := Fips205.extractForsIndices md
  let rootsBuf := forsRootAccumulator H sigFors pre adrs indices [] 0
  let rootsAdrs := adrsSetTreeIndexMoveBC H
    (adrsSetTreeHeightMoveBC H (adrsSetTypeMoveBC H adrs Fips205.AdrsType.fors_roots) 0) 0
  thashMoveBC H pre rootsAdrs rootsBuf

/-- The climb to the root of an XMSS tree from level `i`. -/
def xmssAuthWalk (pre adrs auth node : Bytes) (idx curIdx i : Nat) : Bytes :=
  if i ≥ Fips205.h_prime then node
  else
    let sib := sliceMoveBC H auth (UInt64.ofNat (i * Fips205.n)) (UInt64.ofNat Fips205.n)
    let aH := adrsSetTreeHeightMoveBC H adrs (UInt64.ofNat (i + 1))
    let aHi := adrsSetTreeIndexMoveBC H aH (UInt64.ofNat (curIdx / 2))
    let bit := (idx >>> i) &&& 1
    let merged := if bit = 0 then node ++ sib else sib ++ node
    let node' := thashMoveBC H pre aHi merged
    xmssAuthWalk pre adrs auth node' idx (curIdx / 2) (i + 1)
termination_by Fips205.h_prime - i
decreasing_by exact Nat.sub_succ_lt_self _ _ (Nat.lt_of_not_le ‹_›)

def xmssPkFromSigViaBC (idx : Nat) (sig msg_n pre adrs : Bytes) : Bytes :=
  let wotsSigBytes := Fips205.len * Fips205.n
  let wotsSig := sliceMoveBC H sig 0 (UInt64.ofNat wotsSigBytes)
  let auth := sliceMoveBC H sig (UInt64.ofNat wotsSigBytes) (UInt64.ofNat (Fips205.h_prime * Fips205.n))
  let aWots := adrsSetKeypairMoveBC H (adrsSetTypeMoveBC H adrs Fips205.AdrsType.wots_hash) (UInt64.ofNat idx)
  let leaf := wotsPkFromSigViaBC H wotsSig msg_n pre aWots
  let aTree := adrsSetKeypairMoveBC H (adrsSetTypeMoveBC H aWots Fips205.AdrsType.tree) 0
  xmssAuthWalk H pre aTree auth leaf idx idx 0

/-- The layers from `j` on. -/
def htLayers (sigHt msg_n pre node : Bytes) (curTree curLeaf j : Nat) : Bytes :=
  if j ≥ Fips205.d then node
  else
    let xmssSigBytes := (Fips205.len + Fips205.h_prime) * Fips205.n
    let layer := adrsSetTreeMoveBC H (adrsSetLayerMoveBC H (Fips205.zeros 22) (UInt8.ofNat j))
      (UInt64.ofNat curTree)
    let sliceJ := sliceMoveBC H sigHt (UInt64.ofNat (j * xmssSigBytes)) (UInt64.ofNat xmssSigBytes)
    let node' := xmssPkFromSigViaBC H curLeaf sliceJ node pre layer
    let leafMask := 2 ^ Fips205.h_prime - 1
    let curLeaf' := curTree &&& leafMask
    let curTree' := curTree >>> Fips205.h_prime
    htLayers sigHt msg_n pre node' curTree' curLeaf' (j + 1)
termination_by Fips205.d - j
decreasing_by exact Nat.sub_succ_lt_self _ _ (Nat.lt_of_not_le ‹_›)

def htRootFromSigViaBC (sigHt msg_n : Bytes) (treeIdx leafIdx : Nat) (pre : Bytes) : Bytes :=
  htLayers H sigHt msg_n pre msg_n treeIdx leafIdx 0

/-- FORS with the indices from the bytecode. -/
def forsPkFromSigViaBC_full (sigFors md pre adrs : Bytes) : Bytes :=
  let indicesU32 := extractForsIndicesMoveBC H md
  let indices := indicesU32.map (·.toNat)
  let rootsBuf := forsRootAccumulator H sigFors pre adrs indices [] 0
  let rootsAdrs := adrsSetTreeIndexMoveBC H
    (adrsSetTreeHeightMoveBC H (adrsSetTypeMoveBC H adrs Fips205.AdrsType.fors_roots) 0) 0
  thashMoveBC H pre rootsAdrs rootsBuf

/-- The verifiers, over the message digest, the splitter and FORS. -/
def verifyWith (hmsg : Bytes → Bytes → Bytes → Bytes → Bytes) (splitDigest : Bytes → Bytes × Nat × Nat)
    (forsPkFromSig : Bytes → Bytes → Bytes → Bytes → Bytes) (pk msg sig ctx : Bytes) : Bool :=
  if pk.length ≠ Fips205.pk_bytes then false
  else if sig.length ≠ Fips205.sig_bytes then false
  else if ctx.length > 255 then false
  else
    let pkSeed := sliceMoveBC H pk 0 (UInt64.ofNat Fips205.n)
    let pkRoot := sliceMoveBC H pk (UInt64.ofNat Fips205.n) (UInt64.ofNat Fips205.n)
    let wrapped := [0, UInt8.ofNat ctx.length] ++ ctx ++ msg
    let r := sliceMoveBC H sig 0 (UInt64.ofNat Fips205.n)
    let forsBytesLen := Fips205.k * (1 + Fips205.a) * Fips205.n
    let sigFors := sliceMoveBC H sig (UInt64.ofNat Fips205.n) (UInt64.ofNat forsBytesLen)
    let sigHt := sliceMoveBC H sig (UInt64.ofNat (Fips205.n + forsBytesLen))
      (UInt64.ofNat (Fips205.sig_bytes - Fips205.n - forsBytesLen))
    let digest := hmsg r pkSeed pkRoot wrapped
    let (md, treeIdx, leafIdx) := splitDigest digest
    let pre := pkSeedPaddedMoveBC H pkSeed
    let adrs := adrsSetKeypairMoveBC H
      (adrsSetTypeMoveBC H
        (adrsSetTreeMoveBC H (adrsSetLayerMoveBC H (Fips205.zeros 22) 0) (UInt64.ofNat treeIdx))
        Fips205.AdrsType.fors_tree)
      (UInt64.ofNat leafIdx)
    let forsRoot := forsPkFromSig sigFors md pre adrs
    let htRoot := htRootFromSigViaBC H sigHt forsRoot treeIdx leafIdx pre
    decide (htRoot = pkRoot)

def verifyViaBC : Bytes → Bytes → Bytes → Bytes → Bool :=
  verifyWith H (Fips205.hmsg H) Fips205.splitDigest (forsPkFromSigViaBC H)

def verifyViaBC_full : Bytes → Bytes → Bytes → Bytes → Bool :=
  verifyWith H (Fips205.hmsg H) (splitDigestMoveBC H) (forsPkFromSigViaBC_full H)

def verifyViaBC_total : Bytes → Bytes → Bytes → Bytes → Bool :=
  verifyWith H (hmsgMoveBC H) (splitDigestMoveBC H) (forsPkFromSigViaBC_full H)

end

end Composition

end SuiPq.Impl
