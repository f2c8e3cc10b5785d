import SuiPq.Impl.MoveVm

/-!
# The disassembled bytecodes of `sha2_128s`

The bytecodes of the verifier's functions as the compiler emitted them, with
the callees that they name, the locals that the callees declare, the states
in which they are run and what is read off the last state
(`proofs/Move/*Real.lean` and
`proofs/Move/MoveStdlib.lean`, a namespace for each).
-/

namespace SuiPq.Impl

open SuiPq.Impl.MoveVm

/-- The byte string on top of a stack, or an empty one. -/
def MoveVm.State.topBytes (s : State) : Bytes :=
  match s.stack with
  | .vecU8 v :: _ => v
  | _ => []

/-- The vector of `u32` on top of a stack, or an empty one. -/
def MoveVm.State.topInts (s : State) : List UInt32 :=
  match s.stack with
  | .vecU32 v :: _ => v
  | _ => []

/-! ## Byte strings -/

namespace MoveStdlib

/-- `vector::append<u8>(&mut dst, src)`. -/
def vectorAppendCallee : Bytecode := #[
  .CopyLoc 0, .ReadRef, .MoveLoc 1, .VecAppend, .CopyLoc 0, .WriteRef, .Ret
]

def vectorAppendLocalsTail : List Value := []

end MoveStdlib

open MoveStdlib

namespace SliceReal

def sliceRealBytecode : Bytecode := #[
  -- B0 (prologue)
  .LdConst (.vecU8 []), .StLoc 4, .LdU64 0, .StLoc 3,
  -- B1 (loop test)
  .CopyLoc 3, .CopyLoc 2, .Lt, .BrFalse 22,
  -- B2 (the compiler-emitted unconditional Branch into B3)
  .Branch 9,
  -- B3 (loop body)
  .MutBorrowLoc 4, .CopyLoc 0, .CopyLoc 1, .CopyLoc 3, .Add, .VecImmBorrow, .ReadRef, .VecPushBack,
  .MoveLoc 3, .LdU64 1, .Add, .StLoc 3, .Branch 4,
  -- B4 (epilogue)
  .MoveLoc 0, .Pop, .MoveLoc 4, .Ret
]

end SliceReal

namespace AdrsNewAppendSliceReal

def adrsNewRealBytecode : Bytecode := #[
  .LdConst (.vecU8 []), .StLoc 0, .LdU64 0, .StLoc 1, .CopyLoc 1, .LdU64 22, .Lt, .BrFalse 17,
  .Branch 9, .MutBorrowLoc 0, .LdU8 0, .VecPushBack, .MoveLoc 1, .LdU64 1, .Add, .StLoc 1,
  .Branch 4, .MoveLoc 0, .Ret
]

def appendSliceRealBytecode : Bytecode := #[
  .LdU64 0, .StLoc 4, .CopyLoc 4, .CopyLoc 3, .Lt, .BrFalse 20, .Branch 7, .CopyLoc 0, .CopyLoc 1,
  .CopyLoc 2, .CopyLoc 4, .Add, .VecImmBorrow, .ReadRef, .VecPushBack, .MoveLoc 4, .LdU64 1, .Add,
  .StLoc 4, .Branch 2, .MoveLoc 1, .Pop, .MoveLoc 0, .Pop, .Ret
]

end AdrsNewAppendSliceReal

namespace WriteU32BeReal

def writeU32BeRealBytecode : Bytecode := #[
  -- byte 0 (highest) at off+0: (v >> 24) & 0xff
  .CopyLoc 2, .LdU8 24, .Shr, .LdU32 255, .BitAnd, .CastU8, .CopyLoc 0, .CopyLoc 1, .LdU64 0, .Add,
  .VecMutBorrow, .WriteRef,
  -- byte 1 at off+1: (v >> 16) & 0xff
  .CopyLoc 2, .LdU8 16, .Shr, .LdU32 255, .BitAnd, .CastU8, .CopyLoc 0, .CopyLoc 1, .LdU64 1, .Add,
  .VecMutBorrow, .WriteRef,
  -- byte 2 at off+2: (v >> 8) & 0xff
  .CopyLoc 2, .LdU8 8, .Shr, .LdU32 255, .BitAnd, .CastU8, .CopyLoc 0, .CopyLoc 1, .LdU64 2, .Add,
  .VecMutBorrow, .WriteRef,
  -- byte 3 (lowest) at off+3: v & 0xff
  .MoveLoc 2, .LdU32 255, .BitAnd, .CastU8, .MoveLoc 0, .MoveLoc 1, .LdU64 3, .Add, .VecMutBorrow,
  .WriteRef, .Ret
]

end WriteU32BeReal

/-! ## Addresses -/

namespace WriteU64BeReal

def writeU64BeRealBytecode : Bytecode := #[
  -- B0
  .MoveLoc 2, .StLoc 4, .LdU64 8, .StLoc 3,
  -- B1 (loop test)
  .CopyLoc 3, .LdU64 0, .Gt, .BrFalse 28,
  -- B2 (compiler-emitted Branch)
  .Branch 9,
  -- B3 (body)
  .MoveLoc 3, .LdU64 1, .Sub, .StLoc 3, .CopyLoc 4, .LdU64 255, .BitAnd, .CastU8, .CopyLoc 0,
  .CopyLoc 1, .CopyLoc 3, .Add, .VecMutBorrow, .WriteRef, .MoveLoc 4, .LdU8 8, .Shr, .StLoc 4,
  .Branch 4,
  -- B4
  .MoveLoc 0, .Pop, .Ret
]

def writeU64BeLocalsTail : List Value := [.u64 0, .u64 0]

def adrsSetTreeRealBytecode : Bytecode := #[
  .MoveLoc 0, .LdU64 1, .MoveLoc 1, .Call writeU64BeRealBytecode writeU64BeLocalsTail 3, .Ret
]

end WriteU64BeReal

namespace AdrsSetTypeReal

def adrsSetTypeRealBytecode : Bytecode := #[
  .MoveLoc 1, .MoveLoc 0, .LdU64 9, .VecMutBorrow, .WriteRef, .Ret
]

def adrsSetLayerRealBytecode : Bytecode := #[
  .MoveLoc 1, .MoveLoc 0, .LdU64 0, .VecMutBorrow, .WriteRef, .Ret
]

end AdrsSetTypeReal

namespace AdrsSetKeypairReal

def writeU32BeCallee : Bytecode := WriteU32BeReal.writeU32BeRealBytecode

def writeU32BeLocalsTail : List Value := []

def adrsSetKeypairRealBytecode : Bytecode := #[
  .MoveLoc 0, .LdU64 10, .MoveLoc 1, .Call writeU32BeCallee writeU32BeLocalsTail 3, .Ret
]

def adrsSetTreeHeightRealBytecode : Bytecode := #[
  .MoveLoc 0, .LdU64 14, .MoveLoc 1, .Call writeU32BeCallee writeU32BeLocalsTail 3, .Ret
]

def adrsSetTreeIndexRealBytecode : Bytecode := #[
  .MoveLoc 0, .LdU64 18, .MoveLoc 1, .Call writeU32BeCallee writeU32BeLocalsTail 3, .Ret
]

end AdrsSetKeypairReal

/-! ## WOTS+ -/

namespace ThashReal

def thashRealBytecode : Bytecode := #[
  -- B0: buf := *prefix
  .MoveLoc 0, .ReadRef, .StLoc 3,
  -- buf ++= *adrs
  .MutBorrowLoc 3, .MoveLoc 1, .ReadRef, .Call vectorAppendCallee vectorAppendLocalsTail 2,
  -- buf ++= *m
  .MutBorrowLoc 3, .MoveLoc 2, .ReadRef, .Call vectorAppendCallee vectorAppendLocalsTail 2,
  -- h := sha256(buf)
  .MoveLoc 3, .CallNative "sha2_256" 1, .StLoc 4, .LdU64 0, .StLoc 5,
  -- B1: truncate loop (i < 16)
  .CopyLoc 5, .LdU64 16, .Lt, .BrFalse 29,
  -- B2
  .Branch 21,
  -- B3: drop one byte
  .MutBorrowLoc 4, .VecPopBack, .Pop, .MoveLoc 5, .LdU64 1, .Add, .StLoc 5, .Branch 16,
  -- B4: return h
  .MoveLoc 4, .Ret
]

end ThashReal

namespace BaseWReal

def baseWRealBytecode : Bytecode := #[
  -- B0: prologue
  .LdConst (.vecU32 []), .StLoc 5, .LdU64 0, .StLoc 4, .LdU64 0, .StLoc 2, .LdU32 0, .StLoc 6,
  .LdU64 0, .StLoc 3,
  -- B1: loop test
  .CopyLoc 3, .CopyLoc 1, .Lt, .BrFalse 51,
  -- B2: compiler-emitted Branch
  .Branch 15,
  -- B3: refill check (bits == 0?)
  .CopyLoc 2, .LdU64 0, .Eq, .BrFalse 31,
  -- B4: refill block
  .CopyLoc 0, .CopyLoc 4, .VecImmBorrow, .ReadRef, .CastU32, .StLoc 6, .MoveLoc 4, .LdU64 1, .Add,
  .StLoc 4, .LdU64 8, .StLoc 2,
  -- B5: digit emit
  .MoveLoc 2, .LdU64 4, .Sub, .StLoc 2, .MutBorrowLoc 5, .CopyLoc 6, .CopyLoc 2, .CastU8, .Shr,
  .LdU64 16, .CastU32, .LdU32 1, .Sub, .BitAnd, .VecU32PushBack, .MoveLoc 3, .LdU64 1, .Add,
  .StLoc 3, .Branch 10,
  -- B6: epilogue
  .MoveLoc 0, .Pop, .MoveLoc 5, .Ret
]

def initialState (msg : Bytes) (outlen : Nat) : State :=
  { stack := []
    locals := [.vecU8 msg, .u64 (UInt64.ofNat outlen), .u64 0, .u64 0, .u64 0, .vecU32 [], .u32 0]
    pc := 0
    error := none }

end BaseWReal

namespace WotsChecksumReal

/-- `bits`, `i`, `in_idx`, `out`, `total`. -/
def baseWLocalsTail : List Value := [.u64 0, .u64 0, .u64 0, .vecU32 [], .u32 0]

def wotsChecksumRealBytecode : Bytecode := #[
  -- B0
  .LdU64 0, .StLoc 1, .LdU64 0, .StLoc 3,
  -- B1 (accumulator test: i < 32)
  .CopyLoc 3, .LdU64 32, .Lt, .BrFalse 27,
  -- B2
  .Branch 9,
  -- B3 (csum += (16-1) - digits[i])
  .MoveLoc 1, .LdU64 16, .CastU64, .LdU64 1, .Sub, .CopyLoc 0, .CopyLoc 3, .VecU32ImmBorrow,
  .ReadRef, .CastU64, .Sub, .Add, .StLoc 1, .MoveLoc 3, .LdU64 1, .Add, .StLoc 3, .Branch 4,
  -- B4 (shift + len_bytes + csum_bytes init)
  .LdU64 8, .LdU64 3, .LdU64 4, .Mul, .LdU64 8, .Mod, .Sub, .LdU64 8, .Mod, .CastU8, .StLoc 7,
  .MoveLoc 1, .MoveLoc 7, .Shl, .StLoc 1, .LdU64 3, .LdU64 4, .Mul, .LdU64 7, .Add, .LdU64 8, .Div,
  .StLoc 6, .LdConst (.vecU8 []), .StLoc 2, .LdU64 0, .StLoc 5,
  -- B5 (zero-fill loop: k < len_bytes)
  .CopyLoc 5, .CopyLoc 6, .Lt, .BrFalse 67,
  -- B6
  .Branch 59,
  -- B7 (csum_bytes.push_back(0))
  .MutBorrowLoc 2, .LdU8 0, .VecPushBack, .MoveLoc 5, .LdU64 1, .Add, .StLoc 5, .Branch 54,
  -- B8 (j := len_bytes)
  .MoveLoc 6, .StLoc 4,
  -- B9 (BE-pack countdown: j > 0)
  .CopyLoc 4, .LdU64 0, .Gt, .BrFalse 91,
  -- B10
  .Branch 74,
  -- B11 (csum_bytes[j-1] := csum & 0xff ; csum >>= 8)
  .MoveLoc 4, .LdU64 1, .Sub, .StLoc 4, .CopyLoc 1, .LdU64 255, .BitAnd, .CastU8, .MutBorrowLoc 2,
  .CopyLoc 4, .VecMutBorrow, .WriteRef, .MoveLoc 1, .LdU8 8, .Shr, .StLoc 1, .Branch 69,
  -- B12 (call base_w(csum_bytes, 3))
  .ImmBorrowLoc 2, .LdU64 3, .Call BaseWReal.baseWRealBytecode baseWLocalsTail 2, .Ret
]

def initialState (digits : List UInt32) : State :=
  { stack := []
    locals := [.vecU32 digits, .u64 0, .vecU8 [], .u64 0, .u64 0, .u64 0, .u64 0, .u8 0]
    pc := 0
    error := none }

end WotsChecksumReal

namespace MsgToChainDigitsReal

/-- `csum`, `csum_bytes`, `i`, `j`, `k`, `len_bytes`, `shift`. -/
def wotsChecksumLocalsTail : List Value :=
  [.u64 0, .vecU8 [], .u64 0, .u64 0, .u64 0, .u64 0, .u8 0]

def msgToChainDigitsRealBytecode : Bytecode := #[
  -- B0
  .MoveLoc 0, .LdU64 32, .Call BaseWReal.baseWRealBytecode WotsChecksumReal.baseWLocalsTail 2,
  .StLoc 2, .ImmBorrowLoc 2,
  .Call WotsChecksumReal.wotsChecksumRealBytecode wotsChecksumLocalsTail 1, .StLoc 1, .LdU64 0,
  .StLoc 3,
  -- B1 (append loop: i < 3)
  .CopyLoc 3, .LdU64 3, .Lt, .BrFalse 25,
  -- B2
  .Branch 14,
  -- B3: digits.push_back(csum_digits[i])
  .MutBorrowLoc 2, .ImmBorrowLoc 1, .CopyLoc 3, .VecU32ImmBorrow, .ReadRef, .VecU32PushBack,
  .MoveLoc 3, .LdU64 1, .Add, .StLoc 3, .Branch 9,
  -- B4
  .MoveLoc 2, .Ret
]

def initialState (msgN : Bytes) : State :=
  { stack := []
    locals := [.vecU8 msgN, .vecU32 [], .vecU32 [], .u64 0]
    pc := 0
    error := none }

def msgToChainDigitsRealMoveBC (H : Hash) (msgN : Bytes) : List UInt32 :=
  (runDefault H msgToChainDigitsRealBytecode (initialState msgN)).topInts

end MsgToChainDigitsReal

namespace ChainReal

def adrsSetTreeIndexCallee : Bytecode := AdrsSetKeypairReal.adrsSetTreeIndexRealBytecode

def adrsSetTreeIndexLocalsTail : List Value := []

def chainRealBytecode : Bytecode := #[
  -- B0: tmp := vec[]; s := 0
  .LdConst (.vecU8 []), .StLoc 12, .LdU64 0, .StLoc 11,
  -- B1: copy 16 bytes src[src_off + s] into tmp
  .CopyLoc 11, .LdU64 16, .Lt, .BrFalse 22,
  -- B2
  .Branch 9,
  -- B3
  .MutBorrowLoc 12, .CopyLoc 0, .CopyLoc 1, .CopyLoc 11, .Add, .VecImmBorrow, .ReadRef,
  .VecPushBack, .MoveLoc 11, .LdU64 1, .Add, .StLoc 11, .Branch 4,
  -- B4: j := i_start; end := i_start + steps
  .MoveLoc 0, .Pop, .CopyLoc 2, .StLoc 9, .MoveLoc 2, .MoveLoc 3, .Add, .StLoc 7,
  -- B5: while j < end
  .CopyLoc 9, .CopyLoc 7, .Lt, .BrFalse 73,
  -- B6
  .Branch 35,
  -- B7: adrs_set_tree_index(adrs, j)
  .CopyLoc 5, .CopyLoc 9, .Call adrsSetTreeIndexCallee adrsSetTreeIndexLocalsTail 2,
  -- buf := *prefix
  .CopyLoc 4, .ReadRef, .StLoc 6,
  -- buf ++= *adrs
  .MutBorrowLoc 6, .CopyLoc 5, .ReadRef, .Call vectorAppendCallee vectorAppendLocalsTail 2,
  -- buf ++= tmp
  .MutBorrowLoc 6, .MoveLoc 12, .Call vectorAppendCallee vectorAppendLocalsTail 2,
  -- h := sha256(buf)
  .MoveLoc 6, .CallNative "sha2_256" 1, .StLoc 8, .LdU64 0, .StLoc 10,
  -- B8: truncate h to 16
  .CopyLoc 10, .LdU64 16, .Lt, .BrFalse 66,
  -- B9
  .Branch 58,
  -- B10
  .MutBorrowLoc 8, .VecPopBack, .Pop, .MoveLoc 10, .LdU64 1, .Add, .StLoc 10, .Branch 53,
  -- B11: tmp := h ; j += 1
  .MoveLoc 8, .StLoc 12, .MoveLoc 9, .LdU32 1, .Add, .StLoc 9, .Branch 30,
  -- B12: epilogue
  .MoveLoc 4, .Pop, .MoveLoc 5, .Pop, .MoveLoc 12, .Ret
]

/-- The address is in the local 13. -/
def initialState (src : Bytes) (srcOff iStart steps : Nat) (pre adrsBytes : Bytes) : State :=
  { stack := []
    locals := [.vecU8 src, .u64 (UInt64.ofNat srcOff), .u32 (UInt32.ofNat iStart),
      .u32 (UInt32.ofNat steps), .vecU8 pre, .locRef 13, .vecU8 [], .u32 0, .vecU8 [], .u32 0,
      .u64 0, .u64 0, .vecU8 [], .vecU8 adrsBytes]
    pc := 0
    error := none }

def chainRealMoveBC (H : Hash) (src : Bytes) (srcOff iStart steps : Nat) (pre adrsBytes : Bytes) : Bytes :=
  (runDefault H chainRealBytecode (initialState src srcOff iStart steps pre adrsBytes)).topBytes

end ChainReal

namespace WotsPkFromSigReal

/-- `csum_digits`, `digits`, `i`. -/
def msgToChainDigitsLocalsTail : List Value := [.vecU32 [], .vecU32 [], .u64 0]

def adrsSetTypeLocalsTail : List Value := []

def adrsSetTreeHeightLocalsTail : List Value := []

def adrsSetTreeIndexLocalsTail : List Value := []

/-- `buf`, `end`, `h`, `j`, `k`, `s`, `tmp`. -/
def chainLocalsTail : List Value :=
  [.vecU8 [], .u32 0, .vecU8 [], .u32 0, .u64 0, .u64 0, .vecU8 []]

/-- `buf`, `h`, `i`. -/
def thashLocalsTail : List Value := [.vecU8 [], .vecU8 [], .u64 0]

def wotsPkFromSigRealBytecode : Bytecode := #[
  -- B0: digits := msg_to_chain_digits(msg_n); tmp := vec[]; a := *adrs; adrs_set_type(a, 0)
  .MoveLoc 1, .Call MsgToChainDigitsReal.msgToChainDigitsRealBytecode msgToChainDigitsLocalsTail 1,
  .StLoc 6, .LdConst (.vecU8 []), .StLoc 10, .CopyLoc 3, .ReadRef, .StLoc 4, .MutBorrowLoc 4,
  .LdU8 0, .Call AdrsSetTypeReal.adrsSetTypeRealBytecode adrsSetTypeLocalsTail 2, .LdU64 0,
  .StLoc 7,
  -- B1: for i in 0..35
  .CopyLoc 7, .LdU64 35, .Lt, .BrFalse 51,
  -- B2
  .Branch 18,
  -- B3: adrs_set_tree_height(a, i); d := digits[i]; piece := chain(...); tmp ++= piece
  .MutBorrowLoc 4, .CopyLoc 7, .CastU32,
  .Call AdrsSetKeypairReal.adrsSetTreeHeightRealBytecode adrsSetTreeHeightLocalsTail 2,
  .ImmBorrowLoc 6, .CopyLoc 7, .VecU32ImmBorrow, .ReadRef, .CastU32, .StLoc 5, .CopyLoc 0,
  .CopyLoc 7, .LdU64 16, .Mul, .CopyLoc 5, .LdU64 16, .CastU32, .LdU32 1, .Sub, .MoveLoc 5, .Sub,
  .CopyLoc 2, .MutBorrowLoc 4, .Call ChainReal.chainRealBytecode chainLocalsTail 6, .StLoc 8,
  .MutBorrowLoc 10, .MoveLoc 8, .Call vectorAppendCallee vectorAppendLocalsTail 2, .MoveLoc 7,
  .LdU64 1, .Add, .StLoc 7, .Branch 13,
  -- B4: t_adrs := set_tree_index(set_tree_height(set_type(*adrs, 1), 0), 0); thash
  .MoveLoc 0, .Pop, .MoveLoc 3, .ReadRef, .StLoc 9, .MutBorrowLoc 9, .LdU8 1,
  .Call AdrsSetTypeReal.adrsSetTypeRealBytecode adrsSetTypeLocalsTail 2, .MutBorrowLoc 9, .LdU32 0,
  .Call AdrsSetKeypairReal.adrsSetTreeHeightRealBytecode adrsSetTreeHeightLocalsTail 2,
  .MutBorrowLoc 9, .LdU32 0,
  .Call AdrsSetKeypairReal.adrsSetTreeIndexRealBytecode adrsSetTreeIndexLocalsTail 2, .MoveLoc 2,
  .ImmBorrowLoc 9, .ImmBorrowLoc 10, .Call ThashReal.thashRealBytecode thashLocalsTail 3, .Ret
]

/-- The address is in the local 11. -/
def initialState (sig msgN pre adrsBytes : Bytes) : State :=
  { stack := []
    locals := [.vecU8 sig, .vecU8 msgN, .vecU8 pre, .locRef 11, .vecU8 [], .u32 0, .vecU32 [],
      .u64 0, .vecU8 [], .vecU8 [], .vecU8 [], .vecU8 adrsBytes]
    pc := 0
    error := none }

def wotsPkFromSigRealMoveBC (H : Hash) (sig msgN pre adrsBytes : Bytes) : Bytes :=
  (runDefault H wotsPkFromSigRealBytecode (initialState sig msgN pre adrsBytes)).topBytes

end WotsPkFromSigReal

/-! ## The hypertree -/

namespace XmssPkFromSigReal

def sliceLocalsTail : List Value := [.u64 0, .vecU8 []]

def adrsSetTypeLocalsTail : List Value := []

def adrsSetKeypairLocalsTail : List Value := []

def adrsSetTreeHeightLocalsTail : List Value := []

def adrsSetTreeIndexLocalsTail : List Value := []

def appendSliceLocalsTail : List Value := [.u64 0]

/-- `a`, `d`, `digits`, `i`, `piece`, `t_adrs`, `tmp`. -/
def wotsPkLocalsTail : List Value :=
  [.vecU8 [], .u32 0, .vecU32 [], .u64 0, .vecU8 [], .vecU8 [], .vecU8 []]

abbrev sliceCallee := SliceReal.sliceRealBytecode
abbrev adrsSetTypeCallee := AdrsSetTypeReal.adrsSetTypeRealBytecode
abbrev adrsSetKeypairCallee := AdrsSetKeypairReal.adrsSetKeypairRealBytecode
abbrev adrsSetTreeHeightCallee := AdrsSetKeypairReal.adrsSetTreeHeightRealBytecode
abbrev adrsSetTreeIndexCallee := AdrsSetKeypairReal.adrsSetTreeIndexRealBytecode
abbrev appendSliceCallee := AdrsNewAppendSliceReal.appendSliceRealBytecode
abbrev wotsPkCallee := WotsPkFromSigReal.wotsPkFromSigRealBytecode

def xmssPkFromSigRealBytecode : Bytecode := #[
  -- B0: wots_sig := slice(sig, 0, 35*16); auth := slice(sig, 560, 9*16)
  .CopyLoc 1, .LdU64 0, .LdU64 35, .LdU64 16, .Mul, .Call sliceCallee sliceLocalsTail 3, .StLoc 13,
  .MoveLoc 1, .LdU64 35, .LdU64 16, .Mul, .LdU64 9, .LdU64 16, .Mul,
  .Call sliceCallee sliceLocalsTail 3, .StLoc 5,
  -- adrs_set_type(adrs, wots_hash=0); adrs_set_keypair(adrs, idx)
  .CopyLoc 4, .LdU8 0, .Call adrsSetTypeCallee adrsSetTypeLocalsTail 2, .CopyLoc 4, .CopyLoc 0,
  .Call adrsSetKeypairCallee adrsSetKeypairLocalsTail 2,
  -- node := wots_pk_from_sig(wots_sig, msg_n, prefix, adrs)
  .ImmBorrowLoc 13, .MoveLoc 2, .CopyLoc 3, .CopyLoc 4, .FreezeRef,
  .Call wotsPkCallee wotsPkLocalsTail 4, .StLoc 12,
  -- adrs_set_type(adrs, tree=2); adrs_set_keypair(adrs, 0)
  .CopyLoc 4, .LdU8 2, .Call adrsSetTypeCallee adrsSetTypeLocalsTail 2, .CopyLoc 4, .LdU32 0,
  .Call adrsSetKeypairCallee adrsSetKeypairLocalsTail 2, .CopyLoc 0, .StLoc 8, .LdU64 0, .StLoc 10,
  -- B1 (loop: i < 9)
  .CopyLoc 10, .LdU64 9, .Lt, .BrFalse 123,
  -- B2
  .Branch 44,
  -- B3
  .CopyLoc 4, .CopyLoc 10, .CastU32, .LdU32 1, .Add,
  .Call adrsSetTreeHeightCallee adrsSetTreeHeightLocalsTail 2, .CopyLoc 4, .CopyLoc 8, .LdU8 1,
  .Shr, .Call adrsSetTreeIndexCallee adrsSetTreeIndexLocalsTail 2, .CopyLoc 0, .CopyLoc 10, .CastU8,
  .Shr, .LdU32 1, .BitAnd, .StLoc 6, .CopyLoc 3, .ReadRef, .StLoc 7, .MutBorrowLoc 7, .CopyLoc 4,
  .ReadRef, .Call vectorAppendCallee vectorAppendLocalsTail 2, .MoveLoc 6, .LdU32 0, .Eq,
  .BrFalse 84,
  -- B4 (bit == 0: buf ++= node ; buf ++= auth[i])
  .MutBorrowLoc 7, .MoveLoc 12, .Call vectorAppendCallee vectorAppendLocalsTail 2, .MutBorrowLoc 7,
  .ImmBorrowLoc 5, .CopyLoc 10, .LdU64 16, .Mul, .LdU64 16,
  .Call appendSliceCallee appendSliceLocalsTail 4, .Branch 94,
  -- B5 (bit != 0: buf ++= auth[i] ; buf ++= node)
  .MutBorrowLoc 7, .ImmBorrowLoc 5, .CopyLoc 10, .LdU64 16, .Mul, .LdU64 16,
  .Call appendSliceCallee appendSliceLocalsTail 4, .MutBorrowLoc 7, .MoveLoc 12,
  .Call vectorAppendCallee vectorAppendLocalsTail 2,
  -- B6 (h := sha256(buf))
  .MoveLoc 7, .CallNative "sha2_256" 1, .StLoc 9, .LdU64 0, .StLoc 11,
  -- B7 (truncate to 16)
  .CopyLoc 11, .LdU64 16, .Lt, .BrFalse 112,
  -- B8
  .Branch 104,
  -- B9
  .MutBorrowLoc 9, .VecPopBack, .Pop, .MoveLoc 11, .LdU64 1, .Add, .StLoc 11, .Branch 99,
  -- B10 (node := h ; cur_idx >>= 1 ; i += 1)
  .MoveLoc 9, .StLoc 12, .MoveLoc 8, .LdU8 1, .Shr, .StLoc 8, .MoveLoc 10, .LdU64 1, .Add,
  .StLoc 10, .Branch 39,
  -- B11 (epilogue)
  .MoveLoc 3, .Pop, .MoveLoc 4, .Pop, .MoveLoc 12, .Ret
]

/-- The address is in the local 14. -/
def initialState (idx : Nat) (sig msgN pre adrsBytes : Bytes) : State :=
  { stack := []
    locals := [.u32 (UInt32.ofNat idx), .vecU8 sig, .vecU8 msgN, .vecU8 pre, .locRef 14, .vecU8 [],
      .u32 0, .vecU8 [], .u32 0, .vecU8 [], .u64 0, .u64 0, .vecU8 [], .vecU8 [], .vecU8 adrsBytes]
    pc := 0
    error := none }

def xmssPkFromSigRealMoveBC (H : Hash) (idx : Nat) (sig msgN pre adrsBytes : Bytes) : Bytes :=
  (runDefault H xmssPkFromSigRealBytecode (initialState idx sig msgN pre adrsBytes)).topBytes

end XmssPkFromSigReal

namespace HtRootFromSigReal

/-- `a`, `i`. -/
def adrsNewLocalsTail : List Value := [.vecU8 [], .u64 0]

def adrsSetLayerLocalsTail : List Value := []

def adrsSetTreeLocalsTail : List Value := []

def sliceLocalsTail : List Value := [.u64 0, .vecU8 []]

/-- `auth`, `bit`, `buf`, `cur_idx`, `h`, `i`, `k`, `node`, `wots_sig`. -/
def xmssLocalsTail : List Value :=
  [.vecU8 [], .u32 0, .vecU8 [], .u32 0, .vecU8 [], .u64 0, .u64 0, .vecU8 [], .vecU8 []]

abbrev adrsNewCallee := AdrsNewAppendSliceReal.adrsNewRealBytecode
abbrev adrsSetLayerCallee := AdrsSetTypeReal.adrsSetLayerRealBytecode
abbrev adrsSetTreeCallee := WriteU64BeReal.adrsSetTreeRealBytecode
abbrev sliceCallee := SliceReal.sliceRealBytecode
abbrev xmssCallee := XmssPkFromSigReal.xmssPkFromSigRealBytecode

def htRootFromSigRealBytecode : Bytecode := #[
  -- B0
  .LdU64 35, .LdU64 9, .Add, .LdU64 16, .Mul, .StLoc 12, .MoveLoc 1, .ReadRef, .StLoc 10,
  .MoveLoc 2, .StLoc 7, .MoveLoc 3, .StLoc 6, .LdU64 0, .StLoc 8,
  -- B1 (loop: j < 7)
  .CopyLoc 8, .LdU64 7, .Lt, .BrFalse 65,
  -- B2
  .Branch 20,
  -- B3
  .Call adrsNewCallee adrsNewLocalsTail 0, .StLoc 5, .MutBorrowLoc 5, .CopyLoc 8, .CastU8,
  .Call adrsSetLayerCallee adrsSetLayerLocalsTail 2, .MutBorrowLoc 5, .CopyLoc 7,
  .Call adrsSetTreeCallee adrsSetTreeLocalsTail 2, .CopyLoc 0, .CopyLoc 8, .CopyLoc 12, .Mul,
  .CopyLoc 12, .Call sliceCallee sliceLocalsTail 3, .StLoc 11, .MoveLoc 6, .ImmBorrowLoc 11,
  .ImmBorrowLoc 10, .CopyLoc 4, .MutBorrowLoc 5, .Call xmssCallee xmssLocalsTail 5, .StLoc 10,
  -- leaf_mask = (1 << 9) - 1 ; cur_leaf = cur_tree & leaf_mask ; cur_tree >>= 9
  .LdU64 1, .LdU64 9, .CastU8, .Shl, .LdU64 1, .Sub, .StLoc 9, .CopyLoc 7, .MoveLoc 9, .BitAnd,
  .CastU32, .StLoc 6, .MoveLoc 7, .LdU64 9, .CastU8, .Shr, .StLoc 7, .MoveLoc 8, .LdU64 1, .Add,
  .StLoc 8, .Branch 15,
  -- B4 (epilogue)
  .MoveLoc 0, .Pop, .MoveLoc 4, .Pop, .MoveLoc 10, .Ret
]

def initialState (sigHt msgN : Bytes) (treeIdx leafIdx : Nat) (pre : Bytes) : State :=
  { stack := []
    locals := [.vecU8 sigHt, .vecU8 msgN, .u64 (UInt64.ofNat treeIdx), .u32 (UInt32.ofNat leafIdx),
      .vecU8 pre, .vecU8 [], .u32 0, .u64 0, .u64 0, .u64 0, .vecU8 [], .vecU8 [], .u64 0]
    pc := 0
    error := none }

def htRootFromSigRealMoveBC (H : Hash) (sigHt msgN : Bytes) (treeIdx leafIdx : Nat) (pre : Bytes) : Bytes :=
  (runDefault H htRootFromSigRealBytecode (initialState sigHt msgN treeIdx leafIdx pre)).topBytes

end HtRootFromSigReal

/-! ## FORS -/

namespace ExtractForsIndicesReal

def extractForsIndicesRealBytecode : Bytecode := #[
  -- B0
  .LdConst (.vecU32 []), .StLoc 6, .LdU64 0, .StLoc 4, .LdU64 0, .StLoc 5,
  -- B1 (outer test: i < 14)
  .CopyLoc 5, .LdU64 14, .Lt, .BrFalse 64,
  -- B2
  .Branch 11,
  -- B3 (per-output init: v := 0, b := 0)
  .LdU32 0, .StLoc 7, .LdU64 0, .StLoc 1,
  -- B4 (inner test: b < 12)
  .CopyLoc 1, .LdU64 12, .Lt, .BrFalse 52,
  -- B5
  .Branch 20,
  -- B6 (extract one bit and append to v)
  .CopyLoc 4, .CopyLoc 1, .Add, .StLoc 3, .CopyLoc 0, .CopyLoc 3, .LdU8 3, .Shr, .VecImmBorrow,
  .ReadRef, .LdU8 7, .MoveLoc 3, .LdU64 7, .BitAnd, .CastU8, .Sub, .Shr, .LdU8 1, .BitAnd, .CastU32,
  .StLoc 2, .MoveLoc 7, .LdU8 1, .Shl, .MoveLoc 2, .BitOr, .StLoc 7, .MoveLoc 1, .LdU64 1, .Add,
  .StLoc 1, .Branch 15,
  -- B7 (emit v)
  .MutBorrowLoc 6, .MoveLoc 7, .VecU32PushBack, .MoveLoc 4, .LdU64 12, .Add, .StLoc 4, .MoveLoc 5,
  .LdU64 1, .Add, .StLoc 5, .Branch 6,
  -- B8 (epilogue)
  .MoveLoc 0, .Pop, .MoveLoc 6, .Ret
]

def initialState (md : Bytes) : State :=
  { stack := []
    locals := [.vecU8 md, .u64 0, .u32 0, .u64 0, .u64 0, .u64 0, .vecU32 [], .u32 0]
    pc := 0
    error := none }

def extractForsIndicesRealMoveBC (H : Hash) (md : Bytes) : List UInt32 :=
  (runDefault H extractForsIndicesRealBytecode (initialState md)).topInts

end ExtractForsIndicesReal

namespace ForsPkFromSigReal

/-- `b`, `bit`, `bit_idx`, `bit_off`, `i`, `out`, `v`. -/
def extractForsLocalsTail : List Value :=
  [.u64 0, .u32 0, .u64 0, .u64 0, .u64 0, .vecU32 [], .u32 0]

def sliceLocalsTail : List Value := [.u64 0, .vecU8 []]

def adrsSetTypeLocalsTail : List Value := []

def adrsSetTreeHeightLocalsTail : List Value := []

def adrsSetTreeIndexLocalsTail : List Value := []

def thashLocalsTail : List Value := [.vecU8 [], .vecU8 [], .u64 0]

def appendSliceLocalsTail : List Value := [.u64 0]

abbrev extractForsCallee := ExtractForsIndicesReal.extractForsIndicesRealBytecode
abbrev sliceCallee := SliceReal.sliceRealBytecode
abbrev adrsSetTypeCallee := AdrsSetTypeReal.adrsSetTypeRealBytecode
abbrev adrsSetTreeHeightCallee := AdrsSetKeypairReal.adrsSetTreeHeightRealBytecode
abbrev adrsSetTreeIndexCallee := AdrsSetKeypairReal.adrsSetTreeIndexRealBytecode
abbrev thashCallee := ThashReal.thashRealBytecode
abbrev appendSliceCallee := AdrsNewAppendSliceReal.appendSliceRealBytecode

def forsPkFromSigRealBytecode : Bytecode := #[
  -- B0
  .LdU64 1, .LdU64 12, .Add, .LdU64 16, .Mul, .StLoc 7, .MoveLoc 1,
  .Call extractForsCallee extractForsLocalsTail 1, .StLoc 12, .LdConst (.vecU8 []), .StLoc 22,
  .LdU64 0, .StLoc 10,
  -- B1 (outer loop: i < 14)
  .CopyLoc 10, .LdU64 14, .Lt, .BrFalse 174,
  -- B2
  .Branch 18,
  -- B3
  .CopyLoc 10, .CopyLoc 7, .Mul, .StLoc 18, .CopyLoc 0, .CopyLoc 18, .LdU64 16,
  .Call sliceCallee sliceLocalsTail 3, .StLoc 23, .CopyLoc 0, .MoveLoc 18, .LdU64 16, .Add,
  .LdU64 12, .LdU64 16, .Mul, .Call sliceCallee sliceLocalsTail 3, .StLoc 4, .ImmBorrowLoc 12,
  .CopyLoc 10, .VecU32ImmBorrow, .ReadRef, .StLoc 11, .CopyLoc 3, .ReadRef, .StLoc 14,
  .MutBorrowLoc 14, .LdU8 3, .Call adrsSetTypeCallee adrsSetTypeLocalsTail 2, .MutBorrowLoc 14,
  .LdU32 0, .Call adrsSetTreeHeightCallee adrsSetTreeHeightLocalsTail 2, .CopyLoc 10, .CastU32,
  .LdU64 12, .CastU8, .Shl, .CopyLoc 11, .Add, .StLoc 15, .MutBorrowLoc 14, .MoveLoc 15,
  .Call adrsSetTreeIndexCallee adrsSetTreeIndexLocalsTail 2, .CopyLoc 2, .ImmBorrowLoc 14,
  .ImmBorrowLoc 23, .Call thashCallee thashLocalsTail 3, .StLoc 16, .MoveLoc 11, .StLoc 8, .LdU64 0,
  .StLoc 13,
  -- B4 (inner loop: j < 12)
  .CopyLoc 13, .LdU64 12, .Lt, .BrFalse 166,
  -- B5
  .Branch 75,
  -- B6
  .MutBorrowLoc 14, .CopyLoc 13, .CastU32, .LdU32 1, .Add,
  .Call adrsSetTreeHeightCallee adrsSetTreeHeightLocalsTail 2, .LdU32 1, .LdU64 12, .CopyLoc 13,
  .Sub, .LdU64 1, .Sub, .CastU8, .Shl, .StLoc 17, .CopyLoc 10, .CastU32, .MoveLoc 17, .Mul,
  .CopyLoc 8, .LdU8 1, .Shr, .Add, .StLoc 20, .MutBorrowLoc 14, .MoveLoc 20,
  .Call adrsSetTreeIndexCallee adrsSetTreeIndexLocalsTail 2, .CopyLoc 8, .LdU32 1, .BitAnd,
  .StLoc 5, .CopyLoc 2, .ReadRef, .StLoc 6, .MutBorrowLoc 6, .CopyLoc 14,
  .Call vectorAppendCallee vectorAppendLocalsTail 2, .MoveLoc 5, .LdU32 0, .Eq, .BrFalse 127,
  -- B7 (bit == 0: buf ++= node ; buf ++= auth_path[j])
  .MutBorrowLoc 6, .MoveLoc 16, .Call vectorAppendCallee vectorAppendLocalsTail 2, .MutBorrowLoc 6,
  .ImmBorrowLoc 4, .CopyLoc 13, .LdU64 16, .Mul, .LdU64 16,
  .Call appendSliceCallee appendSliceLocalsTail 4, .Branch 137,
  -- B8 (bit != 0: buf ++= auth_path[j] ; buf ++= node)
  .MutBorrowLoc 6, .ImmBorrowLoc 4, .CopyLoc 13, .LdU64 16, .Mul, .LdU64 16,
  .Call appendSliceCallee appendSliceLocalsTail 4, .MutBorrowLoc 6, .MoveLoc 16,
  .Call vectorAppendCallee vectorAppendLocalsTail 2,
  -- B9 (h := sha256(buf))
  .MoveLoc 6, .CallNative "sha2_256" 1, .StLoc 9, .LdU64 0, .StLoc 19,
  -- B10 (truncate h to 16)
  .CopyLoc 19, .LdU64 16, .Lt, .BrFalse 155,
  -- B11
  .Branch 147,
  -- B12
  .MutBorrowLoc 9, .VecPopBack, .Pop, .MoveLoc 19, .LdU64 1, .Add, .StLoc 19, .Branch 142,
  -- B13 (node := h ; cur >>= 1 ; j += 1)
  .MoveLoc 9, .StLoc 16, .MoveLoc 8, .LdU8 1, .Shr, .StLoc 8, .MoveLoc 13, .LdU64 1, .Add,
  .StLoc 13, .Branch 70,
  -- B14 (roots_buf ++= node ; i += 1)
  .MutBorrowLoc 22, .MoveLoc 16, .Call vectorAppendCallee vectorAppendLocalsTail 2, .MoveLoc 10,
  .LdU64 1, .Add, .StLoc 10, .Branch 13,
  -- B15 (roots_adrs := set_tree_index(set_tree_height(set_type(*adrs, fors_roots), 0), 0) ; thash)
  .MoveLoc 0, .Pop, .MoveLoc 3, .ReadRef, .StLoc 21, .MutBorrowLoc 21, .LdU8 4,
  .Call adrsSetTypeCallee adrsSetTypeLocalsTail 2, .MutBorrowLoc 21, .LdU32 0,
  .Call adrsSetTreeHeightCallee adrsSetTreeHeightLocalsTail 2, .MutBorrowLoc 21, .LdU32 0,
  .Call adrsSetTreeIndexCallee adrsSetTreeIndexLocalsTail 2, .MoveLoc 2, .ImmBorrowLoc 21,
  .ImmBorrowLoc 22, .Call thashCallee thashLocalsTail 3, .Ret
]

/-- The address is in the local 24. -/
def initialState (sigFors md pre adrsBytes : Bytes) : State :=
  { stack := []
    locals := [.vecU8 sigFors, .vecU8 md, .vecU8 pre, .locRef 24, .vecU8 [], .u32 0, .vecU8 [],
      .u64 0, .u32 0, .vecU8 [], .u64 0, .u32 0, .vecU32 [], .u64 0, .vecU8 [], .u32 0, .vecU8 [],
      .u32 0, .u64 0, .u64 0, .u32 0, .vecU8 [], .vecU8 [], .vecU8 [], .vecU8 adrsBytes]
    pc := 0
    error := none }

def forsPkFromSigRealMoveBC (H : Hash) (sigFors md pre adrsBytes : Bytes) : Bytes :=
  (runDefault H forsPkFromSigRealBytecode (initialState sigFors md pre adrsBytes)).topBytes

end ForsPkFromSigReal

/-! ## The digest -/

namespace SplitDigestReal

def sliceLocalsTail : List Value := [.u64 0, .vecU8 []]

def splitDigestRealBytecode : Bytecode := #[
  -- B0: param computation + Call slice
  .LdU64 14, .LdU64 12, .Mul, .LdU64 7, .Add, .LdU64 8, .Div, .StLoc 6, .LdU64 9, .LdU64 7, .Mul,
  .LdU64 9, .Sub, .StLoc 8, .CopyLoc 8, .LdU64 7, .Add, .LdU64 8, .Div, .StLoc 9, .LdU64 9,
  .LdU64 7, .Add, .LdU64 8, .Div, .StLoc 2, .CopyLoc 0, .LdU64 0, .CopyLoc 6,
  .Call SliceReal.sliceRealBytecode sliceLocalsTail 3, .StLoc 5, .LdU64 0, .StLoc 10, .LdU64 0,
  .StLoc 1,
  -- B1 (tree accumulation test: i < tree_bytes)
  .CopyLoc 1, .CopyLoc 9, .Lt, .BrFalse 57,
  -- B2
  .Branch 40,
  -- B3 (tree_idx = (tree_idx << 8) | digest[md_bytes + i])
  .MoveLoc 10, .LdU8 8, .Shl, .CopyLoc 0, .CopyLoc 6, .CopyLoc 1, .Add, .VecImmBorrow, .ReadRef,
  .CastU64, .BitOr, .StLoc 10, .MoveLoc 1, .LdU64 1, .Add, .StLoc 1, .Branch 35,
  -- B4 (tree_mask = (1 << tree_bits) - 1 ; tree_idx &= mask)
  .LdU64 1, .MoveLoc 8, .CastU8, .Shl, .LdU64 1, .Sub, .StLoc 11, .MoveLoc 10, .MoveLoc 11, .BitAnd,
  .StLoc 10, .LdU32 0, .StLoc 3, .LdU64 0, .StLoc 7,
  -- B5 (leaf accumulation test: p < leaf_bytes)
  .CopyLoc 7, .CopyLoc 2, .Lt, .BrFalse 96,
  -- B6
  .Branch 77,
  -- B7 (leaf_idx = (leaf_idx << 8) | digest[md_bytes + tree_bytes + p])
  .MoveLoc 3, .LdU8 8, .Shl, .CopyLoc 0, .CopyLoc 6, .CopyLoc 9, .Add, .CopyLoc 7, .Add,
  .VecImmBorrow, .ReadRef, .CastU32, .BitOr, .StLoc 3, .MoveLoc 7, .LdU64 1, .Add, .StLoc 7,
  .Branch 72,
  -- B8 (leaf_mask = (1 << 9) - 1 ; leaf_idx &= mask ; return triple)
  .MoveLoc 0, .Pop, .LdU32 1, .LdU64 9, .CastU8, .Shl, .LdU32 1, .Sub, .StLoc 4, .MoveLoc 3,
  .MoveLoc 4, .BitAnd, .StLoc 3, .MoveLoc 5, .MoveLoc 10, .MoveLoc 3, .Ret
]

def initialState (digest : Bytes) : State :=
  { stack := []
    locals := [.vecU8 digest, .u64 0, .u64 0, .u32 0, .u32 0, .vecU8 [], .u64 0, .u64 0, .u64 0,
      .u64 0, .u64 0, .u64 0]
    pc := 0
    error := none }

/-- `md`, the tree and the leaf, with the leaf on top of the stack. -/
def splitDigestRealMoveBC (H : Hash) (digest : Bytes) : Bytes × Nat × Nat :=
  match (runDefault H splitDigestRealBytecode (initialState digest)).stack with
  | leafIdx :: treeIdx :: md :: _ => (md.asVecU8!, treeIdx.asU64!.toNat, leafIdx.asU32!.toNat)
  | _ => ([], 0, 0)

end SplitDigestReal

end SuiPq.Impl
