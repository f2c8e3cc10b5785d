import SuiPq.Impl.RealBytecode
import SuiPq.Proof.MoveVm.Analysis

/-!
# The verifier's helpers

Contracts of the bytecodes that the others call: on byte strings, addresses
and hashes. Each is one that the analysis finds.
-/

namespace SuiPq.Proof.MoveVm

set_option maxRecDepth 100000

open SuiPq.Impl SuiPq.Impl.MoveVm

/-! ## Shapes -/

/-- A byte string of length at least `n`. -/
abbrev bytes (n : Nat) : Shape := .vecU8 (.const n)

abbrev u8 : Shape := .int .w8 (.upTo (2 ^ 8 - 1))

abbrev u32 (m : Nat) : Shape := .int .w32 (.upTo m)

abbrev u64 (m : Nat) : Shape := .int .w64 (.upTo m)

abbrev k64 (n : Nat) : Shape := .int .w64 (.const n)

/-- A reference to a byte string that keeps its length. -/
abbrev ref (n : Nat) : Arg := .ref (bytes n) (bytes n)

/-- An argument of at least `n` bytes, which is a local of the caller or a value. -/
def input (byRef : Bool) (n : Nat) : Arg := if byRef then ref n else .val (bytes n)

variable {H : Hash}

/-! ## Byte strings -/

def vectorAppend : Contract := ⟨[ref 0, .val (bytes 0)], none⟩

theorem vectorAppend_holds :
    vectorAppend.Holds H MoveStdlib.vectorAppendCallee MoveStdlib.vectorAppendLocalsTail :=
  holds_of_check [] .nil (by decide)

/-- `n` bytes of `src`. -/
def slice (src : Arg) (start n : Nat) : Contract := ⟨[src, .val (u64 start), .val (k64 n)], some (bytes n)⟩

/-- The loop that pushes `n` bytes. -/
def sliceLoop (n : Nat) : Loop := ⟨4, 3, 0, n, [(4, some (.vecU8 ⟨0, some 0⟩))]⟩

def sliceCheck (src : Arg) (start n : Nat) : Bool :=
  check [] [sliceLoop n] SliceReal.sliceRealBytecode.toList [.u64 0, .vecU8 []] (slice src start n)

theorem slice_holds {src : Arg} {start n : Nat} (h : sliceCheck src start n = true) :
    (slice src start n).Holds H SliceReal.sliceRealBytecode [.u64 0, .vecU8 []] :=
  holds_of_check [sliceLoop n] .nil h

/-- 16 bytes of an authentication path of `n`. -/
def appendSlice (n : Nat) : Contract :=
  ⟨[ref 0, ref n, .val (u64 (n - 16)), .val (k64 16)], none⟩

theorem appendSlice_holds {n : Nat} (h : check [] [] AdrsNewAppendSliceReal.appendSliceRealBytecode.toList
    [.u64 0] (appendSlice n) = true) :
    (appendSlice n).Holds H AdrsNewAppendSliceReal.appendSliceRealBytecode [.u64 0] :=
  holds_of_check [] .nil h

/-! ## Addresses -/

def adrsNew : Contract := ⟨[], some (bytes 22)⟩

theorem adrsNew_holds :
    adrsNew.Holds H AdrsNewAppendSliceReal.adrsNewRealBytecode HtRootFromSigReal.adrsNewLocalsTail :=
  holds_of_check [] .nil (by decide)

def writeU32Be : Contract := ⟨[ref 22, .val (u64 18), .val (u32 (2 ^ 32 - 1))], none⟩

theorem writeU32Be_holds : writeU32Be.Holds H WriteU32BeReal.writeU32BeRealBytecode [] :=
  holds_of_check [] .nil (by decide)

def writeU64Be : Contract := ⟨[ref 22, .val (u64 14), .val (u64 (2 ^ 64 - 1))], none⟩

theorem writeU64Be_holds :
    writeU64Be.Holds H WriteU64BeReal.writeU64BeRealBytecode WriteU64BeReal.writeU64BeLocalsTail :=
  holds_of_check [] .nil (by decide)

def setByte : Contract := ⟨[ref 22, .val u8], none⟩

theorem adrsSetType_holds : setByte.Holds H AdrsSetTypeReal.adrsSetTypeRealBytecode [] :=
  holds_of_check [] .nil (by decide)

theorem adrsSetLayer_holds : setByte.Holds H AdrsSetTypeReal.adrsSetLayerRealBytecode [] :=
  holds_of_check [] .nil (by decide)

def setU32 : Contract := ⟨[ref 22, .val (u32 (2 ^ 32 - 1))], none⟩

theorem adrsSetKeypair_holds : setU32.Holds H AdrsSetKeypairReal.adrsSetKeypairRealBytecode [] :=
  holds_of_check [] (.cons 3 rfl writeU32Be_holds .nil)
    (by decide)

theorem adrsSetTreeHeight_holds : setU32.Holds H AdrsSetKeypairReal.adrsSetTreeHeightRealBytecode [] :=
  holds_of_check [] (.cons 3 rfl writeU32Be_holds .nil)
    (by decide)

theorem adrsSetTreeIndex_holds : setU32.Holds H AdrsSetKeypairReal.adrsSetTreeIndexRealBytecode [] :=
  holds_of_check [] (.cons 3 rfl writeU32Be_holds .nil)
    (by decide)

def setU64 : Contract := ⟨[ref 22, .val (u64 (2 ^ 64 - 1))], none⟩

theorem adrsSetTree_holds : setU64.Holds H WriteU64BeReal.adrsSetTreeRealBytecode [] :=
  holds_of_check [] (.cons 3 rfl writeU64Be_holds .nil)
    (by decide)

/-! ## Hashes -/

def thash : Contract := ⟨[.val (bytes 0), ref 22, ref 0], some (bytes 16)⟩

theorem thash_holds : thash.Holds H ThashReal.thashRealBytecode [.vecU8 [], .vecU8 [], .u64 0] :=
  holds_of_check [] (.cons 6 rfl vectorAppend_holds (.cons 10 rfl vectorAppend_holds .nil))
    (by decide)

end SuiPq.Proof.MoveVm
