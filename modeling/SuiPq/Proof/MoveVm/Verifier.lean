import SuiPq.Proof.MoveVm.BaseW
import SuiPq.Proof.MoveVm.Chain
import SuiPq.Proof.MoveVm.ForsIndices

/-!
# Runs of the verifier

Contracts of the bytecodes from `wots_checksum` up to `ht_root_from_sig`,
`fors_pk_from_sig` and `split_digest`, each one that the analysis finds from
the contracts of its callees.
-/

namespace SuiPq.Proof.MoveVm

set_option maxRecDepth 100000

open SuiPq.Impl SuiPq.Impl.MoveVm SuiPq.Spec.StrictVm

variable {H : Hash}

/-- A vector of at least `n` base-16 digits. -/
abbrev digits (n : Nat) : Shape := .vecU32 (.const n) 15

abbrev anyU32 : Shape := u32 (2 ^ 32 - 1)

abbrev anyU64 : Shape := u64 (2 ^ 64 - 1)

/-! ## WOTS+ -/

def baseW (msg : Arg) (k : Nat) : Contract := ⟨[msg, .val (k64 k)], some (digits k)⟩

theorem baseW_holds {msg : Arg} {k : Nat} (h : check [] [] BaseWReal.baseWRealBytecode.toList
    WotsChecksumReal.baseWLocalsTail (baseW msg k) = true) :
    (baseW msg k).Holds H BaseWReal.baseWRealBytecode WotsChecksumReal.baseWLocalsTail :=
  holds_of_check [] .nil h

def wotsChecksum (d : Arg) : Contract := ⟨[d], some (digits 3)⟩

theorem wotsChecksum_holds {d : Arg} (h : check [(93, baseW (ref 2) 3)] []
    WotsChecksumReal.wotsChecksumRealBytecode.toList MsgToChainDigitsReal.wotsChecksumLocalsTail
    (wotsChecksum d) = true) : (wotsChecksum d).Holds H WotsChecksumReal.wotsChecksumRealBytecode
      MsgToChainDigitsReal.wotsChecksumLocalsTail :=
  holds_of_check [] (.cons 93 rfl (baseW_holds (by decide)) .nil) h

def msgToChainDigits (msg : Arg) : Contract := ⟨[msg], some (digits 35)⟩

theorem msgToChainDigits_holds (byRef : Bool) : (msgToChainDigits (input byRef 16)).Holds H
    MsgToChainDigitsReal.msgToChainDigitsRealBytecode WotsPkFromSigReal.msgToChainDigitsLocalsTail := by
  have hdigits : (baseW (input byRef 16) 32).Holds H BaseWReal.baseWRealBytecode
      WotsChecksumReal.baseWLocalsTail := baseW_holds (by cases byRef <;> decide)
  have hsum : (wotsChecksum (.ref (digits 32) (digits 32))).Holds H
      WotsChecksumReal.wotsChecksumRealBytecode MsgToChainDigitsReal.wotsChecksumLocalsTail :=
    wotsChecksum_holds (by decide)
  exact holds_of_check [] (.cons 2 rfl hdigits (.cons 5 rfl hsum .nil)) (by cases byRef <;> decide)

def wotsPkFromSig (byRef msgByRef : Bool) : Contract :=
  ⟨[input byRef 560, input msgByRef 16, .val (bytes 0), ref 22], some (bytes 16)⟩

theorem wotsPkFromSig_holds (byRef msgByRef : Bool) : (wotsPkFromSig byRef msgByRef).Holds H
    WotsPkFromSigReal.wotsPkFromSigRealBytecode XmssPkFromSigReal.wotsPkLocalsTail := by
  refine holds_of_check [⟨13, 7, 0, 35, [(5, none), (8, none)]⟩]
    (.cons 1 rfl (msgToChainDigits_holds msgByRef)
    (.cons 10 rfl adrsSetType_holds (.cons 21 rfl adrsSetTreeHeight_holds
      (.cons 41 rfl (chain_holds byRef) (.cons 45 rfl vectorAppend_holds (.cons 58 rfl adrsSetType_holds
        (.cons 61 rfl adrsSetTreeHeight_holds (.cons 64 rfl adrsSetTreeIndex_holds
          (.cons 68 rfl thash_holds .nil))))))))) ?_
  cases byRef <;> cases msgByRef <;> decide

/-! ## The hypertree -/

def xmssPkFromSig (byRef : Bool) : Contract :=
  ⟨[.val anyU32, input byRef 704, input byRef 16, .val (bytes 0), ref 22], some (bytes 16)⟩

theorem xmssPkFromSig_holds (byRef : Bool) : (xmssPkFromSig byRef).Holds H
    XmssPkFromSigReal.xmssPkFromSigRealBytecode HtRootFromSigReal.xmssLocalsTail := by
  have hwots : (slice (input byRef 704) 0 560).Holds H SliceReal.sliceRealBytecode [.u64 0, .vecU8 []] :=
    slice_holds (by cases byRef <;> decide)
  have hauth : (slice (input byRef 704) 560 144).Holds H SliceReal.sliceRealBytecode [.u64 0, .vecU8 []] :=
    slice_holds (by cases byRef <;> decide)
  have happend : (appendSlice 144).Holds H AdrsNewAppendSliceReal.appendSliceRealBytecode [.u64 0] :=
    appendSlice_holds (by decide)
  refine holds_of_check [⟨39, 10, 0, 9, [(6, none), (7, none), (9, none), (11, none)]⟩]
    (.cons 5 rfl hwots (.cons 14 rfl hauth (.cons 18 rfl adrsSetType_holds (.cons 21 rfl adrsSetKeypair_holds
      (.cons 27 rfl (wotsPkFromSig_holds true byRef) (.cons 31 rfl adrsSetType_holds
        (.cons 34 rfl adrsSetKeypair_holds (.cons 49 rfl adrsSetTreeHeight_holds
          (.cons 54 rfl adrsSetTreeIndex_holds (.cons 68 rfl vectorAppend_holds
            (.cons 75 rfl vectorAppend_holds (.cons 82 rfl happend (.cons 90 rfl happend
              (.cons 93 rfl vectorAppend_holds .nil)))))))))))))) ?_
  cases byRef <;> decide

def htRootFromSig : Contract :=
  ⟨[.val (bytes 4928), .val (bytes 16), .val anyU64, .val anyU32, .val (bytes 0)], some (bytes 16)⟩

/-- `a`, `cur_leaf`, `cur_tree`, `j`, `leaf_mask`, `node`, `slice_j`, `xmss_sig_bytes`. -/
def htRootFromSigLocalsTail : List Value :=
  [.vecU8 [], .u32 0, .u64 0, .u64 0, .u64 0, .vecU8 [], .vecU8 [], .u64 0]

theorem htRootFromSig_holds :
    htRootFromSig.Holds H HtRootFromSigReal.htRootFromSigRealBytecode htRootFromSigLocalsTail := by
  have hslice : (slice (.val (bytes 4928)) 4224 704).Holds H SliceReal.sliceRealBytecode
    [.u64 0, .vecU8 []] :=
    slice_holds (by decide)
  exact holds_of_check [⟨15, 8, 0, 7, [(5, none), (9, none), (11, none)]⟩]
    (.cons 20 rfl adrsNew_holds (.cons 25 rfl adrsSetLayer_holds (.cons 28 rfl adrsSetTree_holds
      (.cons 34 rfl hslice (.cons 41 rfl (xmssPkFromSig_holds true) .nil))))) (by decide)

/-! ## FORS -/

def forsPkFromSig : Contract :=
  ⟨[.val (bytes 2912), .val (bytes 21), .val (bytes 0), ref 22], some (bytes 16)⟩

/-- The locals from `auth_path` to `sk_leaf`. -/
def forsPkFromSigLocalsTail : List Value :=
  [.vecU8 [], .u32 0, .vecU8 [], .u64 0, .u32 0, .vecU8 [], .u64 0, .u32 0, .vecU32 [], .u64 0, .vecU8 [],
    .u32 0, .vecU8 [], .u32 0, .u64 0, .u64 0, .u32 0, .vecU8 [], .vecU8 [], .vecU8 []]

/-- The loops over the trees and over the levels of a tree. -/
def forsLoops : List Loop :=
  [⟨13, 10, 0, 14, [4, 5, 6, 8, 9, 11, 13, 14, 15, 16, 17, 18, 19, 20, 23].map fun i => (i, none)⟩,
    ⟨70, 13, 1, 12, (8, some (u32 (2 ^ 12 - 1))) :: [5, 6, 9, 17, 19, 20].map fun i => (i, none)⟩]

theorem forsPkFromSig_holds :
    forsPkFromSig.Holds H ForsPkFromSigReal.forsPkFromSigRealBytecode forsPkFromSigLocalsTail := by
  have hleaf : (slice (.val (bytes 2912)) 2704 16).Holds H SliceReal.sliceRealBytecode [.u64 0, .vecU8 []] :=
    slice_holds (by decide)
  have hauth : (slice (.val (bytes 2912)) 2720 192).Holds H SliceReal.sliceRealBytecode [.u64 0, .vecU8 []] :=
    slice_holds (by decide)
  have happend : (appendSlice 192).Holds H AdrsNewAppendSliceReal.appendSliceRealBytecode [.u64 0] :=
    appendSlice_holds (by decide)
  exact holds_of_check forsLoops
    (.cons 7 rfl extractForsIndices_holds (.cons 25 rfl hleaf (.cons 34 rfl hauth
      (.cons 46 rfl adrsSetType_holds (.cons 49 rfl adrsSetTreeHeight_holds
        (.cons 60 rfl adrsSetTreeIndex_holds (.cons 64 rfl thash_holds (.cons 80 rfl adrsSetTreeHeight_holds
          (.cons 101 rfl adrsSetTreeIndex_holds (.cons 111 rfl vectorAppend_holds
            (.cons 118 rfl vectorAppend_holds (.cons 125 rfl happend (.cons 133 rfl happend
              (.cons 136 rfl vectorAppend_holds (.cons 168 rfl vectorAppend_holds
                (.cons 181 rfl adrsSetType_holds (.cons 184 rfl adrsSetTreeHeight_holds
                  (.cons 187 rfl adrsSetTreeIndex_holds (.cons 191 rfl thash_holds .nil)))))))))))))))))))
    (by decide)

/-! ## The digest -/

def splitDigest : Contract := ⟨[.val (bytes 30)], some (u32 (2 ^ 9 - 1))⟩

/-- The locals from `i` to `tree_mask`. -/
def splitDigestLocalsTail : List Value :=
  [.u64 0, .u64 0, .u32 0, .u32 0, .vecU8 [], .u64 0, .u64 0, .u64 0, .u64 0, .u64 0, .u64 0]

theorem splitDigest_holds :
    splitDigest.Holds H SplitDigestReal.splitDigestRealBytecode splitDigestLocalsTail := by
  have hslice : (slice (.val (bytes 30)) 0 21).Holds H SliceReal.sliceRealBytecode [.u64 0, .vecU8 []] :=
    slice_holds (by decide)
  exact holds_of_check [] (.cons 29 rfl hslice .nil) (by decide)

end SuiPq.Proof.MoveVm
