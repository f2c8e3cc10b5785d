import SuiPq.Proof.MoveVm.Source.Hypertree
import SuiPq.Proof.MoveVm.Source.Fors
import SuiPq.Proof.Sha2128s.Verify

/-!
# The compiled verifier refines its source

A run of a disassembled bytecode, on any input on which the function of
`sha2_128s.move` that it was compiled from returns: the run ends without an
error, with the function's result on the stack, and with the address that the
function leaves in the local that its reference names. Move aborts are the
only inputs left out, apart from integers that their types exclude.
-/

namespace SuiPq.Proof.MoveVm.Source

variable {H : Hash}

open SuiPq.Impl SuiPq.Impl.MoveVm

/-- Zeros, as an argument. -/
abbrev zeros (n : Nat) : Bytes := List.replicate n 0

theorem zeros_adrs : zeros 22 = Spec.Slh128s.Adrs.bytes ⟨0, 0, 0, 0, 0, 0⟩ := rfl

/-! ## WOTS+ -/

theorem msgToChainDigits_refines {msg : Bytes} {digits : List Nat}
    (h : (Sha2128s.msgToChainDigits msg).res = .ok digits) :
    let final := runDefault H MsgToChainDigitsReal.msgToChainDigitsRealBytecode
      (MsgToChainDigitsReal.initialState msg)
    final.error = none ∧ final.stack = [ints digits] := by
  obtain ⟨he, hs, -⟩ := Returns.final (msgToChainDigits_returns (H := H) false h)
  exact ⟨he, hs⟩

theorem msgToChainDigits_refines_zeros :
    (runDefault Hash.zero MsgToChainDigitsReal.msgToChainDigitsRealBytecode
      (MsgToChainDigitsReal.initialState (zeros 16))).error = none :=
  (msgToChainDigits_refines (congrArg Comp.res (Proof.Sha2128s.msgToChainDigits_eq rfl))).1

theorem chain_refines {src pre adrs : Bytes} {srcOff iStart steps : Nat} {out : Bytes × Bytes}
    (hi : iStart < 2 ^ 32)
    (hs : steps ≤ 4000) (h : (Sha2128s.chain H src srcOff iStart steps pre adrs).res = .ok out) :
    let final := runDefault H ChainReal.chainRealBytecode
      (ChainReal.initialState src srcOff iStart steps pre adrs)
    final.error = none ∧ final.stack = [.vecU8 out.1] ∧ final.locals.drop 13 = [.vecU8 out.2] :=
  Returns.final (chain_returns false hi hs h)

theorem chain_refines_zeros :
    (runDefault Hash.zero ChainReal.chainRealBytecode (ChainReal.initialState (zeros 32) 16 3 5 (zeros 64)
      (zeros 22))).error = none := by
  rw [zeros_adrs]
  exact (chain_refines (by decide) (by decide)
    (congrArg Comp.res (Proof.Sha2128s.chain_eq (by decide) (by decide) (by decide) 0 0))).1

theorem wotsPkFromSig_refines {sig msg pre adrs out : Bytes}
    (h : (Sha2128s.wotsPkFromSig H sig msg pre adrs).res = .ok out) :
    let final := runDefault H WotsPkFromSigReal.wotsPkFromSigRealBytecode
      (WotsPkFromSigReal.initialState sig msg pre adrs)
    final.error = none ∧ final.stack = [.vecU8 out] ∧ final.locals.drop 11 = [.vecU8 adrs] :=
  Returns.final (wotsPkFromSig_returns false false h)

theorem wotsPkFromSig_refines_zeros :
    (runDefault Hash.zero WotsPkFromSigReal.wotsPkFromSigRealBytecode
      (WotsPkFromSigReal.initialState (zeros 560) (zeros 16) (zeros 64) (zeros 22))).error = none := by
  rw [zeros_adrs]
  exact (wotsPkFromSig_refines (congrArg Comp.res
    (Proof.Sha2128s.wotsPkFromSig_eq rfl (by simp) (fun _ _ => rfl) 0 0 0))).1

/-! ## The hypertree -/

theorem xmssPkFromSig_refines {idx : Nat} {sig msg pre adrs : Bytes} {out : Bytes × Bytes}
    (hidx : idx < 2 ^ 32) (h : (Sha2128s.xmssPkFromSig H idx sig msg pre adrs).res = .ok out) :
    let final := runDefault H XmssPkFromSigReal.xmssPkFromSigRealBytecode
      (XmssPkFromSigReal.initialState idx sig msg pre adrs)
    final.error = none ∧ final.stack = [.vecU8 out.1] ∧ final.locals.drop 14 = [.vecU8 out.2] :=
  Returns.final (xmssPkFromSig_returns false hidx h)

theorem xmssPkFromSig_refines_zeros :
    (runDefault Hash.zero XmssPkFromSigReal.xmssPkFromSigRealBytecode
      (XmssPkFromSigReal.initialState 341 (zeros 704) (zeros 16) (zeros 64) (zeros 22))).error = none := by
  rw [zeros_adrs]
  let s : HashSig.XmssSig Bytes := ⟨fun i => window (zeros 704) (i * 16) 16,
    fun j => window (zeros 704) (560 + j * 16) 16⟩
  have hmove : (Sha2128s.xmssPkFromSig Hash.zero 341 (zeros 704) (zeros 16) (zeros 64)
      (Spec.Slh128s.Adrs.bytes ⟨0, 0, 0, 0, 0, 0⟩)).res = _ := congrArg Comp.res
    (Proof.Sha2128s.xmssPkFromSig_eq rfl (by simp) (fun i _ => show _ = s.wots i from rfl)
      (fun j _ => show _ = s.auth j from rfl) 0 0 0 0)
  exact (xmssPkFromSig_refines (by decide) hmove).1

theorem htRootFromSig_refines {sig msg pre out : Bytes} {tree leaf : Nat} (ht : tree < 2 ^ 64)
    (hl : leaf < 2 ^ 32) (h : (Sha2128s.htRootFromSig H sig msg tree leaf pre).res = .ok out) :
    let final := runDefault H HtRootFromSigReal.htRootFromSigRealBytecode
      (HtRootFromSigReal.initialState sig msg tree leaf pre)
    final.error = none ∧ final.stack = [.vecU8 out] := by
  obtain ⟨he, hs, -⟩ := Returns.final (htRootFromSig_returns ht hl h)
  exact ⟨he, hs⟩

theorem htRootFromSig_refines_zeros :
    (runDefault Hash.zero HtRootFromSigReal.htRootFromSigRealBytecode
      (HtRootFromSigReal.initialState (zeros 4928) (zeros 16) 0x123456789 0x55 (zeros 64))).error = none :=
  (htRootFromSig_refines (by decide) (by decide)
    (congrArg Comp.res (Proof.Sha2128s.htRootFromSig_eq rfl List.length_replicate _ _))).1

/-! ## FORS and the digest -/

theorem extractForsIndices_refines {md : Bytes} {indices : List Nat}
    (h : (Sha2128s.extractForsIndices md).res = .ok indices) :
    let final := runDefault H ExtractForsIndicesReal.extractForsIndicesRealBytecode
      (ExtractForsIndicesReal.initialState md)
    final.error = none ∧ final.stack = [ints indices] := by
  obtain ⟨he, hs, -⟩ := Returns.final (extractForsIndices_returns (H := H) false h)
  exact ⟨he, hs⟩

theorem extractForsIndices_refines_zeros :
    (runDefault Hash.zero ExtractForsIndicesReal.extractForsIndicesRealBytecode
      (ExtractForsIndicesReal.initialState (zeros 21))).error = none :=
  (extractForsIndices_refines (congrArg Comp.res (Proof.Sha2128s.extractForsIndices_eq (by simp)))).1

theorem forsPkFromSig_refines {sig md pre adrs out : Bytes}
    (h : (Sha2128s.forsPkFromSig H sig md pre adrs).res = .ok out) :
    let final := runDefault H ForsPkFromSigReal.forsPkFromSigRealBytecode
      (ForsPkFromSigReal.initialState sig md pre adrs)
    final.error = none ∧ final.stack = [.vecU8 out] ∧ final.locals.drop 24 = [.vecU8 adrs] :=
  Returns.final (forsPkFromSig_returns h)

theorem forsPkFromSig_refines_zeros :
    (runDefault Hash.zero ForsPkFromSigReal.forsPkFromSigRealBytecode
      (ForsPkFromSigReal.initialState (zeros 2912) (zeros 21) (zeros 64) (zeros 22))).error = none := by
  rw [zeros_adrs]
  exact (forsPkFromSig_refines
    (congrArg Comp.res (Proof.Sha2128s.forsPkFromSig_eq (by simp) (by simp) 0 0 0))).1

theorem splitDigest_refines {digest : Bytes} {out : Bytes × Nat × Nat}
    (h : (Sha2128s.splitDigest digest).res = .ok out) :
    let final := runDefault H SplitDigestReal.splitDigestRealBytecode (SplitDigestReal.initialState digest)
    final.error = none ∧ final.stack = [int32 out.2.2, int64 out.2.1, .vecU8 out.1] := by
  obtain ⟨he, hs, -⟩ := Returns.final (splitDigest_returns (H := H) h)
  exact ⟨he, hs⟩

theorem splitDigest_refines_zeros :
    (runDefault Hash.zero SplitDigestReal.splitDigestRealBytecode
      (SplitDigestReal.initialState (zeros 30))).error =
      none :=
  (splitDigest_refines (congrArg Comp.res (Proof.Sha2128s.splitDigest_eq rfl))).1

end SuiPq.Proof.MoveVm.Source
