import SuiPq.Proof.MoveVm.Source.Refinement
import SuiPq.Proof.Sha2128s.Verify
import SuiPq.Proof.Fips205

/-!
# The compiled verifier computes FIPS-205

On inputs of the right sizes the functions of `sha2_128s.move` return, and so
do their bytecodes: what is read off the last state is the value of the
function of the same name in `Fips205`. An address is the compressed form of
any address of the transcription, and a prefix is any seed, padded.
-/

namespace SuiPq.Proof.MoveVm.Source

variable {H : Hash}

open SuiPq.Impl SuiPq.Impl.MoveVm SuiPq.HashSig

theorem padded_eq (seed : Bytes) : seed ++ Fips205.zeros 48 = Spec.Slh128s.pkPrefix seed := by
  rw [Spec.Slh128s.pkPrefix, Proof.Fips205.zeros_eq]

theorem map_toNat32 {ns : List Nat} (h : ∀ n ∈ ns, n < 2 ^ 32) :
    (ns.map UInt32.ofNat).map UInt32.toNat = ns := by
  rw [List.map_map]
  exact (List.map_congr_left fun n hn => toNat32 (h n hn)).trans (List.map_id ns)

/-! ## Digits and indices -/

theorem msgToChainDigitsRealMoveBC_eq {msg : Bytes} (hmsg : msg.length = 16) :
    (MsgToChainDigitsReal.msgToChainDigitsRealMoveBC H msg).map UInt32.toNat =
      Fips205.msgToChainDigits msg := by
  have hmove : (Sha2128s.msgToChainDigits msg).res = .ok ((List.range 35).map (Spec.Slh128s.digits msg)) := by
    rw [Proof.Sha2128s.msgToChainDigits_eq hmsg, Comp.res_pure]
  have htop : MsgToChainDigitsReal.msgToChainDigitsRealMoveBC H msg = _ :=
    Returns.topInts (msgToChainDigits_returns false hmove)
  rw [htop, map_toNat32, Proof.Fips205.msgToChainDigits_eq hmsg]
  intro n hn
  obtain ⟨i, -, rfl⟩ := List.mem_map.mp hn
  have hlt := Spec.Slh128s.digits_lt msg i
  omega

theorem extractForsIndicesRealMoveBC_eq {md : Bytes} (hmd : md.length = 21) :
    (ExtractForsIndicesReal.extractForsIndicesRealMoveBC H md).map UInt32.toNat =
      Fips205.extractForsIndices md := by
  have hmove : (Sha2128s.extractForsIndices md).res =
    .ok ((List.range 14).map (Spec.Slh128s.forsIndex md)) := by
    rw [Proof.Sha2128s.extractForsIndices_eq (Nat.le_of_eq hmd.symm), Comp.res_pure,
      window_full (Nat.le_of_eq hmd)]
  have htop : ExtractForsIndicesReal.extractForsIndicesRealMoveBC H md = _ :=
    Returns.topInts (extractForsIndices_returns false hmove)
  rw [htop, map_toNat32, Proof.Fips205.extractForsIndices_eq hmd]
  intro n hn
  obtain ⟨i, -, rfl⟩ := List.mem_map.mp hn
  have hlt := Spec.Slh128s.forsIndex_lt md i
  omega

theorem splitDigestRealMoveBC_eq {digest : Bytes} (h : digest.length = 30) :
    SplitDigestReal.splitDigestRealMoveBC H digest = Fips205.splitDigest digest := by
  have hmove := congrArg Comp.res (Proof.Sha2128s.splitDigest_eq h)
  obtain ⟨t, hrun, -, hs, -⟩ := splitDigest_returns (H := H) hmove
  have hfinal : runDefault H SplitDigestReal.splitDigestRealBytecode
    (SplitDigestReal.initialState digest) = t := hrun
  rw [SplitDigestReal.splitDigestRealMoveBC, hfinal, hs, Proof.Fips205.splitDigest_eq h]
  have htree : (Spec.Slh128s.split digest).tree < 2 ^ 64 :=
    Nat.lt_trans (Nat.mod_lt _ (by decide)) (by decide)
  have hleaf : (Spec.Slh128s.split digest).leaf < 2 ^ 32 :=
    Nat.lt_trans (Nat.mod_lt _ (by decide)) (by decide)
  exact congrArg (Prod.mk _) (congrArg₂ Prod.mk (toNat64 htree) (toNat32 hleaf))

theorem splitDigestRealMoveBC_eq_zeros :
    SplitDigestReal.splitDigestRealMoveBC Hash.zero (zeros 30) = Fips205.splitDigest (zeros 30) :=
  splitDigestRealMoveBC_eq rfl

/-! ## Keys and roots -/

theorem wotsPkFromSigRealMoveBC_eq {sig msg : Bytes} (seed : Bytes) (a : Fips205.Adrs)
    (hmsg : msg.length = 16) (hsig : 560 ≤ sig.length) :
    WotsPkFromSigReal.wotsPkFromSigRealMoveBC H sig msg (seed ++ Fips205.zeros 48) (Fips205.compress a) =
      Fips205.wotsPkFromSig H sig msg seed a := by
  obtain ⟨l, t, ty, kp, th, ti⟩ := a
  rw [padded_eq, Proof.Fips205.compress_eq, Proof.Fips205.wotsPkFromSig_eq hmsg hsig (fun _ _ => rfl)]
  refine Returns.topBytes (wotsPkFromSig_returns false false ?_)
  rw [Proof.Sha2128s.wotsPkFromSig_eq hmsg hsig (fun _ _ => rfl), Comp.res_ret]

theorem xmssPkFromSigRealMoveBC_eq {idx : Nat} {sig msg : Bytes} (seed : Bytes) (a : Fips205.Adrs)
    (hidx : idx < 2 ^ 32) (hmsg : msg.length = 16) (hsig : 704 ≤ sig.length) :
    XmssPkFromSigReal.xmssPkFromSigRealMoveBC H idx sig msg (seed ++ Fips205.zeros 48) (Fips205.compress a) =
      Fips205.xmssPkFromSig H idx sig msg seed a := by
  obtain ⟨l, t, ty, kp, th, ti⟩ := a
  let s : XmssSig Bytes := ⟨fun i => window sig (i * 16) 16, fun j => window sig (560 + j * 16) 16⟩
  have hw : ∀ i < 35, window sig (i * 16) 16 = s.wots i := fun _ _ => rfl
  have ha : ∀ j < 9, window sig (560 + j * 16) 16 = s.auth j := fun _ _ => rfl
  rw [padded_eq, Proof.Fips205.compress_eq, Proof.Fips205.xmssPkFromSig_eq hmsg hsig hw ha]
  have hmove : (Sha2128s.xmssPkFromSig H idx sig msg (Spec.Slh128s.pkPrefix seed) (Spec.Slh128s.Adrs.bytes
    ⟨l, t, ty.toNat, kp, th, ti⟩)).res = _ := congrArg Comp.res
    (Proof.Sha2128s.xmssPkFromSig_eq hmsg hsig hw ha _ _ _ _)
  exact Returns.topBytes (xmssPkFromSig_returns false hidx hmove)

theorem htRootFromSigRealMoveBC_eq {sig msg : Bytes} (seed : Bytes) {tree leaf : Nat} (hmsg : msg.length = 16)
    (hsig : sig.length = 4928) (ht : tree < 2 ^ 64) (hl : leaf < 2 ^ 32) :
    HtRootFromSigReal.htRootFromSigRealMoveBC H sig msg tree leaf (seed ++ Fips205.zeros 48) =
      Fips205.htRootFromSig H sig msg tree leaf seed := by
  rw [padded_eq, Proof.Fips205.htRootFromSig_eq hmsg hsig]
  refine Returns.topBytes (htRootFromSig_returns ht hl ?_)
  rw [Proof.Sha2128s.htRootFromSig_eq hmsg hsig, Comp.res_ret]

theorem htRootFromSigRealMoveBC_eq_zeros :
    HtRootFromSigReal.htRootFromSigRealMoveBC Hash.zero (zeros 4928) (zeros 16) 0x123456789 0x55
        (zeros 16 ++ Fips205.zeros 48) =
      Fips205.htRootFromSig Hash.zero (zeros 4928) (zeros 16) 0x123456789 0x55 (zeros 16) :=
  htRootFromSigRealMoveBC_eq (zeros 16) rfl List.length_replicate (by decide) (by decide)

theorem forsPkFromSigRealMoveBC_eq {sig md : Bytes} (seed : Bytes) (a : Fips205.Adrs) (hmd : md.length = 21)
    (hsig : sig.length = 2912) :
    ForsPkFromSigReal.forsPkFromSigRealMoveBC H sig md (seed ++ Fips205.zeros 48) (Fips205.compress a) =
      Fips205.forsPkFromSig H sig md seed a := by
  obtain ⟨l, t, ty, kp, th, ti⟩ := a
  rw [padded_eq, Proof.Fips205.compress_eq, Proof.Fips205.forsPkFromSig_eq hmd hsig]
  refine Returns.topBytes (forsPkFromSig_returns ?_)
  rw [Proof.Sha2128s.forsPkFromSig_eq (Nat.le_of_eq hmd.symm) (Nat.le_of_eq hsig.symm), Comp.res_ret,
    window_full (Nat.le_of_eq hmd)]

theorem forsPkFromSigRealMoveBC_eq_zeros :
    ForsPkFromSigReal.forsPkFromSigRealMoveBC Hash.zero (zeros 2912) (zeros 21) (zeros 16 ++ Fips205.zeros 48)
        (Fips205.compress Fips205.empty) =
      Fips205.forsPkFromSig Hash.zero (zeros 2912) (zeros 21) (zeros 16) Fips205.empty :=
  forsPkFromSigRealMoveBC_eq (zeros 16) Fips205.empty rfl List.length_replicate

end SuiPq.Proof.MoveVm.Source
