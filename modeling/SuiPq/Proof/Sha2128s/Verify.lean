import SuiPq.Proof.Sha2128s.Trees

/-!
# The on-chain 128s verifier is the specification

`verifyWithContext_eq`: for a 32-byte key, and a message that leaves room for
its wrapping in a vector, the verifier does not abort; it returns what the
specification's `verify` does, and hashes what `hashed` says if the lengths
are right and nothing otherwise.
-/

namespace SuiPq.Proof.Sha2128s

open SuiPq.Impl SuiPq.Impl.MoveBytes SuiPq.Impl.Sha2128s SuiPq.Move SuiPq.HashSig
open SuiPq.Spec.Slh128s (WellSized hashed evals root selection split length_htRoot length_forsPk)

variable {H : Hash} {pk msg sig ctx : Bytes}

theorem length_root : (root H pk msg sig ctx).length = 16 :=
  length_htRoot (length_forsPk _ _) _ _

theorem length_md (digest : Bytes) (h : digest.length = 30) : (split digest).md.length = 21 :=
  length_window (by omega)

/-- `verifyWithContext`, past its checks of the lengths. -/
theorem verifyWithContext_wellSized (hpk : pk.length = 32) (hsig : sig.length = 7856)
    (hctx : ctx.length ≤ 255) (hmsg : msg.length + 257 < 2 ^ 64) :
    verifyWithContext H pk msg sig ctx =
      Comp.ret (decide (root H pk msg sig ctx = window pk 16 16))
        (hashed H pk msg sig ctx) := by
  rw [verifyWithContext, require_pos (show pk.length = PK_BYTES from hpk), pure_bind, SIG_BYTES,
    if_neg (not_not.mpr hsig), if_neg (by omega)]
  simp only [N, K, A, slice_eq (show 0 + 16 ≤ pk.length by omega) (by decide),
    slice_eq (show 16 + 16 ≤ pk.length by omega) (by decide), byte_eq (show ctx.length < 2 ^ 8 by omega),
    slice_eq (show 0 + 16 ≤ sig.length by omega) (by decide), add_eq (show 1 + 12 < 2 ^ 64 by decide),
    mul_eq (show 14 * (1 + 12) < 2 ^ 64 by decide), mul_eq (show 14 * (1 + 12) * 16 < 2 ^ 64 by decide),
    Nat.reduceAdd, Nat.reduceMul, slice_eq (show 16 + 2912 ≤ sig.length by omega) (by decide),
    add_eq (show 16 + 2912 < 2 ^ 64 by decide), sub_eq (show 16 ≤ 7856 by decide), Nat.reduceSub,
    sub_eq (show 2912 ≤ 7840 by decide), slice_eq (show 2928 + 4928 ≤ sig.length by omega) (by decide),
    pkSeedPadded_eq, adrsNew_eq, pure_bind]
  have hdig := Spec.Slh128s.length_hmsg H (window sig 0 16) (window pk 0 16) (window pk 16 16)
    (Spec.Slh128s.wrap ctx msg)
  have hsel : split (Spec.Slh128s.hmsg H (window sig 0 16) (window pk 0 16)
      (window pk 16 16) (Spec.Slh128s.wrap ctx msg)) = selection H pk msg sig ctx := rfl
  have hmd : (selection H pk msg sig ctx).md.length = 21 := length_md _ hdig
  have hwrap : (Spec.Slh128s.wrap ctx msg).length < 2 ^ 64 := by
    simp only [Spec.Slh128s.wrap, List.length_append, List.length_cons, List.length_nil]
    omega
  have hseed : (window pk 0 16).length = 16 := length_window (by omega)
  have hroot : (window pk 16 16).length = 16 := length_window (by omega)
  have hfors : (window sig 16 2912).length = 2912 := length_window (by omega)
  have hht : (window sig 2928 4928).length = 4928 := length_window (by omega)
  change (Sha2128s.hmsg H _ _ _ (Spec.Slh128s.wrap ctx msg) >>= _) = _
  rw [hmsg_eq H (by omega) (by omega) hwrap, Comp.ret_bind, splitDigest_eq hdig, pure_bind, hsel]
  change Comp.after _ (adrsSetLayer _ (UInt8.ofNat 0) >>= _) = _
  simp only [adrsSetLayer_eq, adrsSetTree_eq, adrsSetType_eq, adrsSetKeypair_eq, pure_bind]
  rw [forsPkFromSig_eq (Nat.le_of_eq hmd.symm) (Nat.le_of_eq hfors.symm), window_full (Nat.le_of_eq hmd),
    Comp.ret_bind, htRootFromSig_eq (length_forsPk _ _) hht, Comp.ret_bind]
  change Comp.after _ (Comp.after _ (Comp.after _ (bytesEq (root H pk msg sig ctx) _))) = _
  rw [bytesEq_eq (by rw [length_root]; decide), Comp.after_pure, Comp.after_ret, Comp.after_ret, hashed,
    evals, rootEvals, List.map_append]
  rfl

/-- The on-chain verifier, on a 32-byte key. -/
theorem verifyWithContext_eq (hpk : pk.length = 32) (hmsg : msg.length + 257 < 2 ^ 64) :
    verifyWithContext H pk msg sig ctx = Comp.ret (Spec.Slh128s.verify H pk msg sig ctx)
      (if WellSized sig ctx then hashed H pk msg sig ctx else []) := by
  by_cases hw : WellSized sig ctx
  · rw [verifyWithContext_wellSized hpk hw.1 hw.2 hmsg, if_pos hw, Spec.Slh128s.verify]
    simp only [hw, true_and]
  · rw [if_neg hw, Spec.Slh128s.verify, decide_eq_false fun h => hw h.1, verifyWithContext,
      require_pos (show pk.length = PK_BYTES from hpk), pure_bind]
    by_cases hsig : sig.length = SIG_BYTES
    · rw [if_neg (not_not.mpr hsig), if_pos (Nat.lt_of_not_le fun h => hw ⟨hsig, h⟩)]
      rfl
    · rw [if_pos hsig]
      rfl

end SuiPq.Proof.Sha2128s
