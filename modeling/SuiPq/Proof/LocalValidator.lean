import SuiPq.Impl.LocalValidator
import SuiPq.Proof.SlhDsaRef.Sign

/-!
# Transaction signatures

`signTx_eq`: the blob that is signed for a transaction. `verifyTx_eq`: a blob
is accepted if it has the right length and flag, and its signature of the
transaction's intent leads to its key's root.
-/

namespace SuiPq.Proof.LocalValidator

open SuiPq.Js SuiPq.Impl SuiPq.Impl.SlhDsaRef SuiPq.Impl.LocalValidator
open SuiPq.Proof.SlhDsaRef
  (rootOf packedOf length_packedOf root_packedOf sign_eq packSignature_eq verify_parts
  unpackSignature_eq)

variable {H B : Hash}

/-- Writing behind what is written. -/
theorem set_end {done p : Bytes} {n off : Nat} (hd : done.length = off) (hp : p.length ≤ n) :
    Js.set (done ++ zeros n) p off = pure (done ++ p ++ zeros (n - p.length)) := by
  have hz : zeros n = zeros p.length ++ zeros (n - p.length) := by
    simp only [zeros, List.replicate_append_replicate]
    congr 1
    omega
  rw [hz, ← hd, ← List.append_assoc, set_eq (by simp only [List.length_append, length_zeros]; omega),
    patch_part (by simp)]

/-- The bytes of a transaction that are signed, hashed. -/
def intent (tx : Bytes) : Bytes := INTENT_TX_DATA ++ tx

theorem intentDigest_eq (tx : Bytes) : intentDigest B tx = Comp.ret (B (intent tx)) [intent tx] := by
  have h0 : Js.set (zeros (3 + tx.length)) INTENT_TX_DATA 0 = pure (INTENT_TX_DATA ++ zeros tx.length) := by
    have : Js.set ([] ++ zeros (3 + tx.length)) INTENT_TX_DATA 0 = _ := set_end rfl (Nat.le_add_right 3 _)
    rwa [show 3 + tx.length - INTENT_TX_DATA.length = tx.length from Nat.add_sub_cancel_left 3 _] at this
  have h1 : Js.set (INTENT_TX_DATA ++ zeros tx.length) tx 3 = pure (intent tx) := by
    rw [set_end (by rfl) (Nat.le_refl _), Nat.sub_self, show zeros 0 = [] by rfl, List.append_nil, intent]
  rw [intentDigest]
  refine (congrArg (· >>= _) h0).trans ?_
  rw [pure_bind]
  exact congrArg (· >>= _) h1

/-- A signature blob: the flag, the key and the signature. -/
def blob (pk : SlhDsaRef.PublicKey) (packed : Bytes) : Bytes := [7] ++ pk.seed ++ pk.root ++ packed

theorem blobLoop {pk : SlhDsaRef.PublicKey} {packed : Bytes} (hseed : pk.seed.length = 32)
    (hroot : pk.root.length = 32) (hp : packed.length = 5056) :
    (do
      let out := zeros SIG_BLOB_LEN
      let out := put out 0 SLH_DSA_LITE_FLAG
      let out ← set out pk.seed 1
      let out ← set out pk.root 33
      set out packed 65 : Js Bytes) = pure (blob pk packed) := by
  have hflag : put (zeros SIG_BLOB_LEN) 0 SLH_DSA_LITE_FLAG = [7] ++ zeros 5120 := by
    rw [put, zeros, show SIG_BLOB_LEN = 5120 + 1 by rfl, List.replicate_succ, List.set_cons_zero]
    rfl
  simp only [hflag]
  rw [set_end (by rfl) (by omega), pure_bind, set_end (by simp [hseed]) (by omega), pure_bind,
    set_end (by simp [hseed, hroot]) (by omega), hseed, hroot, hp,
    show zeros (5120 - 32 - 32 - 5056) = [] by rfl, List.append_nil, blob]

theorem signTx_eq {seed skSeed : Bytes} (hseed : seed.length = 32) {pk : SlhDsaRef.PublicKey}
    (hpk : pk = ⟨seed, rootOf H seed skSeed⟩) (tx : Bytes) :
    (signTxWithSlhDsa H B tx pk ⟨seed, skSeed⟩).res =
      .ok (blob pk (packedOf H seed skSeed (B (intent tx)))) := by
  have hroot : pk.root.length = 32 := hpk ▸ SlhDsaRef.length_xmssTree _ _
  rw [signTxWithSlhDsa, intentDigest_eq, Comp.ret_bind, sign_eq, Comp.ret_bind, packSignature_eq, pure_bind]
  refine (congrArg (fun c => (Comp.after _ (Comp.after _ c)).res) (blobLoop (hpk ▸ hseed) hroot
    (length_packedOf _))).trans ?_
  rfl

/-- What a blob is accepted for. -/
def Accepted (H B : Hash) (tx b : Bytes) : Prop :=
  b.length = 5121 ∧ b[0]? = some 7 ∧
    Spec.SlhLite.root H (window b 1 32) (B (intent tx)) (b.drop 65) = window b 33 32

instance (H B : Hash) (tx b : Bytes) : Decidable (Accepted H B tx b) :=
  inferInstanceAs (Decidable (_ ∧ _ ∧ _))

theorem verifyTx_eq (tx b : Bytes) :
    (verifyTxSlhDsaSig H B tx b).res = .ok (decide (Accepted H B tx b)) := by
  rw [verifyTxSlhDsaSig]
  by_cases hl : b.length = 5121
  · have h0 : 0 < b.length := by omega
    rw [SIG_BLOB_LEN, if_neg (not_not.mpr hl), get_eq h0, pure_bind]
    by_cases hf : b[0].toNat = 7
    · have hflag : b[0]? = some 7 := by
        rw [List.getElem?_eq_getElem h0]
        exact congrArg some (UInt8.toNat_inj.mp hf)
      rw [SLH_DSA_LITE_FLAG, if_neg (not_not.mpr hf)]
      simp only [show slice b 1 33 = window b 1 32 from slice_eq b 1 32,
        show slice b 33 65 = window b 33 32 from slice_eq b 33 32, unpackSignature_eq, pure_bind,
          intentDigest_eq, Comp.ret_bind, verify_parts, Comp.after_ret,
        Comp.res_ret]
      simp only [Accepted, hl, hflag, true_and]
      rfl
    · rw [SLH_DSA_LITE_FLAG, if_pos hf, decide_eq_false]
      · rfl
      · rintro ⟨-, h, -⟩
        rw [List.getElem?_eq_getElem h0] at h
        exact hf (congrArg UInt8.toNat (Option.some.inj h))
  · rw [SIG_BLOB_LEN, if_pos hl, decide_eq_false fun h => hl h.1]
    rfl

/-- The blob signed for a transaction is accepted. -/
theorem blob_accepted {seed skSeed tx : Bytes} (hseed : seed.length = 32) :
    Accepted H B tx (blob ⟨seed, rootOf H seed skSeed⟩ (packedOf H seed skSeed (B (intent tx)))) := by
  have hroot : (rootOf H seed skSeed).length = 32 := SlhDsaRef.length_xmssTree _ _
  refine ⟨?_, rfl, ?_⟩
  · simp [blob, hseed, hroot, length_packedOf]
  · have hs : window (blob ⟨seed, rootOf H seed skSeed⟩
      (packedOf H seed skSeed (B (intent tx)))) 1 32 = seed := by
      rw [blob, List.append_assoc]
      exact window_part rfl hseed
    have hr : window (blob ⟨seed, rootOf H seed skSeed⟩ (packedOf H seed skSeed (B (intent tx)))) 33 32 =
        rootOf H seed skSeed := window_part (by simp [hseed]) hroot
    have hp : (blob ⟨seed, rootOf H seed skSeed⟩ (packedOf H seed skSeed (B (intent tx)))).drop 65 =
        packedOf H seed skSeed (B (intent tx)) := List.drop_left' (by simp [hseed, hroot])
    rw [hs, hr, hp, root_packedOf]

end SuiPq.Proof.LocalValidator
