import SuiPq.Proof.LocalValidator
import SuiPq.Proof.Verifier

/-!
# SLH-DSA-LITE across the languages

What the TypeScript signer signs is accepted on-chain and by the local
validator (`signed_accepted`). On the same bytes the two verifiers agree
exactly on signatures of the right length (`verifiers_agree_iff`): the
on-chain one rejects the others, and the TypeScript one reads what there is.
-/

namespace SuiPq.Proof.LiteInterop

open SuiPq.Impl SuiPq.Impl.SlhDsaRef SuiPq.Impl.LocalValidator

section Keys

variable {seed root : Bytes} (hseed : seed.length = 32)

include hseed

theorem window_seed : window (seed ++ root) 0 32 = seed := by
  rw [window_append_left _ _ (by omega), window_full (by omega)]

theorem window_root (hroot : root.length = 32) : window (seed ++ root) 32 32 = root := by
  have := window_part (z := []) hseed hroot
  rwa [List.append_nil] at this

end Keys

/-! ## Completeness -/

/-- Keys are made and messages and transactions signed in TypeScript; the message's
signature is accepted on-chain, and the transaction's by the local validator. -/
theorem signed_accepted (H B : Hash) {seed : Bytes} (hseed : seed.length = 32) (skSeed : Bytes) :
    ∃ pk sk, (keygen H seed skSeed).res = .ok (pk, sk) ∧
      (∀ m : Bytes, m.length < 2 ^ 64 → ∃ packed,
        (do packSignature (← sign H sk m)).res = .ok packed ∧
        (Verifier.verify H (pk.seed ++ pk.root) m packed).res = .ok true) ∧
      ∀ tx : Bytes, ∃ b, (signTxWithSlhDsa H B tx pk sk).res = .ok b ∧
        (verifyTxSlhDsaSig H B tx b).res = .ok true := by
  have hroot : (SlhDsaRef.rootOf H seed skSeed).length = 32 := SlhDsaRef.length_xmssTree _ _
  refine ⟨⟨seed, SlhDsaRef.rootOf H seed skSeed⟩, ⟨seed, skSeed⟩, ?_, fun m hm => ?_, fun tx => ?_⟩
  · rw [SlhDsaRef.keygen_eq, Comp.res_ret]
  · refine ⟨SlhDsaRef.packedOf H seed skSeed m, ?_, ?_⟩
    · rw [SlhDsaRef.sign_eq, Comp.ret_bind, SlhDsaRef.packSignature_eq]
      rfl
    · rw [Verifier.verify_eq (by simp [hseed, hroot]) hm, Comp.res_ret, Spec.SlhLite.verify,
        window_seed hseed, window_root hseed hroot,
        decide_eq_true ⟨SlhDsaRef.length_packedOf m, SlhDsaRef.root_packedOf m⟩]
  · exact ⟨_, LocalValidator.signTx_eq hseed rfl tx, by
      rw [LocalValidator.verifyTx_eq, decide_eq_true (LocalValidator.blob_accepted hseed)]⟩

/-- Keys from seeds of zeros, under the hash that is zero everywhere. -/
theorem signed_accepted_zero :
    ∃ pk sk, (keygen Hash.zero (List.replicate 32 0) (List.replicate 32 0)).res = .ok (pk, sk) ∧
      (∃ packed, (do packSignature (← sign Hash.zero sk [])).res = .ok packed ∧
        (Verifier.verify Hash.zero (pk.seed ++ pk.root) [] packed).res = .ok true) ∧
      ∃ b, (signTxWithSlhDsa Hash.zero Hash.zero [] pk sk).res = .ok b ∧
        (verifyTxSlhDsaSig Hash.zero Hash.zero [] b).res = .ok true := by
  obtain ⟨pk, sk, hk, hm, htx⟩ := signed_accepted Hash.zero Hash.zero
    (show (List.replicate 32 0 : Bytes).length = 32 from List.length_replicate) (List.replicate 32 0)
  exact ⟨pk, sk, hk, hm [] (by decide), htx []⟩

/-! ## Agreement -/

/-- Both verifiers return the same for a signature, under a key from its seed and root. -/
def Agree (H : Hash) (seed root msg sig : Bytes) : Prop :=
  ∃ b, (Verifier.verify H (seed ++ root) msg sig).res = .ok b ∧
    (do SlhDsaRef.verify H ⟨seed, root⟩ msg (← unpackSignature sig)).res = .ok b

/-- Bytes behind a signature do not change the root it leads to. -/
theorem root_append {H : Hash} {seed msg sig : Bytes} (hsig : sig.length = 5056) (t : Bytes) :
    Spec.SlhLite.root H seed msg (sig ++ t) = Spec.SlhLite.root H seed msg sig := by
  have hfors : window (sig ++ t) 0 512 = window sig 0 512 := window_append_left _ _ (by omega)
  rw [Spec.SlhLite.root, Spec.SlhLite.root, hfors]
  refine HashSig.htRoot_congr fun l hl => ?_
  have hl : l < 2 := hl
  rw [Spec.SlhLite.htSig, Spec.SlhLite.htSig, window_append_left _ _ (by omega),
    window_append_left _ _ (by omega)]
  exact ⟨fun _ _ => rfl, fun _ _ => rfl⟩

theorem length_root (H : Hash) (seed msg sig : Bytes) : (Spec.SlhLite.root H seed msg sig).length = 32 :=
  Spec.SlhLite.length_htRoot (Spec.SlhLite.length_forsPk _ _) _ _ _ _

section Agreement

variable {H : Hash} {seed msg root : Bytes} (hseed : seed.length = 32) (hmsg : msg.length < 2 ^ 64)

include hseed hmsg

theorem move_res (hroot : root.length = 32) (sig : Bytes) :
    (Verifier.verify H (seed ++ root) msg sig).res =
      .ok (decide (sig.length = 5056 ∧ Spec.SlhLite.root H seed msg sig = root)) := by
  rw [Verifier.verify_eq (by simp [hseed, hroot]) hmsg, Comp.res_ret, Spec.SlhLite.verify, window_seed hseed,
    window_root hseed hroot]

theorem agree_of_length (hroot : root.length = 32) {sig : Bytes} (hsig : sig.length = 5056) :
    Agree H seed root msg sig := by
  refine ⟨_, move_res hseed hmsg hroot sig, ?_⟩
  rw [SlhDsaRef.verify_eq, Comp.res_ret]
  simp only [hsig, true_and]

/-- A signature of another length is accepted in TypeScript under the root it leads
to, and not on-chain. -/
theorem not_agree {sig : Bytes} (hsig : sig.length ≠ 5056) :
    ¬ Agree H seed (Spec.SlhLite.root H seed msg sig) msg sig := by
  rintro ⟨b, hmove, hts⟩
  rw [move_res hseed hmsg (length_root H seed msg sig), decide_eq_false fun h => hsig h.1] at hmove
  rw [SlhDsaRef.verify_eq, Comp.res_ret, decide_eq_true rfl] at hts
  exact Bool.false_ne_true ((Except.ok.inj hmove).trans (Except.ok.inj hts).symm)

end Agreement

/-- The verifiers agree on a signature under every key with a seed exactly if it has the right length. -/
theorem verifiers_agree_iff (H : Hash) {seed msg : Bytes} (hseed : seed.length = 32)
    (hmsg : msg.length < 2 ^ 64) (sig : Bytes) :
    (∀ root : Bytes, root.length = 32 → Agree H seed root msg sig) ↔ sig.length = 5056 :=
  ⟨fun h => by_contra fun hne => not_agree hseed hmsg hne (h _ (length_root H seed msg sig)),
    fun h _ hroot => agree_of_length hseed hmsg hroot h⟩

theorem verifiers_agree_iff_zero :
    (∀ root : Bytes, root.length = 32 →
      Agree Hash.zero (List.replicate 32 0) root [] (List.replicate 5057 0)) ↔
      (List.replicate 5057 0 : Bytes).length = 5056 :=
  verifiers_agree_iff Hash.zero List.length_replicate (by decide) _

/-- Whatever the hash: a valid signature, with a byte behind it, is accepted on one side only. -/
theorem extended_signature_disagrees :
    ¬ ∃ H : Hash, ∀ seed root msg sig : Bytes, seed.length = 32 → root.length = 32 → msg.length < 2 ^ 64 →
      Agree H seed root msg sig := by
  rintro ⟨H, h⟩
  let seed : Bytes := List.replicate 32 0
  let sig := SlhDsaRef.packedOf H seed seed []
  have hseed : seed.length = 32 := List.length_replicate
  have hsig : sig.length = 5056 := SlhDsaRef.length_packedOf []
  have hne : (sig ++ [0]).length ≠ 5056 := by
    rw [List.length_append, hsig]
    decide
  have hroot : Spec.SlhLite.root H seed [] (sig ++ [0]) = SlhDsaRef.rootOf H seed seed :=
    (root_append hsig [0]).trans (SlhDsaRef.root_packedOf [])
  exact not_agree hseed (by decide) hne (hroot ▸ h seed _ [] _ hseed (hroot ▸ length_root H seed [] _)
    (by decide))

end SuiPq.Proof.LiteInterop
