import SuiPq.Proof.WotsPlus
import SuiPq.Proof.WotsRef.Signing

/-!
# The WOTS+ verifiers agree

`verify` and `pk_from_sig` of `wots_plus` and `wotsVerify` of `wots-ref.ts`
accept the same signatures, whatever an address has in the words that a chain
writes, and they accept those of `wotsSign` (`wots_agreement`).
-/

namespace SuiPq.Proof.WotsAgreement

open SuiPq.Impl SuiPq.Impl.WotsRef.Signing
open SuiPq.Spec.WotsPlus (SameBase sign length_sign length_publicKey pkFromSig_sign)
open SuiPq.Proof.WotsRef.Signing (secret wotsKeygen_eq wotsSign_eq wotsVerify_res)

variable (H : Hash) (seed adrs m : Bytes)

/-- The verifiers accept the same signatures: those that lead to the key. -/
structure Agree (sig pk : Bytes) (accepts : Bool) : Prop where
  move : (WotsPlus.verify H seed adrs m sig pk).res = .ok accepts
  typescript : (wotsVerify H seed adrs m sig pk).res = .ok accepts
  pkFromSig : (WotsPlus.pkFromSig H seed adrs m sig).res = .ok pk ↔ accepts = true

/-- The signature under a master secret is accepted. -/
structure Complete (master : Bytes) (kp : WotsKeypair) (sig : Bytes) : Prop where
  keygen : (wotsKeygen H master seed adrs).res = .ok kp
  sign : (wotsSign H kp m).res = .ok sig
  accepted : Agree H seed adrs m sig kp.publicKey true

variable {seed adrs m} (hs : seed.length = 32) (ha : adrs.length = 32) (hm : m.length = 32)
include hs ha hm

theorem agree {sig pk : Bytes} (hsig : sig.length = 2144) (hpk : pk.length = 2144) :
    Agree H seed adrs m sig pk (decide (Spec.WotsPlus.pkFromSig H seed adrs m sig = pk)) where
  move := WotsPlus.verify_res hs ha hm hsig hpk
  typescript := wotsVerify_res hs ha hm hsig hpk
  pkFromSig := by
    rw [WotsPlus.pkFromSig_eq hs ha hm hsig, Comp.res_ret, decide_eq_true_iff]
    exact ⟨Except.ok.inj, congrArg _⟩

theorem complete {master : Bytes} (hmaster : master.length = 32) : ∃ kp sig,
    Complete H seed adrs m master kp sig := by
  have hsk : ∀ i < 67, (secret H master i).length = 32 := fun i _ => H.length_apply _
  have hagree := agree H hs ha hm (length_sign H seed adrs hsk m) (length_publicKey H seed adrs hsk)
  rw [pkFromSig_sign H seed adrs hsk m, decide_eq_true rfl] at hagree
  have hkeygen := congrArg Comp.res (wotsKeygen_eq (H := H) hmaster hs ha)
  exact ⟨_, _, hkeygen, congrArg Comp.res (wotsSign_eq hsk ha hm _), hagree⟩

/-- On inputs of the lengths that are checked, the verifiers agree, under every address with the same base; and
the signatures that are made are accepted. -/
theorem wots_agreement :
    (∀ sig pk : Bytes, sig.length = 2144 → pk.length = 2144 → ∃ accepts, Agree H seed adrs m sig pk accepts ∧
      ∀ adrs' : Bytes, adrs'.length = 32 → SameBase adrs adrs' → Agree H seed adrs' m sig pk accepts) ∧
    ∀ master : Bytes, master.length = 32 → ∃ kp sig, Complete H seed adrs m master kp sig := by
  refine ⟨fun sig pk hsig hpk => ⟨_, agree H hs ha hm hsig hpk, fun adrs' ha' hbase => ?_⟩,
    fun master => complete H hs ha hm⟩
  rw [hbase.pkFromSig_eq ha ha']
  exact agree H hs ha' hm hsig hpk

omit hs ha hm

theorem wots_agreement_sample : ∃ kp sig, Complete Hash.zero (List.replicate 32 1) (List.replicate 32 2)
    (List.replicate 32 3) (List.replicate 32 4) kp sig :=
  (wots_agreement Hash.zero (List.length_replicate ..) (List.length_replicate ..)
    (List.length_replicate ..)).2 _ (List.length_replicate ..)

end SuiPq.Proof.WotsAgreement
