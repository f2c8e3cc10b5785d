import SuiPq.Proof.Sha2128s.Verify

/-!
# The on-chain 128s verifier: domain separation

`verifyWithContext_separation`: the tweakable-hash evaluations of
verifications under one key have different addresses if their positions
differ, which those of one verification always do, and none of them hashes
what the message digest does unless the key's seed is zero.
-/

namespace SuiPq.Proof.Sha2128s

open SuiPq.Impl SuiPq.Impl.MoveBytes SuiPq.Impl.Sha2128s SuiPq.HashSig
open SuiPq.Spec.Slh128s (WellSized evals hmsgHashed innerInput input pkPrefix wrap)

/-- The address buffer in the input of a tweakable hash: behind the padded seed. -/
def adrsOf (x : Bytes) : Bytes := window x 64 22

theorem adrsOf_input {seed : Bytes} (h : seed.length = 16) (e : Eval Bytes) :
    adrsOf (input (pkPrefix seed) e) = (Spec.Slh128s.adrs e.1).bytes := by
  have hp : (pkPrefix seed).length = 64 := by simp [pkPrefix, h]
  rw [adrsOf, input, List.append_assoc, ← hp, ← Nat.add_zero (pkPrefix seed).length, window_append_right,
    window_append_left _ _ (by simp), window_full (by simp)]

/-- The tweakable-hash evaluations of a run: none unless the lengths are right. -/
def runEvals (H : Hash) (pk msg sig ctx : Bytes) : List (Eval Bytes) :=
  if WellSized sig ctx then evals H pk msg sig ctx else []

/-- What a run hashes for its message digest. -/
def runDigest (H : Hash) (pk msg sig ctx : Bytes) : List Bytes :=
  if WellSized sig ctx then
    hmsgHashed H (window sig 0 16) (window pk 0 16) (window pk 16 16) (wrap ctx msg)
  else []

section Run

variable {H : Hash} {pk msg sig ctx : Bytes}

theorem mem_runEvals {e : Eval Bytes} (h : e ∈ runEvals H pk msg sig ctx) :
    e ∈ evals H pk msg sig ctx := by
  unfold runEvals at h
  split at h
  · exact h
  · cases h

theorem log_verifyWithContext (hpk : pk.length = 32) (hmsg : msg.length + 257 < 2 ^ 64) :
    (verifyWithContext H pk msg sig ctx).log = runDigest H pk msg sig ctx ++
      (runEvals H pk msg sig ctx).map (input (pkPrefix (window pk 0 16))) := by
  rw [verifyWithContext_eq hpk hmsg, Comp.log_ret, runEvals, runDigest]
  split <;> rfl

theorem runEvals_nodup (hseed : (window pk 0 16).length = 16) :
    ((runEvals H pk msg sig ctx).map fun e =>
      adrsOf (input (pkPrefix (window pk 0 16)) e)).Nodup := by
  unfold runEvals
  split
  · simp only [adrsOf_input hseed]
    have hn := Spec.Slh128s.evals_nodup H pk msg sig ctx
    rw [List.Nodup, List.pairwise_map] at hn ⊢
    refine hn.imp_of_mem fun {e e'} he he' hne h => hne ?_
    exact Spec.Slh128s.adrs_inj (Spec.Slh128s.evals_fits _ _ _ _ _ he)
      (Spec.Slh128s.evals_fits _ _ _ _ _ he') h
  · exact List.nodup_nil

end Run

/-- The digest's first input has the seed where a tweakable hash's has padding. -/
theorem innerInput_ne {r seed root m : Bytes} {e : Eval Bytes} (hr : r.length = 16)
    (hseed : seed.length = 16) (hz : seed ≠ List.replicate 16 0) :
    innerInput r seed root m ≠ input (pkPrefix seed) e := by
  intro h
  rw [innerInput, input, pkPrefix, show 48 = 16 + 32 by rfl, ← List.replicate_append_replicate] at h
  simp only [List.append_assoc] at h
  exact hz (List.append_inj_left (List.append_inj_right h (by omega)) (by simp [hseed]))

/-- Two runs under one key hash their digests' inputs and those of their
evaluations. Evaluations at one address are at one position, in one run no two
are, and the first input of a digest is that of no evaluation. -/
theorem verifyWithContext_separation (H : Hash) {pk msg msg' : Bytes} (hpk : pk.length = 32)
    (hmsg : msg.length + 257 < 2 ^ 64) (hmsg' : msg'.length + 257 < 2 ^ 64) (sig sig' ctx ctx' : Bytes) :
    let pre := pkPrefix (window pk 0 16)
    let E := runEvals H pk msg sig ctx
    let E' := runEvals H pk msg' sig' ctx'
    (verifyWithContext H pk msg sig ctx).log = runDigest H pk msg sig ctx ++ E.map (input pre) ∧
    (verifyWithContext H pk msg' sig' ctx').log = runDigest H pk msg' sig' ctx' ++ E'.map (input pre) ∧
    (∀ e ∈ E, ∀ e' ∈ E', adrsOf (input pre e) = adrsOf (input pre e') → e.1 = e'.1) ∧
    (E.map fun e => adrsOf (input pre e)).Nodup ∧
    (WellSized sig ctx → window pk 0 16 ≠ List.replicate 16 0 → ∀ e ∈ E',
      innerInput (window sig 0 16) (window pk 0 16) (window pk 16 16) (wrap ctx msg) ≠
        input pre e) := by
  have hseed : (window pk 0 16).length = 16 := length_window (by omega)
  refine ⟨log_verifyWithContext hpk hmsg, log_verifyWithContext hpk hmsg', fun e he e' he' h => ?_,
    runEvals_nodup hseed, fun hw hz e _ => innerInput_ne (length_window (by rw [hw.1]; decide)) hseed hz⟩
  rw [adrsOf_input hseed, adrsOf_input hseed] at h
  exact Spec.Slh128s.adrs_inj (Spec.Slh128s.evals_fits _ _ _ _ _ (mem_runEvals he))
    (Spec.Slh128s.evals_fits _ _ _ _ _ (mem_runEvals he')) h

/-- A run on a zero signature, under a key whose seed is not zero. -/
theorem verifyWithContext_separation_zero :
    let pk : Bytes := List.replicate 32 1
    let sig : Bytes := List.replicate 7856 0
    ((runEvals Hash.zero pk [] sig []).map fun e =>
        adrsOf (input (pkPrefix (window pk 0 16)) e)).Nodup ∧
      ∀ e ∈ runEvals Hash.zero pk [] sig [],
        innerInput (window sig 0 16) (window pk 0 16) (window pk 16 16) (wrap [] []) ≠
          input (pkPrefix (window pk 0 16)) e := by
  obtain ⟨-, -, -, hnodup, hdigest⟩ := verifyWithContext_separation Hash.zero
    (show (List.replicate 32 1 : Bytes).length = 32 from List.length_replicate)
      (by decide : ([] : Bytes).length + 257 < 2 ^ 64)
    (by decide : ([] : Bytes).length + 257 < 2 ^ 64) (List.replicate 7856 0) (List.replicate 7856 0) [] []
  exact ⟨hnodup, hdigest ⟨List.length_replicate, by decide⟩ (by decide)⟩

end SuiPq.Proof.Sha2128s
