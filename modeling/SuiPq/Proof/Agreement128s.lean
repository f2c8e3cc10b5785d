import SuiPq.Proof.Fips205
import SuiPq.Proof.Sha2128s.Verify
import SuiPq.Proof.Slh128sRef

/-!
# The 128s verifiers agree

`verifiers_agree`: the Move, the TypeScript and the Lean verifier return one
boolean, as each is the specification. `verifiers_log`: the first two hash
the same inputs, too. `mgf1_agree` is about the mask generation on its own, of
which the verifiers use 30 bytes.
-/

namespace SuiPq.Proof.Agreement128s

open SuiPq.Impl

/-- On a 32-byte key, and a message that fits in a Move vector with its context, the
verifiers return the same. -/
theorem verifiers_agree (H : Hash) {pk msg : Bytes} (hpk : pk.length = 32)
    (hmsg : msg.length + 257 < 2 ^ 64) (sig ctx : Bytes) :
    ∃ b : Bool, (Sha2128s.verifyWithContext H pk msg sig ctx).res = .ok b ∧
      (Slh128sRef.verify H pk msg sig ctx).res = .ok b ∧ Fips205.verify H pk msg sig ctx = b :=
  ⟨Spec.Slh128s.verify H pk msg sig ctx, by rw [Sha2128s.verifyWithContext_eq hpk hmsg, Comp.res_ret],
    by rw [Slh128sRef.verify_eq hpk, Comp.res_ret], Fips205.verify_eq hpk msg sig ctx⟩

/-- A signature of zeros, under the hash that is zero everywhere. -/
theorem verifiers_agree_zero :
    let pk : Bytes := List.replicate 32 0
    let sig : Bytes := List.replicate 7856 0
    (Sha2128s.verifyWithContext Hash.zero pk [] sig []).res = .ok true ∧
      (Slh128sRef.verify Hash.zero pk [] sig []).res = .ok true ∧ Fips205.verify Hash.zero pk
      [] sig [] = true := by
  obtain ⟨b, hmove, hts, hlean⟩ := verifiers_agree Hash.zero
    (show (List.replicate 32 0 : Bytes).length = 32 from List.length_replicate)
    (show ([] : Bytes).length + 257 < 2 ^ 64 by decide) (List.replicate 7856 0) []
  have hb : b = true := by
    rw [← hlean, Fips205.verify_wellSized List.length_replicate List.length_replicate (by decide)]
    exact decide_eq_true rfl
  subst hb
  exact ⟨hmove, hts, hlean⟩

theorem verifiers_log (H : Hash) {pk msg : Bytes} (hpk : pk.length = 32)
    (hmsg : msg.length + 257 < 2 ^ 64) (sig ctx : Bytes) :
    (Sha2128s.verifyWithContext H pk msg sig ctx).log = (Slh128sRef.verify H pk msg sig ctx).log := by
  rw [Sha2128s.verifyWithContext_eq hpk hmsg, Slh128sRef.verify_eq hpk, Comp.log_ret, Comp.log_ret]

/-! ## Mask generation -/

/-- Where the functions return `out` for `n` bytes. The TypeScript one appends whole blocks to an array, which cannot
have 2^32 elements. -/
structure Mgf1 (H : Hash) (seed : Bytes) (n : Nat) (out : Bytes) : Prop where
  move : (Sha2128s.mgf1Sha256 H seed n).res = .ok out
  typescript : (Slh128sRef.mgf1Sha256 H seed n).res = if n ≤ 2 ^ 32 - 32 then .ok out else .error .range
  fips205 : Fips205.mgf1 H seed n = out

theorem mgf1_spec (H : Hash) (seed : Bytes) {n : Nat} (hn : n ≤ 32 * (2 ^ 32 - 1)) :
    Mgf1 H seed n (Spec.Slh128s.mgf1 H seed n) where
  move := by rw [Sha2128s.mgf1Sha256_eq H seed hn, Comp.res_ret]
  typescript := by
    by_cases h : n ≤ 2 ^ 32 - 32
    · rw [if_pos h, Slh128sRef.mgf1Sha256_eq seed h, Comp.res_ret]
    · rw [if_neg h]
      exact Slh128sRef.mgf1Sha256_range seed (by omega)
  fips205 := Fips205.mgf1_eq seed n

/-- The `n` bytes are the first of the hashes of the seed under the counters `0, 1, …`, and the bytes for a smaller
number are the first of them. -/
theorem mgf1_agree (H : Hash) (seed : Bytes) {n : Nat} (hn : n ≤ 32 * (2 ^ 32 - 1)) :
    ∃ out : Bytes, out.length = n ∧ Mgf1 H seed n out ∧
      (∀ k, n ≤ 32 * k → out = ((List.range k).flatMap fun c => H (seed ++ be 4 c)).take n) ∧
      ∀ m ≤ n, Mgf1 H seed m (out.take m) := by
  refine ⟨_, Spec.Slh128s.length_mgf1 H seed n, mgf1_spec H seed hn, fun k hk =>
    Spec.Slh128s.mgf1_eq_take H seed hk, fun m hm => ?_⟩
  have htake := List.prefix_iff_eq_take.mp (Spec.Slh128s.mgf1_prefix H seed hm)
  rw [Spec.Slh128s.length_mgf1] at htake
  rw [← htake]
  exact mgf1_spec H seed (Nat.le_trans hm hn)

/-- One byte more than a block. -/
theorem mgf1_agree_33 : Mgf1 Hash.zero [1] 33 (List.replicate 33 0) := by
  obtain ⟨out, -, hout, hstream, -⟩ := mgf1_agree Hash.zero [1] (show 33 ≤ 32 * (2 ^ 32 - 1) by decide)
  rw [hstream 2 (by decide)] at hout
  exact hout

/-- A length below the bound for which the array would need 2^32 elements. -/
theorem mgf1_range : 2 ^ 32 - 31 ≤ 32 * (2 ^ 32 - 1) ∧
    ∀ out, (Slh128sRef.mgf1Sha256 Hash.zero [] (2 ^ 32 - 31)).res ≠ .ok out := by
  refine ⟨by decide, fun out hout => ?_⟩
  rw [Slh128sRef.mgf1Sha256_range [] (by decide)] at hout
  cases hout

end SuiPq.Proof.Agreement128s
