import SuiPq.Impl.WotsPlus
import SuiPq.Proof.MoveBytes
import SuiPq.Spec.WotsPlus

/-!
# The on-chain WOTS+ verifier is the specification

`msgToChains_eq`: the digits of a 32-byte message. `pkFromSig_eq`: on inputs
of the lengths it checks, `pkFromSig` returns the specification's public key
and hashes the specification's inputs.
-/

namespace SuiPq.Proof.WotsPlus

open SuiPq.Impl SuiPq.Impl.MoveBytes SuiPq.Impl.WotsPlus SuiPq.Move SuiPq.HashSig
open SuiPq.Spec.WotsPlus (digits digits_lt chainAdrs input step chains)

variable {H : Hash} {seed adrs : Bytes}

/-! ## Digits -/

theorem u64ToBeBytes_eq (v : Nat) {width : Nat} (h : width ≤ 8) :
    u64ToBeBytes v width = pure (be width v) := by
  rw [u64ToBeBytes, whileLt_pure (fun k => be k (v >>> (8 * (width - k)))) (by rfl) (by omega) fun k hk => ?_]
  · simp
  · have hs : (width - 1 - k) * 8 = 8 * (width - (k + 1)) := by omega
    simp only [sub_eq (show 1 ≤ width by omega), sub_eq (show k ≤ width - 1 by omega), pure_bind,
      mul_eq (show (width - 1 - k) * 8 < 2 ^ 64 by omega),
      cast_eq (show (width - 1 - k) * 8 < 2 ^ 8 by omega),
      shr_eq (show (width - 1 - k) * 8 < 64 by omega), byte_and_ff]
    rw [be_succ_right, ← Nat.shiftRight_add, hs, show 8 * (width - (k + 1)) + 8 = 8 * (width - k) by omega]

/-- The digits of a message and of its checksum. -/
theorem msgToChains_eq {m : Bytes} (hm : m.length = 32) :
    msgToChains m = pure ((List.range 67).map (digits m)) := by
  let d := digit 16 64 (ofBe m)
  have hd : ∀ i, d i < 16 := fun i => digit_lt (by decide) _ _ _
  have hc : checksum 16 64 d ≤ 64 * 15 := checksum_le 16 64 d
  have hcl : checksum 16 64 d <<< 4 < 2 ^ 16 := by rw [Nat.shiftLeft_eq]; omega
  rw [msgToChains, whileLt_pure (fun k => (List.range (2 * k)).map d) (by rfl) (by decide) fun k hk => ?_,
    pure_bind, whileLt_pure (fun k => checksum 16 k d) (by rfl) (by decide) fun k hk => ?_, pure_bind,
    shl_eq (by decide) (by simp only [LEN_1]; omega), pure_bind, u64ToBeBytes_eq _ (by decide), pure_bind]
  · have hbe : ofBe (be 2 (checksum 16 64 d <<< 4)) = checksum 16 64 d <<< 4 := by
      rw [ofBe_be, Nat.mod_eq_of_lt (by omega)]
    have h0 := digit_ofBe_even (b := be 2 (checksum 16 64 d <<< 4)) (k := 0) (by simp)
    have h1 := digit_ofBe_odd (b := be 2 (checksum 16 64 d <<< 4)) (k := 0) (by simp)
    have h2 := digit_ofBe_even (b := be 2 (checksum 16 64 d <<< 4)) (k := 1) (by simp)
    rw [shr_and_15] at h0 h2
    simp only [length_be, hbe, Nat.reduceMul, Nat.reduceAdd] at h0 h1 h2
    simp only [LEN_1, N, borrow_eq (show 0 < (be 2 (checksum 16 64 d <<< 4)).length by simp),
      borrow_eq (show 1 < (be 2 (checksum 16 64 d <<< 4)).length by simp), pure_bind,
      shr_eq (show 4 < 8 by decide), ← h0, ← h1, ← h2, digit_shifted (show 0 < 3 by decide),
      digit_shifted (show 1 < 3 by decide), digit_shifted (show 2 < 3 by decide)]
    have hl : (List.range 64).map (digits m) = (List.range 64).map d :=
      List.map_congr_left fun i hi => encode_left (List.mem_range.mp hi)
    have hr : (List.range 3).map (digits m ∘ fun j => 64 + j) =
        (List.range 3).map (digit 16 3 (checksum 16 64 d)) :=
      List.map_congr_left fun j _ => encode_right 16 64 3 _ j
    rw [show 67 = 64 + 3 by rfl, List.range_add, List.map_append, List.map_map, hl, hr,
      List.append_assoc, List.append_assoc]
    rfl
  · have hk' : k < 64 := hk
    have := checksum_le 16 k d
    have := hd k
    simp only [N, borrow_eq (show k < ((List.range (2 * 32)).map d).length by simpa using hk'), pure_bind,
      List.getElem_map, List.getElem_range, W, sub_eq (show 1 ≤ 16 by decide),
      sub_eq (show d k ≤ 16 - 1 by omega), checksum_succ]
    rw [add_eq (by omega)]
  · have hk' : k < m.length := by simp only [N] at hk; omega
    have he := digit_ofBe_even hk'
    have ho := digit_ofBe_odd hk'
    rw [shr_and_15, hm] at he
    rw [hm] at ho
    rw [borrow_eq hk', pure_bind, shr_eq (by decide), pure_bind, ← he, ← ho,
      show 2 * (k + 1) = 2 * k + 1 + 1 by omega, List.range_succ, List.range_succ, List.map_append,
      List.map_append]
    rfl

/-! ## Chains -/

theorem chainHash_eq {a m : Bytes} (hs : seed.length < 2 ^ 64) (ha : a.length < 2 ^ 64)
    (hm : m.length < 2 ^ 64) : chainHash H seed a m = Comp.hash H (seed ++ a ++ m) := by
  simp only [chainHash, extend, concat_eq hs, concat_eq ha, concat_eq hm, pure_bind, List.nil_append]

/-- The address of a chain, before the position is written. -/
def chainBase (adrs : Bytes) (i : Nat) : Bytes := patch (patch adrs 16 (be 4 0)) 24 (be 4 i)

theorem length_chainBase (ha : adrs.length = 32) (i : Nat) : (chainBase adrs i).length = 32 := by
  simp [chainBase, ha]

theorem length_chainAdrs (ha : adrs.length = 32) (i j : Nat) : (chainAdrs adrs i j).length = 32 := by
  have := length_chainBase ha i
  exact (length_patch (by rw [length_be]; exact Nat.le_of_eq this.symm)).trans this

/-- Climbing a chain; the address that is left behind is not used again. -/
theorem climbChain_eq {x : Bytes} {start steps : Nat} (i : Nat) (hs : seed.length = 32)
    (ha : adrs.length = 32) (hx : x.length = 32) (hstart : start + steps < 2 ^ 8) :
    ∃ a, climbChain H seed (chainBase adrs i) x start steps =
      Comp.ret (a, chain (step H seed adrs i) start x steps)
        ((chainEvals (step H seed adrs i) start x steps).map fun e => input seed adrs i e.1 e.2) := by
  have hround : ∀ (k : Nat) (s : Bytes × Bytes), k < steps → (s.1.length = 32 ∧
      (∀ q : Bytes, q.length = 4 → patch s.1 28 q = patch (chainBase adrs i) 28 q) ∧
      s.2 = chain (step H seed adrs i) start x k) → ∃ s', (s'.1.length = 32 ∧
      (∀ q : Bytes, q.length = 4 → patch s'.1 28 q = patch (chainBase adrs i) 28 q) ∧
      s'.2 = chain (step H seed adrs i) start x (k + 1)) ∧ (do
        let adrs ← writeU32 s.1 28 (← Move.cast 32 (← Move.add 8 start k))
        let node ← chainHash H seed adrs s.2
        pure (adrs, node)) =
      Comp.ret s' [input seed adrs i (start + k) (chain (step H seed adrs i) start x k)] := by
    rintro k ⟨a, node⟩ hk ⟨hal, hap, rfl⟩
    replace hal : a.length = 32 := hal
    have hnode : (chain (step H seed adrs i) start x k).length = 32 := by
      cases k with
      | zero => exact hx
      | succ k => exact H.length_apply _
    have hpatch : patch a 28 (be 4 (start + k)) = chainAdrs adrs i (start + k) := hap _ (length_be _ _)
    have hlen := length_chainAdrs ha i (start + k)
    refine ⟨(chainAdrs adrs i (start + k), _), ⟨hlen, fun q hq => ?_, rfl⟩, ?_⟩
    · exact patch_patch (by simp [hq]) (by rw [length_be]; exact Nat.le_of_eq (length_chainBase ha i).symm)
    · simp only [add_eq (show start + k < 2 ^ 8 by omega), cast_eq (show start + k < 2 ^ 32 by omega),
        pure_bind, writeU32_eq (show 28 + 4 ≤ a.length by omega) (by decide), hpatch]
      rw [chainHash_eq (by omega) (by omega) (by omega), Comp.hash, Comp.ret_bind, Comp.after_pure]
      rfl
  obtain ⟨⟨a, node⟩, ⟨-, -, rfl⟩, h⟩ := whileLt_zero_inv (w := 8) (s := (chainBase adrs i, x)) _ _
    ⟨length_chainBase ha i, fun _ _ => rfl, rfl⟩ (by omega) hround
  refine ⟨a, h.trans ?_⟩
  rw [← List.map_eq_flatMap, chainEvals, List.map_map]
  rfl

/-- A round of `verify` and of `pkFromSig`: the top of a chain, and what is done with it. -/
theorem topRound_eq {β : Type} {m sig : Bytes} {i : Nat} (hs : seed.length = 32) (ha : adrs.length = 32)
    (hsig : sig.length = 2144) (hi : i < 67) (g : Bytes → MoveFn β) :
    (do
      let start ← Move.cast 8 (← borrow ((List.range 67).map (digits m)) i)
      let steps ← sub (← sub W 1) start
      let node ← slice sig (← mul 64 i N) N
      let localAdrs ← writeU32 adrs 16 TYPE_WOTS_HASH
      let localAdrs ← writeU32 localAdrs 24 (← Move.cast 32 i)
      let (_, node) ← climbChain H seed localAdrs node start steps
      g node) =
      Comp.after ((chainEvals (step H seed adrs i) (digits m i) (chains sig i) (15 - digits m i)).map
          fun e => input seed adrs i e.1 e.2)
        (g (top (step H seed adrs) 16 i (digits m i) (chains sig i))) := by
  have hd := digits_lt m i
  have hx : (chains sig i).length = 32 := length_window (by omega)
  simp only [borrow_eq (show i < ((List.range 67).map (digits m)).length by simpa using hi), pure_bind,
    List.getElem_map, List.getElem_range, cast_eq (show digits m i < 2 ^ 8 by omega), N, W,
    TYPE_WOTS_HASH, sub_eq (show 1 ≤ 16 by decide), sub_eq (show digits m i ≤ 16 - 1 by omega),
    mul_eq (show i * 32 < 2 ^ 64 by omega), slice_eq (show i * 32 + 32 ≤ sig.length by omega) (by omega),
    writeU32_eq (show 16 + 4 ≤ adrs.length by omega) (by decide),
    cast_eq (show i < 2 ^ 32 by omega),
    writeU32_eq (show 24 + 4 ≤ (patch adrs 16 (be 4 0)).length by simp [ha]) (by decide)]
  obtain ⟨a, hclimb⟩ := climbChain_eq (H := H) i hs ha hx
    (show digits m i + (16 - 1 - digits m i) < 2 ^ 8 by omega)
  change climbChain H seed (chainBase adrs i) (chains sig i) _ _ >>= _ = _
  rw [hclimb, Comp.ret_bind]
  rfl

theorem pkFromSig_eq {m sig : Bytes} (hs : seed.length = 32) (ha : adrs.length = 32)
    (hm : m.length = 32) (hsig : sig.length = 2144) :
    pkFromSig H seed adrs m sig =
      Comp.ret (Spec.WotsPlus.pkFromSig H seed adrs m sig) (Spec.WotsPlus.hashed H seed adrs m sig) := by
  rw [pkFromSig, require_pos (show seed.length = N from hs), pure_bind, require_pos ha, pure_bind,
    require_pos (show m.length = N from hm), pure_bind, require_pos (show sig.length = LEN * N from hsig),
    pure_bind, msgToChains_eq hm, pure_bind,
    whileLt_ret (fun k => (List.range k).flatMap fun i =>
        top (step H seed adrs) 16 i (digits m i) (chains sig i))
      (fun i => (chainEvals (step H seed adrs i) (digits m i) (chains sig i) (15 - digits m i)).map
        fun e => input seed adrs i e.1 e.2) (by rfl) (by decide) fun i hi => ?_]
  · rw [Spec.WotsPlus.hashed, topsEvals, List.map_flatMap]
    simp only [List.map_map, Function.comp_def]
    rfl
  · replace hi : i < 67 := hi
    have hlen : (top (step H seed adrs) 16 i (digits m i) (chains sig i)).length = 32 :=
      Spec.WotsPlus.length_top (length_window (by omega)) i _
    have hcopy := copyLoop (ε := Code) (w := 64) (o := 0) (n := 32) (v := top (step H seed adrs) 16 i
      (digits m i) (chains sig i)) (s := (List.range i).flatMap fun i =>
        top (step H seed adrs) 16 i (digits m i) (chains sig i)) (by decide) (by omega)
      fun k _ => by rw [Nat.zero_add]
    rw [window_full (by omega)] at hcopy
    refine (topRound_eq (m := m) hs ha hsig hi fun node => whileLt 64 0 N _ fun k tops => do
      let x ← borrow node k
      pure (tops ++ [x])).trans ?_
    refine (congrArg (Comp.after _) hcopy).trans ?_
    rw [Comp.after_pure, List.range_succ, List.flatMap_append, List.flatMap_singleton]

theorem verify_res {m sig pk : Bytes} (hs : seed.length = 32) (ha : adrs.length = 32) (hm : m.length = 32)
    (hsig : sig.length = 2144) (hpk : pk.length = 2144) :
    (verify H seed adrs m sig pk).res = .ok (decide (Spec.WotsPlus.pkFromSig H seed adrs m sig = pk)) := by
  rw [verify, require_pos (show seed.length = N from hs), pure_bind, require_pos ha, pure_bind,
    require_pos (show m.length = N from hm), pure_bind, require_pos (show sig.length = LEN * N from hsig),
    pure_bind, require_pos (show pk.length = LEN * N from hpk), pure_bind, msgToChains_eq hm, pure_bind]
  refine Comp.allLoop (Spec.WotsPlus.pkFromSig_eq_iff hsig hpk) fun i hi => ?_
  replace hi : i < 67 := hi
  have hlen : (top (step H seed adrs) 16 i (digits m i) (chains sig i)).length < 2 ^ 64 := by
    have hx : (chains sig i).length = 32 := length_window (by omega)
    rw [Spec.WotsPlus.length_top hx]
    decide
  refine (congrArg Comp.res (topRound_eq (m := m) hs ha hsig hi fun node => do
    let expected ← slice pk (← mul 64 i N) N
    if !(← bytesEq node expected) then return some false
    let _ ← add 64 i 1
    return none)).trans ?_
  simp only [N, mul_eq (show i * 32 < 2 ^ 64 by omega), pure_bind,
    slice_eq (show i * 32 + 32 ≤ pk.length by omega) (by omega), bytesEq_eq hlen]
  by_cases he : top (step H seed adrs) 16 i (digits m i) (chains sig i) = window pk (i * 32) 32
  · rw [decide_eq_true he, if_pos he, add_eq (show i + 1 < 2 ^ 64 by omega)]
    rfl
  · rw [decide_eq_false he, if_neg he]
    rfl

end SuiPq.Proof.WotsPlus
