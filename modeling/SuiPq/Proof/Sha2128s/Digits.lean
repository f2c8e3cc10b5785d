import SuiPq.Proof.Sha2128s.Bytes

/-!
# The on-chain 128s verifier: digits

The bit-twiddling of `sha2_128s` computes digits of the integers its byte
strings spell: base-16 digits of a message and its checksum
(`msgToChainDigits_eq`), and the FORS leaves, tree and leaf that a message
digest selects (`extractForsIndices_eq`, `splitDigest_eq`).
-/

namespace SuiPq.Proof.Sha2128s

open SuiPq.Impl SuiPq.Impl.MoveBytes SuiPq.Impl.Sha2128s SuiPq.Move SuiPq.HashSig

/-! ## WOTS+ digits -/

theorem baseW_eq {msg : Bytes} {outlen : Nat} (h : outlen ≤ 2 * msg.length) (hf : outlen < 2 ^ 64) :
    baseW msg outlen = pure ((List.range outlen).map (digit 16 (2 * msg.length) (ofBe msg))) := by
  refine whileLt_bind_pure (fun k s => s.1 = (k + 1) / 2 ∧
    s.2.2.2 = (List.range k).map (digit 16 (2 * msg.length) (ofBe msg)) ∧
    if k % 2 = 0 then s.2.1 = 0 else s.2.1 = 4 ∧ msg[k / 2]?.map UInt8.toNat = some s.2.2.1)
    ⟨rfl, rfl, rfl⟩ hf ?_ ?_
  · rintro k ⟨inIdx, bits, total, out⟩ hk ⟨rfl, rfl, hb⟩
    rcases Nat.even_or_odd' k with ⟨j, rfl | rfl⟩
    · have hj : j < msg.length := by omega
      simp only [Nat.mul_mod_right, if_true] at hb
      subst hb
      refine ⟨(j + 1, 4, msg[j].toNat, _), ⟨by omega, rfl, ?_⟩, ?_⟩
      · rw [if_neg (by omega), show (2 * j + 1) / 2 = j by omega, List.getElem?_eq_getElem hj]
        exact ⟨rfl, rfl⟩
      · rw [List.range_succ, List.map_append, List.map_singleton, digit_ofBe_even hj]
        simp only [show (2 * j + 1) / 2 = j by omega, if_true, borrow_eq hj,
          add_eq (show j + 1 < 2 ^ 64 by omega), pure_bind, LG_W, W, sub_eq (show 4 ≤ 8 by decide),
          cast_eq (show 8 - 4 < 2 ^ 8 by decide), shr_eq (show 8 - 4 < 32 by decide),
          cast_eq (show 16 < 2 ^ 32 by decide), sub_eq (show 1 ≤ 16 by decide)]
    · have hj : j < msg.length := by omega
      rw [if_neg (by omega), show (2 * j + 1) / 2 = j by omega, List.getElem?_eq_getElem hj] at hb
      obtain ⟨rfl, hb⟩ := hb
      obtain rfl := Option.some.inj hb
      refine ⟨(j + 1, 0, msg[j].toNat, _), ⟨by omega, rfl, by rw [if_pos (by omega)]⟩, ?_⟩
      rw [List.range_succ (n := 2 * j + 1), List.map_append, List.map_singleton, digit_ofBe_odd hj]
      simp only [show (2 * j + 1 + 1) / 2 = j + 1 by omega, if_neg (show 4 ≠ 0 by decide), pure_bind,
        LG_W, W, sub_eq (show 4 ≤ 4 by decide), cast_eq (show 4 - 4 < 2 ^ 8 by decide),
        shr_eq (show 4 - 4 < 32 by decide), cast_eq (show 16 < 2 ^ 32 by decide),
        sub_eq (show 1 ≤ 16 by decide), Nat.sub_self, Nat.shiftRight_zero]
  · rintro ⟨inIdx, bits, total, out⟩ ⟨-, rfl, -⟩
    rfl

theorem wotsChecksum_eq {d : Nat → Nat} (hd : ∀ i < 32, d i < 16) :
    wotsChecksum ((List.range 32).map d) =
      pure ((List.range 3).map (digit 16 3 (checksum 16 32 d))) := by
  have hsum : ∀ k ≤ 32, checksum 16 k d ≤ k * 15 := fun k _ => checksum_le 16 k d
  have hc := hsum 32 (Nat.le_refl _)
  have hcl : checksum 16 32 d <<< 4 < 2 ^ 16 := by rw [Nat.shiftLeft_eq]; omega
  rw [wotsChecksum, whileLt_pure (fun k => checksum 16 k d) (by rfl) (by decide) fun k hk => ?_, pure_bind]
  · simp only [LEN_2, LG_W, LEN_1, mul_eq (show 3 * 4 < 2 ^ 64 by decide), pure_bind,
      sub_eq (show 3 * 4 % 8 ≤ 8 by decide), show (8 - 3 * 4 % 8) % 8 = 4 by decide,
      cast_eq (show 4 < 2 ^ 8 by decide), add_eq (show 3 * 4 + 7 < 2 ^ 64 by decide),
      show (3 * 4 + 7) / 8 = 2 by decide]
    rw [shl_eq (by decide) (by omega), pure_bind, fillLoop (by decide), pure_bind,
      beLoop (o := 0) (by simp) fun i hi v buf => ?_, pure_bind, patch_self (by simp),
      baseW_eq (by simp) (by decide), ofBe_be, Nat.mod_eq_of_lt (by omega), length_be]
    · exact congrArg pure (List.map_congr_left fun j hj => digit_shifted (List.mem_range.mp hj))
    · simp only [shr_eq (show 8 < 64 by decide), pure_bind, byte_and_ff, Nat.zero_add]
  · have hk' : k < 32 := hk
    have := hsum k (by omega)
    have := hd k hk'
    simp only [borrow_eq (show k < ((List.range 32).map d).length by simpa using hk'), pure_bind,
      List.getElem_map, List.getElem_range, W, sub_eq (show 1 ≤ 16 by decide),
      sub_eq (show d k ≤ 16 - 1 by omega), checksum_succ]
    rw [add_eq (by omega)]

/-- The digits of a message and of its checksum. -/
theorem msgToChainDigits_eq {m : Bytes} (hm : m.length = 16) :
    msgToChainDigits m = pure ((List.range 35).map (Spec.Slh128s.digits m)) := by
  have hd : ∀ i < 32, digit 16 32 (ofBe m) i < 16 := fun i _ => digit_lt (by decide) _ _ _
  have hcopy := copyLoop (ε := Code) (w := 64) (o := 0) (n := 3)
    (s := (List.range 32).map (digit 16 32 (ofBe m)))
    (v := (List.range 3).map (digit 16 3 (checksum 16 32 (digit 16 32 (ofBe m))))) (by decide) (by simp)
    fun k _ => by rw [Nat.zero_add]
  rw [window_full (by simp)] at hcopy
  rw [msgToChainDigits, LEN_1, baseW_eq (by omega) (by decide), pure_bind, hm, wotsChecksum_eq hd, pure_bind,
    LEN_2, hcopy, Spec.Slh128s.map_digits]

/-! ## FORS leaves -/

/-- The inner loop of `extractForsIndices`: 12 bits from bit `12 * k`, most significant first. -/
theorem forsIndexLoop {md : Bytes} {k : Nat} (h : 21 ≤ md.length) (hk : k < 14) :
    (whileLt 64 0 12 0 fun b v => do
      let bitIdx ← Move.add 64 (12 * k) b
      let x ← borrow md (← shr 64 bitIdx 3)
      let s ← sub 7 (← Move.cast 8 (bitIdx &&& 7))
      let bit := (← shr 8 x.toNat s) &&& 1
      let v ← shl 32 v 1
      pure (v ||| bit) : MoveFn Nat) = pure (Spec.Slh128s.forsIndex (window md 0 21) k) := by
  have hlen : (window md 0 21).length = 21 := length_window h
  generalize hb : window md 0 21 = b at hlen
  have hget : ∀ i (hi : i < 21), md[i] = b[i] := fun i hi => by
    subst hb
    rw [getElem_window, List.get_eq_getElem]
    simp only [Nat.zero_add]
  rw [whileLt_pure (fun j => ofBe b / 2 ^ (168 - (12 * k + j)) % 2 ^ j) (by simp [Nat.mod_one]) (by decide)
    fun j hj => ?_]
  · rw [Spec.Slh128s.forsIndex, digit, ← pow_mul]
    congr 4
    omega
  · have hbit := bit_ofBe (b := b) (i := 12 * k + j) (by omega)
    rw [show 8 * b.length - 1 - (12 * k + j) = 168 - (12 * k + (j + 1)) by omega] at hbit
    have hlt : ofBe b / 2 ^ (168 - (12 * k + j)) % 2 ^ j < 2 ^ 12 :=
      Nat.lt_of_lt_of_le (Nat.mod_lt _ (Nat.pow_pos (by decide)))
        (Nat.pow_le_pow_right (by decide) (by omega))
    have hi : (12 * k + j) / 8 < 21 := by omega
    simp only [add_eq (show 12 * k + j < 2 ^ 64 by omega), shr_eq (show 3 < 64 by decide), pure_bind,
      Nat.shiftRight_eq_div_pow _ 3, Nat.reducePow, borrow_eq (show (12 * k + j) / 8 < md.length by omega),
      hget _ hi, show (12 * k + j) &&& 7 = (12 * k + j) % 8 from Nat.and_two_pow_sub_one_eq_mod _ 3,
      cast_eq (show (12 * k + j) % 8 < 2 ^ 8 by omega), sub_eq (show (12 * k + j) % 8 ≤ 7 by omega),
      shr_eq (show 7 - (12 * k + j) % 8 < 8 by omega), hbit]
    rw [shl_eq (by decide) (by rw [Nat.shiftLeft_eq]; omega), pure_bind,
      ← Nat.shiftLeft_add_eq_or_of_lt (Nat.mod_lt _ (by decide)), mod_two_pow_succ _ j, Nat.shiftLeft_eq,
      Nat.mul_comm, Nat.div_div_eq_div_mul, ← pow_succ,
      show 168 - (12 * k + (j + 1)) + 1 = 168 - (12 * k + j) by omega]

theorem extractForsIndices_eq {md : Bytes} (h : 21 ≤ md.length) :
    extractForsIndices md =
      pure ((List.range 14).map (Spec.Slh128s.forsIndex (window md 0 21))) := by
  rw [extractForsIndices]
  refine whileLt_bind_pure (fun k s => s.1 = 12 * k ∧
    s.2 = (List.range k).map (Spec.Slh128s.forsIndex (window md 0 21))) ⟨rfl, rfl⟩ (by decide) ?_ ?_
  · rintro k ⟨bitOff, out⟩ hk ⟨rfl, rfl⟩
    replace hk : k < 14 := hk
    refine ⟨(12 * (k + 1), _), ⟨rfl, rfl⟩, ?_⟩
    simp only [A]
    rw [forsIndexLoop h hk, pure_bind, add_eq (by omega), pure_bind, List.range_succ, List.map_append]
    rfl
  · rintro ⟨bitOff, out⟩ ⟨-, rfl⟩
    rfl

theorem splitDigest_eq {digest : Bytes} (h : digest.length = 30) :
    splitDigest digest = pure ((Spec.Slh128s.split digest).md, (Spec.Slh128s.split digest).tree,
      (Spec.Slh128s.split digest).leaf) := by
  unfold splitDigest
  simp only [K, A, H_PRIME, D, mul_eq (show 14 * 12 < 2 ^ 64 by decide),
    add_eq (show 14 * 12 + 7 < 2 ^ 64 by decide), mul_eq (show 9 * 7 < 2 ^ 64 by decide),
    sub_eq (show 9 ≤ 9 * 7 by decide), add_eq (show 9 * 7 - 9 + 7 < 2 ^ 64 by decide),
    add_eq (show 9 + 7 < 2 ^ 64 by decide), cast_eq (show 9 * 7 - 9 < 2 ^ 8 by decide),
    cast_eq (show 9 < 2 ^ 8 by decide), pure_bind, show (14 * 12 + 7) / 8 = 21 by decide,
    show (9 * 7 - 9 + 7) / 8 = 7 by decide, show (9 + 7) / 8 = 2 by decide,
    show 9 * 7 - 9 = 54 by decide]
  rw [slice_eq (by omega) (by decide), pure_bind,
    ofBeLoop (o := 21) (u := 64) (v := digest) (by decide) (by omega) (by decide) (by decide)
      fun k hk x => ?_,
    pure_bind, shl_eq (by decide) (by decide), pure_bind, sub_eq (by decide), pure_bind,
    ofBeLoop (o := 28) (u := 32) (v := digest) (by decide) (by omega) (by decide) (by decide)
      fun k hk x => ?_,
    pure_bind, shl_eq (by decide) (by decide), pure_bind, sub_eq (by decide), pure_bind, and_mask, and_mask]
  · rfl
  · simp only [add_eq (show 21 + 7 < 2 ^ 64 by decide), add_eq (show 21 + 7 + k < 2 ^ 64 by omega),
      pure_bind]
  · simp only [add_eq (show 21 + k < 2 ^ 64 by omega), pure_bind]

end SuiPq.Proof.Sha2128s
