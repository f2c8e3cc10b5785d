import SuiPq.Impl.Slh128sRef
import SuiPq.Proof.JsBytes
import SuiPq.Spec.Slh128s

/-!
# The TypeScript 128s verifier is the specification

`verify_eq`: for a 32-byte key the verifier returns what the specification's
`verify` does, and hashes what `hashed` says if the lengths are right and
nothing otherwise.
-/

namespace SuiPq.Proof.Slh128sRef

open SuiPq.Impl SuiPq.Impl.JsBytes SuiPq.Impl.Slh128sRef SuiPq.Js SuiPq.HashSig
open SuiPq.Spec.Slh128s (params input digits digits_lt forsIndex length_thash length_htRoot
  length_forsPk mgf1 mgf1_eq mgf1Stream mgf1Stream_succ length_mgf1Stream)

/-- The node hash of the specification, under a key's seed. -/
abbrev T (H : Hash) (seed : Bytes) := Spec.Slh128s.thash H (Spec.Slh128s.pkPrefix seed)

/-- What is hashed for an evaluation under a key's seed. -/
abbrev inputAt (seed : Bytes) := input (Spec.Slh128s.pkPrefix seed)

variable {H : Hash} {seed : Bytes} {l t kp : Nat}

/-! ## Addresses and hashes -/

theorem writeU8_eq {buf : Bytes} {off : Nat} (h : off < buf.length) (v : Nat) :
    writeU8 buf off v = patch buf off (be 1 v) := by
  have := set_patch_right (l := buf) (p := []) (by simpa using h) (UInt8.ofNat v)
  rw [writeU8, put, ofNat_and]
  simpa [patch_nil, be] using this

theorem writeU64BE_eq {buf : Bytes} {off : Nat} (h : off + 8 ≤ buf.length) (v : Nat) :
    writeU64BE buf off v = pure (patch buf off (be 8 v)) := by
  rw [writeU64BE, beLoop (o := off) h fun i hi u _ buf => ?_, pure_bind]
  simp only [number_eq (Nat.lt_trans (and_ff_lt u) (show 256 < 2 ^ 53 by decide)), pure_bind, put,
    ofNat_and_ff]

theorem compressAdrs_eq (l t ty kp th ti : Nat) :
    compressAdrs ⟨l, t, ty, kp, th, ti⟩ = pure (Spec.Slh128s.Adrs.bytes ⟨l, t, ty, kp, th, ti⟩) := by
  have hz : zeros FIPS205.adrsBytes = Spec.Slh128s.Adrs.bytes ⟨0, 0, 0, 0, 0, 0⟩ := rfl
  have hw : ∀ {buf : Bytes} {off : Nat} (v : Nat), buf.length = 22 → off + 4 ≤ 22 →
      writeU32BE buf off v = patch buf off (be 4 v) := fun v hl h => writeU32BE_eq (by rwa [hl]) v
  simp only [compressAdrs, hz]
  rw [writeU8_eq (by simp), Spec.Slh128s.patch_layer, writeU64BE_eq (by simp), pure_bind,
    Spec.Slh128s.patch_tree, writeU8_eq (by simp), Spec.Slh128s.patch_type]
  simp only [hw _ (Spec.Slh128s.Adrs.length_bytes _) (show 10 + 4 ≤ 22 by decide),
    hw _ (Spec.Slh128s.Adrs.length_bytes _) (show 14 + 4 ≤ 22 by decide),
    hw _ (Spec.Slh128s.Adrs.length_bytes _) (show 18 + 4 ≤ 22 by decide), Spec.Slh128s.patch_keypair,
    Spec.Slh128s.patch_treeHeight, Spec.Slh128s.patch_treeIndex]

/-- The address of a position, as the code has it. -/
def adrsOf (n : Node) : Slh128sRef.Adrs :=
  let a := Spec.Slh128s.adrs n
  ⟨a.layer, a.tree, a.type, a.keypair, a.treeHeight, a.treeIndex⟩

/-- Hashing under the address of a position. -/
theorem thash_node (n : Node) (xs : List Bytes) {m : Bytes} (h : m = xs.flatten) :
    thash H seed (adrsOf n) m = Comp.ret (T H seed n xs) [inputAt seed (n, xs)] := by
  have hin : [seed, PAD48, (Spec.Slh128s.adrs n).bytes, m].flatten = inputAt seed (n, xs) := by
    simp [inputAt, input, Spec.Slh128s.pkPrefix, PAD48, zeros, h]
  rw [thash, adrsOf, compressAdrs_eq, pure_bind]
  change concat [seed, PAD48, (Spec.Slh128s.adrs n).bytes, m] >>= _ = _
  rw [concat_eq, pure_bind, Comp.hash, Comp.ret_bind, Comp.after_pure, hin]
  rfl

/-- A round of `mgf1Sha256` appends a block, where the array has room for it. -/
theorem mgf1Round (s : Bytes) {c : Nat} (hc : 32 * c < 2 ^ 32) :
    (do
      let block ← Comp.hash H (← concat [s, writeU32BE (zeros 4) 0 c])
      let out ← block.foldlM (fun out b => push out [b]) (mgf1Stream H s c)
      pure (c + 1, out) : Js (Nat × Bytes)) =
      if 32 * (c + 1) < 2 ^ 32 then Comp.ret (c + 1, mgf1Stream H s (c + 1)) [s ++ be 4 c]
      else ⟨[s ++ be 4 c], .error .range⟩ := by
  have hctr : writeU32BE (zeros 4) 0 c = be 4 c := by
    rw [writeU32BE_eq (by simp), patch_self (by simp)]
  have hin : [s, be 4 c].flatten = s ++ be 4 c := by simp
  have hroom : (mgf1Stream H s c).length < 2 ^ 32 := by rwa [length_mgf1Stream]
  rw [hctr, concat_eq, pure_bind, Comp.hash, Comp.ret_bind, foldlM_push hroom, push, length_mgf1Stream,
    Hash.length_apply, hin]
  by_cases hlt : 32 * (c + 1) < 2 ^ 32
  · rw [if_pos hlt, if_pos (by omega), pure_bind, Comp.after_pure, mgf1Stream_succ]
  · rw [if_neg hlt, if_neg (by omega), Comp.stop_bind]
    simp [Comp.after, Comp.stop]

theorem mgf1Sha256_eq (s : Bytes) {n : Nat} (hn : n ≤ 2 ^ 32 - 32) :
    mgf1Sha256 H s n = Comp.ret (mgf1 H s n) (Spec.Slh128s.mgf1Blocks s n) := by
  rw [mgf1Sha256, Comp.whileFuel_ret (n := (n + 31) / 32) (fun c => (c, mgf1Stream H s c))
    (fun c => [s ++ be 4 c]) (by simp [mgf1Stream]) (by omega) (fun c hc => ?_) ?_ fun c hc => ?_]
  · rw [Comp.ret_bind, Comp.after_pure, ← List.map_eq_flatMap, mgf1_eq, slice, List.drop_zero,
      Spec.Slh128s.mgf1Blocks]
  · simp only [length_mgf1Stream, decide_eq_false_iff_not]
    omega
  · simp only [length_mgf1Stream, decide_eq_true_eq]
    omega
  · refine (mgf1Round s (by omega)).trans (if_pos ?_)
    omega

/-- The array of numbers cannot have 2^32 elements. -/
theorem mgf1Sha256_range (s : Bytes) {n : Nat} (hn : 2 ^ 32 - 32 < n) : (mgf1Sha256 H s n).res =
    .error .range := by
  rw [mgf1Sha256]
  refine Comp.bind_error (Comp.whileFuel_error (n := 2 ^ 27 - 1) (fun c => (c, mgf1Stream H s c))
    (fun c => [s ++ be 4 c]) rfl (by omega) (fun c hc => ?_) (fun c hc => ?_) ?_) _
  · simp only [length_mgf1Stream, decide_eq_true_eq]
    omega
  · refine (mgf1Round s (by omega)).trans (if_pos ?_)
    omega
  · refine (congrArg Comp.res (mgf1Round s (by omega))).trans ?_
    rw [if_neg (by omega)]

theorem Hmsg_eq (r root m : Bytes) :
    Hmsg H r seed root m =
      Comp.ret (Spec.Slh128s.hmsg H r seed root m) (Spec.Slh128s.hmsgHashed H r seed root m) := by
  rw [Hmsg, concat_eq, pure_bind, Comp.hash, Comp.ret_bind, concat_eq, pure_bind,
    mgf1Sha256_eq _ (by decide), Comp.after_ret]
  simp [Spec.Slh128s.hmsg, Spec.Slh128s.hmsgHashed, Spec.Slh128s.hmsgSeed, Spec.Slh128s.innerInput]

/-! ## Digits -/

theorem baseW_eq {msg : Bytes} {outlen : Nat} (h : outlen ≤ 2 * msg.length) :
    baseW msg outlen = pure ((List.range outlen).map (digit 16 (2 * msg.length) (ofBe msg))) := by
  refine Comp.forLt_bind_pure (fun k s => s.1 = (k + 1) / 2 ∧
    s.2.2.2 = (List.range k).map (digit 16 (2 * msg.length) (ofBe msg)) ∧
    if k % 2 = 0 then s.2.1 = 0 else s.2.1 = 4 ∧ msg[k / 2]?.map UInt8.toNat = some s.2.2.1)
    ⟨rfl, rfl, rfl⟩ ?_ ?_
  · rintro k ⟨inIdx, bits, total, out⟩ hk ⟨rfl, rfl, hb⟩
    rcases Nat.even_or_odd' k with ⟨j, rfl | rfl⟩
    · have hj : j < msg.length := by omega
      have hx := msg[j].toNat_lt
      simp only [Nat.mul_mod_right, if_true] at hb
      subst hb
      refine ⟨(j + 1, 4, msg[j].toNat, _), ⟨by omega, rfl, ?_⟩, ?_⟩
      · rw [if_neg (by omega), show (2 * j + 1) / 2 = j by omega, List.getElem?_eq_getElem hj]
        exact ⟨rfl, rfl⟩
      · rw [List.range_succ, List.map_append, List.map_singleton, digit_ofBe_even hj]
        simp only [show (2 * j + 1) / 2 = j by omega, if_true, get_eq hj, pure_bind, FIPS205.lg_w, FIPS205.w,
          sar_eq (show msg[j].toNat < 2 ^ 31 by omega) (show 8 - 4 < 32 by decide)]
        rw [and_eq (Nat.lt_of_le_of_lt (Nat.shiftRight_le _ _) (by omega)) (by decide)]
    · have hj : j < msg.length := by omega
      have hx := msg[j].toNat_lt
      rw [if_neg (by omega), show (2 * j + 1) / 2 = j by omega, List.getElem?_eq_getElem hj] at hb
      obtain ⟨rfl, hb⟩ := hb
      obtain rfl := Option.some.inj hb
      refine ⟨(j + 1, 0, msg[j].toNat, _), ⟨by omega, rfl, by rw [if_pos (by omega)]⟩, ?_⟩
      rw [List.range_succ (n := 2 * j + 1), List.map_append, List.map_singleton, digit_ofBe_odd hj]
      simp only [show (2 * j + 1 + 1) / 2 = j + 1 by omega, if_neg (show 4 ≠ 0 by decide), pure_bind,
        FIPS205.lg_w, FIPS205.w, Nat.sub_self, Nat.shiftRight_zero,
        sar_eq (show msg[j].toNat < 2 ^ 31 by omega) (show 0 < 32 by decide)]
      rw [and_eq (by omega) (by decide)]
  · rintro ⟨inIdx, bits, total, out⟩ ⟨-, rfl, -⟩
    rfl

theorem wotsChecksum_eq {d : Nat → Nat} :
    wotsChecksum ((List.range 32).map d) =
      pure ((List.range 3).map (digit 16 3 (checksum 16 32 d))) := by
  have hc : checksum 16 32 d ≤ 32 * 15 := checksum_le 16 32 d
  have hcl : checksum 16 32 d <<< 4 < 2 ^ 16 := by rw [Nat.shiftLeft_eq]; omega
  have hbe : ofBe (be 2 (checksum 16 32 d <<< 4)) = checksum 16 32 d <<< 4 := by
    rw [ofBe_be, Nat.mod_eq_of_lt (by omega)]
  rw [wotsChecksum, forLt_zero_pure (fun k => checksum 16 k d) (by rfl) fun k hk => ?_, pure_bind]
  · simp only [FIPS205.len_2, FIPS205.lg_w, show (8 - 3 * 4 % 8) % 8 = 4 by decide,
      show ceilDiv (3 * 4) 8 = 2 by decide, FIPS205.len_1]
    rw [shl_eq (by decide) (by omega), pure_bind,
      beLoop (o := 0) (by simp) fun i hi u hu buf => ?_, pure_bind, patch_self (by simp),
      baseW_eq (by simp), hbe, length_be]
    · exact congrArg pure (List.map_congr_left fun j hj => digit_shifted (List.mem_range.mp hj))
    · rw [put, ofNat_and, ushr_eq (by omega) (by decide), Nat.zero_add]
  · have hk' : k < 32 := hk
    rw [get_eq (by simpa using hk'), pure_bind, List.getElem_map, List.getElem_range, checksum_succ]
    rfl

theorem msgToChainDigits_eq {m : Bytes} (hm : m.length = 16) :
    msgToChainDigits m = pure ((List.range 35).map (digits m)) := by
  rw [msgToChainDigits, baseW_eq (by simp [hm]), pure_bind, hm, show 2 * 16 = 32 by rfl, FIPS205.len_1,
    wotsChecksum_eq, pure_bind, Spec.Slh128s.map_digits]

/-! ## WOTS+ -/

theorem chain_eq (x : Bytes) (i k c ti : Nat) :
    Slh128sRef.chain H x i k seed ⟨l, t, 0, kp, c, ti⟩ =
      Comp.ret (HashSig.chain (wotsStep (T H seed) l t kp c) i x k)
        ((chainEvals (wotsStep (T H seed) l t kp c) i x k).map fun e =>
          inputAt seed (.wotsStep l t kp c e.1, [e.2])) := by
  refine Comp.forLt_bind (fun j s => s.1 = HashSig.chain (wotsStep (T H seed) l t kp c) i x (j - i) ∧
      ∃ ti, s.2 = ⟨l, t, 0, kp, c, ti⟩)
    (fun j => [inputAt seed (.wotsStep l t kp c j,
      [HashSig.chain (wotsStep (T H seed) l t kp c) i x (j - i)])])
    (Nat.le_add_right _ _) ⟨by rw [Nat.sub_self]; rfl, ti, rfl⟩ ?_ ?_
  · rintro j ⟨tmp, a⟩ hij hj ⟨rfl, ti, rfl⟩
    have hstep : thash H seed ⟨l, t, 0, kp, c, j⟩ _ = _ := thash_node (.wotsStep l t kp c j)
      [HashSig.chain (wotsStep (T H seed) l t kp c) i x (j - i)] (List.flatten_singleton).symm
    refine ⟨(_, ⟨l, t, 0, kp, c, j⟩), ⟨rfl, _, rfl⟩, ?_⟩
    simp only [hstep, Comp.ret_bind, Comp.after_pure]
    rw [show j + 1 - i = j - i + 1 by omega, HashSig.chain, show i + (j - i) = j by omega]
    rfl
  · rintro ⟨tmp, a⟩ ⟨rfl, -⟩
    rw [Comp.after_pure, Nat.add_sub_cancel_left, chainEvals, List.map_map, List.range'_eq_map_range,
      List.flatMap_map, ← List.map_eq_flatMap]
    simp only [Nat.add_sub_cancel_left]
    rfl

theorem wotsPkFromSig_eq {sig msg : Bytes} (hmsg : msg.length = 16) (hsig : 560 ≤ sig.length)
    {s : Nat → Bytes} (hs : ∀ i < 35, window sig (i * 16) 16 = s i) (ty th ti : Nat) :
    Slh128sRef.wotsPkFromSig H sig msg seed ⟨l, t, ty, kp, th, ti⟩ =
      Comp.ret (HashSig.wotsPkFromSig params (T H seed) l t kp (digits msg) s)
        ((wotsEvals params (T H seed) l t kp (digits msg) s).map (inputAt seed)) := by
  rw [Slh128sRef.wotsPkFromSig, msgToChainDigits_eq hmsg, pure_bind]
  refine Comp.forLt_zero_bind (fun k tmp => tmp = ((List.range k).map fun i =>
      wotsTop params (T H seed) l t kp i (digits msg i) (s i)).flatten ++ zeros ((35 - k) * 16))
    (fun i => (chainEvals (wotsStep (T H seed) l t kp i) (digits msg i) (s i) (15 - digits msg i)).map
      fun e => inputAt seed (.wotsStep l t kp i e.1, [e.2])) rfl ?_ ?_
  · rintro k _ hk rfl
    replace hk : k < 35 := hk
    have hslice : slice sig (k * 16) ((k + 1) * 16) = s k := by
      rw [Nat.succ_mul, slice_eq, hs k hk]
    have htop : ∀ i < 35, (wotsTop params (T H seed) l t kp i (digits msg i) (s i)).length = 16 := by
      intro i hi
      refine chain_values (P := fun x : Bytes => x.length = 16) (fun _ _ => length_thash _ _) ?_ _ _
      rw [← hs i hi, length_window (by omega)]
    have hlen : (((List.range k).map fun i =>
        wotsTop params (T H seed) l t kp i (digits msg i) (s i)).flatten).length = k * 16 := by
      rw [length_flatten_of (w := 16), List.length_map, List.length_range]
      intro x hx
      obtain ⟨i, hi, rfl⟩ := List.mem_map.mp hx
      exact htop i (by have := List.mem_range.mp hi; omega)
    refine ⟨_, rfl, ?_⟩
    simp only [FIPS205.n, FIPS205.w, WOTS_HASH,
      get_eq (show k < ((List.range 35).map (digits msg)).length by simpa using hk), pure_bind,
      List.getElem_map, List.getElem_range, hslice, chain_eq, Comp.ret_bind]
    refine (congrArg (Comp.after _) (set_cell hlen hk (Nat.le_of_eq (htop k hk)))).trans ?_
    rw [Comp.after_pure, htop k hk, List.range_succ, List.map_append, List.flatten_append]
    simp [zeros]
  · rintro _ rfl
    have hpk : thash H seed (adrsOf (.wotsPk l t kp)) _ = _ := thash_node (.wotsPk l t kp)
      ((List.range 35).map fun i => wotsTop params (T H seed) l t kp i (digits msg i) (s i)) rfl
    rw [show zeros ((35 - FIPS205.len) * 16) = [] by rfl, List.append_nil]
    refine (congrArg _ hpk).trans ?_
    rw [Comp.after_ret, wotsEvals, wotsStepEvals_eq, List.map_append, List.map_flatMap]
    simp only [List.map_map, Function.comp_def]
    rfl

/-! ## XMSS and the hypertree -/

/-- A climbing loop's hash of a node and its sibling, and what follows it. -/
theorem climbStep_eq {β : Type} {g : Bytes → Js β} {idx k bit : Nat} (n : Node) (v s : Bytes)
    (hb : bit = idx >>> k &&& 1) :
    (do
      let merged ← if bit = 0 then concat [v, s] else concat [s, v]
      let node ← thash H seed (adrsOf n) merged
      g node) =
      let c := children idx k v s
      Comp.after [inputAt seed (n, [c.1, c.2])] (g (T H seed n [c.1, c.2])) := by
  have hc := flatten_children idx k v s
  subst hb
  simp only [concat_eq, pure_bind]
  split
  · rw [thash_node n [(children idx k v s).1, (children idx k v s).2] (by rw [hc, if_pos ‹_›]; simp),
      Comp.ret_bind]
  · rw [thash_node n [(children idx k v s).1, (children idx k v s).2] (by rw [hc, if_neg ‹_›]; simp),
      Comp.ret_bind]

/-- The low bit of a shifted number. -/
theorem and_ushr_one {idx k : Nat} (h : idx < 2 ^ 32) (hk : k < 32) :
    Js.and (ushr idx k) 1 = idx >>> k &&& 1 := by
  rw [ushr_eq h hk, and_eq (Nat.lt_of_le_of_lt (Nat.shiftRight_le _ _) h) (by decide)]

theorem xmssPkFromSig_eq {idx : Nat} {sig msg : Bytes} (hmsg : msg.length = 16) (hsig : 704 ≤ sig.length)
    (hidx : idx < 2 ^ 32) {s : XmssSig Bytes} (hw : ∀ i < 35, window sig (i * 16) 16 = s.wots i)
    (ha : ∀ j < 9, window sig (560 + j * 16) 16 = s.auth j) (ty kp th ti : Nat) :
    Slh128sRef.xmssPkFromSig H idx sig msg seed ⟨l, t, ty, kp, th, ti⟩ =
      Comp.ret (HashSig.xmssPkFromSig params (T H seed) l t idx (digits msg) s, ⟨l, t, 2, 0, 9, idx >>> 9⟩)
        ((xmssEvals params (T H seed) l t idx (digits msg) s).map (inputAt seed)) := by
  have hauth : ∀ j < 9, window (window sig 560 144) (j * 16) 16 = s.auth j := fun j hj => by
    rw [window_window _ (by omega), ha j hj]
  rw [Slh128sRef.xmssPkFromSig]
  simp only [FIPS205.len, FIPS205.n, FIPS205.h_prime, Nat.reduceMul, Nat.reduceAdd, WOTS_HASH, TREE]
  rw [show slice sig 0 560 = window sig 0 560 from slice_eq sig 0 560,
    show slice sig 560 704 = window sig 560 144 from slice_eq sig 560 144,
    wotsPkFromSig_eq hmsg (by rw [length_window]; omega) (s := s.wots)
      (fun i hi => by rw [window_window _ (by omega), Nat.zero_add, hw i hi]),
    Comp.ret_bind, xmssEvals, List.map_append, ← Comp.after_ret]
  refine congrArg (Comp.after _) ?_
  rw [← bind_pure (forLt _ _ _ _)]
  refine Comp.forLt_zero_bind
    (fun k x => (∃ th, x.2 = ⟨l, t, 2, 0, th, idx >>> k⟩ ∧ (0 < k → th = k)) ∧
      x.1 = climb (xmssNode (T H seed) l t) idx s.auth
        (HashSig.wotsPkFromSig params (T H seed) l t idx (digits msg) s.wots) k)
    (fun k => [inputAt seed (.merkle l t (k + 1) (idx >>> (k + 1)),
      let c := children idx k (climb (xmssNode (T H seed) l t) idx s.auth
        (HashSig.wotsPkFromSig params (T H seed) l t idx (digits msg) s.wots) k) (s.auth k)
      [c.1, c.2])])
    ⟨⟨_, rfl, fun h => absurd h (by decide)⟩, rfl⟩ ?_ ?_
  · rintro k ⟨node, a⟩ hk ⟨⟨th, rfl, -⟩, rfl⟩
    replace hk : k < 9 := hk
    refine ⟨(_, ⟨l, t, 2, 0, k + 1, idx >>> (k + 1)⟩), ⟨⟨_, rfl, fun _ => rfl⟩, rfl⟩, ?_⟩
    have hushr : ushr (idx >>> k) 1 = idx >>> (k + 1) := by
      rw [ushr_eq (Nat.lt_of_le_of_lt (Nat.shiftRight_le _ _) hidx) (by decide), ← Nat.shiftRight_add]
    simp only [hushr, Nat.succ_mul, slice_eq, hauth k hk]
    refine (climbStep_eq (.merkle l t (k + 1) (idx >>> (k + 1))) _ _
      (and_ushr_one hidx (show k < 32 by omega))).trans ?_
    rw [Comp.after_pure]
    rfl
  · rintro ⟨node, a⟩ ⟨⟨th, rfl, h⟩, rfl⟩
    obtain rfl := h (by decide)
    rw [Comp.after_pure, ← List.map_eq_flatMap, xmssPathEvals, climbEvals, List.map_map, List.map_map]
    rfl

theorem leafAt_lt (hkp : kp < 2 ^ 32) : ∀ l, leafAt params t kp l < 2 ^ 32
  | 0 => hkp
  | _ + 1 => Nat.lt_of_lt_of_le (Nat.mod_lt _ (by decide)) (by decide)

theorem htRootFromSig_eq {sig msg : Bytes} (hmsg : msg.length = 16) (hsig : sig.length = 4928)
    (t : Nat) {kp : Nat} (hkp : kp < 2 ^ 32) :
    Slh128sRef.htRootFromSig H sig msg t kp seed =
      Comp.ret (htRoot params (T H seed) digits t kp msg (Spec.Slh128s.htSig sig) 7)
        ((htEvals params (T H seed) digits t kp msg (Spec.Slh128s.htSig sig) 7).map (inputAt seed)) := by
  refine Comp.forLt_zero_bind (fun k x => x = (htRoot params (T H seed) digits t kp msg
      (Spec.Slh128s.htSig sig) k, treeAt params t k, leafAt params t kp k))
    (fun k => (xmssEvals params (T H seed) k (treeAt params t k) (leafAt params t kp k)
      (digits (htRoot params (T H seed) digits t kp msg (Spec.Slh128s.htSig sig) k))
      (Spec.Slh128s.htSig sig k)).map (inputAt seed)) rfl ?_ ?_
  · rintro k _ hk rfl
    replace hk : k < 7 := hk
    refine ⟨_, rfl, ?_⟩
    simp only [FIPS205.len, FIPS205.n, FIPS205.h_prime, Nat.reduceMul, Nat.reduceAdd, Nat.succ_mul, slice_eq,
      newAdrs, and_mask, number_eq (show treeAt params t k % 2 ^ 9 < 2 ^ 53 by omega)]
    rw [xmssPkFromSig_eq (length_htRoot hmsg _ k) (by rw [length_window]; omega) (leafAt_lt hkp k)
      (s := Spec.Slh128s.htSig sig k) (fun _ _ => rfl) fun _ _ => rfl]
    simp only [Comp.ret_bind, pure_bind, Comp.after_pure]
    rw [← Spec.Slh128s.treeAt_succ]
    rfl
  · rintro _ rfl
    rw [Comp.after_pure, htEvals, List.map_flatMap]
    rfl

/-! ## FORS -/

/-- The inner loop of the FORS indices: 12 bits from bit `12 * k`, most significant first. -/
theorem forsIndexLoop {md : Bytes} {k : Nat} (h : md.length = 21) (hk : k < 14) :
    (forLt 0 12 0 fun b v => do
      let bitIdx := 12 * k + b
      let byte ← get md (← sar bitIdx 3)
      Js.or (← shl v 1) (Js.and (← sar byte.toNat (7 - Js.and bitIdx 7)) 1) : Js Nat) =
      pure (forsIndex md k) := by
  rw [forLt_zero_pure (fun j => ofBe md / 2 ^ (168 - (12 * k + j)) % 2 ^ j) (by simp [Nat.mod_one])
    fun j hj => ?_]
  · rw [forsIndex, digit, ← pow_mul]
    congr 4
    omega
  · have hbit := bit_ofBe (b := md) (i := 12 * k + j) (by omega)
    rw [show 8 * md.length - 1 - (12 * k + j) = 168 - (12 * k + (j + 1)) by omega] at hbit
    have hlt : ofBe md / 2 ^ (168 - (12 * k + j)) % 2 ^ j < 2 ^ 12 :=
      Nat.lt_of_lt_of_le (Nat.mod_lt _ (Nat.pow_pos (by decide)))
        (Nat.pow_le_pow_right (by decide) (by omega))
    have hi : (12 * k + j) / 8 < md.length := by omega
    have hx := md[(12 * k + j) / 8].toNat_lt
    have hand : Js.and (12 * k + j) 7 = (12 * k + j) % 8 := by
      rw [and_eq (by omega) (by decide)]
      exact Nat.and_two_pow_sub_one_eq_mod _ 3
    have hb : Js.and (md[(12 * k + j) / 8].toNat >>> (7 - (12 * k + j) % 8)) 1 =
        ofBe md / 2 ^ (168 - (12 * k + (j + 1))) % 2 := by
      rw [and_eq (Nat.lt_of_le_of_lt (Nat.shiftRight_le _ _) (by omega)) (by decide), hbit]
    simp only [sar_eq (show 12 * k + j < 2 ^ 31 by omega) (show 3 < 32 by decide), pure_bind,
      Nat.shiftRight_eq_div_pow _ 3, Nat.reducePow, get_eq hi, hand,
      sar_eq (show md[(12 * k + j) / 8].toNat < 2 ^ 31 by omega) (show 7 - (12 * k + j) % 8 < 32 by omega),
      hb]
    rw [shl_eq (by decide) (by rw [Nat.shiftLeft_eq]; omega), pure_bind,
      or_eq (by rw [Nat.shiftLeft_eq]; omega) (by omega),
      ← Nat.shiftLeft_add_eq_or_of_lt (Nat.mod_lt _ (by decide)), mod_two_pow_succ _ j, Nat.shiftLeft_eq,
      Nat.mul_comm, Nat.div_div_eq_div_mul, ← pow_succ,
      show 168 - (12 * k + (j + 1)) + 1 = 168 - (12 * k + j) by omega]

theorem forsIndicesLoop {md : Bytes} (h : md.length = 21) :
    (forLt 0 14 (0, []) fun _ (bitOff, indices) => do
      let v ← forLt 0 12 0 fun b v => do
        let bitIdx := bitOff + b
        let byte ← get md (← sar bitIdx 3)
        Js.or (← shl v 1) (Js.and (← sar byte.toNat (7 - Js.and bitIdx 7)) 1)
      pure (bitOff + 12, indices ++ [v]) : Js (Nat × List Nat)) =
      pure (12 * 14, (List.range 14).map (forsIndex md)) := by
  refine forLt_zero_pure (fun k => (12 * k, (List.range k).map (forsIndex md))) rfl fun k hk => ?_
  dsimp only
  rw [forsIndexLoop h hk, pure_bind, List.range_succ, List.map_append]
  rfl

theorem forsIndices_eq {md : Bytes} (h : md.length = 21) :
    forsIndices md = pure ((List.range 14).map (forsIndex md)) := by
  refine (congrArg (· >>= _) (forsIndicesLoop h)).trans ?_
  rw [pure_bind]

/-- One level of a FORS tree: the node above `v` and its sibling. -/
theorem forsLevel_eq {i j x : Nat} {authPath s : Bytes} (hx : x < 2 ^ 12) (hj : j < 12)
    (hs : window authPath (j * 16) 16 = s) (v : Bytes) (th ti : Nat) :
    (do
      let sib := slice authPath (j * 16) ((j + 1) * 16)
      let leafAdrs := { (⟨l, t, 3, kp, th, ti⟩ : Slh128sRef.Adrs) with
        treeHeight := j + 1, treeIndex := i * (← shl 1 (12 - j - 1)) + ushr (x >>> j) 1 }
      let merged ← if Js.and (x >>> j) 1 = 0 then concat [v, sib] else concat [sib, v]
      let node ← thash H seed leafAdrs merged
      pure (ushr (x >>> j) 1, leafAdrs, node) : Js (Nat × Slh128sRef.Adrs × Bytes)) =
      let c := children x j v s
      let n := Node.forsNode l t kp (j + 1) (i * 2 ^ (12 - (j + 1)) + x >>> (j + 1))
      Comp.ret (x >>> (j + 1), adrsOf n, T H seed n [c.1, c.2]) [inputAt seed (n, [c.1, c.2])] := by
  have hlt : x >>> j < 2 ^ 32 :=
    Nat.lt_of_le_of_lt (Nat.shiftRight_le _ _) (Nat.lt_trans hx (by decide))
  have hushr : ushr (x >>> j) 1 = x >>> (j + 1) := by rw [ushr_eq hlt (by decide), ← Nat.shiftRight_add]
  have hpow : 1 <<< (12 - j - 1) = 2 ^ (12 - (j + 1)) := by rw [Nat.one_shiftLeft, Nat.sub_sub]
  have hpow31 : 1 <<< (12 - j - 1) < 2 ^ 31 := by
    rw [hpow]
    exact Nat.pow_lt_pow_right (by decide) (by omega)
  simp only [shl_eq (show 12 - j - 1 < 32 by omega) hpow31, hpow, pure_bind, hushr,
    Nat.succ_mul, slice_eq, hs]
  refine (climbStep_eq (.forsNode l t kp (j + 1) (i * 2 ^ (12 - (j + 1)) + x >>> (j + 1))) _ _
    (and_eq hlt (by decide))).trans ?_
  rw [Comp.after_pure]
  rfl

/-- One FORS tree: its root, after those before it. -/
theorem forsTree_eq {i x : Nat} {sk authPath : Bytes} {auth : Nat → Bytes} (hx : x < 2 ^ 12)
    (hauth : ∀ j < 12, window authPath (j * 16) 16 = auth j) (roots : Bytes) :
    (do
      let leafAdrs : Slh128sRef.Adrs := ⟨l, t, 3, kp, 0, i * 2 ^ 12 + x⟩
      let node ← thash H seed leafAdrs sk
      let (_, _, node) ← forLt 0 12 (x, leafAdrs, node) fun j (cur, leafAdrs, node) => do
        let sib := slice authPath (j * 16) ((j + 1) * 16)
        let leafAdrs := { leafAdrs with
          treeHeight := j + 1, treeIndex := i * (← shl 1 (12 - j - 1)) + ushr cur 1 }
        let merged ← if Js.and cur 1 = 0 then concat [node, sib] else concat [sib, node]
        let node ← thash H seed leafAdrs merged
        pure (ushr cur 1, leafAdrs, node)
      pure (roots ++ node) : Js Bytes) =
      Comp.ret (roots ++ forsTreeRoot params (T H seed) l t kp i x sk auth)
        ((forsTreeEvals params (T H seed) l t kp i x sk auth).map (inputAt seed)) := by
  have hleaf : thash H seed ⟨l, t, 3, kp, 0, i * 2 ^ 12 + x⟩ sk =
      Comp.ret (forsLeaf params (T H seed) l t kp i x sk)
        [inputAt seed (.forsNode l t kp 0 (i * 2 ^ 12 + x), [sk])] :=
    thash_node (.forsNode l t kp 0 (i * 2 ^ 12 + x)) [sk] (by simp)
  dsimp only
  rw [hleaf, Comp.ret_bind]
  show _ = Comp.ret _ ([inputAt seed (.forsNode l t kp 0 (i * 2 ^ 12 + x), [sk])] ++
    (forsPathEvals params (T H seed) l t kp i x sk auth).map (inputAt seed))
  rw [← Comp.after_ret]
  refine congrArg (Comp.after _) (Comp.forLt_zero_bind
    (fun j y => y.1 = x >>> j ∧ (∃ th ti, y.2.1 = ⟨l, t, 3, kp, th, ti⟩) ∧
      y.2.2 = climb (forsNode params (T H seed) l t kp i) x auth (forsLeaf params (T H seed) l t kp i x sk) j)
    (fun j => [inputAt seed (.forsNode l t kp (j + 1) (i * 2 ^ (12 - (j + 1)) + x >>> (j + 1)),
      let c := children x j (climb (forsNode params (T H seed) l t kp i) x auth
        (forsLeaf params (T H seed) l t kp i x sk) j) (auth j)
      [c.1, c.2])])
    ⟨rfl, ⟨_, _, rfl⟩, rfl⟩ ?_ ?_)
  · rintro j ⟨cur, a, node⟩ hj ⟨rfl, ⟨th, ti, rfl⟩, rfl⟩
    exact ⟨_, ⟨rfl, ⟨_, _, rfl⟩, rfl⟩, forsLevel_eq hx hj (hauth j hj) _ th ti⟩
  · rintro ⟨cur, a, node⟩ ⟨-, -, rfl⟩
    rw [Comp.after_pure, ← List.map_eq_flatMap, forsPathEvals, climbEvals, List.map_map, List.map_map]
    rfl

theorem forsPkFromSig_eq {sig md : Bytes} (hmd : md.length = 21) (ty th ti : Nat) :
    Slh128sRef.forsPkFromSig H sig md seed ⟨l, t, ty, kp, th, ti⟩ =
      Comp.ret (HashSig.forsPkFromSig params (T H seed) l t kp (forsIndex md) (Spec.Slh128s.forsSig sig))
        ((forsEvals params (T H seed) l t kp (forsIndex md) (Spec.Slh128s.forsSig sig)).map
          (inputAt seed)) := by
  have hidx := Spec.Slh128s.forsIndex_lt md
  let s := Spec.Slh128s.forsSig sig
  rw [Slh128sRef.forsPkFromSig, forsIndices_eq hmd, pure_bind]
  generalize forsIndex md = idx at hidx
  refine Comp.forLt_zero_bind (fun k x => x = ((List.range k).map fun i =>
      forsTreeRoot params (T H seed) l t kp i (idx i) (s.sk i) (s.auth i)).flatten)
    (fun i => (forsTreeEvals params (T H seed) l t kp i (idx i) (s.sk i) (s.auth i)).map (inputAt seed))
    rfl ?_ ?_
  · rintro i _ hi rfl
    replace hi : i < 14 := hi
    refine ⟨_, rfl, ?_⟩
    have hauth : ∀ j < 12, window (window sig (i * 208 + 16) 192) (j * 16) 16 = s.auth i j :=
      fun j hj => by rw [window_window _ (by omega)]; rfl
    have hshl : shl 1 12 = pure (2 ^ 12) := shl_eq (by decide) (by decide)
    have hslice : slice sig (i * 208 + 16) ((i + 1) * 208) = window sig (i * 208 + 16) 192 := by
      rw [← slice_eq]
      congr 1
      omega
    simp only [FIPS205.a, FIPS205.n, FORS_TREE, Nat.reduceAdd, Nat.reduceMul, hslice,
      slice_eq, get_eq (show i < ((List.range 14).map idx).length by simpa using hi), List.getElem_map,
      List.getElem_range, pure_bind, hshl]
    refine (forsTree_eq (hidx i) hauth _).trans ?_
    rw [List.range_succ (n := i), List.map_append, List.flatten_append, List.map_singleton,
      List.flatten_singleton]
    rfl
  · rintro _ rfl
    have hpk : thash H seed (adrsOf (.forsRoots l t kp)) _ = _ := thash_node (.forsRoots l t kp)
      ((List.range 14).map fun i => forsTreeRoot params (T H seed) l t kp i (idx i) (s.sk i) (s.auth i)) rfl
    refine (congrArg _ hpk).trans ?_
    rw [Comp.after_ret, forsEvals, List.map_append, List.map_flatMap]
    rfl

/-! ## Verification -/

theorem splitDigest_eq {digest : Bytes} (h : digest.length = 30) :
    Slh128sRef.splitDigest digest = pure ((Spec.Slh128s.split digest).md, (Spec.Slh128s.split digest).tree,
      (Spec.Slh128s.split digest).leaf) := by
  have hleaf : ∀ k ≤ 2, ofBe (window digest 28 k) < 2 ^ 16 := fun k hk =>
    Nat.lt_of_lt_of_le (ofBe_window_lt (by omega)) (Nat.pow_le_pow_right (by decide) hk)
  unfold Slh128sRef.splitDigest
  simp only [FIPS205.k, FIPS205.a, FIPS205.h, FIPS205.h_prime, show ceilDiv (14 * 12) 8 = 21 by decide,
    show ceilDiv (63 - 9) 8 = 7 by decide, show ceilDiv 9 8 = 2 by decide, Nat.reduceSub]
  rw [forLt_zero_pure (fun k => ofBe (window digest 21 k)) (by rfl) fun k hk => ?_, pure_bind,
    forLt_zero_pure (fun k => ofBe (window digest 28 k)) (by rfl) fun k hk => ?_, pure_bind,
    shl_eq (by decide) (by decide), pure_bind, and_eq (Nat.lt_trans (hleaf 2 (Nat.le_refl _)) (by decide))
    (by decide), and_mask, and_mask]
  · rfl
  · have hk28 : 28 + k < digest.length := by omega
    have hx := digest[28 + k].toNat_lt
    have := hleaf k (by omega)
    have := hleaf (k + 1) (by omega)
    have hb : ofBe (window digest 28 k) <<< 8 < 2 ^ 31 := by rw [Nat.shiftLeft_eq]; omega
    simp only [show 21 + 7 + k = 28 + k by omega, get_eq hk28, shl_eq (show 8 < 32 by decide) hb, pure_bind]
    rw [or_eq hb (by omega), ofBe_window_round hk28]
  · have hk21 : 21 + k < digest.length := by omega
    rw [get_eq hk21, pure_bind, ofBe_window_round hk21]

theorem slice_window (b : Bytes) (s : Nat) {n e : Nat} (h : e = s + n) : slice b s e = window b s n := by
  rw [h, slice_eq]

theorem verify_wellSized {pk msg sig ctx : Bytes} (hpk : pk.length = 32) (hsig : sig.length = 7856)
    (hctx : ctx.length ≤ 255) :
    verify H pk msg sig ctx = Comp.ret (decide (Spec.Slh128s.root H pk msg sig ctx = window pk 16 16))
      (Spec.Slh128s.hashed H pk msg sig ctx) := by
  rw [verify, FIPS205.pkBytes, if_neg (not_not.mpr hpk), FIPS205.sigBytes, if_neg (not_not.mpr hsig),
    if_neg (by omega)]
  have hdig : (Spec.Slh128s.hmsg H (window sig 0 16) (window pk 0 16) (window pk 16 16)
      (Spec.Slh128s.wrap ctx msg)).length = 30 := Spec.Slh128s.length_hmsg H _ _ _ _
  have hsel : Spec.Slh128s.split (Spec.Slh128s.hmsg H (window sig 0 16) (window pk 0 16)
      (window pk 16 16) (Spec.Slh128s.wrap ctx msg)) = Spec.Slh128s.selection H pk msg sig ctx := rfl
  have hmd : (Spec.Slh128s.selection H pk msg sig ctx).md.length = 21 := length_window (by omega)
  have hleaf := Spec.Slh128s.selection_leaf_lt H pk msg sig ctx
  have hht : sig.drop 2928 = window sig 2928 4928 := by
    rw [window, List.take_of_length_le (by rw [List.length_drop]; omega)]
  simp only [FIPS205.n, FIPS205.k, FIPS205.a, Nat.reduceAdd, Nat.reduceMul, concat_eq, pure_bind,
    slice_window pk 0 (show 16 = 0 + 16 by rfl), slice_window pk 16 (show 32 = 16 + 16 by rfl),
    slice_window sig 0 (show 16 = 0 + 16 by rfl), slice_window sig 16 (show 2928 = 16 + 2912 by rfl), hht]
  have hwrap : [[0, UInt8.ofNat ctx.length], ctx, msg].flatten = Spec.Slh128s.wrap ctx msg := by
    simp [Spec.Slh128s.wrap]
  rw [hwrap, Hmsg_eq, Comp.ret_bind, splitDigest_eq hdig, pure_bind, hsel]
  simp only [newAdrs]
  rw [forsPkFromSig_eq hmd, Comp.ret_bind, htRootFromSig_eq (length_forsPk _ _) (length_window (by omega)) _
    (Nat.lt_trans hleaf (by decide)), Comp.ret_bind, sameBytes_eq, Comp.after_pure, Comp.after_ret,
    Comp.after_ret, Spec.Slh128s.hashed, Spec.Slh128s.evals, rootEvals, List.map_append]
  rfl

/-- The TypeScript verifier, on a 32-byte key. -/
theorem verify_eq {pk : Bytes} (hpk : pk.length = 32) (msg sig ctx : Bytes) :
    verify H pk msg sig ctx = Comp.ret (Spec.Slh128s.verify H pk msg sig ctx)
      (if Spec.Slh128s.WellSized sig ctx then Spec.Slh128s.hashed H pk msg sig ctx else []) := by
  by_cases hw : Spec.Slh128s.WellSized sig ctx
  · rw [verify_wellSized hpk hw.1 hw.2, if_pos hw, Spec.Slh128s.verify]
    simp only [hw, true_and]
  · rw [if_neg hw, Spec.Slh128s.verify, decide_eq_false fun h => hw h.1, verify, FIPS205.pkBytes,
      if_neg (not_not.mpr hpk)]
    by_cases hsig : sig.length = FIPS205.sigBytes
    · rw [if_neg (not_not.mpr hsig), if_pos (Nat.lt_of_not_le fun h => hw ⟨hsig, h⟩)]
      rfl
    · rw [if_pos hsig]
      rfl

end SuiPq.Proof.Slh128sRef
