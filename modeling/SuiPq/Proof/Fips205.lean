import SuiPq.Impl.Fips205
import SuiPq.Spec.Slh128s

/-!
# The Lean 128s verifier is the specification

`verify_eq`: for a 32-byte key the repository's Lean verifier returns what the
specification's `verify` does.
-/

namespace SuiPq.Proof.Fips205

open SuiPq.Impl SuiPq.HashSig
open SuiPq.Spec.Slh128s (params input digits digits_lt forsIndex length_thash length_htRoot
  length_forsPk mgf1Stream mgf1Stream_succ length_mgf1Stream)

/-- The node hash of the specification, under a key's seed. -/
abbrev T (H : Hash) (seed : Bytes) := Spec.Slh128s.thash H (Spec.Slh128s.pkPrefix seed)

variable {H : Hash} {seed : Bytes} {l t kp : Nat}

/-! ## Bytes -/

theorem get_eq {b : Bytes} {i : Nat} (h : i < b.length) : Fips205.get b i = b[i] := by
  rw [Fips205.get, List.getD_eq_getElem?_getD, List.getElem?_eq_getElem h]
  rfl

theorem getD_range {n i : Nat} (hi : i < n) (f : Nat → Nat) : ((List.range n).map f).getD i 0 = f i := by
  rw [List.getD_eq_getElem?_getD, List.getElem?_eq_getElem (by simpa using hi), List.getElem_map,
    List.getElem_range]
  rfl

theorem natToBytesBE_eq (v len : Nat) : Fips205.natToBytesBE v len = be len v := by
  have := forDown_pure (m := Id) (n := len) (s := []) (b := fun i out => do
    let shift := i * 8
    let b := UInt8.ofNat ((v >>> shift) &&& 0xff)
    return out ++ [b]) (fun k => be k (v >>> (8 * (len - k)))) rfl fun k hk => ?_
  · rw [Fips205.natToBytesBE, this]
    simp
  · simp only [ofNat_and_ff]
    rw [be_succ_right, ← Nat.shiftRight_add, show (len - 1 - k) * 8 = 8 * (len - (k + 1)) by omega,
      show 8 * (len - (k + 1)) + 8 = 8 * (len - k) by omega]

theorem slice_eq {b : Bytes} {s n : Nat} (h : s + n ≤ b.length) : Fips205.slice b s n = window b s n := by
  have := forLt_zero_pure (m := Id) (n := n) (s := [])
    (b := fun i out => return out ++ [Fips205.get b (s + i)]) (fun k => window b s k) (window_zero b s).symm fun k hk => ?_
  · rw [Fips205.slice, this]
    rfl
  · rw [get_eq (by omega), ← window_succ (by omega)]

theorem zeros_eq (n : Nat) : Fips205.zeros n = List.replicate n 0 := by
  have := forLt_zero_pure (m := Id) (n := n) (s := []) (b := fun _ out => return out ++ [(0 : UInt8)])
    (fun k => List.replicate k 0) rfl fun k hk => by rw [← List.replicate_succ']
  rw [Fips205.zeros, this]
  rfl

theorem truncate_eq {b : Bytes} {n : Nat} (h : n ≤ b.length) : Fips205.truncate b n = b.take n := by
  have := forLt_zero_pure (m := Id) (n := n) (s := []) (b := fun i out => return out ++ [Fips205.get b i])
    (fun k => b.take k) List.take_zero.symm fun k hk => by
      rw [get_eq (by omega), ← List.take_succ_eq_append_getElem]
  rw [Fips205.truncate, this]
  rfl

/-! ## Addresses and hashes -/

theorem compress_eq (l t kp th ti : Nat) (ty : UInt8) :
    Fips205.compress ⟨l, t, ty, kp, th, ti⟩ = Spec.Slh128s.Adrs.bytes ⟨l, t, ty.toNat, kp, th, ti⟩ := by
  have hl : be 1 l = [UInt8.ofNat l] := rfl
  have ht : be 1 ty.toNat = [ty] := congrArg ([·]) UInt8.ofNat_toNat
  rw [Fips205.compress, Spec.Slh128s.Adrs.bytes, hl, ht, ofNat_and_ff]
  simp only [Fips205.u64BE, Fips205.u32BE, natToBytesBE_eq]

/-- Hashing under the address of a position. -/
theorem thash_node {a : Fips205.Adrs} (n : Node) (xs : List Bytes) {m : Bytes}
    (ha : ⟨a.layer, a.tree, a.type.toNat, a.keypair, a.treeHeight, a.treeIndex⟩ = Spec.Slh128s.adrs n)
    (h : m = xs.flatten) : Fips205.thash H seed a m = T H seed n xs := by
  rw [Fips205.thash, compress_eq, ha, zeros_eq, h]
  exact truncate_eq (by rw [H.length_apply]; decide)

/-- A loop whose states have the closed form `f`, and which stops after `n` rounds. -/
theorem whileFuel_eq {σ : Type} {n fuel : Nat} {s : σ} {c : σ → Bool} {b : σ → σ} (f : Nat → σ)
    (hs : s = f 0) (hfuel : n ≤ fuel) (hc : ∀ k < n, c (f k) = true) (hn : c (f n) = false)
    (h : ∀ k < n, b (f k) = f (k + 1)) : Fips205.whileFuel c b fuel s = f n := by
  subst hs
  induction n generalizing f fuel with
  | zero => cases fuel <;> simp [Fips205.whileFuel, hn]
  | succ n ih =>
    obtain ⟨fuel, rfl⟩ : ∃ g, fuel = g + 1 := ⟨fuel - 1, by omega⟩
    rw [Fips205.whileFuel, if_pos (hc 0 (by omega)), h 0 (by omega)]
    exact ih (fun k => f (k + 1)) (by omega) (fun k hk => hc _ (by omega)) hn fun k hk => h _ (by omega)

/-- Appending a block until there are `n` bytes. -/
theorem blockLoop (block out : Bytes) (n : Nat) :
    Fips205.whileFuel (fun s : Bytes × Nat => s.2 < block.length && s.1.length < n)
      (fun s => (s.1 ++ [Fips205.get block s.2], s.2 + 1)) block.length (out, 0) =
      (out ++ block.take (n - out.length), min block.length (n - out.length)) := by
  have hlen : ∀ j < min block.length (n - out.length), (out ++ block.take j).length = out.length + j :=
    fun j hj => by rw [List.length_append, List.length_take]; omega
  rw [whileFuel_eq (n := min block.length (n - out.length)) (fun j => (out ++ block.take j, j)) (by simp)
    (Nat.min_le_left _ _) (fun j hj => ?_) (by simp; omega) fun j hj => ?_]
  · rcases Nat.le_total block.length (n - out.length) with h | h
    · rw [Nat.min_eq_left h, List.take_of_length_le h, List.take_length]
    · rw [Nat.min_eq_right h]
  · simp only [hlen j hj, Bool.and_eq_true, decide_eq_true_eq]
    omega
  · have hjb : j < block.length := by omega
    simp only [get_eq hjb, List.append_assoc]
    rw [← List.take_succ_eq_append_getElem hjb]

theorem mgf1_eq (s : Bytes) (n : Nat) : Fips205.mgf1 H s n = Spec.Slh128s.mgf1 H s n := by
  have hlen : ∀ c, ((mgf1Stream H s c).take n).length = min n (32 * c) := fun c => by
    rw [List.length_take, length_mgf1Stream]
  rw [Fips205.mgf1, whileFuel_eq (n := (n + 31) / 32) (fun c => ((mgf1Stream H s c).take n, c))
    (by simp [mgf1Stream])
    (by omega) (fun c hc => by simp only [hlen, decide_eq_true_eq]; omega) (by simp only [hlen]; simp; omega)
    fun c hc => ?_]
  · rw [Spec.Slh128s.mgf1_eq]
  · have hout : (mgf1Stream H s c).take n = mgf1Stream H s c :=
      List.take_of_length_le (by rw [length_mgf1Stream]; omega)
    simp only [Fips205.u32BE, natToBytesBE_eq, blockLoop]
    rw [hout, mgf1Stream_succ, List.take_append, hout]

theorem hmsg_eq (r root m : Bytes) : Fips205.hmsg H r seed root m = Spec.Slh128s.hmsg H r seed root m :=
  mgf1_eq _ _

/-! ## Digits -/

theorem baseW_eq {msg : Bytes} {outlen : Nat} (h : outlen ≤ 2 * msg.length) :
    Fips205.baseW msg outlen = (List.range outlen).map (digit 16 (2 * msg.length) (ofBe msg)) := by
  refine forLt_zero_id (fun k s => s.1 = (k + 1) / 2 ∧
    s.2.2.2 = (List.range k).map (digit 16 (2 * msg.length) (ofBe msg)) ∧
    if k % 2 = 0 then s.2.1 = 0 else s.2.1 = 4 ∧ msg[k / 2]?.map UInt8.toNat = some s.2.2.1)
    ⟨rfl, rfl, rfl⟩ ?_ ?_
  · rintro k ⟨inIdx, bits, total, out⟩ hk ⟨rfl, rfl, hb⟩
    rcases Nat.even_or_odd' k with ⟨j, rfl | rfl⟩
    · have hj : j < msg.length := by omega
      simp only [Nat.mul_mod_right, if_true] at hb
      subst hb
      rw [List.range_succ, List.map_append, List.map_singleton, digit_ofBe_even hj]
      refine ⟨?_, ?_, ?_⟩
      · show (2 * j + 1) / 2 + 1 = _
        omega
      · show _ ++ [((Fips205.get msg ((2 * j + 1) / 2)).toNat >>> 4) &&& 15] = _
        rw [show (2 * j + 1) / 2 = j by omega, get_eq hj]
      · rw [if_neg (by omega), show (2 * j + 1) / 2 = j by omega, List.getElem?_eq_getElem hj]
        exact ⟨rfl, congrArg (fun x : UInt8 => some x.toNat) (by
          rw [get_eq hj])⟩
    · have hj : j < msg.length := by omega
      rw [if_neg (by omega), show (2 * j + 1) / 2 = j by omega, List.getElem?_eq_getElem hj] at hb
      obtain ⟨rfl, hb⟩ := hb
      obtain rfl := Option.some.inj hb
      rw [List.range_succ (n := 2 * j + 1), List.map_append, List.map_singleton, digit_ofBe_odd hj]
      refine ⟨?_, rfl, ?_⟩
      · show (2 * j + 1 + 1) / 2 = _
        omega
      · rw [if_pos (by omega)]
        rfl
  · rintro ⟨inIdx, bits, total, out⟩ ⟨-, rfl, -⟩
    rfl

theorem wotsChecksum_eq (d : Nat → Nat) :
    Fips205.wotsChecksum ((List.range 32).map d) = (List.range 3).map (digit 16 3 (checksum 16 32 d)) := by
  have hc : checksum 16 32 d ≤ 32 * 15 := checksum_le 16 32 d
  have hsum : ∀ k ≤ 32, (List.range k).foldl
      (fun acc i => acc + (16 - 1 - ((List.range 32).map d).getD i 0)) 0 = checksum 16 k d := by
    intro k hk
    induction k with
    | zero => rfl
    | succ k ih =>
      rw [List.range_succ (n := k), List.foldl_append, ih (by omega), checksum_succ,
        List.foldl_cons, List.foldl_nil, getD_range (by omega)]
  have hcl : checksum 16 32 d <<< 4 < 256 ^ 2 := by rw [Nat.shiftLeft_eq]; omega
  simp only [Fips205.wotsChecksum, Fips205.len_1, Fips205.w, hsum 32 (Nat.le_refl _), Fips205.len_2,
    Fips205.lg_w, show (8 - 3 * 4 % 8) % 8 = 4 by decide, show (3 * 4 + 7) / 8 = 2 by decide,
    natToBytesBE_eq]
  rw [baseW_eq (by simp), ofBe_be, Nat.mod_eq_of_lt hcl, length_be]
  exact List.map_congr_left fun j hj => digit_shifted (List.mem_range.mp hj)

theorem msgToChainDigits_eq {m : Bytes} (hm : m.length = 16) :
    Fips205.msgToChainDigits m = (List.range 35).map (digits m) := by
  rw [Fips205.msgToChainDigits, Fips205.len_1, baseW_eq (by omega), hm,
    show 2 * 16 = 32 by rfl, wotsChecksum_eq, Spec.Slh128s.map_digits]

/-! ## WOTS+ -/

theorem chain_eq (x : Bytes) (i k c ti : Nat) :
    Fips205.chain H x i k seed ⟨l, t, 0, kp, c, ti⟩ =
      HashSig.chain (wotsStep (T H seed) l t kp c) i x k := by
  refine forLt_id (fun j s => s.1 = HashSig.chain (wotsStep (T H seed) l t kp c) i x (j - i) ∧
      ∃ ti, s.2 = ⟨l, t, 0, kp, c, ti⟩) (Nat.le_add_right _ _) ⟨by rw [Nat.sub_self]; rfl, ti, rfl⟩ ?_ ?_
  · rintro j ⟨tmp, a⟩ hij hj ⟨rfl, ti, rfl⟩
    have hstep : Fips205.thash H seed ⟨l, t, 0, kp, c, j⟩ _ = _ := thash_node (.wotsStep l t kp c j)
      [HashSig.chain (wotsStep (T H seed) l t kp c) i x (j - i)] rfl (List.flatten_singleton).symm
    refine ⟨?_, j, rfl⟩
    rw [show j + 1 - i = j - i + 1 by omega, HashSig.chain, show i + (j - i) = j by omega]
    exact hstep
  · rintro ⟨tmp, a⟩ ⟨rfl, -⟩
    rw [Nat.add_sub_cancel_left]
    rfl

theorem wotsPkFromSig_eq {sig msg : Bytes} (hmsg : msg.length = 16) (hsig : 560 ≤ sig.length)
    {s : Nat → Bytes} (hs : ∀ i < 35, window sig (i * 16) 16 = s i) (ty : UInt8) (th ti : Nat) :
    Fips205.wotsPkFromSig H sig msg seed ⟨l, t, ty, kp, th, ti⟩ =
      HashSig.wotsPkFromSig params (T H seed) l t kp (digits msg) s := by
  rw [Fips205.wotsPkFromSig, msgToChainDigits_eq hmsg]
  refine forLt_zero_id (fun k x => (∃ th ti, x.2 = ⟨l, t, 0, kp, th, ti⟩) ∧
      x.1 = ((List.range k).map fun i => wotsTop params (T H seed) l t kp i (digits msg i) (s i)).flatten)
    ⟨⟨th, ti, rfl⟩, rfl⟩ ?_ ?_
  · rintro k ⟨tmp, a⟩ hk ⟨⟨th, ti, rfl⟩, rfl⟩
    replace hk : k < 35 := hk
    have htop : Fips205.chain H (s k) (digits msg k) (15 - digits msg k) seed ⟨l, t, 0, kp, k, ti⟩ =
      wotsTop params (T H seed) l t kp k (digits msg k) (s k) := chain_eq _ _ _ _ _
    refine ⟨⟨k, ti, rfl⟩, ?_⟩
    rw [List.range_succ (n := k), List.map_append, List.flatten_append, List.map_singleton,
      List.flatten_singleton, ← htop]
    simp only [Fips205.n, Fips205.w, getD_range hk, slice_eq (show k * 16 + 16 ≤ sig.length by omega),
      hs k hk]
    rfl
  · rintro ⟨tmp, a⟩ ⟨-, rfl⟩
    exact thash_node (.wotsPk l t kp) _ rfl rfl

/-! ## XMSS and the hypertree -/

/-- A climbing loop's hash of a node and its sibling. -/
theorem climbStep_eq {a : Fips205.Adrs} (n : Node) (idx k : Nat) (v s : Bytes)
    (ha : ⟨a.layer, a.tree, a.type.toNat, a.keypair, a.treeHeight, a.treeIndex⟩ = Spec.Slh128s.adrs n) :
    Fips205.thash H seed a (if idx >>> k &&& 1 = 0 then v ++ s else s ++ v) =
      T H seed n [(children idx k v s).1, (children idx k v s).2] :=
  thash_node n _ ha (flatten_children idx k v s).symm

theorem xmssPkFromSig_eq {idx : Nat} {sig msg : Bytes} (hmsg : msg.length = 16) (hsig : 704 ≤ sig.length)
    {s : XmssSig Bytes} (hw : ∀ i < 35, window sig (i * 16) 16 = s.wots i)
    (ha : ∀ j < 9, window sig (560 + j * 16) 16 = s.auth j) (ty : UInt8) (kp th ti : Nat) :
    Fips205.xmssPkFromSig H idx sig msg seed ⟨l, t, ty, kp, th, ti⟩ =
      HashSig.xmssPkFromSig params (T H seed) l t idx (digits msg) s := by
  have hlen : (window sig 560 144).length = 144 := length_window (by omega)
  have hauth : ∀ j < 9, window (window sig 560 144) (j * 16) 16 = s.auth j := fun j hj => by
    rw [window_window _ (by omega), ha j hj]
  have hwots : Fips205.wotsPkFromSig H (window sig 0 560) msg seed ⟨l, t, 0, idx, th, ti⟩ = _ :=
    wotsPkFromSig_eq hmsg (by rw [length_window]; omega) (s := s.wots)
      (fun i hi => by rw [window_window _ (by omega), Nat.zero_add, hw i hi]) _ _ _
  rw [Fips205.xmssPkFromSig]
  simp only [Fips205.len, Fips205.n, Fips205.h_prime, Nat.reduceMul,
    slice_eq (show 0 + 560 ≤ sig.length by omega), slice_eq (show 560 + 144 ≤ sig.length by omega),
    Fips205.setType, Fips205.setKeypair, Fips205.AdrsType.wots_hash, Fips205.AdrsType.tree, hwots]
  refine forLt_zero_id (fun k x => x.1 = climb (xmssNode (T H seed) l t) idx s.auth
      (HashSig.wotsPkFromSig params (T H seed) l t idx (digits msg) s.wots) k ∧
      (∃ th ti, x.2.1 = ⟨l, t, 2, 0, th, ti⟩) ∧ x.2.2 = idx >>> k) ⟨rfl, ⟨_, _, rfl⟩, rfl⟩ ?_ ?_
  · rintro k ⟨node, a, cur⟩ hk ⟨rfl, ⟨th, ti, rfl⟩, rfl⟩
    replace hk : k < 9 := hk
    have hstep : Fips205.thash H seed ⟨l, t, 2, 0, k + 1, idx >>> (k + 1)⟩ _ = _ :=
      climbStep_eq (.merkle l t (k + 1) (idx >>> (k + 1))) idx k
        (climb (xmssNode (T H seed) l t) idx s.auth
          (HashSig.wotsPkFromSig params (T H seed) l t idx (digits msg) s.wots) k) (s.auth k) rfl
    simp only [slice_eq (show k * 16 + 16 ≤ (window sig 560 144).length by omega), hauth k hk]
    exact ⟨hstep, ⟨k + 1, idx >>> (k + 1), rfl⟩, rfl⟩
  · rintro ⟨node, a, cur⟩ ⟨rfl, -, -⟩
    rfl

theorem htRootFromSig_eq {sig msg : Bytes} (hmsg : msg.length = 16) (hsig : sig.length = 4928)
    (t kp : Nat) :
    Fips205.htRootFromSig H sig msg t kp seed =
      htRoot params (T H seed) digits t kp msg (Spec.Slh128s.htSig sig) 7 := by
  refine forLt_zero_id (fun k x => x = (htRoot params (T H seed) digits t kp msg
      (Spec.Slh128s.htSig sig) k, treeAt params t k, leafAt params t kp k)) rfl ?_ ?_
  · rintro k _ hk rfl
    replace hk : k < 7 := hk
    have hnode : Fips205.xmssPkFromSig H (leafAt params t kp k) (window sig (k * 704) 704)
        (htRoot params (T H seed) digits t kp msg (Spec.Slh128s.htSig sig) k) seed
        ⟨k, treeAt params t k, 0, 0, 0, 0⟩ = _ :=
      xmssPkFromSig_eq (length_htRoot hmsg _ k) (by rw [length_window]; omega)
        (s := Spec.Slh128s.htSig sig k) (fun _ _ => rfl) (fun _ _ => rfl) _ _ _ _
    simp only [Fips205.len, Fips205.n, Fips205.h_prime, Nat.reduceMul, Nat.reduceAdd,
      slice_eq (show k * 704 + 704 ≤ sig.length by omega), Fips205.empty, Fips205.setLayer, Fips205.setTree,
      hnode, Nat.and_two_pow_sub_one_eq_mod]
    rw [← Spec.Slh128s.treeAt_succ]
    rfl
  · rintro _ rfl
    rfl

/-! ## FORS -/

/-- The inner loop of `extractForsIndices`: 12 bits from bit `12 * k`, most significant first. -/
theorem forsIndexLoop {md : Bytes} {k : Nat} (h : md.length = 21) (hk : k < 14) :
    (forLt 0 12 0 fun b v => do
      let bitIdx := 12 * k + b
      let byte := (Fips205.get md (bitIdx >>> 3)).toNat
      let bit := (byte >>> (7 - (bitIdx &&& 7))) &&& 1
      return (v <<< 1) ||| bit : Id Nat) = pure (forsIndex md k) := by
  rw [forLt_zero_pure (fun j => ofBe md / 2 ^ (168 - (12 * k + j)) % 2 ^ j) (by simp [Nat.mod_one])
    fun j hj => ?_]
  · rw [forsIndex, digit, ← pow_mul]
    congr 4
    omega
  · have hbit := bit_ofBe (b := md) (i := 12 * k + j) (by omega)
    rw [show 8 * md.length - 1 - (12 * k + j) = 168 - (12 * k + (j + 1)) by omega] at hbit
    have hi : (12 * k + j) / 8 < md.length := by omega
    have hand : 12 * k + j &&& 7 = (12 * k + j) % 8 := Nat.and_two_pow_sub_one_eq_mod _ 3
    simp only [Nat.shiftRight_eq_div_pow _ 3, Nat.reducePow, get_eq hi, hand, hbit]
    rw [← Nat.shiftLeft_add_eq_or_of_lt (Nat.mod_lt _ (by decide)), mod_two_pow_succ _ j, Nat.shiftLeft_eq,
      Nat.mul_comm, Nat.div_div_eq_div_mul, ← pow_succ,
      show 168 - (12 * k + (j + 1)) + 1 = 168 - (12 * k + j) by omega]

theorem extractForsIndices_eq {md : Bytes} (h : md.length = 21) :
    Fips205.extractForsIndices md = (List.range 14).map (forsIndex md) := by
  refine forLt_zero_id (fun k x => x.1 = 12 * k ∧ x.2 = (List.range k).map (forsIndex md)) ⟨rfl, rfl⟩ ?_ ?_
  · rintro k ⟨bitOff, out⟩ hk ⟨rfl, rfl⟩
    refine ⟨rfl, ?_⟩
    simp only [Fips205.a, forsIndexLoop h hk, pure_bind]
    rw [List.range_succ, List.map_append]
    rfl
  · rintro ⟨bitOff, out⟩ ⟨-, rfl⟩
    rfl

theorem forsPkFromSig_eq {sig md : Bytes} (hmd : md.length = 21) (hsig : sig.length = 2912)
    (ty : UInt8) (th ti : Nat) :
    Fips205.forsPkFromSig H sig md seed ⟨l, t, ty, kp, th, ti⟩ =
      HashSig.forsPkFromSig params (T H seed) l t kp (forsIndex md) (Spec.Slh128s.forsSig sig) := by
  rw [Fips205.forsPkFromSig, extractForsIndices_eq hmd]
  generalize forsIndex md = idx
  let s := Spec.Slh128s.forsSig sig
  refine forLt_zero_id (fun k x => x = ((List.range k).map fun i =>
      forsTreeRoot params (T H seed) l t kp i (idx i) (s.sk i) (s.auth i)).flatten) rfl ?_ ?_
  · rintro i _ hi rfl
    replace hi : i < 14 := hi
    have hlen : (window sig (i * 208 + 16) 192).length = 192 := length_window (by omega)
    have hauth : ∀ j < 12, window (window sig (i * 208 + 16) 192) (j * 16) 16 = s.auth i j :=
      fun j hj => by rw [window_window _ (by omega)]; rfl
    have hleaf : Fips205.thash H seed ⟨l, t, 3, kp, 0, i * 2 ^ 12 + idx i⟩ (s.sk i) =
        forsLeaf params (T H seed) l t kp i (idx i) (s.sk i) :=
      thash_node (.forsNode l t kp 0 (i * 2 ^ 12 + idx i)) [s.sk i] rfl (by simp)
    rw [List.range_succ (n := i), List.map_append, List.flatten_append, List.map_singleton,
      List.flatten_singleton]
    simp only [Fips205.a, Fips205.n, Nat.reduceAdd, Nat.reduceMul,
      slice_eq (show i * 208 + 16 ≤ sig.length by omega),
      slice_eq (show i * 208 + 16 + 192 ≤ sig.length by omega), getD_range hi, Fips205.setType,
      Fips205.setTreeHeight, Fips205.setTreeIndex, Fips205.AdrsType.fors_tree]
    rw [show window sig (i * 208) 16 = s.sk i by rfl, hleaf]
    refine forLt_zero_id (fun j x => x.1 = climb (forsNode params (T H seed) l t kp i) (idx i) (s.auth i)
        (forsLeaf params (T H seed) l t kp i (idx i) (s.sk i)) j ∧
        (∃ th ti, x.2.1 = ⟨l, t, 3, kp, th, ti⟩) ∧ x.2.2 = idx i >>> j) ⟨rfl, ⟨_, _, rfl⟩, rfl⟩ ?_ ?_
    · rintro j ⟨node, a, cur⟩ hj ⟨rfl, ⟨th, ti, rfl⟩, rfl⟩
      replace hj : j < 12 := hj
      have hstep : Fips205.thash H seed
          ⟨l, t, 3, kp, j + 1, i * 2 ^ (12 - j - 1) + idx i >>> (j + 1)⟩ _ = _ :=
        climbStep_eq (.forsNode l t kp (j + 1) (i * 2 ^ (12 - (j + 1)) + idx i >>> (j + 1))) (idx i) j
          (climb (forsNode params (T H seed) l t kp i) (idx i) (s.auth i)
            (forsLeaf params (T H seed) l t kp i (idx i) (s.sk i)) j) (s.auth i j) (by
              rw [Nat.sub_sub]; rfl)
      simp only [slice_eq (show j * 16 + 16 ≤ (window sig (i * 208 + 16) 192).length by omega), hauth j hj]
      exact ⟨hstep, ⟨_, _, rfl⟩, rfl⟩
    · rintro ⟨node, a, cur⟩ ⟨rfl, -, -⟩
      rfl
  · rintro _ rfl
    exact thash_node (.forsRoots l t kp) _ rfl rfl

/-! ## Verification -/

theorem splitDigest_eq {digest : Bytes} (h : digest.length = 30) :
    Fips205.splitDigest digest = ((Spec.Slh128s.split digest).md, (Spec.Slh128s.split digest).tree,
      (Spec.Slh128s.split digest).leaf) := by
  have hround : ∀ (s k : Nat), s + k < digest.length →
      ofBe (window digest s k) <<< 8 ||| (Fips205.get digest (s + k)).toNat =
        ofBe (window digest s (k + 1)) := by
    intro s k h
    rw [get_eq h, ofBe_window_round h]
  rw [Fips205.splitDigest]
  simp only [Fips205.k, Fips205.a, Fips205.h, Fips205.h_prime, show (14 * 12 + 7) / 8 = 21 by decide,
    show (63 - 9 + 7) / 8 = 7 by decide, show (9 + 7) / 8 = 2 by decide, Nat.reduceSub]
  rw [forLt_zero_pure (fun k => ofBe (window digest 21 k)) (by rfl) fun k hk => ?_, pure_bind,
    forLt_zero_pure (fun k => ofBe (window digest 28 k)) (by rfl) fun k hk => ?_, pure_bind,
    slice_eq (by omega), Nat.and_two_pow_sub_one_eq_mod, Nat.and_two_pow_sub_one_eq_mod]
  · rfl
  · exact congrArg pure (hround 28 k (by omega))
  · exact congrArg pure (hround 21 k (by omega))

theorem verify_wellSized {pk msg sig ctx : Bytes} (hpk : pk.length = 32) (hsig : sig.length = 7856)
    (hctx : ctx.length ≤ 255) :
    Fips205.verify H pk msg sig ctx = decide (Spec.Slh128s.root H pk msg sig ctx = window pk 16 16) := by
  rw [Fips205.verify, Fips205.pk_bytes, if_neg (not_not.mpr hpk), Fips205.sig_bytes,
    if_neg (not_not.mpr hsig), if_neg (by omega)]
  have hdig := Spec.Slh128s.length_hmsg H (window sig 0 16) (window pk 0 16) (window pk 16 16)
    (Spec.Slh128s.wrap ctx msg)
  have hsel : Spec.Slh128s.split (Spec.Slh128s.hmsg H (window sig 0 16) (window pk 0 16)
      (window pk 16 16) (Spec.Slh128s.wrap ctx msg)) = Spec.Slh128s.selection H pk msg sig ctx := rfl
  have hmd : (Spec.Slh128s.selection H pk msg sig ctx).md.length = 21 := length_window (by omega)
  have hwrap : [0, UInt8.ofNat ctx.length] ++ ctx ++ msg = Spec.Slh128s.wrap ctx msg := rfl
  simp only [Fips205.n, Fips205.k, Fips205.a, Nat.reduceAdd, Nat.reduceMul, Nat.reduceSub,
    slice_eq (show 0 + 16 ≤ pk.length by omega), slice_eq (show 16 + 16 ≤ pk.length by omega),
    slice_eq (show 0 + 16 ≤ sig.length by omega), slice_eq (show 16 + 2912 ≤ sig.length by omega),
    slice_eq (show 2928 + 4928 ≤ sig.length by omega), hwrap, hmsg_eq, splitDigest_eq hdig, hsel,
    Fips205.empty, Fips205.setLayer, Fips205.setTree, Fips205.setType, Fips205.setKeypair]
  rw [forsPkFromSig_eq hmd (length_window (by omega)),
    htRootFromSig_eq (length_forsPk _ _) (length_window (by omega))]
  rfl

/-- The Lean verifier, on a 32-byte key. -/
theorem verify_eq {pk : Bytes} (hpk : pk.length = 32) (msg sig ctx : Bytes) :
    Fips205.verify H pk msg sig ctx = Spec.Slh128s.verify H pk msg sig ctx := by
  by_cases hw : Spec.Slh128s.WellSized sig ctx
  · rw [verify_wellSized hpk hw.1 hw.2, Spec.Slh128s.verify]
    simp only [hw, true_and]
  · rw [Spec.Slh128s.verify, decide_eq_false fun h => hw h.1, Fips205.verify, Fips205.pk_bytes,
      if_neg (not_not.mpr hpk)]
    by_cases hsig : sig.length = Fips205.sig_bytes
    · rw [if_neg (not_not.mpr hsig), if_pos (Nat.lt_of_not_le fun h => hw ⟨hsig, h⟩)]
      rfl
    · rw [if_pos hsig]
      rfl

end SuiPq.Proof.Fips205
