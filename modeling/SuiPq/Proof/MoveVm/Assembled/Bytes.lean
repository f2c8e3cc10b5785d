import SuiPq.Impl.AssembledBytecode
import SuiPq.Proof.Fips205
import SuiPq.Proof.MoveVm.Execution

/-!
# The hand-assembled bytecodes of byte strings and addresses

What `slice`, `pk_seed_padded`, the setters of an address and `thash` leave on
the stack, from one round of each loop. The setters are all of one kind: the
bytes of an integer, one round for each (`setBytes_returns`).
-/

namespace SuiPq.Proof.MoveVm.Assembled

set_option maxRecDepth 10000

open SuiPq.Impl SuiPq.Impl.MoveVm
open SuiPq.Fuel (Spends)

variable {H : Hash}

/-- What a bytecode that stops leaves on top of the stack. -/
theorem topBytes_eq {code : Bytecode} {L : List Value} {v : Bytes} {n : Nat} (hn : n < 1000000)
    (h : Spends (run H code) n ⟨[], L, 0, none⟩ (Stops code [.vecU8 v] [])) :
    (runDefault H code ⟨[], L, 0, none⟩).topBytes = v := Returns.topBytes (returns_of_stops hn h)

/-! ## Slices -/

section Slice

open Slice

def sliceLocals (src : Bytes) (start len i : Nat) (out : Bytes) : List Value :=
  [.vecU8 src, int64 start, int64 len, .vecU8 out, int64 i, .u8 0]

theorem slice_round {src out : Bytes} {start len i : Nat} {x : UInt8} (hi : i < len) (hlen : len < 2 ^ 64)
    (hj : start + i < 2 ^ 64) (hx : src[start + i]? = some x) :
    Spends (run H sliceBytecode) 17 ⟨[], sliceLocals src start len i out, 4, none⟩
      (· = ⟨[], sliceLocals src start len (i + 1) (out ++ [x]), 4, none⟩) := by
  refine ops 3 (t := ⟨[.bool (decide ((UInt64.ofNat i).toNat < (UInt64.ofNat len).toNat))],
    sliceLocals src start len i out, 7, none⟩) rfl ?_
  refine brTrue rfl (lt_true hi hlen) ?_
  refine ops 5 (t := ⟨[.u64 (.ofNat start + .ofNat i), .vecU8 src, .vecU8 out],
    sliceLocals src start len i out, 13, none⟩) rfl ?_
  rw [← UInt64.ofNat_add]
  refine op rfl (immBorrow (j := 0) false hj (fun h => by cases h) hx) ?_
  refine ops 7 (t := ⟨[], [.vecU8 src, int64 start, int64 len, .vecU8 (out ++ [x]),
    .u64 (.ofNat i + .ofNat 1), .u8 0], 4, none⟩) rfl ?_
  rw [← UInt64.ofNat_add]
  exact .done rfl

/-- `slice`, of as many bytes as the VM has fuel for. -/
theorem sliceMoveBC_eq {src : Bytes} {start len : Nat} (h : start + len ≤ src.length)
    (hstart : start + len < 2 ^ 64)
    (hlen : len ≤ 50000) : sliceMoveBC H src (UInt64.ofNat start) (UInt64.ofNat len) =
    window src start len := by
  have hloop : Spends (run H sliceBytecode) (len * 17) ⟨[], sliceLocals src start len 0 [], 4, none⟩
      (· = ⟨[], sliceLocals src start len len (window src start len), 4, none⟩) := by
    refine Fuel.Spends.loop (fun i (t : State) =>
      t = ⟨[], sliceLocals src start len i (window src start i), 4, none⟩)
      (fun i s hi hs => ?_) rfl
    subst hs
    rw [window_succ (by omega)]
    exact slice_round hi (by omega) (by omega) (List.getElem?_eq_getElem (by omega))
  refine topBytes_eq (n := 4 + (50000 * 17 + 6)) (by decide) ?_
  refine ops 4 (t := ⟨[], sliceLocals src start len 0 [], 4, none⟩) rfl ?_
  refine (hloop.bind (n := 6) fun t ht => ?_).mono (by omega) fun _ h => h
  subst ht
  refine ops 3 (t := ⟨[.bool _], sliceLocals src start len len (window src start len), 7, none⟩) rfl ?_
  refine brFalse rfl lt_false ?_
  exact ops 1 (t := ⟨[.vecU8 (window src start len)],
    sliceLocals src start len len (window src start len), 22, none⟩) rfl
    (stops 6 rfl rfl)

/-- `slice` is the transcription's, where that reads no byte past the end. -/
theorem slice_eq {src : Bytes} {start len : Nat} (h : start + len ≤ src.length)
    (hstart : start + len < 2 ^ 64) (hlen : len ≤ 50000) :
    sliceMoveBC H src (UInt64.ofNat start) (UInt64.ofNat len) = Fips205.slice src start len := by
  rw [sliceMoveBC_eq h hstart hlen, Proof.Fips205.slice_eq h]

end Slice

section PkSeedPadded

open PkSeedPadded

theorem pkSeedPadded_round {seed out : Bytes} {i : Nat} (hi : i < 48) :
    Spends (run H pkSeedPaddedBytecode) 13 ⟨[], [.vecU8 seed, .vecU8 out, int64 i], 4, none⟩
      (· = ⟨[], [.vecU8 seed, .vecU8 (out ++ [0]), int64 (i + 1)], 4, none⟩) := by
  refine ops 3 (t := ⟨[.bool (decide ((UInt64.ofNat i).toNat < (UInt64.ofNat 48).toNat))],
    [.vecU8 seed, .vecU8 out, int64 i], 7, none⟩) rfl ?_
  refine brTrue rfl (lt_true hi (by decide)) ?_
  refine ops 9 (t := ⟨[], [.vecU8 seed, .vecU8 (out ++ [0]), .u64 (.ofNat i + .ofNat 1)], 4, none⟩) rfl ?_
  rw [← UInt64.ofNat_add]
  exact .done rfl

theorem pkSeedPadded_eq (seed : Bytes) : pkSeedPaddedMoveBC H seed = seed ++ Fips205.zeros 48 := by
  rw [Proof.Fips205.zeros_eq]
  have hloop : Spends (run H pkSeedPaddedBytecode) (48 * 13)
    ⟨[], [.vecU8 seed, .vecU8 seed, int64 0], 4, none⟩
      (· = ⟨[], [.vecU8 seed, .vecU8 (seed ++ List.replicate 48 0), int64 48], 4, none⟩) := by
    refine Fuel.Spends.loop
      (fun i (t : State) => t = ⟨[], [.vecU8 seed, .vecU8 (seed ++ List.replicate i 0), int64 i], 4, none⟩)
      (fun i s hi hs => ?_) (by rw [List.replicate_zero, List.append_nil])
    subst hs
    rw [List.replicate_succ', ← List.append_assoc]
    exact pkSeedPadded_round hi
  refine topBytes_eq (n := 4 + (48 * 13 + 6)) (by decide) ?_
  refine ops 4 (t := ⟨[], [.vecU8 seed, .vecU8 seed, int64 0], 4, none⟩) rfl ?_
  refine (hloop.bind (n := 6) fun t ht => ?_).mono (by decide) fun _ h => h
  subst ht
  generalize seed ++ List.replicate 48 0 = out
  refine ops 4 (t := ⟨[], [.vecU8 seed, .vecU8 out, int64 48], 17, none⟩) rfl ?_
  exact ops 1 (t := ⟨[.vecU8 out], [.vecU8 seed, .vecU8 out, int64 48], 18, none⟩) rfl (stops 3 rfl rfl)

end PkSeedPadded

/-! ## Addresses -/

section Setters

open AdrsSetters

variable {code : Bytecode} {a : Bytes} {v off shift pc n : Nat}

/-- The opcodes from `pc` on. -/
theorem drop_getElem? {rest : List Opcode} {o : Opcode} (i : Nat) (hcode : code.toList.drop pc = rest)
    (h : rest[i]?.filter callFree = some o) : code.toList[pc + i]?.filter callFree = some o := by
  rw [← List.getElem?_drop, hcode, h]

theorem ofNat_and_255 (m : Nat) : UInt8.ofNat (UInt64.ofNat (m &&& 255)).toNat = UInt8.ofNat m := by
  rw [toNat64 (Nat.lt_of_le_of_lt Nat.and_le_right (by decide)), ofNat_and_ff]

/-- The opcodes of a byte, to its low bits. -/
theorem setMasked (pc : Nat) {k : Nat} {stack L : List Value} {Q : State → Prop} {rest : List Opcode}
    (hcode : code.toList.drop pc =
      [.LdU64 255, .BitAnd, .CallNative "u64_to_u8" 1, .VecSet, .StLoc 0] ++ rest)
    (hk : k < 2 ^ 64) (hoff : off < 2 ^ 64) (hlen : off < a.length) (hL : 0 < L.length)
    (h : Spends (run H code) n ⟨stack, L.set 0 (.vecU8 (a.set off (UInt8.ofNat k))), pc + 5, none⟩ Q) :
    Spends (run H code) (n + 5) ⟨int64 k :: int64 off :: .vecU8 a :: stack, L, pc, none⟩ Q := by
  refine op (drop_getElem? 0 hcode rfl) (ldU64 _) ?_
  refine op (drop_getElem? 1 hcode rfl) (arith64 (· &&& ·) (k := 255) hk rfl) ?_
  refine op (drop_getElem? 2 hcode rfl) (u64ToU8 _) ?_
  rw [int8, ofNat_and_255]
  exact op (drop_getElem? 3 hcode rfl) (vecSet hoff hlen) (op (drop_getElem? 4 hcode rfl) (stLoc hL) h)

/-- One byte of an integer. -/
theorem setByte_round {rest : List Opcode} (hcode : code.toList.drop pc = setByte off shift ++ rest)
    (hv : v < 2 ^ 64) (hoff : off < 2 ^ 64) (hshift : shift < 2 ^ 64) (hlen : off < a.length) :
    Spends (run H code) 10 ⟨[], [.vecU8 a, int64 v], pc, none⟩
      (· = ⟨[], [.vecU8 (a.set off (UInt8.ofNat (v >>> shift))), int64 v], pc + 10, none⟩) := by
  refine op (drop_getElem? 0 hcode rfl) (copyLoc rfl) ?_
  refine op (drop_getElem? 1 hcode rfl) (ldU64 _) ?_
  refine op (drop_getElem? 2 hcode rfl) (copyLoc rfl) ?_
  refine op (drop_getElem? 3 hcode rfl) (ldU64 _) ?_
  refine op (drop_getElem? 4 hcode rfl) (arith64 (· >>> ·) hv (asNat64 hshift)) ?_
  refine setMasked (pc + 5) (by rw [← List.drop_drop, hcode]; rfl)
    (Nat.lt_of_le_of_lt (Nat.shiftRight_le ..) hv) hoff hlen (Nat.zero_lt_succ 1) (.done rfl)

/-- The last byte. -/
theorem setLowByte_round {rest : List Opcode} (hcode : code.toList.drop pc = setLowByte off ++ rest)
    (hv : v < 2 ^ 64) (hoff : off < 2 ^ 64) (hlen : off < a.length) :
    Spends (run H code) 8 ⟨[], [.vecU8 a, int64 v], pc, none⟩
      (· = ⟨[], [.vecU8 (a.set off (UInt8.ofNat v)), int64 v], pc + 8, none⟩) := by
  refine op (drop_getElem? 0 hcode rfl) (copyLoc rfl) ?_
  refine op (drop_getElem? 1 hcode rfl) (ldU64 _) ?_
  refine op (drop_getElem? 2 hcode rfl) (copyLoc rfl) ?_
  exact setMasked (pc + 3) (by rw [← List.drop_drop, hcode]; rfl) hv hoff hlen (Nat.zero_lt_succ 1)
    (.done rfl)

/-- The bytes of an integer, the last of them at `off + n`. -/
theorem setBytes_eq (hcode : ∀ i < n, ∃ rest, code.toList.drop (10 * i) =
    setByte (off + i) (8 * (n - i)) ++ rest)
    (hlast : code.toList.drop (10 * n) = setLowByte (off + n) ++ [.CopyLoc 0, .Ret])
    (hn : n < 8) (hv : v < 2 ^ 64)
    (hoff : off + n < 2 ^ 64) (hlen : off + n < a.length) :
    setMoveBC H code a (int64 v) = patch a off (be (n + 1) v) := by
  have hloop : Spends (run H code) (n * 10) ⟨[], [.vecU8 a, int64 v], 10 * 0, none⟩
      (· = ⟨[], [.vecU8 (patch a off (be n (v >>> 8))), int64 v], 10 * n, none⟩) := by
    refine (Fuel.Spends.loop (fun i (t : State) =>
      t = ⟨[], [.vecU8 (patch a off (be i (v >>> (8 * (n + 1 - i))))), int64 v], 10 * i, none⟩)
      (fun i s hi hs => ?_) (by rw [be, patch_nil])).mono (Nat.le_refl _) fun t ht => by
        rw [ht, Nat.add_sub_cancel_left, Nat.mul_one]
    subst hs
    obtain ⟨rest, hrest⟩ := hcode i hi
    have hlen' : off + (be i (v >>> (8 * (n + 1 - i)))).length < a.length := by rw [length_be]; omega
    have hset := set_patch_right hlen' (UInt8.ofNat (v >>> (8 * (n - i))))
    rw [length_be] at hset hlen'
    rw [show 10 * (i + 1) = 10 * i + 10 by omega, be_succ_right, ← Nat.shiftRight_add,
      show 8 * (n + 1 - (i + 1)) = 8 * (n - i) by omega, show 8 * (n - i) + 8 =
        8 * (n + 1 - i) by omega, ← hset]
    exact setByte_round hrest hv (by omega) (by omega)
      (by rw [length_patch (by rw [length_be]; omega)]; exact hlen')
  refine topBytes_eq (n := n * 10 + (8 + 1)) (by omega) ?_
  refine hloop.bind fun t ht => ?_
  subst ht
  have hlen' : off + (be n (v >>> 8)).length < a.length := by rwa [length_be]
  have hset := set_patch_right hlen' (UInt8.ofNat v)
  rw [length_be, ← be_succ_right] at hset
  refine (setLowByte_round hlast hv hoff
    (by rw [length_patch (by rw [length_be]; omega)]; exact hlen)).bind fun t ht => ?_
  subst ht
  rw [hset]
  have hend : code.toList.drop (10 * n + 8) = [.CopyLoc 0, .Ret] := by rw [← List.drop_drop, hlast]; rfl
  refine op (n := 0) (drop_getElem? 0 hend rfl) (copyLoc rfl) (stops 2 ?_ rfl)
  rw [← List.getElem?_drop, hend]
  rfl

/-- Four bytes. -/
theorem setU32_eq (v : UInt64) (hoff : off + 3 < 2 ^ 64) (hlen : off + 3 < a.length) :
    setMoveBC H (setU32 off) a (.u64 v) = patch a off (be 4 v.toNat) := by
  have hcode : ∀ i < 3, ∃ rest, (setU32 off).toList.drop (10 * i) =
    setByte (off + i) (8 * (3 - i)) ++ rest := by
    intro i hi
    obtain rfl | rfl | rfl : i = 0 ∨ i = 1 ∨ i = 2 := by omega
    · exact ⟨_, rfl⟩
    · exact ⟨_, rfl⟩
    · exact ⟨_, rfl⟩
  have hset := setBytes_eq (H := H) hcode rfl (by decide) v.toNat_lt hoff hlen
  rwa [int64, UInt64.ofNat_toNat] at hset

theorem adrsSetTree_patch (v : UInt64) (hlen : 9 ≤ a.length) :
    adrsSetTreeMoveBC H a v = patch a 1 (be 8 v.toNat) := by
  have hcode : ∀ i < 7, ∃ rest, adrsSetTreeBytecode.toList.drop (10 * i) =
    setByte (1 + i) (8 * (7 - i)) ++ rest := by
    intro i hi
    obtain rfl | rfl | rfl | rfl | rfl | rfl | rfl : i = 0 ∨ i = 1 ∨ i = 2 ∨ i = 3 ∨ i = 4 ∨
      i = 5 ∨ i = 6 := by omega
    · exact ⟨_, rfl⟩
    · exact ⟨_, rfl⟩
    · exact ⟨_, rfl⟩
    · exact ⟨_, rfl⟩
    · exact ⟨_, rfl⟩
    · exact ⟨_, rfl⟩
    · exact ⟨_, rfl⟩
  have hset := setBytes_eq (H := H) hcode rfl (by decide) v.toNat_lt (by decide) hlen
  rwa [int64, UInt64.ofNat_toNat] at hset

/-- A byte. -/
theorem setU8_eq (x : UInt8) (hoff : off < 2 ^ 64) (hlen : off < a.length) :
    setMoveBC H (setU8 off) a (.u8 x) = patch a off [x] := by
  refine topBytes_eq (n := 6) (by decide) ?_
  refine ops 3 (t := ⟨[.u8 x, int64 off, .vecU8 a], [.vecU8 a, .u8 x], 3, none⟩) rfl ?_
  refine op rfl (vecSet hoff hlen) ?_
  have hset : (patch a off []).set off x = patch a off [x] := set_patch_right (p := []) hlen x
  rw [patch_nil] at hset
  refine ops 2 (t := ⟨[.vecU8 (a.set off x)], [.vecU8 (a.set off x), .u8 x], 6, none⟩) rfl ?_
  rw [hset]
  exact stops 2 rfl rfl

/-- The setters write what their specifications do. -/
theorem replaceMid_eq {middle : Bytes} {lo hi : Nat} (hlo : lo ≤ hi) (hm : middle.length = hi - lo)
    (hhi : hi ≤ a.length) :
    replaceMid a middle lo hi = patch a lo middle := by
  have htail : window a hi (a.length - hi) = a.drop hi :=
    List.take_of_length_le (Nat.le_of_eq List.length_drop)
  rw [replaceMid, Proof.Fips205.slice_eq (by omega), Proof.Fips205.slice_eq (by omega), htail,
    patch, window, List.drop_zero, show lo + middle.length = hi by omega]

theorem u32BE_eq (v : Nat) : Fips205.u32BE v = be 4 v := Proof.Fips205.natToBytesBE_eq v 4

theorem u64BE_eq (v : Nat) : Fips205.u64BE v = be 8 v := Proof.Fips205.natToBytesBE_eq v 8

/-- Every setter, on an address of 22 bytes and any value, does what its specification does. -/
theorem setters_eq_spec (x : UInt8) (v : UInt64) (ha : a.length = 22) :
    adrsSetLayerMoveBC H a x = adrsSetLayerSpec a x ∧ adrsSetTreeMoveBC H a v = adrsSetTreeSpec a v.toNat ∧
      adrsSetTypeMoveBC H a x = adrsSetTypeSpec a x ∧ adrsSetKeypairMoveBC H a v =
      adrsSetKeypairSpec a v.toNat ∧
      adrsSetTreeHeightMoveBC H a v = adrsSetTreeHeightSpec a v.toNat ∧
      AdrsSetTreeIndex.adrsSetTreeIndexMoveBC H a v = AdrsSetTreeIndex.adrsSetTreeIndexSpec a v.toNat := by
  have h32 : ∀ lo, lo + 4 ≤ 22 → replaceMid a (Fips205.u32BE v.toNat) lo (lo + 4) =
    patch a lo (be 4 v.toNat) := fun lo h => by
    rw [u32BE_eq, replaceMid_eq (by omega) (by rw [length_be]; omega) (by omega)]
  have hindex : AdrsSetTreeIndex.adrsSetTreeIndexSpec a v.toNat = patch a 18 (be 4 v.toNat) := by
    rw [AdrsSetTreeIndex.adrsSetTreeIndexSpec, Proof.Fips205.slice_eq (by omega), u32BE_eq, patch, length_be,
      List.drop_eq_nil_of_le (by omega), List.append_nil, window, List.drop_zero]
  refine ⟨?_, ?_, ?_, ?_, ?_, ?_⟩
  · exact (setU8_eq x (by decide) (by omega)).trans (replaceMid_eq (by decide) rfl (by omega)).symm
  · exact (adrsSetTree_patch v (by omega)).trans ((congrArg (replaceMid a · 1 9) (u64BE_eq _)).trans
      (replaceMid_eq (by decide) (length_be ..) (by omega))).symm
  · exact (setU8_eq x (by decide) (by omega)).trans (replaceMid_eq (by decide) rfl (by omega)).symm
  · exact (setU32_eq v (by decide) (by omega)).trans (h32 10 (by decide)).symm
  · exact (setU32_eq v (by decide) (by omega)).trans (h32 14 (by decide)).symm
  · exact (setU32_eq v (by decide) (by omega)).trans hindex.symm

theorem setters_eq_spec_zeros : AdrsSetTreeIndex.adrsSetTreeIndexMoveBC Hash.zero
    (List.replicate 22 0) 0xdeadbeef =
    AdrsSetTreeIndex.adrsSetTreeIndexSpec (List.replicate 22 0) 0xdeadbeef :=
  (setters_eq_spec (H := Hash.zero) (a := List.replicate 22 0) 0 0xdeadbeef rfl).2.2.2.2.2

/-! ## Addresses of the transcription -/

/-- The low bytes of a number are those of the `u64` that it is cut down to. -/
theorem be_toNat {w : Nat} (hw : w ≤ 8) (m : Nat) : be w (UInt64.ofNat m).toNat = be w m := by
  rw [UInt64.toNat_ofNat', ← be_add_mul w 8 (m / 2 ^ 64) _ hw, show (256 : Nat) ^ 8 =
    2 ^ 64 by decide, Nat.div_add_mod]

variable (adrs : Fips205.Adrs)

theorem setLayer_eq (m : Nat) : adrsSetLayerMoveBC H (Fips205.compress adrs) (UInt8.ofNat m) =
    Fips205.compress (Fips205.setLayer adrs m) := by
  obtain ⟨l, t, ty, kp, th, ti⟩ := adrs
  rw [Fips205.setLayer, Proof.Fips205.compress_eq, Proof.Fips205.compress_eq]
  exact (setU8_eq _ (by decide) (by simp)).trans (Spec.Slh128s.patch_layer ..)

theorem setType_eq (x : UInt8) : adrsSetTypeMoveBC H (Fips205.compress adrs) x =
    Fips205.compress (Fips205.setType adrs x) := by
  obtain ⟨l, t, ty, kp, th, ti⟩ := adrs
  have hx : be 1 x.toNat = [x] := congrArg ([·]) UInt8.ofNat_toNat
  rw [Fips205.setType, Proof.Fips205.compress_eq, Proof.Fips205.compress_eq]
  exact (setU8_eq _ (by decide) (by simp)).trans (hx ▸ Spec.Slh128s.patch_type ..)

theorem setTree_eq (m : Nat) : adrsSetTreeMoveBC H (Fips205.compress adrs) (UInt64.ofNat m) =
    Fips205.compress (Fips205.setTree adrs m) := by
  obtain ⟨l, t, ty, kp, th, ti⟩ := adrs
  rw [Fips205.setTree, Proof.Fips205.compress_eq, Proof.Fips205.compress_eq, adrsSetTree_patch _ (by simp),
    be_toNat (by decide), Spec.Slh128s.patch_tree]

theorem setKeypair_eq (m : Nat) : adrsSetKeypairMoveBC H (Fips205.compress adrs) (UInt64.ofNat m) =
    Fips205.compress (Fips205.setKeypair adrs m) := by
  obtain ⟨l, t, ty, kp, th, ti⟩ := adrs
  rw [Fips205.setKeypair, Proof.Fips205.compress_eq, Proof.Fips205.compress_eq]
  exact (setU32_eq _ (by decide) (by simp)).trans
    (be_toNat (w := 4) (by decide) m ▸ Spec.Slh128s.patch_keypair ..)

theorem setTreeHeight_eq (m : Nat) : adrsSetTreeHeightMoveBC H (Fips205.compress adrs) (UInt64.ofNat m) =
    Fips205.compress (Fips205.setTreeHeight adrs m) := by
  obtain ⟨l, t, ty, kp, th, ti⟩ := adrs
  rw [Fips205.setTreeHeight, Proof.Fips205.compress_eq, Proof.Fips205.compress_eq]
  exact (setU32_eq _ (by decide) (by simp)).trans
    (be_toNat (w := 4) (by decide) m ▸ Spec.Slh128s.patch_treeHeight ..)

theorem setTreeIndex_eq (m : Nat) : AdrsSetTreeIndex.adrsSetTreeIndexMoveBC H
    (Fips205.compress adrs) (UInt64.ofNat m) =
    Fips205.compress (Fips205.setTreeIndex adrs m) := by
  obtain ⟨l, t, ty, kp, th, ti⟩ := adrs
  rw [Fips205.setTreeIndex, Proof.Fips205.compress_eq, Proof.Fips205.compress_eq]
  exact (setU32_eq _ (by decide) (by simp)).trans
    (be_toNat (w := 4) (by decide) m ▸ Spec.Slh128s.patch_treeIndex ..)

theorem compress_empty : Fips205.zeros 22 = Fips205.compress Fips205.empty := by
  rw [Proof.Fips205.zeros_eq, Fips205.empty, Proof.Fips205.compress_eq]
  rfl

end Setters

/-! ## The truncated hash -/

section Thash

open Thash

def thashLocals (pre adrs m buf h : Bytes) (k : Nat) : List Value :=
  [.vecU8 pre, .vecU8 adrs, .vecU8 m, .vecU8 buf, .vecU8 h, int64 k]

theorem thash_round {pre adrs m buf h : Bytes} {k : Nat} (hk : k < 16) (hh : h ≠ []) :
    Spends (run H thashBytecode) 13 ⟨[], thashLocals pre adrs m buf h k, 15, none⟩
      (· = ⟨[], thashLocals pre adrs m buf h.dropLast (k + 1), 15, none⟩) := by
  refine ops 3 (t := ⟨[.bool (decide ((UInt64.ofNat k).toNat < (UInt64.ofNat 16).toNat))],
    thashLocals pre adrs m buf h k, 18, none⟩) rfl ?_
  refine brTrue rfl (lt_true hk (by decide)) ?_
  refine ops 1 (t := ⟨[.vecU8 h], thashLocals pre adrs m buf h k, 20, none⟩) rfl ?_
  refine op rfl (popBackValue hh) ?_
  refine ops 7 (t := ⟨[], [.vecU8 pre, .vecU8 adrs, .vecU8 m, .vecU8 buf, .vecU8 h.dropLast,
    .u64 (.ofNat k + .ofNat 1)], 15, none⟩) rfl ?_
  rw [← UInt64.ofNat_add]
  exact .done rfl

/-- The truncation. -/
theorem thash_truncate {pre adrs m buf h : Bytes} (hh : h.length = 32) :
    Spends (run H thashBytecode) (16 * 13) ⟨[], thashLocals pre adrs m buf h 0, 15, none⟩
      (· = ⟨[], thashLocals pre adrs m buf (h.take 16) 16, 15, none⟩) := by
  refine Fuel.Spends.loop (fun k (t : State) =>
    t = ⟨[], thashLocals pre adrs m buf (h.take (32 - k)) k, 15, none⟩)
    (fun k s hk hs => ?_) (by rw [Nat.sub_zero, List.take_of_length_le (Nat.le_of_eq hh)])
  subst hs
  have hne : h.take (32 - k) ≠ [] := List.ne_nil_of_length_pos (by rw [List.length_take]; omega)
  have hdrop : (h.take (32 - k)).dropLast = h.take (32 - (k + 1)) := by
    rw [List.dropLast_eq_take, List.take_take, List.length_take, hh]
    congr 1
    omega
  rw [← hdrop]
  exact thash_round hk hne

theorem thashMoveBC_eq (pre adrs m : Bytes) : thashMoveBC H pre adrs m = (H (pre ++ adrs ++ m)).take 16 := by
  have hrun : Spends (run H thashBytecode) (11 + (1 + (3 + (16 * 13 + 6))))
      ⟨[], thashLocals pre adrs m [] [] 0, 0, none⟩
      (Stops thashBytecode [.vecU8 ((H (pre ++ adrs ++ m)).take 16)] []) := by
    refine ops 2 (t := ⟨[], thashLocals pre adrs m pre [] 0, 2, none⟩) rfl ?_
    refine ops 4 (t := ⟨[], thashLocals pre adrs m (pre ++ adrs) [] 0, 6, none⟩) rfl ?_
    refine ops 5 (t := ⟨[.vecU8 (pre ++ adrs ++ m)], thashLocals pre adrs m (pre ++ adrs ++ m) [] 0,
      11, none⟩) rfl ?_
    generalize pre ++ adrs ++ m = buf
    refine op rfl (sha256 buf) ?_
    refine ops 3 (t := ⟨[], thashLocals pre adrs m buf (H buf) 0, 15, none⟩) rfl ?_
    refine ((thash_truncate (H.length_apply buf)).bind (n := 6) fun t ht => ?_).mono (by decide) fun _ h => h
    subst ht
    generalize (H buf).take 16 = h
    refine ops 4 (t := ⟨[], thashLocals pre adrs m buf h 16, 28, none⟩) rfl ?_
    exact ops 1 (t := ⟨[.vecU8 h], thashLocals pre adrs m buf h 16, 29, none⟩) rfl (stops 6 rfl rfl)
  exact topBytes_eq (by decide) hrun

/-- `thash`, under a padded seed and a compressed address. -/
theorem thash_eq (seed : Bytes) (adrs : Fips205.Adrs) (m : Bytes) :
    thashMoveBC H (seed ++ Fips205.zeros 48) (Fips205.compress adrs) m = Fips205.thash H seed adrs m := by
  rw [thashMoveBC_eq, Fips205.thash, Fips205.n, Proof.Fips205.truncate_eq (by rw [H.length_apply]; decide)]

end Thash

end SuiPq.Proof.MoveVm.Assembled
