import SuiPq.Proof.MoveVm.Source.Wots

/-!
# The bytecodes of the hypertree

`xmss_pk_from_sig` and `ht_root_from_sig`: where the Move function returns,
its bytecode does (`xmssPkFromSig_returns`, `htRootFromSig_returns`). A level
of a tree sets the address, takes the next bit of the index, joins the node
and its sibling in the order that the bit says and hashes them.
-/

namespace SuiPq.Proof.MoveVm.Source

set_option maxRecDepth 10000

open SuiPq.Impl SuiPq.Impl.MoveVm
open SuiPq.Fuel (Spends)

variable {H : Hash}

theorem eq_zero32 {n : Nat} (h : n < 2 ^ 32) : (UInt32.ofNat n == 0) = decide (n = 0) := by
  have hiff : UInt32.ofNat n = 0 ↔ n = 0 := by
    rw [← UInt32.toNat_inj, toNat32 h]
    rfl
  rw [Bool.eq_iff_iff, beq_iff_eq, decide_eq_true_eq, hiff]

section XmssPkFromSig

open XmssPkFromSigReal

/-- The local with the address. -/
def xmssAdrsAt (r : Bool) : Nat := if r then 16 else 14

/-- The locals of `xmss_pk_from_sig`, the last of them the address that the local 4 refers to. -/
def xmssLocals (r : Bool) (idx : Nat) (sig msg pre adrs : Bytes)
    (auth bit buf cur h i k node wotsSig : Value) : List Value :=
  [int32 idx, passed r 14 sig, passed r 15 msg, .vecU8 pre, .locRef (xmssAdrsAt r), auth, bit, buf,
    cur, h, i, k, node, wotsSig] ++ held r sig ++ held r msg ++ [.vecU8 adrs]

variable {r : Bool} {idx : Nat} {sig msg pre adrs : Bytes} {auth bit buf cur h i k node wotsSig : Value}

theorem xmssLocals_adrs :
    (xmssLocals r idx sig msg pre adrs auth bit buf cur h i k node wotsSig)[xmssAdrsAt r]? =
      some (.vecU8 adrs) := by
  cases r <;> rfl

theorem xmssLocals_setAdrs {adrs' : Bytes} :
    (xmssLocals r idx sig msg pre adrs auth bit buf cur h i k node wotsSig).set
      (xmssAdrsAt r) (.vecU8 adrs') =
      xmssLocals r idx sig msg pre adrs' auth bit buf cur h i k node wotsSig := by
  cases r <;> rfl

/-- The parts of the signature. -/
theorem xmss_slices {ws a : Bytes} (hw : (MoveBytes.slice sig 0 560).res = .ok ws)
    (ha : (MoveBytes.slice sig 560 144).res = .ok a) :
    Spends (run H xmssPkFromSigRealBytecode) 16
      ⟨[], xmssLocals r idx sig msg pre adrs auth bit buf cur h i k node wotsSig, 0, none⟩
      (· = ⟨[], xmssLocals r idx sig msg pre adrs (.vecU8 a) bit buf cur h i k node (.vecU8 ws), 16,
        none⟩) := by
  have hws := slice_returns (H := H) r (a := .u64 0) (b := .vecU8 []) (by decide) hw
  have hauth := slice_returns (H := H) r (a := .u64 0) (b := .vecU8 []) (by decide) ha
  refine ops 5 (t := ⟨[int64 560, int64 0, passed r 14 sig],
    xmssLocals r idx sig msg pre adrs auth bit buf cur h i k node wotsSig, 5, none⟩) rfl ?_
  refine Fuel.Spends.pay (m := 1) (Q := (· = ⟨[.vecU8 ws],
    xmssLocals r idx sig msg pre adrs auth bit buf cur h i k node wotsSig, 6, none⟩)) ?_
    (by decide) fun t ht => ?_
  · cases r
    · exact call rfl hws rfl rfl rfl rfl (.done rfl)
    · exact call rfl hws rfl rfl rfl rfl (.done rfl)
  subst ht
  refine ops 8 (t := ⟨[int64 144, int64 560, passed r 14 sig],
    xmssLocals r idx sig msg pre adrs auth bit buf cur h i k node (.vecU8 ws), 14, none⟩) rfl ?_
  refine Fuel.Spends.pay (m := 1) (Q := (· = ⟨[.vecU8 a],
    xmssLocals r idx sig msg pre adrs auth bit buf cur h i k node (.vecU8 ws), 15, none⟩)) ?_
    (by decide) fun t ht => ?_
  · cases r
    · exact call rfl hauth rfl rfl rfl rfl (.done rfl)
    · exact call rfl hauth rfl rfl rfl rfl (.done rfl)
  subst ht
  exact ops 1 (t := ⟨[], xmssLocals r idx sig msg pre adrs (.vecU8 a) bit buf cur h i k node
    (.vecU8 ws), 16, none⟩) rfl (.done rfl)

/-- The key of the one-time signature, and the address of the tree. -/
theorem xmss_leaf {a₁ a₂ a₃ a₄ ws v : Bytes} (hidx : idx < 2 ^ 32)
    (h₁ : (Sha2128s.adrsSetType adrs 0).res = .ok a₁)
    (h₂ : (Sha2128s.adrsSetKeypair a₁ idx).res = .ok a₂)
    (hv : (Sha2128s.wotsPkFromSig H ws msg pre a₂).res = .ok v)
    (h₃ : (Sha2128s.adrsSetType a₂ 2).res = .ok a₃) (h₄ : (Sha2128s.adrsSetKeypair a₃ 0).res = .ok a₄) :
    Spends (run H xmssPkFromSigRealBytecode) 23
      ⟨[], xmssLocals r idx sig msg pre adrs auth bit buf cur h i k node (.vecU8 ws), 16, none⟩
      (· = ⟨[], xmssLocals r idx sig msg pre a₄ auth bit buf (int32 idx) h (int64 0) k
        (.vecU8 v) (.vecU8 ws), 39,
        none⟩) := by
  refine ops 2 (t := ⟨[.u8 0, .locRef (xmssAdrsAt r)],
    xmssLocals r idx sig msg pre adrs auth bit buf cur h i k node (.vecU8 ws), 18, none⟩) rfl ?_
  refine callSetter rfl xmssLocals_adrs (by simp) (adrsSetType_returns h₁) ?_
  rw [xmssLocals_setAdrs]
  refine ops 2 (t := ⟨[int32 idx, .locRef (xmssAdrsAt r)],
    xmssLocals r idx sig msg pre a₁ auth bit buf cur h i k node (.vecU8 ws), 21, none⟩) rfl ?_
  refine callSetter rfl xmssLocals_adrs (by simp) (adrsSetKeypair_returns hidx h₂) ?_
  rw [xmssLocals_setAdrs]
  refine ops 5 (t := ⟨[.locRef (xmssAdrsAt r), .vecU8 pre, passed r 15 msg, .locRef 13],
    xmssLocals r idx sig msg pre a₂ auth bit buf cur h i k node (.vecU8 ws), 27, none⟩) rfl ?_
  have hwots : Returns H WotsPkFromSigReal.wotsPkFromSigRealBytecode
    (wotsLocals true r ws msg pre a₂ (.vecU8 []) (.u32 0) (.vecU32 [])
      (.u64 0) (.vecU8 []) (.vecU8 []) (.vecU8 [])) [.vecU8 v] (held true ws ++ held r msg ++ [.vecU8 a₂]) :=
    wotsPkFromSig_returns true r hv
  refine Fuel.Spends.pay (m := 1) (Q := (· = ⟨[.vecU8 v],
    xmssLocals r idx sig msg pre a₂ auth bit buf cur h i k node (.vecU8 ws), 28, none⟩)) ?_
    (by decide) fun t ht => ?_
  · cases r
    · exact call rfl hwots rfl rfl rfl rfl (.done rfl)
    · exact call rfl hwots rfl rfl rfl rfl (.done rfl)
  subst ht
  refine ops 3 (t := ⟨[.u8 2, .locRef (xmssAdrsAt r)],
    xmssLocals r idx sig msg pre a₂ auth bit buf cur h i k (.vecU8 v) (.vecU8 ws), 31, none⟩) rfl ?_
  refine callSetter rfl xmssLocals_adrs (by simp) (adrsSetType_returns h₃) ?_
  rw [xmssLocals_setAdrs]
  refine ops 2 (t := ⟨[int32 0, .locRef (xmssAdrsAt r)],
    xmssLocals r idx sig msg pre a₃ auth bit buf cur h i k (.vecU8 v) (.vecU8 ws), 34, none⟩) rfl ?_
  refine callSetter rfl xmssLocals_adrs (by simp) (adrsSetKeypair_returns (by decide) h₄) ?_
  rw [xmssLocals_setAdrs]
  exact ops 4 (t := ⟨[], xmssLocals r idx sig msg pre a₄ auth bit buf (int32 idx) h (int64 0) k
    (.vecU8 v) (.vecU8 ws), 39, none⟩) rfl (.done rfl)

/-- The address of a level. -/
theorem xmss_address {a₁ a₂ : Bytes} {i cur : Nat} (hi : i < 9) (hc : cur < 2 ^ 32)
    (h₁ : (Sha2128s.adrsSetTreeHeight adrs (i + 1)).res = .ok a₁)
    (h₂ : (Sha2128s.adrsSetTreeIndex a₁ (cur >>> 1)).res = .ok a₂) :
    Spends (run H xmssPkFromSigRealBytecode) 16
      ⟨[], xmssLocals r idx sig msg pre adrs auth bit buf (int32 cur) h (int64 i) k node wotsSig, 39, none⟩
      (· = ⟨[], xmssLocals r idx sig msg pre a₂ auth bit buf (int32 cur) h (int64 i) k node wotsSig,
        55, none⟩) := by
  refine ops 3 (t := ⟨[.bool (decide ((UInt64.ofNat i).toNat < (UInt64.ofNat 9).toNat))],
    xmssLocals r idx sig msg pre adrs auth bit buf (int32 cur) h (int64 i) k node wotsSig, 42, none⟩) rfl ?_
  refine brTrue rfl (lt_true hi (by decide)) ?_
  refine ops 1 (t := ⟨[], xmssLocals r idx sig msg pre adrs auth bit buf (int32 cur) h
    (int64 i) k node wotsSig, 44, none⟩) rfl ?_
  refine ops 2 (t := ⟨[int64 i, .locRef (xmssAdrsAt r)],
    xmssLocals r idx sig msg pre adrs auth bit buf (int32 cur) h (int64 i) k node wotsSig, 46, none⟩) rfl ?_
  refine op rfl (castU32 (asNat64 (by omega))) ?_
  refine ops 1 (t := ⟨[int32 1, int32 i, .locRef (xmssAdrsAt r)],
    xmssLocals r idx sig msg pre adrs auth bit buf (int32 cur) h (int64 i) k node wotsSig, 48, none⟩) rfl ?_
  refine op rfl (arith32 (· + ·) (k := 1) (by omega) rfl) ?_
  refine callSetter rfl xmssLocals_adrs (by simp) (adrsSetTreeHeight_returns (by omega) h₁) ?_
  rw [xmssLocals_setAdrs]
  refine ops 3 (t := ⟨[int8 1, int32 cur, .locRef (xmssAdrsAt r)],
    xmssLocals r idx sig msg pre a₁ auth bit buf (int32 cur) h (int64 i) k node wotsSig, 53, none⟩) rfl ?_
  refine op rfl (arith32 (· >>> ·) (k := 1) hc rfl) ?_
  refine callSetter rfl xmssLocals_adrs (by simp)
    (adrsSetTreeIndex_returns (Nat.lt_of_le_of_lt (Nat.shiftRight_le ..) hc) h₂) ?_
  rw [xmssLocals_setAdrs]
  exact .done rfl

/-- The bit of a level, and what is hashed before the nodes. -/
theorem xmss_bit {i : Nat} (hi : i < 9) (hidx : idx < 2 ^ 32) :
    Spends (run H xmssPkFromSigRealBytecode) 17
      ⟨[], xmssLocals r idx sig msg pre adrs auth bit buf cur h (int64 i) k node wotsSig, 55, none⟩
      (· = ⟨[.bool (UInt32.ofNat (idx >>> i &&& 1) == 0)], xmssLocals r idx sig msg pre adrs auth
        (int32 (idx >>> i &&& 1)) (.vecU8 (pre ++ adrs)) cur h (int64 i) k node wotsSig, 72, none⟩) := by
  refine ops 2 (t := ⟨[int64 i, int32 idx], xmssLocals r idx sig msg pre adrs auth bit buf cur h
    (int64 i) k node wotsSig, 57, none⟩) rfl ?_
  refine op rfl (castU8 (asNat64 (by omega))) ?_
  refine op rfl (arith32 (· >>> ·) hidx (asNat8 (by omega))) ?_
  have hlt : idx >>> i < 2 ^ 32 := Nat.lt_of_le_of_lt (Nat.shiftRight_le ..) hidx
  generalize idx >>> i = n at hlt
  refine ops 1 (t := ⟨[int32 1, int32 n], xmssLocals r idx sig msg pre adrs auth bit buf cur h
    (int64 i) k node wotsSig, 60, none⟩) rfl ?_
  refine op rfl (arith32 (· &&& ·) (k := 1) hlt rfl) ?_
  generalize n &&& 1 = b
  refine ops 6 (t := ⟨[.locRef (xmssAdrsAt r), .locRef 7],
    xmssLocals r idx sig msg pre adrs auth (int32 b) (.vecU8 pre) cur h (int64 i) k node wotsSig,
    67, none⟩) (by
    simp [straight, xmssPkFromSigRealBytecode, callFree, stepOp, State.push, State.pop,
      State.getLocal, State.setLocal, State.jump, xmssLocals]) ?_
  refine op rfl (readRef xmssLocals_adrs) ?_
  refine call (M := xmssLocals r idx sig msg pre adrs auth (int32 b) (.vecU8 (pre ++ adrs)) cur h
    (int64 i) k node wotsSig) rfl (vectorAppend_returns pre adrs) rfl rfl rfl rfl ?_
  exact ops 3 (t := ⟨[.bool (UInt32.ofNat b == 0)],
    xmssLocals r idx sig msg pre adrs auth (int32 b) (.vecU8 (pre ++ adrs)) cur h
    (int64 i) k node wotsSig, 72, none⟩) rfl
    (.done rfl)

/-- A node on the left of its sibling. -/
theorem xmss_left {a v b b' : Bytes} {i : Nat} (hi : i < 9)
    (hb : (Sha2128s.appendSlice (b ++ v) a (i * 16) 16).res = .ok b') :
    Spends (run H xmssPkFromSigRealBytecode) 11
      ⟨[], xmssLocals r idx sig msg pre adrs (.vecU8 a) bit (.vecU8 b) cur h (int64 i) k
        (.vecU8 v) wotsSig, 73, none⟩
      (· = ⟨[], xmssLocals r idx sig msg pre adrs (.vecU8 a) bit (.vecU8 b') cur h (int64 i) k
        (.vecU8 v) wotsSig, 94,
        none⟩) := by
  refine ops 2 (t := ⟨[.vecU8 v, .locRef 7],
    xmssLocals r idx sig msg pre adrs (.vecU8 a) bit (.vecU8 b) cur h (int64 i) k
    (.vecU8 v) wotsSig, 75, none⟩) rfl ?_
  refine call (M := xmssLocals r idx sig msg pre adrs (.vecU8 a) bit (.vecU8 (b ++ v)) cur h
    (int64 i) k (.vecU8 v) wotsSig) rfl (vectorAppend_returns b v) rfl rfl rfl rfl ?_
  refine ops 4 (t := ⟨[int64 16, int64 i, .locRef 5, .locRef 7],
    xmssLocals r idx sig msg pre adrs (.vecU8 a) bit (.vecU8 (b ++ v)) cur h (int64 i) k
    (.vecU8 v) wotsSig, 80, none⟩) rfl ?_
  refine op rfl (arith64 (· * ·) (k := 16) (by omega) rfl) ?_
  generalize i * 16 = o at hb
  refine ops 1 (t := ⟨[int64 16, int64 o, .locRef 5, .locRef 7],
    xmssLocals r idx sig msg pre adrs (.vecU8 a) bit (.vecU8 (b ++ v)) cur h (int64 i) k
    (.vecU8 v) wotsSig, 82, none⟩) rfl ?_
  refine call (M := xmssLocals r idx sig msg pre adrs (.vecU8 a) bit (.vecU8 b') cur h (int64 i) k
    (.vecU8 v) wotsSig) rfl (appendSlice_returns (by decide) hb) rfl rfl rfl rfl ?_
  exact ops 1 (t := ⟨[], xmssLocals r idx sig msg pre adrs (.vecU8 a) bit (.vecU8 b') cur h
    (int64 i) k (.vecU8 v) wotsSig, 94, none⟩) rfl (.done rfl)

/-- A node on the right of its sibling. -/
theorem xmss_right {a v b b' : Bytes} {i : Nat} (hi : i < 9)
    (hb : (Sha2128s.appendSlice b a (i * 16) 16).res = .ok b') :
    Spends (run H xmssPkFromSigRealBytecode) 10
      ⟨[], xmssLocals r idx sig msg pre adrs (.vecU8 a) bit (.vecU8 b) cur h (int64 i) k
        (.vecU8 v) wotsSig, 84, none⟩
      (· = ⟨[], xmssLocals r idx sig msg pre adrs (.vecU8 a) bit (.vecU8 (b' ++ v)) cur h
        (int64 i) k (.vecU8 v) wotsSig, 94,
        none⟩) := by
  refine ops 4 (t := ⟨[int64 16, int64 i, .locRef 5, .locRef 7],
    xmssLocals r idx sig msg pre adrs (.vecU8 a) bit (.vecU8 b) cur h (int64 i) k
    (.vecU8 v) wotsSig, 88, none⟩) rfl ?_
  refine op rfl (arith64 (· * ·) (k := 16) (by omega) rfl) ?_
  generalize i * 16 = o at hb
  refine ops 1 (t := ⟨[int64 16, int64 o, .locRef 5, .locRef 7],
    xmssLocals r idx sig msg pre adrs (.vecU8 a) bit (.vecU8 b) cur h (int64 i) k
    (.vecU8 v) wotsSig, 90, none⟩) rfl ?_
  refine call (M := xmssLocals r idx sig msg pre adrs (.vecU8 a) bit (.vecU8 b') cur h (int64 i) k
    (.vecU8 v) wotsSig) rfl (appendSlice_returns (by decide) hb) rfl rfl rfl rfl ?_
  refine ops 2 (t := ⟨[.vecU8 v, .locRef 7],
    xmssLocals r idx sig msg pre adrs (.vecU8 a) bit (.vecU8 b') cur h (int64 i) k
    (.vecU8 v) wotsSig, 93, none⟩) rfl ?_
  exact call (M := xmssLocals r idx sig msg pre adrs (.vecU8 a) bit (.vecU8 (b' ++ v)) cur h
    (int64 i) k (.vecU8 v) wotsSig) rfl (vectorAppend_returns b' v) rfl rfl rfl rfl (.done rfl)

/-- The parent of the nodes. -/
theorem xmss_parent {b : Bytes} {i cur : Nat} (hc : cur < 2 ^ 32) :
    Spends (run H xmssPkFromSigRealBytecode) 228
      ⟨[], xmssLocals r idx sig msg pre adrs auth bit (.vecU8 b) (int32 cur) h
        (int64 i) k node wotsSig, 94, none⟩
      fun t => ∃ h k, t = ⟨[], xmssLocals r idx sig msg pre adrs auth bit (.vecU8 b)
        (int32 (cur >>> 1)) h (int64 (i + 1)) k
        (.vecU8 ((H b).take 16)) wotsSig, 39, none⟩ := by
  refine ops 1 (t := ⟨[.vecU8 b], xmssLocals r idx sig msg pre adrs auth bit (.vecU8 b)
    (int32 cur) h (int64 i) k node wotsSig, 95, none⟩) rfl ?_
  refine op rfl (sha256 _) ?_
  refine ops 3 (t := ⟨[], xmssLocals r idx sig msg pre adrs auth bit (.vecU8 b) (int32 cur)
    (.vecU8 (H b)) (int64 i) (int64 0) node wotsSig, 99, none⟩) rfl ?_
  refine ((truncate_spends (h := 9) (c := 11) (p := 99) rfl (by decide) rfl rfl
    (H.length_apply _)).bind (n := 11) fun t ht => ?_).mono (by decide) fun _ h => h
  subst ht
  generalize (H b).take 16 = v
  refine ops 4 (t := ⟨[int8 1, int32 cur], xmssLocals r idx sig msg pre adrs auth bit (.vecU8 b)
    (int32 cur) (.vecU8 v) (int64 i) (int64 16) (.vecU8 v) wotsSig, 116, none⟩) (by
    simp [straight, xmssPkFromSigRealBytecode, callFree, stepOp, State.push, State.pop,
      State.getLocal, State.setLocal, State.jump, xmssLocals]) ?_
  refine op rfl (arith32 (· >>> ·) (k := 1) hc rfl) ?_
  generalize cur >>> 1 = cur'
  refine ops 6 (t := ⟨[], xmssLocals r idx sig msg pre adrs auth bit (.vecU8 b) (int32 cur') (.vecU8 v)
    (.u64 (.ofNat i + .ofNat 1)) (int64 16) (.vecU8 v) wotsSig, 39, none⟩) rfl ?_
  rw [← UInt64.ofNat_add]
  exact .done ⟨_, _, rfl⟩

/-- The states between the levels. -/
def xmssInv (r : Bool) (idx : Nat) (sig msg pre a : Bytes) (wotsSig : Value) (i : Nat)
    (x : Nat × Bytes × Bytes) (t : State) :
    Prop :=
  x.1 < 2 ^ 32 ∧ ∃ bit buf h k,
    t = ⟨[], xmssLocals r idx sig msg pre x.2.1 (.vecU8 a) bit buf (int32 x.1) h (int64 i) k
    (.vecU8 x.2.2) wotsSig, 39, none⟩

/-- The end of a level, in step with the function's. -/
theorem xmss_join {a b v : Bytes} {i cur : Nat} {x : Nat × Bytes × Bytes} (hc : cur < 2 ^ 32) (h : (do
      let node ← Sha2128s.sha256Trunc H b
      let curIdx ← Move.shr 32 cur 1
      pure (curIdx, adrs, node) : MoveFn (Nat × Bytes × Bytes)).res = .ok x) {h' : Value} :
    Spends (run H xmssPkFromSigRealBytecode) 228
      ⟨[], xmssLocals r idx sig msg pre adrs (.vecU8 a) bit (.vecU8 b) (int32 cur) h' (int64 i) k
        (.vecU8 v) wotsSig, 94, none⟩
      (xmssInv r idx sig msg pre a wotsSig (i + 1) x) := by
  simp only [Comp.bind_iff, sha256Trunc_ok, Move.shr_ok, Comp.pure_iff] at h
  obtain ⟨_, rfl, _, ⟨-, rfl⟩, rfl⟩ := h
  refine (xmss_parent hc).mono (Nat.le_refl _) fun t ht => ?_
  obtain ⟨h, k, rfl⟩ := ht
  exact ⟨Nat.lt_of_le_of_lt (Nat.shiftRight_le ..) hc, _, _, _, _, rfl⟩

theorem xmss_round {a : Bytes} {i : Nat} {x x' : Nat × Bytes × Bytes} {s : State} (hi : i < 9)
    (hidx : idx < 2 ^ 32)
    (hs : xmssInv r idx sig msg pre a wotsSig i x s) (h : (do
      let adrs ← Sha2128s.adrsSetTreeHeight x.2.1 (← Move.add 32 (← Move.cast 32 i) 1)
      let adrs ← Sha2128s.adrsSetTreeIndex adrs (← Move.shr 32 x.1 1)
      let bit := (← Move.shr 32 idx (← Move.cast 8 i)) &&& 1
      let buf := pre ++ adrs
      let buf ← if bit = 0 then Sha2128s.appendSlice (buf ++ x.2.2) a (← Move.mul 64 i Sha2128s.N) Sha2128s.N
        else do
          let buf ← Sha2128s.appendSlice buf a (← Move.mul 64 i Sha2128s.N) Sha2128s.N
          pure (buf ++ x.2.2)
      let node ← Sha2128s.sha256Trunc H buf
      let curIdx ← Move.shr 32 x.1 1
      pure (curIdx, adrs, node) : MoveFn (Nat × Bytes × Bytes)).res = .ok x') :
    Spends (run H xmssPkFromSigRealBytecode) 273 s (xmssInv r idx sig msg pre a wotsSig (i + 1) x') := by
  obtain ⟨cur, adrs, v⟩ := x
  obtain ⟨hc, bit, buf, h', k, rfl⟩ := hs
  dsimp only at hc h ⊢
  obtain ⟨_, hcast, h⟩ := Comp.bind_ok h
  obtain ⟨-, rfl⟩ := Move.cast_ok.mp hcast
  obtain ⟨_, hadd, h⟩ := Comp.bind_ok h
  obtain ⟨-, rfl⟩ := Move.add_ok.mp hadd
  obtain ⟨a₁, h₁, h⟩ := Comp.bind_ok h
  obtain ⟨_, hshr, h⟩ := Comp.bind_ok h
  obtain ⟨-, rfl⟩ := Move.shr_ok.mp hshr
  obtain ⟨a₂, h₂, h⟩ := Comp.bind_ok h
  obtain ⟨_, hcast, h⟩ := Comp.bind_ok h
  obtain ⟨-, rfl⟩ := Move.cast_ok.mp hcast
  obtain ⟨_, hshr, h⟩ := Comp.bind_ok h
  obtain ⟨-, rfl⟩ := Move.shr_ok.mp hshr
  have hlt : idx >>> i &&& 1 < 2 ^ 32 := Nat.lt_of_le_of_lt Nat.and_le_right (by decide)
  refine ((xmss_address hi hc h₁ h₂).bind (n := 257) fun t ht => ?_).mono (by decide) fun _ h => h
  subst ht
  refine ((xmss_bit hi hidx).bind (n := 240) fun t ht => ?_).mono (by decide) fun _ h => h
  subst ht
  by_cases hb : idx >>> i &&& 1 = 0
  · rw [if_pos hb] at h
    obtain ⟨_, hmul, h⟩ := Comp.bind_ok h
    obtain ⟨-, rfl⟩ := Move.mul_ok.mp hmul
    obtain ⟨b, hj, h⟩ := Comp.bind_ok h
    refine brTrue rfl (by rw [eq_zero32 hlt, decide_eq_true hb]) ?_
    refine ((xmss_left hi hj).bind (n := 228) fun t ht => ?_).mono (by decide) fun _ h => h
    subst ht
    exact xmss_join hc h
  · rw [if_neg hb] at h
    obtain ⟨_, hmul, h⟩ := Comp.bind_ok h
    obtain ⟨-, rfl⟩ := Move.mul_ok.mp hmul
    obtain ⟨b, hj, h⟩ := Comp.bind_ok h
    refine brFalse rfl (by rw [eq_zero32 hlt, decide_eq_false hb]) ?_
    refine ((xmss_right hi hj).bind (n := 228) fun t ht => ?_).mono (by decide) fun _ h => h
    subst ht
    exact xmss_join hc h

theorem xmssPkFromSig_returns (r : Bool) {idx : Nat} {sig msg pre adrs : Bytes} {out : Bytes × Bytes}
    {auth bit buf cur h' i k node wotsSig : Value} (hidx : idx < 2 ^ 32)
    (h : (Sha2128s.xmssPkFromSig H idx sig msg pre adrs).res = .ok out) :
    Returns H xmssPkFromSigRealBytecode
    (xmssLocals r idx sig msg pre adrs auth bit buf cur h' i k node wotsSig)
      [.vecU8 out.1] (held r sig ++ held r msg ++ [.vecU8 out.2]) := by
  simp only [Sha2128s.xmssPkFromSig, Comp.bind_iff, Move.mul_ok, Comp.pure_iff] at h
  obtain ⟨_, ⟨-, rfl⟩, ws, hws, _, ⟨-, rfl⟩, _, ⟨-, rfl⟩, a, ha, a₁, h₁, a₂, h₂, v, hv, a₃, h₃, a₄,
    h₄, x, hx, rfl⟩ := h
  have hloop : Spends (run H xmssPkFromSigRealBytecode) ((9 - 0) * 273)
      ⟨[], xmssLocals r idx sig msg pre a₄ (.vecU8 a) bit buf (int32 idx) h' (int64 0) k (.vecU8 v)
        (.vecU8 ws), 39, none⟩
      (xmssInv r idx sig msg pre a (.vecU8 ws) 9 x) :=
    Fuel.Spends.whileLt (xmssInv r idx sig msg pre a (.vecU8 ws)) (Nat.zero_le _)
      (fun i x x' s _ hi hr _ hs => xmss_round hi hidx hs hr) hx ⟨hidx, _, _, _, _, rfl⟩
  refine returns_of_stops (n := 16 + (23 + ((9 - 0) * 273 + 9))) (by decide) ?_
  refine (xmss_slices hws ha).bind fun t ht => ?_
  subst ht
  refine (xmss_leaf hidx h₁ h₂ hv h₃ h₄).bind fun t ht => ?_
  subst ht
  refine hloop.bind fun t ht => ?_
  obtain ⟨-, bit, buf, h', k, rfl⟩ := ht
  refine ops 3 (t := ⟨[.bool (decide ((UInt64.ofNat 9).toNat < (UInt64.ofNat 9).toNat))],
    xmssLocals r idx sig msg pre x.2.1 (.vecU8 a) bit buf (int32 x.1) h' (int64 9) k (.vecU8 x.2.2)
    (.vecU8 ws), 42, none⟩)
    rfl ?_
  refine brFalse rfl lt_false ?_
  exact ops 5 (t := ⟨[.vecU8 x.2.2], xmssLocals r idx sig msg pre x.2.1 (.vecU8 a) bit buf
    (int32 x.1) h' (int64 9) k (.vecU8 x.2.2) (.vecU8 ws), 128, none⟩) rfl (stops 14 rfl rfl)

end XmssPkFromSig

section HtRootFromSig

open HtRootFromSigReal

def htLocals (sig msg pre : Bytes) (tree leaf a curLeaf curTree j mask node slice size : Value) :
    List Value :=
  [.vecU8 sig, .vecU8 msg, tree, leaf, .vecU8 pre, a, curLeaf, curTree, j, mask, node, slice, size]

variable {sig msg pre : Bytes} {tree leaf a curLeaf curTree j mask node slice size : Value}

/-- The address of a layer, and its part of the signature. -/
theorem ht_layer {a₀ a₁ a₂ sl : Bytes} {j cur : Nat} (hj : j < 7) (hc : cur < 2 ^ 64)
    (h₀ : Sha2128s.adrsNew.res = .ok a₀)
    (h₁ : (Sha2128s.adrsSetLayer a₀ (UInt8.ofNat j)).res = .ok a₁)
    (h₂ : (Sha2128s.adrsSetTree a₁ cur).res = .ok a₂)
    (hs : (MoveBytes.slice sig (j * 704) 704).res = .ok sl) :
    Spends (run H htRootFromSigRealBytecode) 21
      ⟨[], htLocals sig msg pre tree leaf a curLeaf (int64 cur) (int64 j) mask node slice
        (int64 704), 15, none⟩
      (· = ⟨[], htLocals sig msg pre tree leaf (.vecU8 a₂) curLeaf (int64 cur) (int64 j) mask node
        (.vecU8 sl) (int64 704), 36,
        none⟩) := by
  refine ops 3 (t := ⟨[.bool (decide ((UInt64.ofNat j).toNat < (UInt64.ofNat 7).toNat))],
    htLocals sig msg pre tree leaf a curLeaf (int64 cur) (int64 j) mask node slice (int64 704), 18,
    none⟩) rfl ?_
  refine brTrue rfl (lt_true hj (by decide)) ?_
  refine ops 1 (t := ⟨[], htLocals sig msg pre tree leaf a curLeaf (int64 cur)
    (int64 j) mask node slice (int64 704), 20,
    none⟩) rfl ?_
  refine call (M := htLocals sig msg pre tree leaf a curLeaf (int64 cur) (int64 j) mask node slice
    (int64 704)) rfl (adrsNew_returns h₀) rfl rfl rfl rfl ?_
  refine ops 3 (t := ⟨[int64 j, .locRef 5],
    htLocals sig msg pre tree leaf (.vecU8 a₀) curLeaf (int64 cur) (int64 j) mask node slice
    (int64 704), 24, none⟩) rfl ?_
  refine op rfl (castU8 (asNat64 (by omega))) ?_
  refine call (M := htLocals sig msg pre tree leaf (.vecU8 a₁) curLeaf (int64 cur)
    (int64 j) mask node slice (int64 704)) rfl
    (adrsSetLayer_returns h₁) rfl rfl rfl rfl ?_
  refine ops 2 (t := ⟨[int64 cur, .locRef 5],
    htLocals sig msg pre tree leaf (.vecU8 a₁) curLeaf (int64 cur) (int64 j) mask node slice
    (int64 704), 28, none⟩) rfl ?_
  refine call (M := htLocals sig msg pre tree leaf (.vecU8 a₂) curLeaf (int64 cur)
    (int64 j) mask node slice (int64 704)) rfl
    (adrsSetTree_returns hc h₂) rfl rfl rfl rfl ?_
  refine ops 3 (t := ⟨[int64 704, int64 j, .vecU8 sig],
    htLocals sig msg pre tree leaf (.vecU8 a₂) curLeaf (int64 cur) (int64 j) mask node slice
    (int64 704), 32, none⟩) rfl ?_
  refine op rfl (arith64 (· * ·) (k := 704) (by omega) rfl) ?_
  generalize j * 704 = o at hs
  refine ops 1 (t := ⟨[int64 704, int64 o, .vecU8 sig],
    htLocals sig msg pre tree leaf (.vecU8 a₂) curLeaf (int64 cur) (int64 j) mask node slice
    (int64 704), 34, none⟩) rfl ?_
  refine call (M := htLocals sig msg pre tree leaf (.vecU8 a₂) curLeaf (int64 cur)
    (int64 j) mask node slice (int64 704)) rfl
    (slice_returns false (by decide) hs) rfl rfl rfl rfl ?_
  exact ops 1 (t := ⟨[], htLocals sig msg pre tree leaf (.vecU8 a₂) curLeaf (int64 cur)
    (int64 j) mask node (.vecU8 sl) (int64 704), 36, none⟩) rfl (.done rfl)

/-- The root of a layer, and the place of its key in the next. -/
theorem ht_root {v sl av : Bytes} {j cur l : Nat} {out : Bytes × Bytes} (hc : cur < 2 ^ 64) (hl : l < 2 ^ 32)
    (h : (Sha2128s.xmssPkFromSig H l sl v pre av).res = .ok out) :
    Spends (run H htRootFromSigRealBytecode) 29
      ⟨[], htLocals sig msg pre tree leaf (.vecU8 av) (int32 l) (int64 cur) (int64 j) mask
        (.vecU8 v) (.vecU8 sl) size, 36, none⟩
      fun t => ∃ a mask slice, t = ⟨[], htLocals sig msg pre tree leaf a (int32 (cur &&& 511))
        (int64 (cur >>> 9))
        (int64 (j + 1)) mask (.vecU8 out.1) slice size, 15, none⟩ := by
  refine ops 5 (t := ⟨[.locRef 5, .vecU8 pre, .locRef 10, .locRef 11, int32 l],
    htLocals sig msg pre tree leaf (.vecU8 av)
    (int32 l) (int64 cur) (int64 j) mask (.vecU8 v) (.vecU8 sl) size, 41, none⟩) rfl ?_
  have hxmss : Returns H XmssPkFromSigReal.xmssPkFromSigRealBytecode
    (xmssLocals true l sl v pre av (.vecU8 []) (.u32 0) (.vecU8 [])
      (.u32 0) (.vecU8 []) (.u64 0) (.u64 0) (.vecU8 []) (.vecU8 [])) [.vecU8 out.1]
      (held true sl ++ held true v ++ [.vecU8 out.2]) := xmssPkFromSig_returns true hl h
  refine call (M := htLocals sig msg pre tree leaf (.vecU8 out.2) (int32 l) (int64 cur)
    (int64 j) mask (.vecU8 v) (.vecU8 sl) size) rfl hxmss rfl rfl rfl rfl ?_
  refine ops 8 (t := ⟨[], htLocals sig msg pre tree leaf (.vecU8 out.2) (int32 l) (int64 cur)
    (int64 j) (int64 511) (.vecU8 out.1) (.vecU8 sl) size, 50, none⟩) rfl ?_
  refine ops 2 (t := ⟨[int64 511, int64 cur], htLocals sig msg pre tree leaf (.vecU8 out.2)
    (int32 l) (int64 cur) (int64 j) (int64 511) (.vecU8 out.1) (.vecU8 sl) size, 52, none⟩) rfl ?_
  refine op rfl (arith64 (· &&& ·) (k := 511) hc rfl) ?_
  refine op rfl (castU32 (asNat64 (Nat.lt_of_le_of_lt Nat.and_le_left hc))) ?_
  generalize cur &&& 511 = l'
  refine ops 4 (t := ⟨[int8 9, int64 cur], htLocals sig msg pre tree leaf (.vecU8 out.2) (int32 l')
    (int64 cur) (int64 j) (int64 511) (.vecU8 out.1) (.vecU8 sl) size, 58, none⟩) rfl ?_
  refine op rfl (arith64 (· >>> ·) (k := 9) hc rfl) ?_
  generalize cur >>> 9 = cur'
  refine ops 6 (t := ⟨[], htLocals sig msg pre tree leaf (.vecU8 out.2) (int32 l') (int64 cur')
    (.u64 (.ofNat j + .ofNat 1)) (int64 511) (.vecU8 out.1) (.vecU8 sl) size, 15, none⟩) rfl ?_
  rw [← UInt64.ofNat_add]
  exact .done ⟨_, _, _, rfl⟩

/-- The states between the layers. -/
def htInv (sig msg pre : Bytes) (tree leaf : Value) (j : Nat) (x : Nat × Nat × Bytes) (t : State) : Prop :=
  x.1 < 2 ^ 64 ∧ x.2.1 < 2 ^ 32 ∧ ∃ a mask slice,
    t = ⟨[], htLocals sig msg pre tree leaf a (int32 x.2.1) (int64 x.1)
    (int64 j) mask (.vecU8 x.2.2) slice (int64 704), 15, none⟩

theorem ht_round {j : Nat} {x x' : Nat × Nat × Bytes} {s : State} (hj : j < 7)
    (hs : htInv sig msg pre tree leaf j x s)
    (h : (do
      let a ← Sha2128s.adrsNew
      let a ← Sha2128s.adrsSetLayer a (← Move.byte j)
      let a ← Sha2128s.adrsSetTree a x.1
      let sliceJ ← MoveBytes.slice sig (← Move.mul 64 j 704) 704
      let (node, _) ← Sha2128s.xmssPkFromSig H x.2.1 sliceJ x.2.2 pre a
      let leafMask ← Move.sub (← Move.shl 64 1 (← Move.cast 8 Sha2128s.H_PRIME)) 1
      let curLeaf ← Move.cast 32 (x.1 &&& leafMask)
      let curTree ← Move.shr 64 x.1 (← Move.cast 8 Sha2128s.H_PRIME)
      pure (curTree, curLeaf, node) : MoveFn (Nat × Nat × Bytes)).res = .ok x') :
    Spends (run H htRootFromSigRealBytecode) 50 s (htInv sig msg pre tree leaf (j + 1) x') := by
  obtain ⟨cur, l, v⟩ := x
  obtain ⟨hc, hl, a, mask, slice, rfl⟩ := hs
  dsimp only at hc hl h ⊢
  simp only [Comp.bind_iff, Move.byte_ok, Move.mul_ok, Move.sub_ok, Move.shl_ok, Move.shr_ok,
    Move.cast_ok, Comp.pure_iff] at h
  obtain ⟨a₀, h₀, _, ⟨-, rfl⟩, a₁, h₁, a₂, h₂, _, ⟨-, rfl⟩, sl, hsl, out, hout, _, ⟨-, rfl⟩, _,
    ⟨-, rfl⟩, _, ⟨-, rfl⟩, _, ⟨hmask, rfl⟩, _, ⟨-, rfl⟩, _, ⟨-, rfl⟩, rfl⟩ := h
  refine ((ht_layer hj hc h₀ h₁ h₂ hsl).bind (n := 29) fun t ht => ?_).mono (by decide) fun _ h => h
  subst ht
  refine (ht_root hc hl hout).mono (Nat.le_refl _) fun t ht => ?_
  exact ⟨Nat.lt_of_le_of_lt (Nat.shiftRight_le ..) hc, hmask, ht⟩

theorem htRootFromSig_returns {sig msg pre out : Bytes} {tree leaf : Nat}
    {a curLeaf curTree j mask node slice size : Value}
    (ht : tree < 2 ^ 64) (hl : leaf < 2 ^ 32)
    (h : (Sha2128s.htRootFromSig H sig msg tree leaf pre).res = .ok out) :
    Returns H htRootFromSigRealBytecode
      (htLocals sig msg pre (int64 tree) (int32 leaf) a curLeaf curTree j mask node slice size)
        [.vecU8 out] [] := by
  simp only [Sha2128s.htRootFromSig, Comp.bind_iff, Move.add_ok, Move.mul_ok, Comp.pure_iff] at h
  obtain ⟨_, ⟨-, rfl⟩, _, ⟨-, rfl⟩, x, hx, rfl⟩ := h
  have hloop : Spends (run H htRootFromSigRealBytecode) ((7 - 0) * 50)
      ⟨[], htLocals sig msg pre (int64 tree) (int32 leaf) a (int32 leaf) (int64 tree)
        (int64 0) mask (.vecU8 msg) slice
        (int64 704), 15, none⟩ (htInv sig msg pre (int64 tree) (int32 leaf) 7 x) :=
    Fuel.Spends.whileLt (htInv sig msg pre (int64 tree) (int32 leaf)) (Nat.zero_le _)
      (fun j x x' s _ hj hr _ hs => ht_round hj hs hr) hx ⟨ht, hl, _, _, _, rfl⟩
  refine returns_of_stops (n := 15 + ((7 - 0) * 50 + 9)) (by decide) ?_
  refine ops 6 (t := ⟨[], htLocals sig msg pre (int64 tree) (int32 leaf) a curLeaf curTree j mask
    node slice (int64 704), 6, none⟩) rfl ?_
  refine ops 9 (t := ⟨[], htLocals sig msg pre (int64 tree) (int32 leaf) a (int32 leaf)
    (int64 tree) (int64 0) mask (.vecU8 msg) slice (int64 704), 15, none⟩) (by
    simp [straight, htRootFromSigRealBytecode, callFree, stepOp, State.push, State.pop,
      State.getLocal, State.setLocal, State.jump, htLocals]) ?_
  refine (hloop.bind (n := 9) fun t ht => ?_).mono (by decide) fun _ h => h
  obtain ⟨-, -, a, mask, slice, rfl⟩ := ht
  refine ops 3 (t := ⟨[.bool (decide ((UInt64.ofNat 7).toNat < (UInt64.ofNat 7).toNat))],
    htLocals sig msg pre (int64 tree)
    (int32 leaf) a (int32 x.2.1) (int64 x.1) (int64 7) mask (.vecU8 x.2.2) slice (int64 704), 18,
    none⟩) rfl ?_
  refine brFalse rfl lt_false ?_
  exact ops 5 (t := ⟨[.vecU8 x.2.2], htLocals sig msg pre (int64 tree) (int32 leaf) a (int32 x.2.1)
    (int64 x.1) (int64 7) mask (.vecU8 x.2.2) slice (int64 704), 70, none⟩) rfl (stops 13 rfl rfl)

end HtRootFromSig

end SuiPq.Proof.MoveVm.Source
