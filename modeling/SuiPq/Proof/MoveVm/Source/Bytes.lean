import SuiPq.Proof.MoveVm.Execution
import SuiPq.Proof.Sha2128s.Bytes

/-!
# The bytecodes of the byte helpers

What the bytecodes of `vector::append`, `slice`, `append_slice` and the
writers of `sha2_128s` return where the Move functions do, in whichever locals
the caller's references end up (`Returns`). Each loop of a bytecode runs in
step with the function's: `slice_round` and its like are one round.
-/

namespace SuiPq.Proof.MoveVm.Source

set_option maxRecDepth 10000

open SuiPq.Impl SuiPq.Impl.MoveVm
open SuiPq.Fuel (Spends)

variable {H : Hash}

/-! ## Copies -/

theorem vectorAppend_returns (dst src : Bytes) :
    Returns H MoveStdlib.vectorAppendCallee [.locRef 2, .vecU8 src, .vecU8 dst] [] [.vecU8 (dst ++ src)] :=
  returns_of_stops (n := 6) (by decide)
    (ops 6 (t := ⟨[], [.locRef 2, .vecU8 src, .vecU8 (dst ++ src)], 6, none⟩) rfl
    (stops 2 rfl rfl))

section Slice

open SliceReal

def sliceLocals (byRef : Bool) (src : Bytes) (start len : Nat) (i : Value) (out : Bytes) : List Value :=
  [passed byRef 5 src, int64 start, int64 len, i, .vecU8 out] ++ held byRef src

theorem slice_round {byRef : Bool} {src out : Bytes} {start len i : Nat} {x : UInt8} (hi : i < len)
    (hlen : len < 2 ^ 64) (hj : start + i < 2 ^ 64) (hx : src[start + i]? = some x) :
    Spends (run H sliceRealBytecode) 18 ⟨[], sliceLocals byRef src start len (int64 i) out, 4, none⟩
      (· = ⟨[], sliceLocals byRef src start len (int64 (i + 1)) (out ++ [x]), 4, none⟩) := by
  refine ops 3 (t := ⟨[.bool (decide ((UInt64.ofNat i).toNat < (UInt64.ofNat len).toNat))],
    sliceLocals byRef src start len (int64 i) out, 7, none⟩) rfl ?_
  refine brTrue rfl (lt_true hi hlen) ?_
  refine ops 6 (t := ⟨[.u64 (.ofNat start + .ofNat i), passed byRef 5 src, .locRef 4],
    sliceLocals byRef src start len (int64 i) out, 14, none⟩) rfl ?_
  rw [← UInt64.ofNat_add]
  refine op rfl (immBorrow _ hj (fun h => by subst h; rfl) hx) ?_
  refine ops 7 (t := ⟨[], sliceLocals byRef src start len (.u64 (.ofNat i + .ofNat 1)) (out ++ [x]),
    4, none⟩) rfl ?_
  rw [← UInt64.ofNat_add]
  exact .done rfl

/-- `slice`, of as many bytes as the VM has fuel for. -/
theorem slice_returns (byRef : Bool) {src out : Bytes} {start len : Nat} {a b : Value} (hlen : len ≤ 50000)
    (h : (MoveBytes.slice src start len).res = .ok out) :
    Returns H sliceRealBytecode ([passed byRef 5 src, int64 start, int64 len, a, b] ++ held byRef src)
      [.vecU8 out] (held byRef src) := by
  have hloop : Spends (run H sliceRealBytecode) ((len - 0) * 18)
      ⟨[], sliceLocals byRef src start len (int64 0) [], 4, none⟩
      (· = ⟨[], sliceLocals byRef src start len (int64 len) out, 4, none⟩) := by
    refine Fuel.Spends.whileLt (fun i out (t : State) =>
      t = ⟨[], sliceLocals byRef src start len (int64 i) out, 4, none⟩)
      (Nat.zero_le _) (fun i out out' s _ hi hr hw hs => ?_) h rfl
    subst hs
    obtain ⟨x, hx, hr⟩ := Comp.bind_ok hr
    obtain ⟨j, hj, hx⟩ := Comp.bind_ok hx
    obtain ⟨hlt, rfl⟩ := Move.add_ok.mp hj
    obtain rfl := Comp.pure_iff.mp hr
    exact slice_round hi (by omega) hlt (Move.borrow_iff.mp hx)
  refine returns_of_stops (n := 4 + (50000 * 18 + 8)) (by decide) ?_
  refine ops 4 (t := ⟨[], sliceLocals byRef src start len (int64 0) [], 4, none⟩) rfl ?_
  refine (hloop.bind (n := 8) fun t ht => ?_).mono (by omega) fun _ h => h
  subst ht
  refine ops 3 (t := ⟨[.bool _], sliceLocals byRef src start len (int64 len) out, 7, none⟩) rfl ?_
  refine brFalse rfl lt_false ?_
  exact ops 3 (t := ⟨[.vecU8 out], sliceLocals byRef src start len (int64 len) out, 25, none⟩) rfl
    (stops 5 rfl rfl)

end Slice

section AppendSlice

open AdrsNewAppendSliceReal

def appendSliceLocals (dst src : Bytes) (start len : Nat) (i : Value) : List Value :=
  [.locRef 5, .locRef 6, int64 start, int64 len, i, .vecU8 dst, .vecU8 src]

theorem appendSlice_round {dst src : Bytes} {start len i : Nat} {x : UInt8} (hi : i < len)
    (hlen : len < 2 ^ 64) (hj : start + i < 2 ^ 64) (hx : src[start + i]? = some x) :
    Spends (run H appendSliceRealBytecode) 18 ⟨[], appendSliceLocals dst src start len (int64 i), 2, none⟩
      (· = ⟨[], appendSliceLocals (dst ++ [x]) src start len (int64 (i + 1)), 2, none⟩) := by
  refine ops 3 (t := ⟨[.bool (decide ((UInt64.ofNat i).toNat < (UInt64.ofNat len).toNat))],
    appendSliceLocals dst src start len (int64 i), 5, none⟩) rfl ?_
  refine brTrue rfl (lt_true hi hlen) ?_
  refine ops 6 (t := ⟨[.u64 (.ofNat start + .ofNat i), passed true 6 src, .locRef 5],
    appendSliceLocals dst src start len (int64 i), 12, none⟩) rfl ?_
  rw [← UInt64.ofNat_add]
  refine op rfl (immBorrow _ hj (fun _ => rfl) hx) ?_
  refine ops 7 (t := ⟨[], appendSliceLocals (dst ++ [x]) src start len (.u64 (.ofNat i + .ofNat 1)),
    2, none⟩) rfl ?_
  rw [← UInt64.ofNat_add]
  exact .done rfl

theorem appendSlice_returns {dst dst' src : Bytes} {start len : Nat} {a : Value} (hlen : len ≤ 50000)
    (h : (Sha2128s.appendSlice dst src start len).res = .ok dst') :
    Returns H appendSliceRealBytecode [.locRef 5, .locRef 6, int64 start, int64 len, a,
      .vecU8 dst, .vecU8 src]
      [] [.vecU8 dst', .vecU8 src] := by
  have hloop : Spends (run H appendSliceRealBytecode) ((len - 0) * 18)
      ⟨[], appendSliceLocals dst src start len (int64 0), 2, none⟩
      (· = ⟨[], appendSliceLocals dst' src start len (int64 len), 2, none⟩) := by
    refine Fuel.Spends.whileLt
      (fun i dst (t : State) => t = ⟨[], appendSliceLocals dst src start len (int64 i), 2, none⟩)
      (Nat.zero_le _) (fun i out out' s _ hi hr hw hs => ?_) h rfl
    subst hs
    obtain ⟨x, hx, hr⟩ := Comp.bind_ok hr
    obtain ⟨j, hj, hx⟩ := Comp.bind_ok hx
    obtain ⟨hlt, rfl⟩ := Move.add_ok.mp hj
    obtain rfl := Comp.pure_iff.mp hr
    exact appendSlice_round hi (by omega) hlt (Move.borrow_iff.mp hx)
  refine returns_of_stops (n := 2 + (50000 * 18 + 8)) (by decide) ?_
  refine ops 2 (t := ⟨[], appendSliceLocals dst src start len (int64 0), 2, none⟩) rfl ?_
  refine (hloop.bind (n := 8) fun t ht => ?_).mono (by omega) fun _ h => h
  subst ht
  refine ops 3 (t := ⟨[.bool _], appendSliceLocals dst' src start len (int64 len), 5, none⟩) rfl ?_
  refine brFalse rfl lt_false ?_
  exact ops 4 (t := ⟨[], appendSliceLocals dst' src start len (int64 len), 24, none⟩) rfl (stops 5 rfl rfl)

end AppendSlice

/-! ## Writers -/

theorem and_mask32 (n : Nat) : n &&& 0xffffffff = n % 2 ^ 32 := Nat.and_two_pow_sub_one_eq_mod n 32

theorem and_mask8 (n : Nat) : n &&& 0xff = n % 2 ^ 8 := Nat.and_two_pow_sub_one_eq_mod n 8

/-- The low byte of a `u32`, as the compiler takes it. -/
theorem lowByte32 (n : Nat) :
    UInt8.ofNat ((UInt32.ofNat (n &&& 255 &&& 0xffffffff)).toNat &&& 0xff) = UInt8.ofNat n := by
  apply UInt8.toNat_inj.mp
  simp only [and_mask32, show ∀ m, m &&& 255 = m % 2 ^ 8 from and_mask8, UInt32.toNat_ofNat',
    UInt8.toNat_ofNat']
  omega

theorem lowByte32_shifted (n : Nat) :
    UInt8.ofNat ((UInt32.ofNat ((UInt32.ofNat (n &&& 0xffffffff)).toNat &&& 255 &&&
    0xffffffff)).toNat &&& 0xff) = UInt8.ofNat n := by
  rw [lowByte32]
  apply UInt8.toNat_inj.mp
  simp only [and_mask32, UInt32.toNat_ofNat', UInt8.toNat_ofNat']
  omega

/-- The low byte of a `u64`. -/
theorem lowByte64 (n : Nat) : UInt8.ofNat ((UInt64.ofNat (n &&& 255)).toNat &&& 0xff) = UInt8.ofNat n := by
  apply UInt8.toNat_inj.mp
  simp only [show ∀ m, m &&& 255 = m % 2 ^ 8 from and_mask8, UInt64.toNat_ofNat', UInt8.toNat_ofNat']
  omega

section WriteU32

open WriteU32BeReal

def writeU32Locals (buf : Bytes) (off v : Nat) : List Value := [.locRef 3, int64 off, int32 v, .vecU8 buf]

/-- The bytes but the last. -/
theorem writeU32_round {buf : Bytes} {off v j : Nat} (hj : j < 3) (hv : v < 2 ^ 32) (hoff : off + j < 2 ^ 64)
    (hlen : off + j < buf.length) :
    Spends (run H writeU32BeRealBytecode) 12 ⟨[], writeU32Locals buf off v, 12 * j, none⟩
      (· = ⟨[], writeU32Locals (buf.set (off + j) (UInt8.ofNat (v >>> (24 - 8 * j)))) off v,
        12 * (j + 1), none⟩) := by
  have hidx : (UInt64.ofNat off + UInt64.ofNat j).toNat = off + j := by
    rw [← UInt64.ofNat_add, toNat64 hoff]
  have hstep : straight H 11 (writeU32BeRealBytecode.toList.drop (12 * j))
      ⟨[], writeU32Locals buf off v, 12 * j, none⟩ =
      some ⟨[.vecElemRef 3 (UInt64.ofNat off + UInt64.ofNat j).toNat,
        .u8 (UInt8.ofNat ((UInt32.ofNat ((UInt32.ofNat
        ((UInt32.ofNat v).toNat >>>
          (24 - 8 * j) &&& 0xffffffff)).toNat &&& 255 &&& 0xffffffff)).toNat &&& 0xff))],
        writeU32Locals buf off v, 12 * j + 11, none⟩ := by
    obtain rfl | rfl | rfl : j = 0 ∨ j = 1 ∨ j = 2 := by omega
    · rfl
    · rfl
    · rfl
  have hop : writeU32BeRealBytecode.toList[12 * j + 11]?.filter callFree = some .WriteRef := by
    obtain rfl | rfl | rfl : j = 0 ∨ j = 1 ∨ j = 2 := by omega
    · rfl
    · rfl
    · rfl
  rw [hidx, toNat32 hv, lowByte32_shifted] at hstep
  exact ops 11 hstep (op hop (writeByte rfl hlen) (.done rfl))

theorem writeU32_last {buf : Bytes} {off v : Nat} (hv : v < 2 ^ 32) (hoff : off + 3 < 2 ^ 64)
    (hlen : off + 3 < buf.length) :
    Spends (run H writeU32BeRealBytecode) 10 ⟨[], writeU32Locals buf off v, 36, none⟩
      (· = ⟨[], writeU32Locals (buf.set (off + 3) (UInt8.ofNat v)) off v, 46, none⟩) := by
  have hidx : (UInt64.ofNat off + UInt64.ofNat 3).toNat = off + 3 := by rw [← UInt64.ofNat_add, toNat64 hoff]
  have hstep : straight H 9 (writeU32BeRealBytecode.toList.drop 36)
      ⟨[], writeU32Locals buf off v, 36, none⟩ =
      some ⟨[.vecElemRef 3 (UInt64.ofNat off + UInt64.ofNat 3).toNat, .u8 (UInt8.ofNat ((UInt32.ofNat
        ((UInt32.ofNat v).toNat &&& 255 &&& 0xffffffff)).toNat &&& 0xff))],
        writeU32Locals buf off v, 45, none⟩ := rfl
  rw [hidx, toNat32 hv, lowByte32] at hstep
  exact ops 9 hstep (op rfl (writeByte rfl hlen) (.done rfl))

theorem writeU32_returns {buf buf' : Bytes} {off v : Nat} (hv : v < 2 ^ 32)
    (h : (MoveBytes.writeU32 buf off v).res = .ok buf') :
    Returns H writeU32BeRealBytecode [.locRef 3, int64 off, int32 v, .vecU8 buf] [] [.vecU8 buf'] := by
  simp only [MoveBytes.writeU32, Comp.bind_iff, Move.add_ok, Move.shr_ok, Move.byte_ok,
    Move.write_ok, ofNat_and_ff] at h
  obtain ⟨_, ⟨h0, rfl⟩, _, ⟨-, rfl⟩, _, ⟨-, rfl⟩, _, ⟨l0, rfl⟩, _, ⟨h1, rfl⟩, _, ⟨-, rfl⟩, _, ⟨-, rfl⟩, _,
    ⟨l1, rfl⟩, _, ⟨h2, rfl⟩, _, ⟨-, rfl⟩, _, ⟨-, rfl⟩, _, ⟨l2, rfl⟩, _, ⟨h3, rfl⟩, _, ⟨-, rfl⟩, l3, rfl⟩ := h
  refine returns_of_stops (n := 12 + (12 + (12 + (10 + 0)))) (by decide) ?_
  refine (writeU32_round (j := 0) (by decide) hv h0 l0).bind fun t ht => ?_
  subst ht
  refine (writeU32_round (j := 1) (by decide) hv h1 l1).bind fun t ht => ?_
  subst ht
  refine (writeU32_round (j := 2) (by decide) hv h2 l2).bind fun t ht => ?_
  subst ht
  refine (writeU32_last hv h3 l3).bind fun t ht => ?_
  subst ht
  exact stops 3 rfl rfl

end WriteU32

section WriteU64

open WriteU64BeReal

def writeU64Locals (buf : Bytes) (off : Nat) (v i n : Value) : List Value :=
  [.locRef 5, int64 off, v, i, n, .vecU8 buf]

theorem writeU64_round {buf : Bytes} {off i n : Nat} {v : Value} (hi : 0 < i) (hlt : i < 2 ^ 64)
    (hn : n < 2 ^ 64) (hoff : off + (i - 1) < 2 ^ 64) (hlen : off + (i - 1) < buf.length) :
    Spends (run H writeU64BeRealBytecode) 24 ⟨[], writeU64Locals buf off v (int64 i) (int64 n), 4, none⟩
      (· = ⟨[], writeU64Locals (buf.set (off + (i - 1)) (UInt8.ofNat n)) off v
        (int64 (i - 1)) (int64 (n >>> 8)),
        4, none⟩) := by
  have hidx : (UInt64.ofNat off + UInt64.ofNat (i - 1)).toNat = off + (i - 1) := by
    rw [← UInt64.ofNat_add, toNat64 hoff]
  refine ops 3 (t := ⟨[.bool (decide ((UInt64.ofNat i).toNat > 0))],
    writeU64Locals buf off v (int64 i) (int64 n), 7, none⟩) rfl ?_
  refine brTrue rfl (by rw [toNat64 hlt]; exact decide_eq_true hi) ?_
  refine ops 5 (t := ⟨[], writeU64Locals buf off v (int64 ((UInt64.ofNat i).toNat - 1)) (int64 n),
    13, none⟩) rfl ?_
  rw [toNat64 hlt]
  refine ops 9 (t := ⟨[.vecElemRef 5 (UInt64.ofNat off + UInt64.ofNat (i - 1)).toNat, .u8 (UInt8.ofNat
    ((UInt64.ofNat ((UInt64.ofNat n).toNat &&& 255)).toNat &&& 0xff))],
    writeU64Locals buf off v (int64 (i - 1)) (int64 n), 22, none⟩) rfl ?_
  rw [hidx, toNat64 hn, lowByte64]
  refine op rfl (writeByte rfl hlen) ?_
  refine ops 5 (t := ⟨[], writeU64Locals (buf.set (off + (i - 1)) (UInt8.ofNat n)) off v (int64 (i - 1))
    (int64 ((UInt64.ofNat n).toNat >>> 8)), 4, none⟩) rfl ?_
  rw [toNat64 hn]
  exact .done rfl

theorem writeU64_returns {buf buf' : Bytes} {off v : Nat} {a b : Value} (hv : v < 2 ^ 64)
    (h : (Sha2128s.writeU64Be buf off v).res = .ok buf') :
    Returns H writeU64BeRealBytecode [.locRef 5, int64 off, int64 v, a, b, .vecU8 buf] [] [.vecU8 buf'] := by
  obtain ⟨⟨m, buf₁⟩, hloop, h⟩ := Comp.bind_ok h
  obtain rfl := Comp.pure_iff.mp h
  have hrun : Spends (run H writeU64BeRealBytecode) (8 * 24)
      ⟨[], writeU64Locals buf off (int64 v) (int64 8) (int64 v), 4, none⟩
      fun t => ∃ m, t = ⟨[], writeU64Locals buf₁ off (int64 v) (int64 0) (int64 m), 4, none⟩ := by
    refine (Fuel.Spends.whileGt0 (fun i x (t : State) => x.1 < 2 ^ 64 ∧
      t = ⟨[], writeU64Locals x.2 off (int64 v) (int64 (8 - i)) (int64 x.1), 4, none⟩)
      (fun i x x' s hi hr hs => ?_)
      hloop ⟨hv, rfl⟩).mono (Nat.le_refl _) fun t ht => ⟨m, ht.2⟩
    obtain ⟨hx, rfl⟩ := hs
    simp only [Comp.bind_iff, Move.add_ok, Move.shr_ok, Move.byte_ok, Move.write_ok, Comp.pure_iff,
      ofNat_and_ff] at hr
    obtain ⟨_, ⟨hoff, rfl⟩, _, ⟨-, rfl⟩, _, ⟨hlen, rfl⟩, _, ⟨-, rfl⟩, rfl⟩ := hr
    refine (writeU64_round (by omega) (by omega) hx hoff hlen).mono (Nat.le_refl _) fun t ht => ⟨?_, ?_⟩
    · exact Nat.lt_of_le_of_lt (Nat.shiftRight_le ..) hx
    · rw [ht, show 8 - i - 1 = 8 - (i + 1) by omega]
  refine returns_of_stops (n := 4 + (8 * 24 + 6)) (by decide) ?_
  refine ops 4 (t := ⟨[], writeU64Locals buf off (int64 v) (int64 8) (int64 v), 4, none⟩) rfl ?_
  refine (hrun.bind (n := 6) fun t ht => ?_).mono (by decide) fun _ h => h
  obtain ⟨m, rfl⟩ := ht
  refine ops 4 (t := ⟨[], writeU64Locals buf₁ off (int64 v) (int64 0) (int64 m), 28, none⟩) rfl ?_
  exact ops 2 (t := ⟨[], writeU64Locals buf₁ off (int64 v) (int64 0) (int64 m), 30, none⟩) rfl
    (stops 5 rfl rfl)

end WriteU64

end SuiPq.Proof.MoveVm.Source
