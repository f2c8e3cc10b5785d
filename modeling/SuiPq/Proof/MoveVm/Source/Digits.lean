import SuiPq.Proof.MoveVm.Source.Helpers

/-!
# The bytecodes of the digits

`base_w`, `wots_checksum` and `msg_to_chain_digits`: where the Move function
returns digits, the bytecode does (`msgToChainDigits_returns`). A round of
`base_w` takes a byte when it has no bits left (`baseW_refill`), and then a
digit (`baseW_emit`).
-/

namespace SuiPq.Proof.MoveVm.Source

set_option maxRecDepth 10000

open SuiPq.Impl SuiPq.Impl.MoveVm
open SuiPq.Fuel (Spends)

variable {H : Hash}

theorem eq_zero64 {n : Nat} (h : n < 2 ^ 64) : (UInt64.ofNat n == 0) = decide (n = 0) := by
  have hiff : UInt64.ofNat n = 0 ↔ n = 0 := by
    rw [← UInt64.toNat_inj, toNat64 h]
    rfl
  rw [Bool.eq_iff_iff, beq_iff_eq, decide_eq_true_eq, hiff]

theorem append_ints (ns : List Nat) (n : Nat) :
    Value.vecU32 (ns.map UInt32.ofNat ++ [UInt32.ofNat n]) = ints (ns ++ [n]) := by
  rw [ints, List.map_append]
  rfl

section BaseW

open BaseWReal

def baseWLocals (byRef : Bool) (msg : Bytes) (outlen bits i inIdx : Nat) (out : List Nat)
    (total : Nat) : List Value :=
  [passed byRef 7 msg, int64 outlen, int64 bits, int64 i, int64 inIdx, ints out, int32 total] ++
    held byRef msg

variable {byRef : Bool} {msg : Bytes} {outlen bits i inIdx total : Nat} {out : List Nat}

theorem baseW_refill {x : UInt8} (hin : inIdx < 2 ^ 64) (hx : msg[inIdx]? = some x) :
    Spends (run H baseWRealBytecode) 17 ⟨[], baseWLocals byRef msg outlen 0 i inIdx out total, 15, none⟩
      (· = ⟨[], baseWLocals byRef msg outlen 8 i (inIdx + 1) out x.toNat, 31, none⟩) := by
  refine ops 6 (t := ⟨[int64 inIdx, passed byRef 7 msg],
    baseWLocals byRef msg outlen 0 i inIdx out total, 21, none⟩) rfl ?_
  refine op rfl (immBorrow _ hin (fun h => by subst h; rfl) hx) ?_
  refine ops 1 (t := ⟨[.u8 x], baseWLocals byRef msg outlen 0 i inIdx out total, 23, none⟩)
    (by cases byRef <;> rfl) ?_
  refine op rfl (castU32 (k := x.toNat) rfl) ?_
  generalize x.toNat = total
  refine ops 7 (t := ⟨[], [passed byRef 7 msg, int64 outlen, int64 8, int64 i,
    .u64 (.ofNat inIdx + .ofNat 1), ints out, int32 total] ++ held byRef msg, 31, none⟩) rfl ?_
  rw [← UInt64.ofNat_add]
  exact .done rfl

theorem baseW_skip (hb : 0 < bits) (hlt : bits < 2 ^ 64) :
    Spends (run H baseWRealBytecode) 17 ⟨[], baseWLocals byRef msg outlen bits i inIdx out total, 15, none⟩
      (· = ⟨[], baseWLocals byRef msg outlen bits i inIdx out total, 31, none⟩) := by
  refine ops 3 (t := ⟨[.bool (UInt64.ofNat bits == 0)],
    baseWLocals byRef msg outlen bits i inIdx out total, 18, none⟩)
    rfl ?_
  exact brFalse rfl (by rw [eq_zero64 hlt, decide_eq_false (by omega)]) (.done rfl)

theorem baseW_emit (hb : 4 ≤ bits) (hlt : bits < 2 ^ 8) (ht : total < 2 ^ 32) :
    Spends (run H baseWRealBytecode) 20 ⟨[], baseWLocals byRef msg outlen bits i inIdx out total, 31, none⟩
      (· = ⟨[], baseWLocals byRef msg outlen (bits - 4) (i + 1) inIdx
        (out ++ [total >>> (bits - 4) &&& 15]) total,
        10, none⟩) := by
  have hlow : total >>> (bits - 4) < 2 ^ 32 := Nat.lt_of_le_of_lt (Nat.shiftRight_le ..) ht
  refine ops 2 (t := ⟨[int64 4, int64 bits], baseWLocals byRef msg outlen bits i inIdx out total,
    33, none⟩) rfl ?_
  refine op rfl (arith64 (· - ·) (k := 4) (by omega) rfl) ?_
  refine ops 4 (t := ⟨[int64 (bits - 4), int32 total, .locRef 5],
    baseWLocals byRef msg outlen (bits - 4) i inIdx out total, 38, none⟩) rfl ?_
  refine op rfl (castU8 (asNat64 (by omega))) ?_
  refine op rfl (arith32 (· >>> ·) ht (asNat8 (by omega))) ?_
  refine ops 4 (t := ⟨[int32 15, int32 (total >>> (bits - 4)), .locRef 5],
    baseWLocals byRef msg outlen (bits - 4) i inIdx out total, 44, none⟩) rfl ?_
  refine op rfl (arith32 (· &&& ·) (k := 15) hlow rfl) ?_
  generalize total >>> (bits - 4) &&& 15 = d
  refine ops 6 (t := ⟨[], [passed byRef 7 msg, int64 outlen, int64 (bits - 4),
    .u64 (.ofNat i + .ofNat 1), int64 inIdx, .vecU32 (out.map UInt32.ofNat ++ [UInt32.ofNat d]),
    int32 total] ++ held byRef msg,
    10, none⟩) rfl ?_
  rw [← UInt64.ofNat_add, append_ints]
  exact .done rfl

/-- The states between the rounds of `base_w`. -/
def baseWInv (byRef : Bool) (msg : Bytes) (outlen i : Nat) (x : Nat × Nat × Nat × List Nat)
    (t : State) : Prop :=
  x.1 < 2 ^ 64 ∧ x.2.1 < 2 ^ 8 ∧ x.2.2.1 < 2 ^ 8 ∧
    t = ⟨[], baseWLocals byRef msg outlen x.2.1 i x.1 x.2.2.2 x.2.2.1, 10, none⟩

/-- The end of a round, in step with the function's. -/
theorem baseW_digit {x : Nat × Nat × Nat × List Nat} (hin : inIdx < 2 ^ 64) (hbits : bits < 2 ^ 8)
    (htotal : total < 2 ^ 8) (h : (do
      let bits ← Move.sub bits Sha2128s.LG_W
      let d ← Move.shr 32 total (← Move.cast 8 bits)
      let mask ← Move.sub (← Move.cast 32 Sha2128s.W) 1
      pure (inIdx, bits, total, out ++ [d &&& mask]) : MoveFn (Nat × Nat × Nat × List Nat)).res = .ok x) :
    Spends (run H baseWRealBytecode) 20 ⟨[], baseWLocals byRef msg outlen bits i inIdx out total, 31, none⟩
      (baseWInv byRef msg outlen (i + 1) x) := by
  simp only [Comp.bind_iff, Move.sub_ok, Move.cast_ok, Move.shr_ok, Comp.pure_iff] at h
  obtain ⟨_, ⟨hb, rfl⟩, _, ⟨-, rfl⟩, _, ⟨-, rfl⟩, _, ⟨-, rfl⟩, _, ⟨-, rfl⟩, rfl⟩ := h
  exact (baseW_emit hb hbits (by omega)).mono (Nat.le_refl _) fun t ht =>
    ⟨hin, Nat.lt_of_le_of_lt (Nat.sub_le ..) hbits, htotal, ht⟩

/-- `base_w`, for as many digits as the VM has fuel for. -/
theorem baseW_returns (byRef : Bool) {msg : Bytes} {outlen : Nat} {digits : List Nat} {a b c d e : Value}
    (hlen : outlen ≤ 20000) (h : (Sha2128s.baseW msg outlen).res = .ok digits) :
    Returns H baseWRealBytecode ([passed byRef 7 msg, int64 outlen, a, b, c, d, e] ++ held byRef msg)
      [ints digits] (held byRef msg) := by
  obtain ⟨⟨inIdx', bits', total', out'⟩, hres, h⟩ := Comp.bind_ok h
  obtain rfl := Comp.pure_iff.mp h
  have hloop : Spends (run H baseWRealBytecode) ((outlen - 0) * 42)
      ⟨[], baseWLocals byRef msg outlen 0 0 0 [] 0, 10, none⟩
      (baseWInv byRef msg outlen outlen (inIdx', bits', total', out')) := by
    refine Fuel.Spends.whileLt (baseWInv byRef msg outlen) (Nat.zero_le _)
      (fun i x x' s _ hi hr _ hs => ?_) hres ⟨by decide, by decide, by decide, rfl⟩
    obtain ⟨inIdx, bits, total, out⟩ := x
    obtain ⟨hin, hbits, htotal, rfl⟩ := hs
    dsimp only at hin hbits htotal hr ⊢
    refine ops 3 (t := ⟨[.bool (decide ((UInt64.ofNat i).toNat < (UInt64.ofNat outlen).toNat))],
      baseWLocals byRef msg outlen bits i inIdx out total, 13, none⟩) rfl ?_
    refine brTrue rfl (lt_true hi (by omega)) ?_
    refine ops 1 (t := ⟨[], baseWLocals byRef msg outlen bits i inIdx out total, 15, none⟩) rfl ?_
    by_cases h0 : bits = 0
    · rw [if_pos h0] at hr
      obtain ⟨x, hx, hr⟩ := Comp.bind_ok hr
      obtain ⟨j, hj, hr⟩ := Comp.bind_ok hr
      obtain ⟨hadd, rfl⟩ := Move.add_ok.mp hj
      subst h0
      refine ((baseW_refill hin (Move.borrow_iff.mp hx)).bind (n := 20) fun t ht => ?_).mono
        (by decide) fun _ h => h
      subst ht
      exact baseW_digit hadd (by decide) x.toNat_lt hr
    · rw [if_neg h0] at hr
      refine ((baseW_skip (by omega) (by omega)).bind (n := 20) fun t ht => ?_).mono (by decide) fun _ h => h
      subst ht
      exact baseW_digit hin hbits htotal hr
  refine returns_of_stops (n := 10 + (20000 * 42 + 8)) (by decide) ?_
  refine ops 10 (t := ⟨[], baseWLocals byRef msg outlen 0 0 0 [] 0, 10, none⟩) (by
    simp [straight, baseWRealBytecode, callFree, stepOp, State.push, State.pop, State.setLocal,
      State.jump, baseWLocals]) ?_
  refine (hloop.bind (n := 8) fun t ht => ?_).mono (by omega) fun _ h => h
  obtain ⟨-, -, -, rfl⟩ := ht
  refine ops 3 (t := ⟨[.bool (decide ((UInt64.ofNat outlen).toNat < (UInt64.ofNat outlen).toNat))],
    baseWLocals byRef msg outlen bits' outlen inIdx' out' total', 13, none⟩) rfl ?_
  refine brFalse rfl lt_false ?_
  exact ops 3 (t := ⟨[ints out'], baseWLocals byRef msg outlen bits' outlen inIdx' out' total', 54, none⟩) rfl
    (stops 7 rfl rfl)

end BaseW

section WotsChecksum

open WotsChecksumReal

def checksumLocals (byRef : Bool) (digits : List Nat) (csum bytes i j k lenBytes shift : Value) :
    List Value :=
  [passedInts byRef 8 digits, csum, bytes, i, j, k, lenBytes, shift] ++ heldInts byRef digits

variable {byRef : Bool} {digits : List Nat} {csum i j k : Nat} {bytes : Bytes} {v w x y z : Value}

theorem checksum_round {d : Nat} (hi : i < 32) (hc : csum < 2 ^ 64) (hd : d ≤ 15) (hx : digits[i]? = some d) :
    Spends (run H wotsChecksumRealBytecode) 23 ⟨[], checksumLocals byRef digits (int64 csum) v
      (int64 i) w x y z, 4, none⟩
      (· = ⟨[], checksumLocals byRef digits (int64 (csum + (15 - d))) v (int64 (i + 1)) w x y z, 4,
        none⟩) := by
  refine ops 3 (t := ⟨[.bool (decide ((UInt64.ofNat i).toNat < (UInt64.ofNat 32).toNat))],
    checksumLocals byRef digits (int64 csum) v (int64 i) w x y z, 7, none⟩) rfl ?_
  refine brTrue rfl (lt_true hi (by decide)) ?_
  refine ops 8 (t := ⟨[int64 i, passedInts byRef 8 digits, int64 15, int64 csum],
    checksumLocals byRef digits (int64 csum) v (int64 i) w x y z, 16, none⟩) rfl ?_
  refine op rfl (immBorrow32 _ (by omega) (fun h => by subst h; rfl) hx) ?_
  refine ops 1 (t := ⟨[int32 d, int64 15, int64 csum],
    checksumLocals byRef digits (int64 csum) v (int64 i) w x y z, 18, none⟩) rfl ?_
  refine op rfl (castU64 (asNat32 (by omega))) ?_
  refine op rfl (arith64 (· - ·) (a := 15) (by decide) (asNat64 (by omega))) ?_
  refine op rfl (arith64 (· + ·) hc (asNat64 (by omega))) ?_
  generalize csum + (15 - d) = csum'
  refine ops 6 (t := ⟨[], checksumLocals byRef digits (int64 csum') v
    (.u64 (.ofNat i + .ofNat 1)) w x y z, 4, none⟩)
    rfl ?_
  rw [← UInt64.ofNat_add]
  exact .done rfl

/-- What is before the checksum's bytes: it is shifted, and they are counted. -/
theorem checksum_shift (hc : csum < 2 ^ 64) :
    Spends (run H wotsChecksumRealBytecode) 31 ⟨[], checksumLocals byRef digits (int64 csum) v
      (int64 32) w x y z, 4, none⟩
      (· = ⟨[], checksumLocals byRef digits (int64 (csum <<< 4)) (.vecU8 []) (int64 32) w (int64 0)
        (int64 2) (int8 4), 54,
        none⟩) := by
  refine ops 3 (t := ⟨[.bool (decide ((UInt64.ofNat 32).toNat < (UInt64.ofNat 32).toNat))],
    checksumLocals byRef digits (int64 csum) v (int64 32) w x y z, 7, none⟩) rfl ?_
  refine brFalse rfl lt_false ?_
  refine ops 10 (t := ⟨[int8 4], checksumLocals byRef digits (int64 csum) v (int64 32) w x y z, 37,
    none⟩) rfl ?_
  refine ops 3 (t := ⟨[int8 4, int64 csum], checksumLocals byRef digits (int64 csum) v
    (int64 32) w x y (int8 4), 40, none⟩) rfl ?_
  refine op rfl (arith64 (· <<< ·) (k := 4) hc rfl) ?_
  generalize csum <<< 4 = csum
  refine ops 9 (t := ⟨[], checksumLocals byRef digits (int64 csum) v (int64 32) w x (int64 2)
    (int8 4), 50, none⟩) rfl ?_
  exact ops 4 (t := ⟨[], checksumLocals byRef digits (int64 csum) (.vecU8 []) (int64 32) w (int64 0)
    (int64 2) (int8 4), 54, none⟩) rfl (.done rfl)

theorem checksum_fill (hk : k < 2) :
    Spends (run H wotsChecksumRealBytecode) 13
      ⟨[], checksumLocals byRef digits v (.vecU8 bytes) w x (int64 k) (int64 2) z, 54, none⟩
      (· = ⟨[], checksumLocals byRef digits v (.vecU8 (bytes ++ [0])) w x (int64 (k + 1))
        (int64 2) z, 54, none⟩) := by
  refine ops 3 (t := ⟨[.bool (decide ((UInt64.ofNat k).toNat < (UInt64.ofNat 2).toNat))],
    checksumLocals byRef digits v (.vecU8 bytes) w x (int64 k) (int64 2) z, 57, none⟩) rfl ?_
  refine brTrue rfl (lt_true hk (by decide)) ?_
  refine ops 9 (t := ⟨[], checksumLocals byRef digits v (.vecU8 (bytes ++ [0])) w x
    (.u64 (.ofNat k + .ofNat 1)) (int64 2) z, 54, none⟩) rfl ?_
  rw [← UInt64.ofNat_add]
  exact .done rfl

theorem checksum_filled : Spends (run H wotsChecksumRealBytecode) 6
    ⟨[], checksumLocals byRef digits v (.vecU8 bytes) w x (int64 2) (int64 2) z, 54, none⟩
    (· = ⟨[], checksumLocals byRef digits v (.vecU8 bytes) w (int64 2) (int64 2) (int64 2) z, 69, none⟩) := by
  refine ops 3 (t := ⟨[.bool (decide ((UInt64.ofNat 2).toNat < (UInt64.ofNat 2).toNat))],
    checksumLocals byRef digits v (.vecU8 bytes) w x (int64 2) (int64 2) z, 57, none⟩) rfl ?_
  refine brFalse rfl lt_false ?_
  exact ops 2 (t := ⟨[], checksumLocals byRef digits v (.vecU8 bytes) w (int64 2) (int64 2)
    (int64 2) z, 69, none⟩) rfl (.done rfl)

theorem checksum_write (hj : 0 < j) (hlt : j < 2 ^ 64) (hc : csum < 2 ^ 64) (hlen : j - 1 < bytes.length) :
    Spends (run H wotsChecksumRealBytecode) 24
      ⟨[], checksumLocals byRef digits (int64 csum) (.vecU8 bytes) w (int64 j) x y z, 69, none⟩
      (· = ⟨[], checksumLocals byRef digits (int64 (csum >>> 8))
        (.vecU8 (bytes.set (j - 1) (UInt8.ofNat csum))) w
        (int64 (j - 1)) x y z, 69, none⟩) := by
  refine ops 3 (t := ⟨[.bool (decide ((UInt64.ofNat j).toNat > 0))],
    checksumLocals byRef digits (int64 csum) (.vecU8 bytes) w (int64 j) x y z, 72, none⟩) rfl ?_
  refine brTrue rfl (by rw [toNat64 hlt]; exact decide_eq_true hj) ?_
  refine ops 5 (t := ⟨[], checksumLocals byRef digits (int64 csum) (.vecU8 bytes) w
    (int64 ((UInt64.ofNat j).toNat - 1)) x y z, 78, none⟩) rfl ?_
  rw [toNat64 hlt]
  refine ops 7 (t := ⟨[.vecElemRef 2 (UInt64.ofNat (j - 1)).toNat, .u8 (UInt8.ofNat
    ((UInt64.ofNat ((UInt64.ofNat csum).toNat &&& 255)).toNat &&& 0xff))],
    checksumLocals byRef digits (int64 csum) (.vecU8 bytes) w (int64 (j - 1)) x y z, 85, none⟩) rfl ?_
  rw [toNat64 (show j - 1 < 2 ^ 64 by omega), toNat64 hc, lowByte64]
  refine op rfl (writeByte rfl hlen) ?_
  refine ops 5 (t := ⟨[], checksumLocals byRef digits (int64 ((UInt64.ofNat csum).toNat >>> 8))
    (.vecU8 (bytes.set (j - 1) (UInt8.ofNat csum))) w (int64 (j - 1)) x y z, 69, none⟩) rfl ?_
  rw [toNat64 hc]
  exact .done rfl

theorem checksum_sum {csum : Nat} {v w x y z : Value}
    (h : (Move.whileLt 64 0 Sha2128s.LEN_1 0 fun i csum => do
      let d ← Move.borrow digits i
      Move.add 64 csum (← Move.sub (← Move.sub Sha2128s.W 1) d) : MoveFn Nat).res = .ok csum) :
    Spends (run H wotsChecksumRealBytecode) (32 * 23)
      ⟨[], checksumLocals byRef digits (int64 0) v (int64 0) w x y z, 4, none⟩
      fun t => csum < 2 ^ 64 ∧ t =
      ⟨[], checksumLocals byRef digits (int64 csum) v (int64 32) w x y z, 4, none⟩ := by
  refine Fuel.Spends.whileLt (fun i csum (t : State) => csum < 2 ^ 64 ∧
    t = ⟨[], checksumLocals byRef digits (int64 csum) v (int64 i) w x y z, 4, none⟩) (Nat.zero_le _)
    (fun i csum csum' s _ hi hr _ hs => ?_) h ⟨by decide, rfl⟩
  obtain ⟨hc, rfl⟩ := hs
  simp only [Comp.bind_iff, Move.borrow_iff, Move.sub_ok, Move.add_ok] at hr
  obtain ⟨d, hd, _, ⟨-, rfl⟩, _, ⟨hle, rfl⟩, hlt, rfl⟩ := hr
  exact (checksum_round hi hc hle hd).mono (Nat.le_refl _) fun t ht => ⟨hlt, ht⟩

theorem checksum_zeros {v w x z : Value}
    (h : (Move.whileLt 64 0 2 [] fun _ out => pure (out ++ [0]) : MoveFn Bytes).res = .ok bytes) :
    Spends (run H wotsChecksumRealBytecode) (2 * 13)
      ⟨[], checksumLocals byRef digits v (.vecU8 []) w x (int64 0) (int64 2) z, 54, none⟩
      (· = ⟨[], checksumLocals byRef digits v (.vecU8 bytes) w x (int64 2) (int64 2) z, 54, none⟩) := by
  refine Fuel.Spends.whileLt (fun k bytes (t : State) =>
    t = ⟨[], checksumLocals byRef digits v (.vecU8 bytes) w x
    (int64 k) (int64 2) z, 54, none⟩) (Nat.zero_le _) (fun k bytes bytes' s _ hk hr _ hs => ?_) h rfl
  subst hs
  obtain rfl := Comp.pure_iff.mp hr
  exact checksum_fill hk

theorem checksum_pack {out : Nat × Bytes} {w x y z : Value} (hc : csum < 2 ^ 64)
    (h : (Move.whileGt0 2 (csum, bytes) fun j (csum, csumBytes) => do
      let csumBytes ← Move.write csumBytes j (← Move.byte (csum &&& 0xff))
      let csum ← Move.shr 64 csum 8
      pure (csum, csumBytes) : MoveFn (Nat × Bytes)).res = .ok out) :
    Spends (run H wotsChecksumRealBytecode) (2 * 24)
      ⟨[], checksumLocals byRef digits (int64 csum) (.vecU8 bytes) w (int64 2) x y z, 69, none⟩
      (· = ⟨[], checksumLocals byRef digits (int64 out.1) (.vecU8 out.2) w (int64 0) x y z, 69, none⟩) := by
  refine (Fuel.Spends.whileGt0 (fun i c (t : State) => c.1 < 2 ^ 64 ∧
    t = ⟨[], checksumLocals byRef digits (int64 c.1)
    (.vecU8 c.2) w (int64 (2 - i)) x y z, 69, none⟩) (fun i c c' s hi hr hs => ?_) h ⟨hc, rfl⟩).mono
    (Nat.le_refl _)
    fun t ht => ht.2
  obtain ⟨hc, rfl⟩ := hs
  simp only [Comp.bind_iff, Move.shr_ok, Move.byte_ok, Move.write_ok, Comp.pure_iff, ofNat_and_ff] at hr
  obtain ⟨_, ⟨-, rfl⟩, _, ⟨hlen, rfl⟩, _, ⟨-, rfl⟩, rfl⟩ := hr
  refine (checksum_write (by omega) (by omega) hc hlen).mono (Nat.le_refl _) fun t ht => ⟨?_, ?_⟩
  · exact Nat.lt_of_le_of_lt (Nat.shiftRight_le ..) hc
  · rw [ht, show 2 - i - 1 = 2 - (i + 1) by omega]

theorem wotsChecksum_returns (byRef : Bool) {digits out : List Nat} {a b c d e f g : Value}
    (h : (Sha2128s.wotsChecksum digits).res = .ok out) :
    Returns H wotsChecksumRealBytecode ([passedInts byRef 8 digits, a, b, c, d, e, f, g] ++
      heldInts byRef digits)
      [ints out] (heldInts byRef digits) := by
  obtain ⟨csum, hsum, h⟩ := Comp.bind_ok h
  simp only [Comp.bind_iff, Move.sub_ok, Move.mul_ok, Move.add_ok, Move.cast_ok, Move.shl_ok] at h
  obtain ⟨_, ⟨-, rfl⟩, _, ⟨-, rfl⟩, _, ⟨-, rfl⟩, _, ⟨-, rfl⟩, _, ⟨-, rfl⟩, _, ⟨-, rfl⟩, bytes,
    hfill, packed, hpack, hbase⟩ := h
  have hshift : int64 (csum <<< 4) = int64 (csum <<< 4 % 2 ^ 64) :=
    congrArg Value.u64 UInt64.ofNat_mod_size.symm
  refine returns_of_stops (n := 4 + (32 * 23 + (31 + (2 * 13 + (6 + (2 * 24 + 7)))))) (by decide) ?_
  refine ops 4 (t := ⟨[], checksumLocals byRef digits (int64 0) b (int64 0) d e f g, 4, none⟩) rfl ?_
  refine ((checksum_sum hsum).bind (n := 31 + (2 * 13 + (6 + (2 * 24 + 7)))) fun t ht => ?_).mono
    (by decide) fun _ h => h
  obtain ⟨hc, rfl⟩ := ht
  refine (checksum_shift hc).bind fun t ht => ?_
  subst ht
  refine (checksum_zeros hfill).bind fun t ht => ?_
  subst ht
  refine Fuel.Spends.bind checksum_filled fun t ht => ?_
  subst ht
  rw [hshift]
  refine (checksum_pack (Nat.mod_lt _ (by decide)) hpack).bind fun t ht => ?_
  subst ht
  refine ops 4 (t := ⟨[], checksumLocals byRef digits (int64 packed.1) (.vecU8 packed.2) (int64 32)
    (int64 0) (int64 2) (int64 2) (int8 4), 91, none⟩) rfl ?_
  refine ops 2 (t := ⟨[int64 3, .locRef 2], checksumLocals byRef digits (int64 packed.1)
    (.vecU8 packed.2) (int64 32) (int64 0) (int64 2) (int64 2) (int8 4), 93, none⟩) rfl ?_
  refine call rfl (baseW_returns true (by decide) hbase) rfl rfl rfl rfl ?_
  exact stops 8 rfl rfl

end WotsChecksum

section MsgToChainDigits

open MsgToChainDigitsReal

def chainDigitsLocals (byRef : Bool) (msg : Bytes) (csumDigits digits : List Nat) (i : Nat) : List Value :=
  [passed byRef 4 msg, ints csumDigits, ints digits, int64 i] ++ held byRef msg

variable {byRef : Bool} {msg : Bytes} {csumDigits digits : List Nat}

theorem chainDigits_round {i n : Nat} (hi : i < 3) (hx : csumDigits[i]? = some n) :
    Spends (run H msgToChainDigitsRealBytecode) 16
      ⟨[], chainDigitsLocals byRef msg csumDigits digits i, 9, none⟩
      (· = ⟨[], chainDigitsLocals byRef msg csumDigits (digits ++ [n]) (i + 1), 9, none⟩) := by
  refine ops 3 (t := ⟨[.bool (decide ((UInt64.ofNat i).toNat < (UInt64.ofNat 3).toNat))],
    chainDigitsLocals byRef msg csumDigits digits i, 12, none⟩) rfl ?_
  refine brTrue rfl (lt_true hi (by decide)) ?_
  refine ops 4 (t := ⟨[int64 i, passedInts true 1 csumDigits, .locRef 2],
    chainDigitsLocals byRef msg csumDigits digits i, 17, none⟩) rfl ?_
  refine op rfl (immBorrow32 _ (by omega) (fun _ => rfl) hx) ?_
  refine ops 7 (t := ⟨[], [passed byRef 4 msg, ints csumDigits,
    .vecU32 (digits.map UInt32.ofNat ++ [UInt32.ofNat n]), .u64 (.ofNat i + .ofNat 1)] ++
    held byRef msg, 9, none⟩) rfl ?_
  rw [← UInt64.ofNat_add, append_ints]
  exact .done rfl

theorem chainDigits_calls (byRef : Bool) {msg : Bytes} {csumDigits digits : List Nat} {a b c : Value}
    (hdigits : (Sha2128s.baseW msg Sha2128s.LEN_1).res = .ok digits)
    (hcsum : (Sha2128s.wotsChecksum digits).res = .ok csumDigits) :
    Spends (run H msgToChainDigitsRealBytecode) 9 ⟨[], [passed byRef 4 msg, a, b, c] ++
      held byRef msg, 0, none⟩
      (· = ⟨[], chainDigitsLocals byRef msg csumDigits digits 0, 9, none⟩) := by
  refine ops 2 (t := ⟨[int64 32, passed byRef 4 msg], [passed byRef 4 msg, a, b, c] ++
    held byRef msg, 2, none⟩) rfl ?_
  have hbase := baseW_returns (H := H) byRef (a := .u64 0) (b := .u64 0) (c := .u64 0)
    (d := .vecU32 []) (e := .u32 0) (by decide) hdigits
  refine Fuel.Spends.pay (m := 1)
    (Q := (· = ⟨[ints digits], [passed byRef 4 msg, a, b, c] ++ held byRef msg, 3, none⟩))
    ?_ (by decide) fun t ht => ?_
  · cases byRef
    · exact call rfl hbase rfl rfl rfl rfl (.done rfl)
    · exact call rfl hbase rfl rfl rfl rfl (.done rfl)
  subst ht
  refine ops 2 (t := ⟨[.locRef 2], [passed byRef 4 msg, a, ints digits, c] ++ held byRef msg, 5, none⟩) rfl ?_
  refine Fuel.Spends.pay (m := 1)
    (Q := (· = ⟨[ints csumDigits], [passed byRef 4 msg, a, ints digits, c] ++ held byRef msg,
    6, none⟩)) ?_ (by decide) fun t ht => ?_
  · cases byRef
    · exact call rfl (wotsChecksum_returns true hcsum) rfl rfl rfl rfl (.done rfl)
    · exact call rfl (wotsChecksum_returns true hcsum) rfl rfl rfl rfl (.done rfl)
  subst ht
  exact ops 3 (t := ⟨[], chainDigitsLocals byRef msg csumDigits digits 0, 9, none⟩) rfl (.done rfl)

theorem msgToChainDigits_returns (byRef : Bool) {msg : Bytes} {out : List Nat} {a b c : Value}
    (h : (Sha2128s.msgToChainDigits msg).res = .ok out) :
    Returns H msgToChainDigitsRealBytecode ([passed byRef 4 msg, a, b, c] ++ held byRef msg) [ints out]
      (held byRef msg) := by
  obtain ⟨digits, hdigits, h⟩ := Comp.bind_ok h
  obtain ⟨csumDigits, hcsum, h⟩ := Comp.bind_ok h
  have hloop : Spends (run H msgToChainDigitsRealBytecode) ((3 - 0) * 16)
      ⟨[], chainDigitsLocals byRef msg csumDigits digits 0, 9, none⟩
      (· = ⟨[], chainDigitsLocals byRef msg csumDigits out 3, 9, none⟩) := by
    refine Fuel.Spends.whileLt (fun i digits (t : State) =>
      t = ⟨[], chainDigitsLocals byRef msg csumDigits digits i, 9,
      none⟩) (Nat.zero_le _) (fun i digits digits' s _ hi hr _ hs => ?_) h rfl
    subst hs
    obtain ⟨n, hn, hr⟩ := Comp.bind_ok hr
    obtain rfl := Comp.pure_iff.mp hr
    exact chainDigits_round hi (Move.borrow_iff.mp hn)
  refine returns_of_stops (n := 9 + ((3 - 0) * 16 + 5)) (by decide) ?_
  refine (chainDigits_calls byRef hdigits hcsum).bind fun t ht => ?_
  subst ht
  refine hloop.bind fun t ht => ?_
  subst ht
  refine ops 3 (t := ⟨[.bool (decide ((UInt64.ofNat 3).toNat < (UInt64.ofNat 3).toNat))],
    chainDigitsLocals byRef msg csumDigits out 3, 12, none⟩) rfl ?_
  refine brFalse rfl lt_false ?_
  exact ops 1 (t := ⟨[ints out], chainDigitsLocals byRef msg csumDigits out 3, 26, none⟩) rfl
    (stops 4 rfl rfl)

end MsgToChainDigits

end SuiPq.Proof.MoveVm.Source
