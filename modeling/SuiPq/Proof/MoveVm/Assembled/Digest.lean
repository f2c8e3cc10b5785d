import SuiPq.Proof.MoveVm.Assembled.Bytes
import SuiPq.Proof.MoveVm.Source.Standard

/-!
# The hand-assembled bytecodes of the digest

`extract_fors_indices` and `split_digest` in step with the Move functions, and
`hmsg`, which takes one block of MGF1: what they return is the
transcription's (`extractForsIndices_eq`, `splitDigest_eq`, `hmsg_eq`). The
bytecodes keep a leaf's index and a FORS index in a `u64`, which the bits
never fill.
-/

namespace SuiPq.Proof.MoveVm.Assembled

set_option maxRecDepth 10000

open SuiPq.Impl SuiPq.Impl.MoveVm
open SuiPq.Fuel (Spends)

variable {H : Hash}

/-! ## FORS indices -/

section ExtractForsIndices

open ExtractForsIndices

def indicesLocals (md : Bytes) (out bitOff i v b bitIdx : Value) : List Value :=
  [.vecU8 md, out, bitOff, i, v, b, bitIdx]

variable {md : Bytes} {out i w : Value}

/-- A bit of an index. -/
theorem indices_bit {o b v : Nat} {x : UInt8} (hb : b < 12) (hv : v <<< 1 < 2 ^ 64) (ho : o + b < 2 ^ 64)
    (hx : md[(o + b) >>> 3]? = some x) :
    Spends (run H extractForsIndicesBytecode) 32 ⟨[], indicesLocals md out (int64 o) i (int64 v)
      (int64 b) w, 14, none⟩
      (· = ⟨[], indicesLocals md out (int64 o) i
        (int64 (v <<< 1 ||| x.toNat >>> (7 - (o + b &&& 7)) &&& 1)) (int64 (b + 1))
        (int64 (o + b)), 14, none⟩) := by
  refine ops 3 (t := ⟨[.bool (decide ((UInt64.ofNat b).toNat < (UInt64.ofNat 12).toNat))],
    indicesLocals md out (int64 o) i (int64 v) (int64 b) w, 17, none⟩) rfl ?_
  refine brTrue rfl (lt_true hb (by decide)) ?_
  refine ops 2 (t := ⟨[int64 b, int64 o], indicesLocals md out (int64 o) i (int64 v) (int64 b) w,
    20, none⟩) rfl ?_
  refine op rfl (arith64 (· + ·) (by omega) (asNat64 (by omega))) ?_
  generalize o + b = n at ho hx
  refine ops 4 (t := ⟨[int64 3, int64 n, .vecU8 md], indicesLocals md out (int64 o) i (int64 v)
    (int64 b) (int64 n), 25, none⟩) rfl ?_
  refine op rfl (arith64 (· >>> ·) (k := 3) ho rfl) ?_
  refine op rfl (immBorrow (j := 0) false (Nat.lt_of_le_of_lt (Nat.shiftRight_le ..) ho)
    (fun h => by cases h) hx) ?_
  refine op rfl (u8ToU64 x) ?_
  have hlt : n &&& 7 < 2 ^ 3 := Nat.and_lt_two_pow _ (by decide)
  have hbyte : x.toNat < 2 ^ 64 := Nat.lt_trans x.toNat_lt (by decide)
  generalize x.toNat = y at hbyte
  refine ops 3 (t := ⟨[int64 7, int64 n, int64 7, int64 y],
    indicesLocals md out (int64 o) i (int64 v) (int64 b) (int64 n), 31, none⟩) rfl ?_
  refine op rfl (arith64 (· &&& ·) (k := 7) ho rfl) ?_
  refine op rfl (arith64 (· - ·) (a := 7) (by decide) (asNat64 (by omega))) ?_
  refine op rfl (arith64 (· >>> ·) hbyte (asNat64 (by omega))) ?_
  have hlow : y >>> (7 - (n &&& 7)) < 2 ^ 64 := Nat.lt_of_le_of_lt (Nat.shiftRight_le ..) hbyte
  generalize y >>> (7 - (n &&& 7)) = d at hlow
  refine ops 1 (t := ⟨[int64 1, int64 d], indicesLocals md out (int64 o) i (int64 v) (int64 b)
    (int64 n), 35, none⟩) rfl ?_
  refine op rfl (arith64 (· &&& ·) (k := 1) hlow rfl) ?_
  have hbit : d &&& 1 < 2 ^ 64 := Nat.lt_of_le_of_lt Nat.and_le_left hlow
  generalize d &&& 1 = bit at hbit
  have hv' : v < 2 ^ 64 := Nat.lt_of_le_of_lt (by rw [Nat.shiftLeft_eq]; omega) hv
  refine ops 2 (t := ⟨[int64 1, int64 v, int64 bit], indicesLocals md out (int64 o) i (int64 v)
    (int64 b) (int64 n), 38, none⟩) rfl ?_
  refine op rfl (arith64 (· <<< ·) (k := 1) hv' rfl) ?_
  refine op rfl (arith64 (· ||| ·) hbit (asNat64 hv)) ?_
  rw [Nat.or_comm bit]
  generalize v <<< 1 ||| bit = v'
  refine ops 6 (t := ⟨[], indicesLocals md out (int64 o) i (int64 v') (.u64 (.ofNat b + .ofNat 1))
    (int64 n), 14, none⟩) rfl ?_
  rw [← UInt64.ofNat_add]
  exact .done rfl

/-- The states between the bits of an index. -/
def bitsInv (md : Bytes) (out i : Value) (o b v : Nat) (t : State) : Prop :=
  v < 2 ^ b ∧ ∃ bitIdx, t = ⟨[], indicesLocals md out (int64 o) i (int64 v) (int64 b) bitIdx, 14, none⟩

theorem indices_round {o b v v' : Nat} {s : State} (hb : b < 12) (hs : bitsInv md out i o b v s) (h : (do
      let bitIdx ← Move.add 64 o b
      let x ← Move.borrow md (← Move.shr 64 bitIdx 3)
      let s ← Move.sub 7 (← Move.cast 8 (bitIdx &&& 7))
      let bit := (← Move.shr 8 x.toNat s) &&& 1
      let v ← Move.shl 32 v 1
      pure (v ||| bit) : MoveFn Nat).res = .ok v') :
    Spends (run H extractForsIndicesBytecode) 32 s (bitsInv md out i o (b + 1) v') := by
  obtain ⟨hv, bitIdx, rfl⟩ := hs
  simp only [Comp.bind_iff, Move.add_ok, Move.shr_ok, Move.borrow_iff, Move.cast_ok, Move.sub_ok, Move.shl_ok,
    Comp.pure_iff] at h
  obtain ⟨_, ⟨ho, rfl⟩, _, ⟨-, rfl⟩, x, hx, _, ⟨-, rfl⟩, _, ⟨-, rfl⟩, _, ⟨-, rfl⟩, _, ⟨-, rfl⟩, rfl⟩ := h
  have hshift : v <<< 1 < 2 ^ (b + 1) := by rw [Nat.shiftLeft_eq, Nat.pow_succ]; omega
  have h32 : v <<< 1 < 2 ^ 32 := Nat.lt_of_lt_of_le hshift (Nat.pow_le_pow_right (by decide) (by omega))
  rw [Nat.mod_eq_of_lt h32]
  refine (indices_bit hb (Nat.lt_trans h32 (by decide)) ho hx).mono (Nat.le_refl _) fun t ht => ⟨?_, _, ht⟩
  have hbit : x.toNat >>> (7 - (o + b &&& 7)) &&& 1 < 2 ^ (b + 1) :=
    Nat.lt_of_le_of_lt Nat.and_le_right (Nat.one_lt_two_pow (Nat.succ_ne_zero b))
  exact Nat.or_lt_two_pow hshift hbit

/-- The states between the indices. -/
def indicesInv (md : Bytes) (i : Nat) (x : Nat × List Nat) (t : State) : Prop :=
  x.1 < 2 ^ 64 ∧ ∃ v b bitIdx, t = ⟨[], indicesLocals md (ints x.2) (int64 x.1) (int64 i) v b bitIdx, 6, none⟩

theorem indices_index {i : Nat} {x x' : Nat × List Nat} {s : State} (hi : i < 14)
    (hs : indicesInv md i x s) (h : (do
      let v ← Move.whileLt 64 0 Sha2128s.A 0 fun b v => do
        let bitIdx ← Move.add 64 x.1 b
        let x ← Move.borrow md (← Move.shr 64 bitIdx 3)
        let s ← Move.sub 7 (← Move.cast 8 (bitIdx &&& 7))
        let bit := (← Move.shr 8 x.toNat s) &&& 1
        let v ← Move.shl 32 v 1
        pure (v ||| bit)
      let bitOff ← Move.add 64 x.1 Sha2128s.A
      pure (bitOff, x.2 ++ [v]) : MoveFn (Nat × List Nat)).res = .ok x') :
    Spends (run H extractForsIndicesBytecode) 420 s (indicesInv md (i + 1) x') := by
  obtain ⟨o, out⟩ := x
  obtain ⟨ho, w, b, bitIdx, rfl⟩ := hs
  obtain ⟨v, hv, h⟩ := Comp.bind_ok h
  obtain ⟨_, hadd, h⟩ := Comp.bind_ok h
  obtain ⟨hlt, rfl⟩ := Move.add_ok.mp hadd
  obtain rfl := Comp.pure_iff.mp h
  dsimp only at ho hv hlt ⊢
  have hbits : Spends (run H extractForsIndicesBytecode) ((12 - 0) * 32)
      ⟨[], indicesLocals md (ints out) (int64 o) (int64 i) (int64 0) (int64 0) bitIdx, 14, none⟩
      (bitsInv md (ints out) (int64 i) o 12 v) :=
    Fuel.Spends.whileLt (bitsInv md (ints out) (int64 i) o) (Nat.zero_le _)
      (fun b v v' s _ hb hr _ hs => indices_round hb hs hr) hv ⟨by decide, _, rfl⟩
  refine ops 3 (t := ⟨[.bool (decide ((UInt64.ofNat i).toNat < (UInt64.ofNat 14).toNat))],
    indicesLocals md (ints out) (int64 o) (int64 i) w b bitIdx, 9, none⟩) rfl ?_
  refine brTrue rfl (lt_true hi (by decide)) ?_
  refine ops 4 (t := ⟨[], indicesLocals md (ints out) (int64 o) (int64 i) (int64 0)
    (int64 0) bitIdx, 14, none⟩) rfl ?_
  refine (hbits.bind (n := 18) fun t ht => ?_).mono (by decide) fun _ h => h
  obtain ⟨hv12, bitIdx, rfl⟩ := ht
  refine ops 3 (t := ⟨[.bool (decide ((UInt64.ofNat 12).toNat < (UInt64.ofNat 12).toNat))],
    indicesLocals md (ints out) (int64 o) (int64 i) (int64 v) (int64 12) bitIdx, 17, none⟩) rfl ?_
  refine brFalse rfl lt_false ?_
  refine ops 2 (t := ⟨[int64 v, ints out], indicesLocals md (ints out) (int64 o) (int64 i) (int64 v)
    (int64 12) bitIdx, 48, none⟩) rfl ?_
  refine op rfl (u64ToU32 _) ?_
  rw [toNat64 (Nat.lt_trans hv12 (by decide))]
  refine ops 6 (t := ⟨[], indicesLocals md (.vecU32 (out.map UInt32.ofNat ++ [UInt32.ofNat v]))
    (.u64 (.ofNat o + .ofNat 12)) (int64 i) (int64 v) (int64 12) bitIdx, 55, none⟩) rfl ?_
  rw [← UInt64.ofNat_add, Source.append_ints]
  refine ops 5 (t := ⟨[], indicesLocals md (ints (out ++ [v])) (int64 (o + 12))
    (.u64 (.ofNat i + .ofNat 1)) (int64 v) (int64 12) bitIdx, 6, none⟩) rfl ?_
  rw [← UInt64.ofNat_add]
  exact .done ⟨hlt, _, _, _, rfl⟩

theorem extractForsIndices_stops {ns : List Nat} (h : (Sha2128s.extractForsIndices md).res = .ok ns) :
    Spends (run H extractForsIndicesBytecode) (6 + ((14 - 0) * 420 + 5)) (initialState md)
      (Stops extractForsIndicesBytecode [ints ns] []) := by
  obtain ⟨x, hx, h⟩ := Comp.bind_ok h
  obtain rfl := Comp.pure_iff.mp h
  have hloop : Spends (run H extractForsIndicesBytecode) ((14 - 0) * 420)
      ⟨[], indicesLocals md (ints []) (int64 0) (int64 0) (.u64 0) (.u64 0) (.u64 0), 6, none⟩
        (indicesInv md 14 x) :=
    Fuel.Spends.whileLt (indicesInv md) (Nat.zero_le _) (fun i x x' s _ hi hr _ hs =>
      indices_index hi hs hr) hx ⟨by decide, _, _, _, rfl⟩
  refine ops 6 (t := ⟨[], indicesLocals md (ints []) (int64 0) (int64 0) (.u64 0) (.u64 0) (.u64 0),
    6, none⟩) rfl ?_
  refine (hloop.bind (n := 5) fun t ht => ?_).mono (by decide) fun _ h => h
  obtain ⟨-, v, b, w, rfl⟩ := ht
  refine ops 3 (t := ⟨[.bool (decide ((UInt64.ofNat 14).toNat < (UInt64.ofNat 14).toNat))],
    indicesLocals md (ints x.2) (int64 x.1) (int64 14) v b w, 9, none⟩) rfl ?_
  refine brFalse rfl lt_false ?_
  exact ops 1 (t := ⟨[ints x.2], indicesLocals md (ints x.2) (int64 x.1) (int64 14) v b w, 61,
    none⟩) rfl (stops 7 rfl rfl)

theorem extractForsIndices_eq (hmd : md.length = 21) :
    (extractForsIndicesMoveBC H md).map (·.toNat) = Fips205.extractForsIndices md := by
  have hmove : (Sha2128s.extractForsIndices md).res =
    .ok ((List.range 14).map (Spec.Slh128s.forsIndex md)) := by
    rw [Proof.Sha2128s.extractForsIndices_eq (Nat.le_of_eq hmd.symm), Comp.res_pure,
      window_full (Nat.le_of_eq hmd)]
  have htop : extractForsIndicesMoveBC H md = _ :=
    Returns.topInts (returns_of_stops (by decide) (extractForsIndices_stops hmove))
  rw [htop, Proof.Fips205.extractForsIndices_eq hmd]
  refine Source.map_toNat32 fun n hn => ?_
  obtain ⟨i, -, rfl⟩ := List.mem_map.mp hn
  exact Nat.lt_trans (Spec.Slh128s.forsIndex_lt md i) (by decide)

end ExtractForsIndices

/-! ## The parts of a digest -/

section SplitDigest

open SplitDigest

/-- The opcodes that read the byte `off + i` into the number in the local `c`, with `i` in the local `k`. -/
def readByte (c k : Nat) (off : UInt64) (top : Nat) : List Opcode :=
  [.CopyLoc c, .LdU64 8, .Shl, .CopyLoc 0, .CopyLoc k, .LdU64 off, .Add, .VecImmBorrow,
    .CallNative "u8_to_u64" 1, .BitOr, .StLoc c, .CopyLoc k, .LdU64 1, .Add, .StLoc k, .Branch top]

theorem readByte_round {code : Bytecode} {rest : List Opcode} {digest : Bytes} {L : List Value}
    {c k off top pc i v : Nat}
    {x : UInt8} (hcode : code.toList.drop pc = readByte c k (UInt64.ofNat off) top ++ rest)
    (hd : L[0]? = some (.vecU8 digest)) (hc : L[c]? = some (int64 v)) (hk : L[k]? = some (int64 i))
    (hck : c ≠ k)
    (hv : v <<< 8 < 2 ^ 64) (hj : off + i < 2 ^ 64) (hx : digest[off + i]? = some x) :
    Spends (run H code) 16 ⟨[], L, pc, none⟩
      (· = ⟨[], (L.set c (int64 (v <<< 8 ||| x.toNat))).set k (int64 (i + 1)), top, none⟩) := by
  have hv' : v < 2 ^ 64 := Nat.lt_of_le_of_lt (by rw [Nat.shiftLeft_eq]; omega) hv
  refine op (drop_getElem? 0 hcode rfl) (copyLoc hc) ?_
  refine op (drop_getElem? 1 hcode rfl) (ldU64 _) ?_
  refine op (drop_getElem? 2 hcode rfl) (arith64 (· <<< ·) (k := 8) hv' rfl) ?_
  refine op (drop_getElem? 3 hcode rfl) (copyLoc hd) ?_
  refine op (drop_getElem? 4 hcode rfl) (copyLoc hk) ?_
  refine op (drop_getElem? 5 hcode rfl) (ldU64 _) ?_
  refine op (drop_getElem? 6 hcode rfl) (arith64 (· + ·) (by omega) (asNat64 (by omega))) ?_
  rw [Nat.add_comm i]
  refine op (drop_getElem? 7 hcode rfl) (immBorrow (j := 0) false hj (fun h => by cases h) hx) ?_
  refine op (drop_getElem? 8 hcode rfl) (u8ToU64 x) ?_
  refine op (drop_getElem? 9 hcode rfl)
    (arith64 (· ||| ·) hv (asNat64 (Nat.lt_trans x.toNat_lt (by decide)))) ?_
  refine op (drop_getElem? 10 hcode rfl) (stLoc (List.getElem?_eq_some_iff.mp hc).1) ?_
  generalize v <<< 8 ||| x.toNat = v'
  refine op (drop_getElem? 11 hcode rfl) (copyLoc (by rw [List.getElem?_set_ne hck]; exact hk)) ?_
  refine op (drop_getElem? 12 hcode rfl) (ldU64 _) ?_
  refine op (drop_getElem? 13 hcode rfl) (arith64 (· + ·) (k := 1) (by omega) rfl) ?_
  refine op (drop_getElem? 14 hcode rfl)
    (stLoc (by rw [List.length_set]; exact (List.getElem?_eq_some_iff.mp hk).1)) ?_
  exact op (n := 0) (drop_getElem? 15 hcode rfl) rfl (.done rfl)

def splitLocals (digest md : Bytes) (tree i leaf p : Nat) : List Value :=
  [.vecU8 digest, .vecU8 md, int64 tree, int64 i, int64 leaf, int64 p, .u8 0]

variable {digest md : Bytes} {tree leaf i p : Nat}

/-- A byte of the FORS digest. -/
theorem split_md {x : UInt8} (hi : i < 21) (hx : digest[0 + i]? = some x) :
    Spends (run H splitDigestBytecode) 15 ⟨[], splitLocals digest md tree i leaf p, 4, none⟩
      (· = ⟨[], splitLocals digest (md ++ [x]) tree (i + 1) leaf p, 4, none⟩) := by
  rw [Nat.zero_add] at hx
  refine ops 3 (t := ⟨[.bool (decide ((UInt64.ofNat i).toNat < (UInt64.ofNat 21).toNat))],
    splitLocals digest md tree i leaf p, 7, none⟩) rfl ?_
  refine brTrue rfl (lt_true hi (by decide)) ?_
  refine ops 3 (t := ⟨[int64 i, .vecU8 digest, .vecU8 md], splitLocals digest md tree i leaf p, 11,
    none⟩) rfl ?_
  refine op rfl (immBorrow (j := 0) false (by omega) (fun h => by cases h) hx) ?_
  refine ops 7 (t := ⟨[], [.vecU8 digest, .vecU8 (md ++ [x]), int64 tree,
    .u64 (.ofNat i + .ofNat 1), int64 leaf, int64 p, .u8 0], 4, none⟩) rfl ?_
  rw [← UInt64.ofNat_add]
  exact .done rfl

/-- A byte of the tree's index. -/
theorem split_tree {x : UInt8} (hi : i < 7) (hv : tree <<< 8 < 2 ^ 64) (hx : digest[21 + i]? = some x) :
    Spends (run H splitDigestBytecode) 20 ⟨[], splitLocals digest md tree i leaf p, 23, none⟩
      (· = ⟨[], splitLocals digest md (tree <<< 8 ||| x.toNat) (i + 1) leaf p, 23, none⟩) := by
  refine ops 3 (t := ⟨[.bool (decide ((UInt64.ofNat i).toNat < (UInt64.ofNat 7).toNat))],
    splitLocals digest md tree i leaf p, 26, none⟩) rfl ?_
  refine brTrue rfl (lt_true hi (by decide)) ?_
  exact readByte_round (c := 2) (k := 3) rfl rfl rfl rfl (by decide) hv (show 21 + i < 2 ^ 64 by omega) hx

/-- A byte of the leaf's index. -/
theorem split_leaf {x : UInt8} (hp : p < 2) (hv : leaf <<< 8 < 2 ^ 64) (hx : digest[28 + p]? = some x) :
    Spends (run H splitDigestBytecode) 20 ⟨[], splitLocals digest md tree i leaf p, 51, none⟩
      (· = ⟨[], splitLocals digest md tree i (leaf <<< 8 ||| x.toNat) (p + 1), 51, none⟩) := by
  refine ops 3 (t := ⟨[.bool (decide ((UInt64.ofNat p).toNat < (UInt64.ofNat 2).toNat))],
    splitLocals digest md tree i leaf p, 54, none⟩) rfl ?_
  refine brTrue rfl (lt_true hp (by decide)) ?_
  exact readByte_round (c := 4) (k := 5) rfl rfl rfl rfl (by decide) hv (show 28 + p < 2 ^ 64 by omega) hx

/-- From the loop of the tree's index to that of the leaf's. -/
theorem split_mask (ht : tree < 2 ^ 64) :
    Spends (run H splitDigestBytecode) 12 ⟨[], splitLocals digest md tree 7 leaf p, 23, none⟩
      (· = ⟨[], splitLocals digest md (tree &&& 18014398509481983) 7 0 0, 51, none⟩) := by
  refine ops 3 (t := ⟨[.bool (decide ((UInt64.ofNat 7).toNat < (UInt64.ofNat 7).toNat))],
    splitLocals digest md tree 7 leaf p, 26, none⟩) rfl ?_
  refine brFalse rfl lt_false ?_
  refine ops 2 (t := ⟨[int64 18014398509481983, int64 tree], splitLocals digest md tree 7 leaf p,
    45, none⟩) rfl ?_
  refine op rfl (arith64 (· &&& ·) (k := 18014398509481983) ht rfl) ?_
  generalize tree &&& 18014398509481983 = t
  exact ops 5 (t := ⟨[], splitLocals digest md t 7 0 0, 51, none⟩) rfl (.done rfl)

/-- The triple. -/
theorem split_finish (hl : leaf < 2 ^ 64) :
    Spends (run H splitDigestBytecode) 12 ⟨[], splitLocals digest md tree i leaf 2, 51, none⟩
      (Stops splitDigestBytecode [int32 (leaf &&& 511), int64 tree, .vecU8 md] []) := by
  have hmask : leaf &&& 511 < 2 ^ 64 := Nat.lt_of_le_of_lt Nat.and_le_left hl
  refine ops 3 (t := ⟨[.bool (decide ((UInt64.ofNat 2).toNat < (UInt64.ofNat 2).toNat))],
    splitLocals digest md tree i leaf 2, 54, none⟩) rfl ?_
  refine brFalse rfl lt_false ?_
  refine ops 2 (t := ⟨[int64 511, int64 leaf], splitLocals digest md tree i leaf 2, 73, none⟩) rfl ?_
  refine op rfl (arith64 (· &&& ·) (k := 511) hl rfl) ?_
  generalize leaf &&& 511 = l at hmask
  refine ops 4 (t := ⟨[int64 l, int64 tree, .vecU8 md], splitLocals digest md tree i l 2, 78, none⟩) rfl ?_
  refine op rfl (u64ToU32 _) ?_
  rw [toNat64 hmask]
  exact stops 7 rfl rfl

theorem shift_or_lt {v i : Nat} (x : UInt8) (hv : v < 2 ^ (8 * i)) : v <<< 8 ||| x.toNat < 2 ^
    (8 * (i + 1)) := by
  have hshift : v <<< 8 < 2 ^ (8 * (i + 1)) := by
    rw [Nat.shiftLeft_eq, show 8 * (i + 1) = 8 * i + 8 by omega, Nat.pow_add]
    omega
  exact Nat.or_lt_two_pow hshift (Nat.lt_of_lt_of_le x.toNat_lt (Nat.pow_le_pow_right (by decide) (by omega)))

theorem splitDigest_stops {out : Bytes × Nat × Nat} (h : (Sha2128s.splitDigest digest).res = .ok out) :
    Spends (run H splitDigestBytecode)
      (4 + ((21 - 0) * 15 + (8 + ((7 - 0) * 20 + (12 + ((2 - 0) * 20 + 12))))))
      (initialState digest) (Stops splitDigestBytecode [int32 out.2.2, int64 out.2.1, .vecU8 out.1] []) := by
  simp only [Sha2128s.splitDigest, Comp.bind_iff, Move.add_ok, Move.mul_ok, Move.sub_ok,
    Move.shl_ok, Move.cast_ok, Comp.pure_iff] at h
  obtain ⟨_, ⟨-, rfl⟩, _, ⟨-, rfl⟩, _, ⟨-, rfl⟩, _, ⟨-, rfl⟩, _, ⟨-, rfl⟩, _, ⟨-, rfl⟩, m, hm, t,
    ht, _, ⟨-, rfl⟩, _, ⟨-, rfl⟩, _, ⟨-, rfl⟩, l, hl, _, ⟨-, rfl⟩, _, ⟨-, rfl⟩, _, ⟨-, rfl⟩, rfl⟩ := h
  have hmd : Spends (run H splitDigestBytecode) ((21 - 0) * 15) ⟨[], splitLocals digest [] 0 0 0 0, 4, none⟩
      (· = ⟨[], splitLocals digest m 0 21 0 0, 4, none⟩) := by
    refine Fuel.Spends.whileLt (fun i md (s : State) => s = ⟨[], splitLocals digest md 0 i 0 0, 4,
      none⟩) (Nat.zero_le _) (fun i v v' s _ hi hr _ hs => ?_) hm rfl
    subst hs
    simp only [Comp.bind_iff, Move.add_ok, Move.borrow_iff, Comp.pure_iff] at hr
    obtain ⟨x, ⟨_, ⟨-, rfl⟩, hx⟩, rfl⟩ := hr
    exact split_md hi hx
  have htree : Spends (run H splitDigestBytecode) ((7 - 0) * 20) ⟨[], splitLocals digest m 0 0 0 0, 23, none⟩
      fun s => t < 2 ^ (8 * 7) ∧ s = ⟨[], splitLocals digest m t 7 0 0, 23, none⟩ := by
    refine Fuel.Spends.whileLt (fun i t (s : State) => t < 2 ^ (8 * i) ∧
      s = ⟨[], splitLocals digest m t i 0 0, 23, none⟩)
      (Nat.zero_le _) (fun i v v' s _ hi hr _ hs => ?_) ht ⟨by decide, rfl⟩
    obtain ⟨hv, rfl⟩ := hs
    simp only [Comp.bind_iff, Move.add_ok, Move.shl_ok, Move.borrow_iff, Comp.pure_iff] at hr
    obtain ⟨_, ⟨-, rfl⟩, _, ⟨-, rfl⟩, x, hx, rfl⟩ := hr
    have hnext := shift_or_lt x hv
    have hlt : v <<< 8 < 2 ^ 64 := by
      refine Nat.lt_of_le_of_lt Nat.left_le_or
        (Nat.lt_of_lt_of_le hnext (Nat.pow_le_pow_right (by decide) ?_))
      omega
    rw [Nat.mod_eq_of_lt hlt]
    exact (split_tree hi hlt hx).mono (Nat.le_refl _) fun t ht => ⟨hnext, ht⟩
  have hleaf : ∀ {u : Nat}, Spends (run H splitDigestBytecode) ((2 - 0) * 20)
    ⟨[], splitLocals digest m u 7 0 0, 51, none⟩
      fun s => l < 2 ^ (8 * 2) ∧ s = ⟨[], splitLocals digest m u 7 l 2, 51, none⟩ := fun {u} => by
    refine Fuel.Spends.whileLt (fun p l (s : State) => l < 2 ^ (8 * p) ∧
      s = ⟨[], splitLocals digest m u 7 l p, 51, none⟩)
      (Nat.zero_le _) (fun p v v' s _ hp hr _ hs => ?_) hl ⟨by decide, rfl⟩
    obtain ⟨hv, rfl⟩ := hs
    simp only [Comp.bind_iff, Move.add_ok, Move.shl_ok, Move.borrow_iff, Comp.pure_iff] at hr
    obtain ⟨_, ⟨-, rfl⟩, _, ⟨-, rfl⟩, _, ⟨-, rfl⟩, x, hx, rfl⟩ := hr
    have hnext := shift_or_lt x hv
    have hlt : v <<< 8 < 2 ^ 32 := by
      refine Nat.lt_of_le_of_lt Nat.left_le_or
        (Nat.lt_of_lt_of_le hnext (Nat.pow_le_pow_right (by decide) ?_))
      omega
    rw [Nat.mod_eq_of_lt hlt]
    exact (split_leaf hp (Nat.lt_trans hlt (by decide)) hx).mono (Nat.le_refl _) fun t ht => ⟨hnext, ht⟩
  refine ops 4 (t := ⟨[], splitLocals digest [] 0 0 0 0, 4, none⟩) rfl ?_
  refine (hmd.bind (n := 8 + ((7 - 0) * 20 + (12 + ((2 - 0) * 20 + 12)))) fun s hs => ?_).mono
    (by decide) fun _ h => h
  subst hs
  refine ops 3 (t := ⟨[.bool (decide ((UInt64.ofNat 21).toNat < (UInt64.ofNat 21).toNat))],
    splitLocals digest m 0 21 0 0, 7, none⟩) rfl ?_
  refine brFalse rfl lt_false ?_
  refine ops 4 (t := ⟨[], splitLocals digest m 0 0 0 0, 23, none⟩) rfl ?_
  refine (htree.bind (n := 12 + ((2 - 0) * 20 + 12)) fun s hs => ?_).mono (by decide) fun _ h => h
  obtain ⟨ht56, rfl⟩ := hs
  refine (split_mask (Nat.lt_trans ht56 (by decide))).bind fun s hs => ?_
  subst hs
  refine hleaf.bind fun s hs => ?_
  obtain ⟨hl16, rfl⟩ := hs
  exact split_finish (Nat.lt_trans hl16 (by decide))

theorem splitDigest_eq (h : digest.length = 30) : splitDigestMoveBC H digest =
    Fips205.splitDigest digest := by
  have hmove := congrArg Comp.res (Proof.Sha2128s.splitDigest_eq h)
  obtain ⟨t, hrun, -, hs, -⟩ := returns_of_stops (by decide) (splitDigest_stops (H := H) hmove)
  have hfinal : runDefault H splitDigestBytecode (initialState digest) = t := hrun
  rw [splitDigestMoveBC, hfinal, hs, Proof.Fips205.splitDigest_eq h]
  have htree : (Spec.Slh128s.split digest).tree < 2 ^ 64 :=
    Nat.lt_trans (Nat.mod_lt _ (by decide)) (by decide)
  have hleaf : (Spec.Slh128s.split digest).leaf < 2 ^ 32 :=
    Nat.lt_trans (Nat.mod_lt _ (by decide)) (by decide)
  exact congrArg (Prod.mk _) (congrArg₂ Prod.mk (toNat64 htree) (toNat32 hleaf))

end SplitDigest

/-! ## The message digest -/

section Hmsg

open Hmsg

/-- The opcodes of a byte of the counter. -/
def ctrByte (shift : Nat) : List Opcode :=
  [.CopyLoc 9, .CopyLoc 8, .LdU64 (.ofNat shift), .Shr, .LdU64 255, .BitAnd,
    .CallNative "u64_to_u8" 1, .VecPushBack, .StLoc 9]

def hmsgHead : List Opcode := [
  .CopyLoc 0, .CopyLoc 1, .VecAppend, .CopyLoc 2, .VecAppend, .CopyLoc 3, .VecAppend,
  .CallNative "sha2_256" 1, .StLoc 6, .CopyLoc 0, .CopyLoc 1, .VecAppend, .CopyLoc 6, .VecAppend, .StLoc 7,
  .VecEmpty, .StLoc 5, .LdU64 0, .StLoc 8,
  .CopyLoc 5, .VecLen, .CopyLoc 4, .Lt, .BrFalse 94,
  .VecEmpty, .StLoc 9]

def hmsgTail : List Opcode := [
  .CopyLoc 7, .CopyLoc 9, .VecAppend, .CallNative "sha2_256" 1, .StLoc 10, .LdU64 0, .StLoc 11,
  .CopyLoc 11, .LdU64 32, .Lt, .BrFalse 89,
  .CopyLoc 5, .VecLen, .CopyLoc 4, .Lt, .BrFalse 89,
  .CopyLoc 5, .CopyLoc 10, .CopyLoc 11, .VecImmBorrow, .VecPushBack, .StLoc 5,
  .CopyLoc 11, .LdU64 1, .Add, .StLoc 11, .Branch 69,
  .CopyLoc 8, .LdU64 1, .Add, .StLoc 8, .Branch 19,
  .CopyLoc 5, .Ret]

/-- The bytecode with the targets of its jumps. -/
def hmsgCode : Bytecode := ⟨hmsgHead ++ ctrByte 24 ++ ctrByte 16 ++ ctrByte 8 ++ ctrByte 0 ++ hmsgTail⟩

theorem hmsgBytecode_eq : hmsgBytecode = hmsgCode := rfl

def hmsgLocals (r seed root m out inner s : Bytes) (counter : Nat) (ctr block : Bytes) (j : Nat) :
    List Value :=
  [.vecU8 r, .vecU8 seed, .vecU8 root, .vecU8 m, int64 30, .vecU8 out, .vecU8 inner, .vecU8 s,
    int64 counter, .vecU8 ctr, .vecU8 block, int64 j]

variable {r seed root m out inner s ctr block : Bytes} {counter j : Nat}

theorem hmsg_ctr {i : Nat} (hi : i < 4) (hc : counter < 2 ^ 64) :
    Spends (run H hmsgCode) 9 ⟨[], hmsgLocals r seed root m out inner s counter ctr block j, 26 + 9 * i, none⟩
      (· = ⟨[], hmsgLocals r seed root m out inner s counter
        (ctr ++ [UInt8.ofNat (counter >>> (24 - 8 * i))]) block j,
        26 + 9 * (i + 1), none⟩) := by
  obtain ⟨rest, hcode⟩ : ∃ rest, hmsgCode.toList.drop (26 + 9 * i) = ctrByte (24 - 8 * i) ++ rest := by
    obtain rfl | rfl | rfl | rfl : i = 0 ∨ i = 1 ∨ i = 2 ∨ i = 3 := by omega
    · exact ⟨_, rfl⟩
    · exact ⟨_, rfl⟩
    · exact ⟨_, rfl⟩
    · exact ⟨_, rfl⟩
  rw [show 26 + 9 * (i + 1) = 26 + 9 * i + 9 by omega]
  generalize 26 + 9 * i = pc at hcode
  refine op (drop_getElem? 0 hcode rfl) (copyLoc rfl) ?_
  refine op (drop_getElem? 1 hcode rfl) (copyLoc rfl) ?_
  refine op (drop_getElem? 2 hcode rfl) (ldU64 _) ?_
  refine op (drop_getElem? 3 hcode rfl) (arith64 (· >>> ·) hc (asNat64 (by omega))) ?_
  refine op (drop_getElem? 4 hcode rfl) (ldU64 _) ?_
  refine op (drop_getElem? 5 hcode rfl)
    (arith64 (· &&& ·) (k := 255) (Nat.lt_of_le_of_lt (Nat.shiftRight_le ..) hc) rfl) ?_
  refine op (drop_getElem? 6 hcode rfl) (u64ToU8 _) ?_
  rw [int8, ofNat_and_255]
  refine op (drop_getElem? 7 hcode rfl) rfl ?_
  exact op (n := 0) (drop_getElem? 8 hcode rfl) (stLoc (show 9 < 12 by decide)) (.done rfl)

/-- The counter, big-endian. -/
theorem hmsg_counter (hc : counter < 2 ^ 64) :
    Spends (run H hmsgCode) (4 * 9) ⟨[], hmsgLocals r seed root m out inner s counter [] block j, 26, none⟩
      (· = ⟨[], hmsgLocals r seed root m out inner s counter (be 4 counter) block j, 62, none⟩) := by
  refine Fuel.Spends.loop (fun i (t : State) => t = ⟨[], hmsgLocals r seed root m out inner s counter
    (be i (counter >>> (8 * (4 - i)))) block j, 26 + 9 * i, none⟩) (fun i t hi ht => ?_) rfl
  subst ht
  rw [be_succ_right, ← Nat.shiftRight_add, show 8 * (4 - (i + 1)) + 8 = 8 * (4 - i) by omega,
    show 8 * (4 - (i + 1)) = 24 - 8 * i by omega]
  exact hmsg_ctr hi hc

/-- A byte of the block. -/
theorem hmsg_round {x : UInt8} (hj : j < 32) (hout : out.length < 30) (hx : block[j]? = some x) :
    Spends (run H hmsgCode) 20 ⟨[], hmsgLocals r seed root m out inner s counter ctr block j, 69, none⟩
      (· = ⟨[], hmsgLocals r seed root m (out ++ [x]) inner s counter ctr block (j + 1), 69, none⟩) := by
  refine ops 3 (t := ⟨[.bool (decide ((UInt64.ofNat j).toNat < (UInt64.ofNat 32).toNat))],
    hmsgLocals r seed root m out inner s counter ctr block j, 72, none⟩) rfl ?_
  refine brTrue rfl (lt_true hj (by decide)) ?_
  refine ops 4 (t := ⟨[.bool (decide ((UInt64.ofNat out.length).toNat < (UInt64.ofNat 30).toNat))],
    hmsgLocals r seed root m out inner s counter ctr block j, 77, none⟩) rfl ?_
  refine brTrue rfl (lt_true hout (by decide)) ?_
  refine ops 3 (t := ⟨[int64 j, .vecU8 block, .vecU8 out],
    hmsgLocals r seed root m out inner s counter ctr block j, 81, none⟩) rfl ?_
  refine op rfl (immBorrow (j := 0) false (by omega) (fun h => by cases h) hx) ?_
  refine ops 7 (t := ⟨[], [.vecU8 r, .vecU8 seed, .vecU8 root, .vecU8 m, int64 30,
    .vecU8 (out ++ [x]), .vecU8 inner, .vecU8 s, int64 counter, .vecU8 ctr, .vecU8 block,
    .u64 (.ofNat j + .ofNat 1)], 69, none⟩) rfl ?_
  rw [← UInt64.ofNat_add]
  exact .done rfl

/-- The exit from the loops, once there are 30 bytes. -/
theorem hmsg_finish (hj : j < 32) (hout : out.length = 30) :
    Spends (run H hmsgCode) 20 ⟨[], hmsgLocals r seed root m out inner s 0 ctr block j, 69, none⟩
      (Stops hmsgCode [.vecU8 out] []) := by
  refine ops 3 (t := ⟨[.bool (decide ((UInt64.ofNat j).toNat < (UInt64.ofNat 32).toNat))],
    hmsgLocals r seed root m out inner s 0 ctr block j, 72, none⟩) rfl ?_
  refine brTrue rfl (lt_true hj (by decide)) ?_
  refine ops 4 (t := ⟨[.bool (decide ((UInt64.ofNat out.length).toNat < (UInt64.ofNat 30).toNat))],
    hmsgLocals r seed root m out inner s 0 ctr block j, 77, none⟩) rfl ?_
  refine brFalse rfl (by rw [hout]; exact lt_false) ?_
  refine ops 5 (t := ⟨[], hmsgLocals r seed root m out inner s 1 ctr block j, 19, none⟩) rfl ?_
  refine ops 4 (t := ⟨[.bool (decide ((UInt64.ofNat out.length).toNat < (UInt64.ofNat 30).toNat))],
    hmsgLocals r seed root m out inner s 1 ctr block j, 23, none⟩) rfl ?_
  refine brFalse rfl (by rw [hout]; exact lt_false) ?_
  exact ops 1 (t := ⟨[.vecU8 out], hmsgLocals r seed root m out inner s 1 ctr block j, 95, none⟩)
    rfl (stops 12 rfl rfl)

/-- The seed of MGF1. -/
theorem hmsg_seed (r seed root m : Bytes) :
    Spends (run H hmsgCode) 19 ⟨[], hmsgLocals r seed root m [] [] [] 0 [] [] 0, 0, none⟩
      (· = ⟨[], hmsgLocals r seed root m [] (H (r ++ seed ++ root ++ m))
        (r ++ seed ++ H (r ++ seed ++ root ++ m)) 0 [] [] 0,
        19, none⟩) := by
  refine ops 3 (t := ⟨[.vecU8 (r ++ seed)], hmsgLocals r seed root m [] [] [] 0 [] [] 0, 3, none⟩) rfl ?_
  refine ops 4 (t := ⟨[.vecU8 (r ++ seed ++ root ++ m)], hmsgLocals r seed root m [] [] [] 0 []
    [] 0, 7, none⟩) rfl ?_
  refine op rfl (sha256 _) ?_
  generalize H (r ++ seed ++ root ++ m) = inner
  refine ops 1 (t := ⟨[], hmsgLocals r seed root m [] inner [] 0 [] [] 0, 9, none⟩) rfl ?_
  refine ops 6 (t := ⟨[], hmsgLocals r seed root m [] inner (r ++ seed ++ inner) 0 [] [] 0, 15, none⟩) rfl ?_
  exact ops 4 (t := ⟨[], hmsgLocals r seed root m [] inner (r ++ seed ++ inner) 0 [] [] 0, 19,
    none⟩) rfl (.done rfl)

theorem hmsgMoveBC_eq (r seed root m : Bytes) : hmsgMoveBC H r seed root m =
    Fips205.hmsg H r seed root m := by
  rw [Proof.Fips205.hmsg_eq, Spec.Slh128s.hmsg, Spec.Slh128s.mgf1_eq_take H _ (k := 1) (by decide),
    Spec.Slh128s.mgf1Stream_succ, hmsgMoveBC, hmsgBytecode_eq]
  have hrun : Spends (run H hmsgCode) (19 + (7 + (4 * 9 + (7 + (30 * 20 + 20)))))
      ⟨[], hmsgLocals r seed root m [] [] [] 0 [] [] 0, 0, none⟩
      (Stops hmsgCode [.vecU8 ((H (Spec.Slh128s.hmsgSeed H r seed root m ++ be 4 0)).take 30)] []) := by
    refine (hmsg_seed r seed root m).bind fun t ht => ?_
    subst ht
    rw [Spec.Slh128s.hmsgSeed, Spec.Slh128s.innerInput]
    generalize H (r ++ seed ++ root ++ m) = inner
    generalize r ++ seed ++ inner = s
    refine ops 4 (t := ⟨[.bool true], hmsgLocals r seed root m [] inner s 0 [] [] 0, 23, none⟩) rfl ?_
    refine brTrue rfl rfl ?_
    refine ops 2 (t := ⟨[], hmsgLocals r seed root m [] inner s 0 [] [] 0, 26, none⟩) rfl ?_
    refine ((hmsg_counter (show 0 < 2 ^ 64 by decide)).bind (n := 7 + (30 * 20 + 20))
      fun t ht => ?_).mono (by decide) fun _ h => h
    subst ht
    generalize be 4 0 = ctr
    refine ops 3 (t := ⟨[.vecU8 (s ++ ctr)], hmsgLocals r seed root m [] inner s 0 ctr [] 0, 65, none⟩) rfl ?_
    refine op rfl (sha256 _) ?_
    have hlen := H.length_apply (s ++ ctr)
    generalize H (s ++ ctr) = block at hlen
    refine ops 3 (t := ⟨[], hmsgLocals r seed root m [] inner s 0 ctr block 0, 69, none⟩) rfl ?_
    have hloop : Spends (run H hmsgCode) (30 * 20)
      ⟨[], hmsgLocals r seed root m [] inner s 0 ctr block 0, 69, none⟩
        (· = ⟨[], hmsgLocals r seed root m (block.take 30) inner s 0 ctr block 30, 69, none⟩) := by
      refine Fuel.Spends.loop (fun j (t : State) =>
        t = ⟨[], hmsgLocals r seed root m (block.take j) inner s 0 ctr block j, 69,
        none⟩) (fun j t hj ht => ?_) rfl
      subst ht
      have hjb : j < block.length := by omega
      rw [List.take_succ_eq_append_getElem hjb]
      exact hmsg_round (by omega) (by rw [List.length_take]; omega) (List.getElem?_eq_getElem hjb)
    refine (hloop.bind (n := 20) fun t ht => ?_).mono (by decide) fun _ h => h
    subst ht
    exact hmsg_finish (by decide) (by rw [List.length_take]; omega)
  exact topBytes_eq (by decide) hrun

end Hmsg

end SuiPq.Proof.MoveVm.Assembled
