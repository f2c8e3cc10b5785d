import SuiPq.Proof.MoveVm.Source.Hypertree

/-!
# The bytecodes of FORS and of the digest

`extract_fors_indices`, `fors_pk_from_sig` and `split_digest`: where the Move
function returns, its bytecode does (`extractForsIndices_returns`,
`forsPkFromSig_returns`, `splitDigest_returns`).
-/

namespace SuiPq.Proof.MoveVm.Source

set_option maxRecDepth 10000

open SuiPq.Impl SuiPq.Impl.MoveVm
open SuiPq.Fuel (Spends)

variable {H : Hash}

section ExtractForsIndices

open ExtractForsIndicesReal

def indicesLocals (byRef : Bool) (md : Bytes) (b bit bitIdx bitOff i out v : Value) : List Value :=
  [passed byRef 8 md, b, bit, bitIdx, bitOff, i, out, v] ++ held byRef md

variable {byRef : Bool} {md : Bytes} {bit bitIdx bitOff out i w : Value}

/-- The bit that a round takes. -/
theorem indices_bit {o b : Nat} {x : UInt8} (ho : o + b < 2 ^ 64) (hx : md[(o + b) >>> 3]? = some x) :
    Spends (run H extractForsIndicesRealBytecode) 21
      ⟨[], indicesLocals byRef md (int64 b) bit bitIdx (int64 o) i out w, 20, none⟩
      (· = ⟨[], indicesLocals byRef md (int64 b) (int32 (x.toNat >>> (7 - (o + b &&& 7)) &&& 1))
        (int64 (o + b)) (int64 o) i
        out w, 41, none⟩) := by
  refine ops 2 (t := ⟨[int64 b, int64 o], indicesLocals byRef md (int64 b) bit bitIdx
    (int64 o) i out w, 22, none⟩) rfl ?_
  refine op rfl (arith64 (· + ·) (by omega) (asNat64 (by omega))) ?_
  generalize o + b = n at ho hx
  refine ops 4 (t := ⟨[int8 3, int64 n, passed byRef 8 md],
    indicesLocals byRef md (int64 b) bit (int64 n) (int64 o) i out w, 27, none⟩) rfl ?_
  refine op rfl (arith64 (· >>> ·) (k := 3) ho rfl) ?_
  refine op rfl (immBorrow _ (Nat.lt_of_le_of_lt (Nat.shiftRight_le ..) ho) (fun h => by subst h; rfl) hx) ?_
  have hlt : n &&& 7 < 2 ^ 3 := Nat.and_lt_two_pow _ (by decide)
  refine ops 4 (t := ⟨[int64 7, int64 n, int8 7, .u8 x],
    indicesLocals byRef md (int64 b) bit (int64 n) (int64 o) i out w, 33, none⟩) rfl ?_
  refine op rfl (arith64 (· &&& ·) (k := 7) ho rfl) ?_
  refine op rfl (castU8 (asNat64 (by omega))) ?_
  refine op rfl (arith8 (· - ·) (a := 7) (by decide) (asNat8 (by omega))) ?_
  rw [← x.ofNat_toNat]
  refine op rfl (arith8 (· >>> ·) x.toNat_lt (asNat8 (by omega))) ?_
  rw [x.ofNat_toNat]
  have hlow : x.toNat >>> (7 - (n &&& 7)) < 2 ^ 8 := Nat.lt_of_le_of_lt (Nat.shiftRight_le ..) x.toNat_lt
  generalize x.toNat >>> (7 - (n &&& 7)) = d at hlow
  refine ops 1 (t := ⟨[int8 1, int8 d], indicesLocals byRef md (int64 b) bit (int64 n)
    (int64 o) i out w, 38, none⟩) rfl ?_
  refine op rfl (arith8 (· &&& ·) (k := 1) hlow rfl) ?_
  refine op rfl (castU32 (asNat8 (Nat.lt_of_le_of_lt Nat.and_le_left hlow))) ?_
  exact ops 1 (t := ⟨[], indicesLocals byRef md (int64 b) (int32 (d &&& 1)) (int64 n)
    (int64 o) i out w, 41, none⟩) rfl (.done rfl)

/-- The bit, behind those before it. -/
theorem indices_push {b n v : Nat} (hv : v < 2 ^ 32) (hn : n < 2 ^ 32) :
    Spends (run H extractForsIndicesRealBytecode) 11
      ⟨[], indicesLocals byRef md (int64 b) (int32 n) bitIdx bitOff i out (int32 v), 41, none⟩
      (· = ⟨[], indicesLocals byRef md (int64 (b + 1)) (int32 n) bitIdx bitOff i out
        (int32 (v <<< 1 % 2 ^ 32 ||| n)), 15,
        none⟩) := by
  have hshift : int32 (v <<< 1) = int32 (v <<< 1 % 2 ^ 32) := congrArg Value.u32 UInt32.ofNat_mod_size.symm
  refine ops 2 (t := ⟨[int8 1, int32 v], indicesLocals byRef md (int64 b) (int32 n) bitIdx bitOff i
    out (int32 v), 43, none⟩) rfl ?_
  refine op rfl (arith32 (· <<< ·) (k := 1) hv rfl) ?_
  rw [hshift]
  refine ops 1 (t := ⟨[int32 n, int32 (v <<< 1 % 2 ^ 32)],
    indicesLocals byRef md (int64 b) (int32 n) bitIdx bitOff i out (int32 v), 45, none⟩) rfl ?_
  refine op rfl (arith32 (· ||| ·) (Nat.mod_lt _ (by decide)) (asNat32 hn)) ?_
  generalize v <<< 1 % 2 ^ 32 ||| n = v'
  refine ops 6 (t := ⟨[], indicesLocals byRef md (.u64 (.ofNat b + .ofNat 1))
    (int32 n) bitIdx bitOff i out (int32 v'), 15,
    none⟩) rfl ?_
  rw [← UInt64.ofNat_add]
  exact .done rfl

/-- The states between the bits of an index. -/
def bitsInv (byRef : Bool) (md : Bytes) (o : Nat) (i out : Value) (b v : Nat) (t : State) : Prop :=
  v < 2 ^ 32 ∧ ∃ bit bitIdx,
    t = ⟨[], indicesLocals byRef md (int64 b) bit bitIdx (int64 o) i out (int32 v), 15, none⟩

theorem indices_round {o b v v' : Nat} {s : State} (hb : b < 12)
    (hs : bitsInv byRef md o i out b v s) (h : (do
      let bitIdx ← Move.add 64 o b
      let x ← Move.borrow md (← Move.shr 64 bitIdx 3)
      let s ← Move.sub 7 (← Move.cast 8 (bitIdx &&& 7))
      let bit := (← Move.shr 8 x.toNat s) &&& 1
      let v ← Move.shl 32 v 1
      pure (v ||| bit) : MoveFn Nat).res = .ok v') :
    Spends (run H extractForsIndicesRealBytecode) 37 s (bitsInv byRef md o i out (b + 1) v') := by
  obtain ⟨hv, bit, bitIdx, rfl⟩ := hs
  simp only [Comp.bind_iff, Move.add_ok, Move.shr_ok, Move.borrow_iff, Move.cast_ok, Move.sub_ok, Move.shl_ok,
    Comp.pure_iff] at h
  obtain ⟨_, ⟨ho, rfl⟩, _, ⟨-, rfl⟩, x, hx, _, ⟨-, rfl⟩, _, ⟨-, rfl⟩, _, ⟨-, rfl⟩, _, ⟨-, rfl⟩, rfl⟩ := h
  have hbit : x.toNat >>> (7 - (o + b &&& 7)) &&& 1 < 2 ^ 32 :=
    Nat.lt_of_le_of_lt Nat.and_le_right (by decide)
  refine ops 3 (t := ⟨[.bool (decide ((UInt64.ofNat b).toNat < (UInt64.ofNat 12).toNat))],
    indicesLocals byRef md (int64 b) bit bitIdx (int64 o) i out (int32 v), 18, none⟩) rfl ?_
  refine brTrue rfl (lt_true hb (by decide)) ?_
  refine ops 1 (t := ⟨[], indicesLocals byRef md (int64 b) bit bitIdx (int64 o) i out (int32 v), 20,
    none⟩) rfl ?_
  refine ((indices_bit ho hx).bind (n := 11) fun t ht => ?_).mono (by decide) fun _ h => h
  subst ht
  refine (indices_push hv hbit).mono (Nat.le_refl _) fun t ht => ⟨?_, _, _, ht⟩
  exact Nat.or_lt_two_pow (Nat.mod_lt _ (by decide)) hbit

/-- The states between the indices. -/
def indicesInv (byRef : Bool) (md : Bytes) (i : Nat) (x : Nat × List Nat) (t : State) : Prop :=
  x.1 < 2 ^ 64 ∧ ∃ b bit bitIdx v,
    t = ⟨[], indicesLocals byRef md b bit bitIdx (int64 x.1) (int64 i) (ints x.2) v, 6, none⟩

theorem indices_index {i : Nat} {x x' : Nat × List Nat} {s : State} (hi : i < 14)
    (hs : indicesInv byRef md i x s) (h : (do
      let v ← Move.whileLt 64 0 Sha2128s.A 0 fun b v => do
        let bitIdx ← Move.add 64 x.1 b
        let x ← Move.borrow md (← Move.shr 64 bitIdx 3)
        let s ← Move.sub 7 (← Move.cast 8 (bitIdx &&& 7))
        let bit := (← Move.shr 8 x.toNat s) &&& 1
        let v ← Move.shl 32 v 1
        pure (v ||| bit)
      let bitOff ← Move.add 64 x.1 Sha2128s.A
      pure (bitOff, x.2 ++ [v]) : MoveFn (Nat × List Nat)).res = .ok x') :
    Spends (run H extractForsIndicesRealBytecode) 500 s (indicesInv byRef md (i + 1) x') := by
  obtain ⟨o, out⟩ := x
  obtain ⟨ho, b, bit, bitIdx, w, rfl⟩ := hs
  obtain ⟨v, hv, h⟩ := Comp.bind_ok h
  obtain ⟨_, hadd, h⟩ := Comp.bind_ok h
  obtain ⟨hlt, rfl⟩ := Move.add_ok.mp hadd
  obtain rfl := Comp.pure_iff.mp h
  dsimp only at ho hv hlt ⊢
  have hbits : Spends (run H extractForsIndicesRealBytecode) ((12 - 0) * 37)
      ⟨[], indicesLocals byRef md (int64 0) bit bitIdx (int64 o) (int64 i) (ints out) (int32 0), 15, none⟩
      (bitsInv byRef md o (int64 i) (ints out) 12 v) :=
    Fuel.Spends.whileLt (bitsInv byRef md o (int64 i) (ints out)) (Nat.zero_le _)
      (fun b v v' s _ hb hr _ hs => indices_round hb hs hr) hv ⟨by decide, _, _, rfl⟩
  refine ops 3 (t := ⟨[.bool (decide ((UInt64.ofNat i).toNat < (UInt64.ofNat 14).toNat))],
    indicesLocals byRef md b bit bitIdx (int64 o) (int64 i) (ints out) w, 9, none⟩) rfl ?_
  refine brTrue rfl (lt_true hi (by decide)) ?_
  refine ops 1 (t := ⟨[], indicesLocals byRef md b bit bitIdx (int64 o) (int64 i) (ints out) w, 11,
    none⟩) rfl ?_
  refine ops 4 (t := ⟨[], indicesLocals byRef md (int64 0) bit bitIdx (int64 o) (int64 i) (ints out)
    (int32 0), 15, none⟩) rfl ?_
  refine (hbits.bind (n := 16) fun t ht => ?_).mono (by decide) fun _ h => h
  obtain ⟨-, bit, bitIdx, rfl⟩ := ht
  refine ops 3 (t := ⟨[.bool (decide ((UInt64.ofNat 12).toNat < (UInt64.ofNat 12).toNat))],
    indicesLocals byRef md (int64 12) bit bitIdx (int64 o) (int64 i) (ints out) (int32 v), 18, none⟩) rfl ?_
  refine brFalse rfl lt_false ?_
  refine ops 7 (t := ⟨[], indicesLocals byRef md (int64 12) bit bitIdx (.u64 (.ofNat o + .ofNat 12)) (int64 i)
    (.vecU32 (out.map UInt32.ofNat ++ [UInt32.ofNat v])) (int32 v), 59, none⟩) rfl ?_
  rw [← UInt64.ofNat_add, append_ints]
  refine ops 5 (t := ⟨[], indicesLocals byRef md (int64 12) bit bitIdx (int64 (o + 12))
    (.u64 (.ofNat i + .ofNat 1)) (ints (out ++ [v])) (int32 v), 6, none⟩) rfl ?_
  rw [← UInt64.ofNat_add]
  exact .done ⟨hlt, _, _, _, _, rfl⟩

theorem extractForsIndices_returns (byRef : Bool) {md : Bytes} {ns : List Nat} {a b c d e f g : Value}
    (h : (Sha2128s.extractForsIndices md).res = .ok ns) :
    Returns H extractForsIndicesRealBytecode (indicesLocals byRef md a b c d e f g) [ints ns]
    (held byRef md) := by
  obtain ⟨x, hx, h⟩ := Comp.bind_ok h
  obtain rfl := Comp.pure_iff.mp h
  have hloop : Spends (run H extractForsIndicesRealBytecode) ((14 - 0) * 500)
      ⟨[], indicesLocals byRef md a b c (int64 0) (int64 0) (ints []) g, 6, none⟩
        (indicesInv byRef md 14 x) :=
    Fuel.Spends.whileLt (indicesInv byRef md) (Nat.zero_le _) (fun i x x' s _ hi hr _ hs =>
      indices_index hi hs hr) hx ⟨by decide, _, _, _, _, rfl⟩
  refine returns_of_stops (n := 6 + ((14 - 0) * 500 + 8)) (by decide) ?_
  refine ops 6 (t := ⟨[], indicesLocals byRef md a b c (int64 0) (int64 0) (ints []) g, 6, none⟩) rfl ?_
  refine (hloop.bind (n := 8) fun t ht => ?_).mono (by decide) fun _ h => h
  obtain ⟨-, a, b, c, g, rfl⟩ := ht
  refine ops 3 (t := ⟨[.bool (decide ((UInt64.ofNat 14).toNat < (UInt64.ofNat 14).toNat))],
    indicesLocals byRef md a b c (int64 x.1) (int64 14) (ints x.2) g, 9, none⟩) rfl ?_
  refine brFalse rfl lt_false ?_
  exact ops 3 (t := ⟨[ints x.2], indicesLocals byRef md a b c (int64 x.1) (int64 14) (ints x.2) g,
    67, none⟩) rfl (stops 8 rfl rfl)

end ExtractForsIndices

section ForsPkFromSig

open ForsPkFromSigReal

/-- The locals of `fors_pk_from_sig` that the levels of a tree leave alone. -/
structure ForsFrame where
  (sig md pre adrs : Bytes)
  (idx indices leafIdx off rootsAdrs roots sk : Value)

def forsLocals (c : ForsFrame) (auth bit buf cur h i j leaf node nodes k parent : Value) : List Value :=
  [.vecU8 c.sig, .vecU8 c.md, .vecU8 c.pre, .locRef 24, auth, bit, buf, int64 208, cur, h, i, c.idx,
    c.indices, j, leaf, c.leafIdx, node, nodes, c.off, k, parent, c.rootsAdrs, c.roots, c.sk, .vecU8 c.adrs]

variable {c : ForsFrame} {auth bit buf cur h i j leaf node nodes k parent : Value}

/-- The address of a level. -/
theorem fors_address {la a₁ a₂ : Bytes} {i j cur : Nat} (hi : i < 14) (hj : j < 12) (hc : cur < 2 ^ 32)
    (h₁ : (Sha2128s.adrsSetTreeHeight la (j + 1)).res = .ok a₁)
    (hlt : i * (1 <<< (12 - j - 1) % 2 ^ 32) + cur >>> 1 < 2 ^ 32)
    (h₂ : (Sha2128s.adrsSetTreeIndex a₁ (i * (1 <<< (12 - j - 1) % 2 ^ 32) + cur >>> 1)).res = .ok a₂) :
    Spends (run H forsPkFromSigRealBytecode) 32
      ⟨[], forsLocals c auth bit buf (int32 cur) h (int64 i) (int64 j) (.vecU8 la) node nodes
        k parent, 70, none⟩
      fun t => ∃ nodes parent, t = ⟨[], forsLocals c auth bit buf (int32 cur) h (int64 i) (int64 j)
        (.vecU8 a₂) node nodes k
        parent, 102, none⟩ := by
  have hshift : int32 (1 <<< (12 - j - 1)) = int32 (1 <<< (12 - j - 1) % 2 ^ 32) :=
    congrArg Value.u32 UInt32.ofNat_mod_size.symm
  refine ops 3 (t := ⟨[.bool (decide ((UInt64.ofNat j).toNat < (UInt64.ofNat 12).toNat))],
    forsLocals c auth bit buf (int32 cur) h (int64 i) (int64 j) (.vecU8 la) node nodes k parent, 73,
    none⟩) rfl ?_
  refine brTrue rfl (lt_true hj (by decide)) ?_
  refine ops 1 (t := ⟨[], forsLocals c auth bit buf (int32 cur) h (int64 i) (int64 j)
    (.vecU8 la) node nodes k parent, 75, none⟩) rfl ?_
  refine ops 2 (t := ⟨[int64 j, .locRef 14],
    forsLocals c auth bit buf (int32 cur) h (int64 i) (int64 j) (.vecU8 la) node nodes k parent, 77,
    none⟩) rfl ?_
  refine op rfl (castU32 (asNat64 (by omega))) ?_
  refine ops 1 (t := ⟨[int32 1, int32 j, .locRef 14],
    forsLocals c auth bit buf (int32 cur) h (int64 i) (int64 j) (.vecU8 la) node nodes k parent, 79,
    none⟩) rfl ?_
  refine op rfl (arith32 (· + ·) (k := 1) (by omega) rfl) ?_
  refine call (M := forsLocals c auth bit buf (int32 cur) h (int64 i) (int64 j)
    (.vecU8 a₁) node nodes k parent) rfl
    (adrsSetTreeHeight_returns (by omega) h₁) rfl rfl rfl rfl ?_
  refine ops 3 (t := ⟨[int64 j, int64 12, int32 1],
    forsLocals c auth bit buf (int32 cur) h (int64 i) (int64 j) (.vecU8 a₁) node nodes k parent, 84,
    none⟩) rfl ?_
  refine op rfl (arith64 (· - ·) (a := 12) (by decide) (asNat64 (by omega))) ?_
  refine ops 1 (t := ⟨[int64 1, int64 (12 - j), int32 1],
    forsLocals c auth bit buf (int32 cur) h (int64 i) (int64 j) (.vecU8 a₁) node nodes k parent, 86,
    none⟩) rfl ?_
  refine op rfl (arith64 (· - ·) (k := 1) (by omega) rfl) ?_
  refine op rfl (castU8 (asNat64 (by omega))) ?_
  refine op rfl (arith32 (· <<< ·) (a := 1) (by decide) (asNat8 (by omega))) ?_
  rw [hshift]
  have hn : 1 <<< (12 - j - 1) % 2 ^ 32 < 2 ^ 32 := Nat.mod_lt _ (by decide)
  generalize 1 <<< (12 - j - 1) % 2 ^ 32 = n at hlt h₂ hn
  refine ops 2 (t := ⟨[int64 i],
    forsLocals c auth bit buf (int32 cur) h (int64 i) (int64 j) (.vecU8 a₁) node (int32 n) k parent,
    91, none⟩) rfl ?_
  refine op rfl (castU32 (asNat64 (by omega))) ?_
  refine ops 1 (t := ⟨[int32 n, int32 i],
    forsLocals c auth bit buf (int32 cur) h (int64 i) (int64 j) (.vecU8 a₁) node (int32 n) k parent,
    93, none⟩) rfl ?_
  refine op rfl (arith32 (· * ·) (by omega) (asNat32 hn)) ?_
  have hm : i * n < 2 ^ 32 := by omega
  generalize i * n = m at hlt h₂ hm
  refine ops 2 (t := ⟨[int8 1, int32 cur, int32 m],
    forsLocals c auth bit buf (int32 cur) h (int64 i) (int64 j) (.vecU8 a₁) node (int32 n) k parent,
    96, none⟩) rfl ?_
  refine op rfl (arith32 (· >>> ·) (k := 1) hc rfl) ?_
  refine op rfl (arith32 (· + ·) hm (asNat32 (by omega))) ?_
  generalize m + cur >>> 1 = p at hlt h₂
  refine ops 3 (t := ⟨[int32 p, .locRef 14],
    forsLocals c auth bit buf (int32 cur) h (int64 i) (int64 j) (.vecU8 a₁) node (int32 n) k
    (int32 p), 101, none⟩) rfl ?_
  exact call (M := forsLocals c auth bit buf (int32 cur) h (int64 i) (int64 j) (.vecU8 a₂) node
    (int32 n) k (int32 p)) rfl (adrsSetTreeIndex_returns hlt h₂) rfl rfl rfl rfl (.done ⟨_, _, rfl⟩)

/-- The bit of a level, and what is hashed before the nodes. -/
theorem fors_bit {la : Bytes} {cur : Nat} (hc : cur < 2 ^ 32) :
    Spends (run H forsPkFromSigRealBytecode) 13
      ⟨[], forsLocals c auth bit buf (int32 cur) h i j (.vecU8 la) node nodes k parent, 102, none⟩
      (· = ⟨[.bool (UInt32.ofNat (cur &&& 1) == 0)], forsLocals c auth (int32 (cur &&& 1))
        (.vecU8 (c.pre ++ la)) (int32 cur)
        h i j (.vecU8 la) node nodes k parent, 115, none⟩) := by
  refine ops 2 (t := ⟨[int32 1, int32 cur],
    forsLocals c auth bit buf (int32 cur) h i j (.vecU8 la) node nodes k parent, 104, none⟩) rfl ?_
  refine op rfl (arith32 (· &&& ·) (k := 1) hc rfl) ?_
  generalize cur &&& 1 = b
  refine ops 6 (t := ⟨[.vecU8 la, .locRef 6],
    forsLocals c auth (int32 b) (.vecU8 c.pre) (int32 cur) h i j (.vecU8 la) node nodes k parent,
    111, none⟩) rfl ?_
  refine call (M := forsLocals c auth (int32 b) (.vecU8 (c.pre ++ la)) (int32 cur) h i j
    (.vecU8 la) node nodes k parent) rfl (vectorAppend_returns c.pre la) rfl rfl rfl rfl ?_
  exact ops 3 (t := ⟨[.bool (UInt32.ofNat b == 0)],
    forsLocals c auth (int32 b) (.vecU8 (c.pre ++ la)) (int32 cur) h i j (.vecU8 la) node nodes k
    parent, 115, none⟩) rfl
    (.done rfl)

/-- A node on the left of its sibling. -/
theorem fors_left {a v b b' : Bytes} {j : Nat} (hj : j < 12)
    (hb : (Sha2128s.appendSlice (b ++ v) a (j * 16) 16).res = .ok b') :
    Spends (run H forsPkFromSigRealBytecode) 11
      ⟨[], forsLocals c (.vecU8 a) bit (.vecU8 b) cur h i (int64 j) leaf (.vecU8 v) nodes k parent, 116, none⟩
      (· = ⟨[], forsLocals c (.vecU8 a) bit (.vecU8 b') cur h i (int64 j) leaf
        (.vecU8 v) nodes k parent, 137, none⟩) := by
  refine ops 2 (t := ⟨[.vecU8 v, .locRef 6],
    forsLocals c (.vecU8 a) bit (.vecU8 b) cur h i (int64 j) leaf (.vecU8 v) nodes k parent, 118,
    none⟩) rfl ?_
  refine call (M := forsLocals c (.vecU8 a) bit (.vecU8 (b ++ v)) cur h i (int64 j) leaf
    (.vecU8 v) nodes k parent) rfl (vectorAppend_returns b v) rfl rfl rfl rfl ?_
  refine ops 4 (t := ⟨[int64 16, int64 j, .locRef 4, .locRef 6],
    forsLocals c (.vecU8 a) bit (.vecU8 (b ++ v)) cur h i (int64 j) leaf (.vecU8 v) nodes k parent,
    123, none⟩) rfl ?_
  refine op rfl (arith64 (· * ·) (k := 16) (by omega) rfl) ?_
  generalize j * 16 = o at hb
  refine ops 1 (t := ⟨[int64 16, int64 o, .locRef 4, .locRef 6],
    forsLocals c (.vecU8 a) bit (.vecU8 (b ++ v)) cur h i (int64 j) leaf (.vecU8 v) nodes k parent,
    125, none⟩) rfl ?_
  refine call (M := forsLocals c (.vecU8 a) bit (.vecU8 b') cur h i (int64 j) leaf
    (.vecU8 v) nodes k parent) rfl (appendSlice_returns (by decide) hb) rfl rfl rfl rfl ?_
  exact ops 1 (t := ⟨[], forsLocals c (.vecU8 a) bit (.vecU8 b') cur h i (int64 j) leaf
    (.vecU8 v) nodes k parent, 137, none⟩) rfl (.done rfl)

/-- A node on the right of its sibling. -/
theorem fors_right {a v b b' : Bytes} {j : Nat} (hj : j < 12)
    (hb : (Sha2128s.appendSlice b a (j * 16) 16).res = .ok b') :
    Spends (run H forsPkFromSigRealBytecode) 10
      ⟨[], forsLocals c (.vecU8 a) bit (.vecU8 b) cur h i (int64 j) leaf (.vecU8 v) nodes k parent, 127, none⟩
      (· = ⟨[], forsLocals c (.vecU8 a) bit (.vecU8 (b' ++ v)) cur h i (int64 j) leaf
        (.vecU8 v) nodes k parent, 137,
        none⟩) := by
  refine ops 4 (t := ⟨[int64 16, int64 j, .locRef 4, .locRef 6],
    forsLocals c (.vecU8 a) bit (.vecU8 b) cur h i (int64 j) leaf (.vecU8 v) nodes k parent, 131,
    none⟩) rfl ?_
  refine op rfl (arith64 (· * ·) (k := 16) (by omega) rfl) ?_
  generalize j * 16 = o at hb
  refine ops 1 (t := ⟨[int64 16, int64 o, .locRef 4, .locRef 6],
    forsLocals c (.vecU8 a) bit (.vecU8 b) cur h i (int64 j) leaf (.vecU8 v) nodes k parent, 133,
    none⟩) rfl ?_
  refine call (M := forsLocals c (.vecU8 a) bit (.vecU8 b') cur h i (int64 j) leaf
    (.vecU8 v) nodes k parent) rfl (appendSlice_returns (by decide) hb) rfl rfl rfl rfl ?_
  refine ops 2 (t := ⟨[.vecU8 v, .locRef 6],
    forsLocals c (.vecU8 a) bit (.vecU8 b') cur h i (int64 j) leaf (.vecU8 v) nodes k parent, 136,
    none⟩) rfl ?_
  exact call (M := forsLocals c (.vecU8 a) bit (.vecU8 (b' ++ v)) cur h i (int64 j) leaf
    (.vecU8 v) nodes k parent) rfl (vectorAppend_returns b' v) rfl rfl rfl rfl (.done rfl)

/-- The parent of the nodes. -/
theorem fors_parent {b : Bytes} {j cur : Nat} (hc : cur < 2 ^ 32) :
    Spends (run H forsPkFromSigRealBytecode) 228
      ⟨[], forsLocals c auth bit (.vecU8 b) (int32 cur) h i (int64 j) leaf node nodes k parent, 137, none⟩
      fun t => ∃ h k, t = ⟨[], forsLocals c auth bit (.vecU8 b) (int32 (cur >>> 1)) h i (int64 (j + 1)) leaf
        (.vecU8 ((H b).take 16)) nodes k parent, 70, none⟩ := by
  refine ops 1 (t := ⟨[.vecU8 b],
    forsLocals c auth bit (.vecU8 b) (int32 cur) h i (int64 j) leaf node nodes k parent, 138, none⟩) rfl ?_
  refine op rfl (sha256 _) ?_
  refine ops 3 (t := ⟨[], forsLocals c auth bit (.vecU8 b) (int32 cur) (.vecU8 (H b)) i
    (int64 j) leaf node nodes (int64 0) parent, 142, none⟩) rfl ?_
  refine ((truncate_spends (h := 9) (c := 19) (p := 142) rfl (by decide) rfl rfl
    (H.length_apply _)).bind (n := 11) fun t ht => ?_).mono (by decide) fun _ h => h
  subst ht
  generalize (H b).take 16 = v
  refine ops 4 (t := ⟨[int8 1, int32 cur], forsLocals c auth bit (.vecU8 b) (int32 cur)
    (.vecU8 v) i (int64 j) leaf (.vecU8 v) nodes (int64 16) parent, 159, none⟩) (by
    simp [straight, forsPkFromSigRealBytecode, callFree, stepOp, State.push, State.pop,
      State.getLocal, State.setLocal, State.jump, forsLocals]) ?_
  refine op rfl (arith32 (· >>> ·) (k := 1) hc rfl) ?_
  generalize cur >>> 1 = cur'
  refine ops 6 (t := ⟨[], forsLocals c auth bit (.vecU8 b) (int32 cur') (.vecU8 v) i
    (.u64 (.ofNat j + .ofNat 1)) leaf (.vecU8 v) nodes (int64 16) parent, 70, none⟩) rfl ?_
  rw [← UInt64.ofNat_add]
  exact .done ⟨_, _, rfl⟩

/-- The states between the levels of a tree. -/
def forsInv (c : ForsFrame) (a : Bytes) (i : Nat) (j : Nat) (x : Nat × Bytes × Bytes) (t : State) : Prop :=
  x.1 < 2 ^ 32 ∧ ∃ bit buf h nodes k parent,
    t = ⟨[], forsLocals c (.vecU8 a) bit buf (int32 x.1) h (int64 i) (int64 j)
    (.vecU8 x.2.1) (.vecU8 x.2.2) nodes k parent, 70, none⟩

/-- The end of a level, in step with the function's. -/
theorem fors_join {a b v la : Bytes} {i j cur : Nat} {x : Nat × Bytes × Bytes} (hc : cur < 2 ^ 32) (hx : (do
      let node ← Sha2128s.sha256Trunc H b
      let cur ← Move.shr 32 cur 1
      pure (cur, la, node) : MoveFn (Nat × Bytes × Bytes)).res = .ok x) :
    Spends (run H forsPkFromSigRealBytecode) 228
      ⟨[], forsLocals c (.vecU8 a) bit (.vecU8 b) (int32 cur) h (int64 i) (int64 j) (.vecU8 la)
        (.vecU8 v) nodes k parent, 137,
        none⟩ (forsInv c a i (j + 1) x) := by
  simp only [Comp.bind_iff, sha256Trunc_ok, Move.shr_ok, Comp.pure_iff] at hx
  obtain ⟨_, rfl, _, ⟨-, rfl⟩, rfl⟩ := hx
  refine (fors_parent hc).mono (Nat.le_refl _) fun t ht => ?_
  obtain ⟨h, k, rfl⟩ := ht
  exact ⟨Nat.lt_of_le_of_lt (Nat.shiftRight_le ..) hc, _, _, _, _, _, _, rfl⟩

theorem fors_level {a : Bytes} {i j : Nat} {x x' : Nat × Bytes × Bytes} {s : State}
    (hi : i < 14) (hj : j < 12)
    (hs : forsInv c a i j x s) (hx : (do
      let leafAdrs ← Sha2128s.adrsSetTreeHeight x.2.1 (← Move.add 32 (← Move.cast 32 j) 1)
      let nodesAtHeight ← Move.shl 32 1 (← Move.cast 8 (← Move.sub (← Move.sub Sha2128s.A j) 1))
      let parentIdx ← Move.add 32 (← Move.mul 32 (← Move.cast 32 i) nodesAtHeight) (← Move.shr 32 x.1 1)
      let leafAdrs ← Sha2128s.adrsSetTreeIndex leafAdrs parentIdx
      let bit := x.1 &&& 1
      let buf := c.pre ++ leafAdrs
      let buf ← if bit = 0 then Sha2128s.appendSlice (buf ++ x.2.2) a (← Move.mul 64 j Sha2128s.N) Sha2128s.N
        else do
          let buf ← Sha2128s.appendSlice buf a (← Move.mul 64 j Sha2128s.N) Sha2128s.N
          pure (buf ++ x.2.2)
      let node ← Sha2128s.sha256Trunc H buf
      let cur ← Move.shr 32 x.1 1
      pure (cur, leafAdrs, node) : MoveFn (Nat × Bytes × Bytes)).res = .ok x') :
    Spends (run H forsPkFromSigRealBytecode) 285 s (forsInv c a i (j + 1) x') := by
  obtain ⟨cur, la, v⟩ := x
  obtain ⟨hc, bit, buf, h, nodes, k, parent, rfl⟩ := hs
  dsimp only at hc hx ⊢
  obtain ⟨_, hcast, hx⟩ := Comp.bind_ok hx
  obtain ⟨-, rfl⟩ := Move.cast_ok.mp hcast
  obtain ⟨_, hadd, hx⟩ := Comp.bind_ok hx
  obtain ⟨-, rfl⟩ := Move.add_ok.mp hadd
  obtain ⟨a₁, h₁, hx⟩ := Comp.bind_ok hx
  obtain ⟨_, hsub, hx⟩ := Comp.bind_ok hx
  obtain ⟨-, rfl⟩ := Move.sub_ok.mp hsub
  obtain ⟨_, hsub, hx⟩ := Comp.bind_ok hx
  obtain ⟨-, rfl⟩ := Move.sub_ok.mp hsub
  obtain ⟨_, hcast, hx⟩ := Comp.bind_ok hx
  obtain ⟨-, rfl⟩ := Move.cast_ok.mp hcast
  obtain ⟨_, hshl, hx⟩ := Comp.bind_ok hx
  obtain ⟨-, rfl⟩ := Move.shl_ok.mp hshl
  obtain ⟨_, hcast, hx⟩ := Comp.bind_ok hx
  obtain ⟨-, rfl⟩ := Move.cast_ok.mp hcast
  obtain ⟨_, hmul, hx⟩ := Comp.bind_ok hx
  obtain ⟨-, rfl⟩ := Move.mul_ok.mp hmul
  obtain ⟨_, hshr, hx⟩ := Comp.bind_ok hx
  obtain ⟨-, rfl⟩ := Move.shr_ok.mp hshr
  obtain ⟨_, hadd, hx⟩ := Comp.bind_ok hx
  obtain ⟨hlt, rfl⟩ := Move.add_ok.mp hadd
  obtain ⟨a₂, h₂, hx⟩ := Comp.bind_ok hx
  have hbit : cur &&& 1 < 2 ^ 32 := Nat.lt_of_le_of_lt Nat.and_le_right (by decide)
  refine ((fors_address hi hj hc h₁ hlt h₂).bind (n := 253) fun t ht => ?_).mono (by decide) fun _ h => h
  obtain ⟨nodes, parent, rfl⟩ := ht
  refine ((fors_bit hc).bind (n := 240) fun t ht => ?_).mono (by decide) fun _ h => h
  subst ht
  by_cases hb : cur &&& 1 = 0
  · rw [if_pos hb] at hx
    obtain ⟨_, hmul, hx⟩ := Comp.bind_ok hx
    obtain ⟨-, rfl⟩ := Move.mul_ok.mp hmul
    obtain ⟨b, hb', hx⟩ := Comp.bind_ok hx
    refine brTrue rfl (by rw [eq_zero32 hbit, decide_eq_true hb]) ?_
    refine ((fors_left hj hb').bind (n := 228) fun t ht => ?_).mono (by decide) fun _ h => h
    subst ht
    exact fors_join hc hx
  · rw [if_neg hb] at hx
    obtain ⟨_, hmul, hx⟩ := Comp.bind_ok hx
    obtain ⟨-, rfl⟩ := Move.mul_ok.mp hmul
    obtain ⟨b, hb', hx⟩ := Comp.bind_ok hx
    refine brFalse rfl (by rw [eq_zero32 hbit, decide_eq_false hb]) ?_
    refine ((fors_right hj hb').bind (n := 228) fun t ht => ?_).mono (by decide) fun _ h => h
    subst ht
    exact fors_join hc hx

variable {sig md pre adrs : Bytes} {idx indices leafIdx off rootsAdrs roots sk : Value}

/-- The secret of a tree's leaf, and the leaf's authentication path. -/
theorem fors_slices {l a : Bytes} {i : Nat} (hi : i < 14)
    (hl : (MoveBytes.slice sig (i * 208) 16).res = .ok l)
    (ha : (MoveBytes.slice sig (i * 208 + 16) 192).res = .ok a) :
    Spends (run H forsPkFromSigRealBytecode) 23
      ⟨[], forsLocals ⟨sig, md, pre, adrs, idx, indices, leafIdx, off, rootsAdrs, roots,
        sk⟩ auth bit buf cur h (int64 i) j leaf node nodes k parent, 13, none⟩
      (· = ⟨[], forsLocals ⟨sig, md, pre, adrs, idx, indices, leafIdx, int64 (i * 208), rootsAdrs,
        roots, .vecU8 l⟩ (.vecU8 a)
        bit buf cur h (int64 i) j leaf node nodes k parent, 36, none⟩) := by
  refine ops 3 (t := ⟨[.bool (decide ((UInt64.ofNat i).toNat < (UInt64.ofNat 14).toNat))],
    forsLocals ⟨sig, md, pre, adrs, idx, indices, leafIdx, off, rootsAdrs, roots,
      sk⟩ auth bit buf cur h (int64 i) j leaf node nodes k parent, 16, none⟩) rfl ?_
  refine brTrue rfl (lt_true hi (by decide)) ?_
  refine ops 1 (t := ⟨[], forsLocals ⟨sig, md, pre, adrs, idx, indices, leafIdx, off, rootsAdrs,
    roots, sk⟩ auth bit buf cur h (int64 i) j leaf node nodes k parent, 18, none⟩) rfl ?_
  refine ops 2 (t := ⟨[int64 208, int64 i], forsLocals ⟨sig, md, pre, adrs, idx, indices, leafIdx,
    off, rootsAdrs, roots, sk⟩
    auth bit buf cur h (int64 i) j leaf node nodes k parent, 20, none⟩) rfl ?_
  refine op rfl (arith64 (· * ·) (k := 208) (by omega) rfl) ?_
  have ho : i * 208 < 2 ^ 64 := by omega
  generalize i * 208 = o at hl ha ho
  refine ops 4 (t := ⟨[int64 16, int64 o, .vecU8 sig],
    forsLocals ⟨sig, md, pre, adrs, idx, indices, leafIdx, int64 o, rootsAdrs, roots,
      sk⟩ auth bit buf cur h (int64 i) j leaf node nodes k parent, 25, none⟩) rfl ?_
  refine call (M := forsLocals ⟨sig, md, pre, adrs, idx, indices, leafIdx, int64 o, rootsAdrs,
    roots, sk⟩ auth bit buf cur h
    (int64 i) j leaf node nodes k parent) rfl (slice_returns false (by decide) hl) rfl rfl rfl rfl ?_
  refine ops 4 (t := ⟨[int64 16, int64 o, .vecU8 sig],
    forsLocals ⟨sig, md, pre, adrs, idx, indices, leafIdx, int64 o, rootsAdrs, roots,
      .vecU8 l⟩ auth bit buf cur h (int64 i) j leaf node nodes k parent, 30, none⟩) rfl ?_
  refine op rfl (arith64 (· + ·) (k := 16) ho rfl) ?_
  generalize o + 16 = o' at ha
  refine ops 3 (t := ⟨[int64 192, int64 o', .vecU8 sig],
    forsLocals ⟨sig, md, pre, adrs, idx, indices, leafIdx, int64 o, rootsAdrs, roots,
      .vecU8 l⟩ auth bit buf cur h (int64 i) j leaf node nodes k parent, 34, none⟩) rfl ?_
  refine call (M := forsLocals ⟨sig, md, pre, adrs, idx, indices, leafIdx, int64 o, rootsAdrs,
    roots, .vecU8 l⟩ auth bit buf cur
    h (int64 i) j leaf node nodes k parent) rfl (slice_returns false (by decide) ha) rfl rfl rfl rfl ?_
  exact ops 1 (t := ⟨[], forsLocals ⟨sig, md, pre, adrs, idx, indices, leafIdx, int64 o, rootsAdrs,
    roots, .vecU8 l⟩ (.vecU8 a)
    bit buf cur h (int64 i) j leaf node nodes k parent, 36, none⟩) rfl (.done rfl)

/-- The leaf of a tree. -/
theorem fors_leaf {ns : List Nat} {l a₁ a₂ a₃ v : Bytes} {i n : Nat} (hi : i < 14) (hn : ns[i]? = some n)
    (h₁ : (Sha2128s.adrsSetType adrs 3).res = .ok a₁) (h₂ : (Sha2128s.adrsSetTreeHeight a₁ 0).res = .ok a₂)
    (hlt : i <<< 12 % 2 ^ 32 + n < 2 ^ 32)
    (h₃ : (Sha2128s.adrsSetTreeIndex a₂ (i <<< 12 % 2 ^ 32 + n)).res = .ok a₃)
    (hv : (Sha2128s.thash H pre a₃ l).res = .ok v) :
    Spends (run H forsPkFromSigRealBytecode) 34
      ⟨[], forsLocals ⟨sig, md, pre, adrs, idx, ints ns, leafIdx, off, rootsAdrs, roots,
        .vecU8 l⟩ auth bit buf cur h (int64 i) j
        leaf node nodes k parent, 36, none⟩
      fun t => ∃ leafIdx, t = ⟨[], forsLocals ⟨sig, md, pre, adrs, int32 n, ints ns, leafIdx, off,
        rootsAdrs, roots, .vecU8 l⟩
        auth bit buf (int32 n) h (int64 i) (int64 0) (.vecU8 a₃) (.vecU8 v) nodes k parent, 70, none⟩ := by
  have hshift : int32 (i <<< 12) = int32 (i <<< 12 % 2 ^ 32) := congrArg Value.u32 UInt32.ofNat_mod_size.symm
  refine ops 2 (t := ⟨[int64 i, passedInts true 12 ns],
    forsLocals ⟨sig, md, pre, adrs, idx, ints ns, leafIdx, off, rootsAdrs, roots, .vecU8 l⟩ auth bit
    buf cur h (int64 i) j leaf node nodes k parent, 38, none⟩) rfl ?_
  refine op rfl (immBorrow32 _ (by omega) (fun _ => rfl) hn) ?_
  refine ops 7 (t := ⟨[.u8 3, .locRef 14], forsLocals ⟨sig, md, pre, adrs, int32 n, ints ns,
    leafIdx, off, rootsAdrs, roots, .vecU8 l⟩ auth bit buf cur h (int64 i) j
    (.vecU8 adrs) node nodes k parent, 46, none⟩) rfl ?_
  refine call (M := forsLocals ⟨sig, md, pre, adrs, int32 n, ints ns, leafIdx, off, rootsAdrs,
    roots, .vecU8 l⟩ auth bit buf
    cur h (int64 i) j (.vecU8 a₁) node nodes k parent) rfl (adrsSetType_returns h₁) rfl rfl rfl rfl ?_
  refine ops 2 (t := ⟨[int32 0, .locRef 14], forsLocals ⟨sig, md, pre, adrs, int32 n, ints ns,
    leafIdx, off, rootsAdrs, roots, .vecU8 l⟩ auth bit buf cur h (int64 i) j (.vecU8 a₁) node nodes
    k parent, 49, none⟩) rfl ?_
  refine call (M := forsLocals ⟨sig, md, pre, adrs, int32 n, ints ns, leafIdx, off, rootsAdrs,
    roots, .vecU8 l⟩ auth bit buf
    cur h (int64 i) j (.vecU8 a₂) node nodes k parent) rfl
    (adrsSetTreeHeight_returns (by decide) h₂) rfl rfl rfl rfl ?_
  refine ops 1 (t := ⟨[int64 i], forsLocals ⟨sig, md, pre, adrs, int32 n, ints ns, leafIdx, off,
    rootsAdrs, roots, .vecU8 l⟩
    auth bit buf cur h (int64 i) j (.vecU8 a₂) node nodes k parent, 51, none⟩) rfl ?_
  refine op rfl (castU32 (asNat64 (by omega))) ?_
  refine ops 2 (t := ⟨[int8 12, int32 i], forsLocals ⟨sig, md, pre, adrs, int32 n, ints ns, leafIdx,
    off, rootsAdrs, roots, .vecU8 l⟩ auth bit buf cur h (int64 i) j (.vecU8 a₂) node nodes k parent,
    54, none⟩) rfl ?_
  refine op rfl (arith32 (· <<< ·) (k := 12) (by omega) rfl) ?_
  rw [hshift]
  have hm : i <<< 12 % 2 ^ 32 < 2 ^ 32 := Nat.mod_lt _ (by decide)
  generalize i <<< 12 % 2 ^ 32 = m at hlt h₃ hm
  refine ops 1 (t := ⟨[int32 n, int32 m], forsLocals ⟨sig, md, pre, adrs, int32 n, ints ns, leafIdx,
    off, rootsAdrs, roots, .vecU8 l⟩ auth bit buf cur h (int64 i) j (.vecU8 a₂) node nodes k parent,
    56, none⟩) rfl ?_
  refine op rfl (arith32 (· + ·) hm (asNat32 (by omega))) ?_
  generalize m + n = q at hlt h₃
  refine ops 3 (t := ⟨[int32 q, .locRef 14], forsLocals ⟨sig, md, pre, adrs, int32 n, ints ns,
    int32 q, off, rootsAdrs, roots, .vecU8 l⟩ auth bit buf cur h (int64 i) j (.vecU8 a₂) node nodes
    k parent, 60, none⟩) rfl ?_
  refine call (M := forsLocals ⟨sig, md, pre, adrs, int32 n, ints ns, int32 q, off, rootsAdrs,
    roots, .vecU8 l⟩ auth bit buf
    cur h (int64 i) j (.vecU8 a₃) node nodes k parent) rfl (adrsSetTreeIndex_returns hlt h₃) rfl rfl
    rfl rfl ?_
  refine ops 3 (t := ⟨[.locRef 23, .locRef 14, .vecU8 pre], forsLocals ⟨sig, md, pre, adrs, int32 n,
    ints ns, int32 q, off, rootsAdrs, roots, .vecU8 l⟩ auth bit buf cur h (int64 i) j
    (.vecU8 a₃) node nodes k parent, 64, none⟩) rfl ?_
  refine call (M := forsLocals ⟨sig, md, pre, adrs, int32 n, ints ns, int32 q, off, rootsAdrs,
    roots, .vecU8 l⟩ auth bit buf
    cur h (int64 i) j (.vecU8 a₃) node nodes k parent) rfl (thash_returns hv) rfl rfl rfl rfl ?_
  exact ops 5 (t := ⟨[], forsLocals ⟨sig, md, pre, adrs, int32 n, ints ns, int32 q, off, rootsAdrs,
    roots, .vecU8 l⟩ auth bit
    buf (int32 n) h (int64 i) (int64 0) (.vecU8 a₃) (.vecU8 v) nodes k parent, 70, none⟩) rfl (.done ⟨_, rfl⟩)

/-- The states between the trees. -/
def treesInv (sig md pre adrs : Bytes) (ns : List Nat) (i : Nat) (rootsBuf : Bytes) (t : State) : Prop :=
  ∃ idx leafIdx off rootsAdrs sk auth bit buf cur h j leaf node nodes k parent,
    t = ⟨[], forsLocals ⟨sig, md, pre, adrs, idx, ints ns, leafIdx, off, rootsAdrs, .vecU8 rootsBuf,
      sk⟩ auth bit buf cur h (int64 i) j leaf node nodes k parent, 13, none⟩

/-- The root of a tree, behind those before it. -/
theorem fors_root {rs v : Bytes} {i : Nat} {ns : List Nat} :
    Spends (run H forsPkFromSigRealBytecode) 12
      ⟨[], forsLocals ⟨sig, md, pre, adrs, idx, ints ns, leafIdx, off, rootsAdrs, .vecU8 rs,
        sk⟩ auth bit buf cur h (int64 i)
        (int64 12) leaf (.vecU8 v) nodes k parent, 70, none⟩
        (treesInv sig md pre adrs ns (i + 1) (rs ++ v)) := by
  refine ops 3 (t := ⟨[.bool (decide ((UInt64.ofNat 12).toNat < (UInt64.ofNat 12).toNat))],
    forsLocals ⟨sig, md, pre, adrs, idx, ints ns, leafIdx, off, rootsAdrs, .vecU8 rs,
      sk⟩ auth bit buf cur h (int64 i) (int64 12) leaf (.vecU8 v) nodes k parent, 73,
    none⟩) rfl ?_
  refine brFalse rfl lt_false ?_
  refine ops 2 (t := ⟨[.vecU8 v, .locRef 22], forsLocals ⟨sig, md, pre, adrs, idx, ints ns, leafIdx,
    off, rootsAdrs, .vecU8 rs, sk⟩ auth bit buf cur h (int64 i) (int64 12) leaf
    (.vecU8 v) nodes k parent, 168, none⟩) rfl ?_
  refine call (M := forsLocals ⟨sig, md, pre, adrs, idx, ints ns, leafIdx, off, rootsAdrs,
    .vecU8 (rs ++ v), sk⟩ auth bit buf
    cur h (int64 i) (int64 12) leaf (.vecU8 v) nodes k parent) rfl
    (vectorAppend_returns rs v) rfl rfl rfl rfl ?_
  refine ops 5 (t := ⟨[], forsLocals ⟨sig, md, pre, adrs, idx, ints ns, leafIdx, off, rootsAdrs,
    .vecU8 (rs ++ v), sk⟩ auth bit
    buf cur h (.u64 (.ofNat i + .ofNat 1)) (int64 12) leaf (.vecU8 v) nodes k parent, 13, none⟩) rfl ?_
  rw [← UInt64.ofNat_add]
  exact .done ⟨_, _, _, _, _, _, _, _, _, _, _, _, _, _, _, _, rfl⟩

theorem fors_tree {ns : List Nat} {i : Nat} {rs rs' : Bytes} {s : State} (hi : i < 14)
    (hs : treesInv sig md pre adrs ns i rs s) (hr : (do
      let off ← Move.mul 64 i 208
      let skLeaf ← MoveBytes.slice sig off Sha2128s.N
      let authPath ← MoveBytes.slice sig (← Move.add 64 off Sha2128s.N) (← Move.mul 64 Sha2128s.A Sha2128s.N)
      let idx ← Move.borrow ns i
      let leafAdrs ← Sha2128s.adrsSetType adrs Sha2128s.ADRS_FORS_TREE
      let leafAdrs ← Sha2128s.adrsSetTreeHeight leafAdrs 0
      let leafTreeIndex ← Move.add 32 (← Move.shl 32 (← Move.cast 32 i) (← Move.cast 8 Sha2128s.A)) idx
      let leafAdrs ← Sha2128s.adrsSetTreeIndex leafAdrs leafTreeIndex
      let node ← Sha2128s.thash H pre leafAdrs skLeaf
      let (_, _, node) ← Move.whileLt 64 0 Sha2128s.A (idx, leafAdrs, node) fun j (cur, leafAdrs, node) => do
        let leafAdrs ← Sha2128s.adrsSetTreeHeight leafAdrs (← Move.add 32 (← Move.cast 32 j) 1)
        let nodesAtHeight ← Move.shl 32 1 (← Move.cast 8 (← Move.sub (← Move.sub Sha2128s.A j) 1))
        let parentIdx ← Move.add 32 (← Move.mul 32 (← Move.cast 32 i) nodesAtHeight) (← Move.shr 32 cur 1)
        let leafAdrs ← Sha2128s.adrsSetTreeIndex leafAdrs parentIdx
        let bit := cur &&& 1
        let buf := pre ++ leafAdrs
        let buf ← if bit = 0 then
            Sha2128s.appendSlice (buf ++ node) authPath (← Move.mul 64 j Sha2128s.N) Sha2128s.N
          else do
            let buf ← Sha2128s.appendSlice buf authPath (← Move.mul 64 j Sha2128s.N) Sha2128s.N
            pure (buf ++ node)
        let node ← Sha2128s.sha256Trunc H buf
        let cur ← Move.shr 32 cur 1
        pure (cur, leafAdrs, node)
      pure (rs ++ node) : MoveFn Bytes).res = .ok rs') :
    Spends (run H forsPkFromSigRealBytecode) 3600 s (treesInv sig md pre adrs ns (i + 1) rs') := by
  obtain ⟨idx, leafIdx, off, rootsAdrs, sk, auth, bit, buf, cur, h, j, leaf, node, nodes,
    k, parent, rfl⟩ := hs
  simp only [Comp.bind_iff, Move.mul_ok, Move.add_ok, Move.cast_ok, Move.shl_ok, Move.borrow_iff,
    Comp.pure_iff] at hr
  obtain ⟨_, ⟨-, rfl⟩, l, hl, _, ⟨-, rfl⟩, _, ⟨-, rfl⟩, a, ha, n, hn, a₁, h₁, a₂, h₂, _, ⟨-, rfl⟩,
    _, ⟨-, rfl⟩, _, ⟨-, rfl⟩, _, ⟨hlt, rfl⟩, a₃, h₃, v, hv, x, hx, rfl⟩ := hr
  have hlevels : ∀ {leafIdx : Value}, Spends (run H forsPkFromSigRealBytecode) ((12 - 0) * 285)
      ⟨[], forsLocals ⟨sig, md, pre, adrs, int32 n, ints ns, leafIdx, int64 (i * 208), rootsAdrs,
        .vecU8 rs, .vecU8 l⟩
        (.vecU8 a) bit buf (int32 n) h (int64 i) (int64 0) (.vecU8 a₃) (.vecU8 v) nodes k parent, 70, none⟩
      (forsInv ⟨sig, md, pre, adrs, int32 n, ints ns, leafIdx, int64 (i * 208), rootsAdrs,
        .vecU8 rs, .vecU8 l⟩ a i 12 x) :=
    Fuel.Spends.whileLt (forsInv _ a i) (Nat.zero_le _) (fun j x x' s _ hj hr _ hs =>
      fors_level hi hj hs hr) hx ⟨by omega, _, _, _, _, _, _, rfl⟩
  refine ((fors_slices hi hl ha).bind (n := 34 + ((12 - 0) * 285 + 12)) fun t ht => ?_).mono
    (by decide) fun _ h => h
  subst ht
  refine (fors_leaf hi hn h₁ h₂ hlt h₃ hv).bind fun t ht => ?_
  obtain ⟨leafIdx, rfl⟩ := ht
  refine hlevels.bind fun t ht => ?_
  obtain ⟨-, bit, buf, h, nodes, k, parent, rfl⟩ := ht
  exact fors_root

/-- The roots, hashed under the address of the key. -/
theorem fors_finish {ns : List Nat} {rs t₁ t₂ t₃ out : Bytes} {s : State}
    (hs : treesInv sig md pre adrs ns 14 rs s)
    (h₁ : (Sha2128s.adrsSetType adrs 4).res = .ok t₁) (h₂ : (Sha2128s.adrsSetTreeHeight t₁ 0).res = .ok t₂)
    (h₃ : (Sha2128s.adrsSetTreeIndex t₂ 0).res = .ok t₃) (ho : (Sha2128s.thash H pre t₃ rs).res = .ok out) :
    Spends (run H forsPkFromSigRealBytecode) 23 s (Stops forsPkFromSigRealBytecode [.vecU8 out]
      [.vecU8 adrs]) := by
  obtain ⟨idx, leafIdx, off, rootsAdrs, sk, auth, bit, buf, cur, h, j, leaf, node, nodes,
    k, parent, rfl⟩ := hs
  refine ops 3 (t := ⟨[.bool (decide ((UInt64.ofNat 14).toNat < (UInt64.ofNat 14).toNat))],
    forsLocals ⟨sig, md, pre, adrs, idx, ints ns, leafIdx, off, rootsAdrs, .vecU8 rs,
      sk⟩ auth bit buf cur h (int64 14) j leaf node nodes k parent, 16, none⟩) rfl ?_
  refine brFalse rfl lt_false ?_
  refine ops 7 (t := ⟨[.u8 4, .locRef 21], forsLocals ⟨sig, md, pre, adrs, idx, ints ns, leafIdx,
    off, .vecU8 adrs, .vecU8 rs, sk⟩ auth bit buf cur h (int64 14) j leaf node nodes k parent, 181,
    none⟩) rfl ?_
  refine call (M := forsLocals ⟨sig, md, pre, adrs, idx, ints ns, leafIdx, off, .vecU8 t₁,
    .vecU8 rs, sk⟩ auth bit buf cur h
    (int64 14) j leaf node nodes k parent) rfl (adrsSetType_returns h₁) rfl rfl rfl rfl ?_
  refine ops 2 (t := ⟨[int32 0, .locRef 21], forsLocals ⟨sig, md, pre, adrs, idx, ints ns, leafIdx,
    off, .vecU8 t₁, .vecU8 rs, sk⟩ auth bit buf cur h (int64 14) j leaf node nodes k parent, 184,
    none⟩) rfl ?_
  refine call (M := forsLocals ⟨sig, md, pre, adrs, idx, ints ns, leafIdx, off, .vecU8 t₂,
    .vecU8 rs, sk⟩ auth bit buf cur h
    (int64 14) j leaf node nodes k parent) rfl (adrsSetTreeHeight_returns (by decide) h₂) rfl rfl rfl rfl ?_
  refine ops 2 (t := ⟨[int32 0, .locRef 21], forsLocals ⟨sig, md, pre, adrs, idx, ints ns, leafIdx,
    off, .vecU8 t₂, .vecU8 rs, sk⟩ auth bit buf cur h (int64 14) j leaf node nodes k parent, 187,
    none⟩) rfl ?_
  refine call (M := forsLocals ⟨sig, md, pre, adrs, idx, ints ns, leafIdx, off, .vecU8 t₃,
    .vecU8 rs, sk⟩ auth bit buf cur h
    (int64 14) j leaf node nodes k parent) rfl (adrsSetTreeIndex_returns (by decide) h₃) rfl rfl rfl rfl ?_
  refine ops 3 (t := ⟨[.locRef 22, .locRef 21, .vecU8 pre],
    forsLocals ⟨sig, md, pre, adrs, idx, ints ns, leafIdx, off, .vecU8 t₃, .vecU8 rs,
      sk⟩ auth bit buf cur h (int64 14) j leaf node nodes k parent, 191, none⟩) rfl ?_
  refine call (M := forsLocals ⟨sig, md, pre, adrs, idx, ints ns, leafIdx, off, .vecU8 t₃,
    .vecU8 rs, sk⟩ auth bit buf cur h
    (int64 14) j leaf node nodes k parent) rfl (thash_returns ho) rfl rfl rfl rfl ?_
  exact stops 24 rfl rfl

theorem forsPkFromSig_returns {sig md pre adrs out : Bytes}
    (h : (Sha2128s.forsPkFromSig H sig md pre adrs).res = .ok out) :
    Returns H forsPkFromSigRealBytecode (initialState sig md pre adrs).locals [.vecU8 out] [.vecU8 adrs] := by
  simp only [Sha2128s.forsPkFromSig, Comp.bind_iff, Move.add_ok, Move.mul_ok] at h
  obtain ⟨_, ⟨-, rfl⟩, _, ⟨-, rfl⟩, ns, hns, rs, hrs, t₁, h₁, t₂, h₂, t₃, h₃, ho⟩ := h
  have hloop : ∀ {s : State}, treesInv sig md pre adrs ns 0 [] s → Spends (run H forsPkFromSigRealBytecode)
      ((14 - 0) * 3600) s (treesInv sig md pre adrs ns 14 rs) := fun hs =>
    Fuel.Spends.whileLt (treesInv sig md pre adrs ns) (Nat.zero_le _)
      (fun i rs rs' s _ hi hr _ hs => fors_tree hi hs hr) hrs hs
  refine returns_of_stops (n := 13 + ((14 - 0) * 3600 + 23)) (by decide) ?_
  refine ops 7 (t := ⟨[.vecU8 md], forsLocals ⟨sig, md, pre, adrs, .u32 0, .vecU32 [], .u32 0,
    .u64 0, .vecU8 [], .vecU8 [], .vecU8 []⟩ (.vecU8 []) (.u32 0) (.vecU8 []) (.u32 0) (.vecU8 [])
    (.u64 0) (.u64 0) (.vecU8 []) (.vecU8 []) (.u32 0) (.u64 0)
    (.u32 0), 7, none⟩) rfl ?_
  refine call rfl (extractForsIndices_returns false hns) rfl rfl rfl rfl ?_
  refine ops 5 (t := ⟨[], forsLocals ⟨sig, md, pre, adrs, .u32 0, ints ns, .u32 0, .u64 0,
    .vecU8 [], .vecU8 [], .vecU8 []⟩ (.vecU8 []) (.u32 0) (.vecU8 []) (.u32 0) (.vecU8 []) (int64 0)
    (.u64 0) (.vecU8 []) (.vecU8 []) (.u32 0) (.u64 0)
    (.u32 0), 13, none⟩) rfl ?_
  refine ((hloop ⟨_, _, _, _, _, _, _, _, _, _, _, _, _, _, _, _, rfl⟩).bind
    (n := 23) fun t ht => ?_).mono (by decide)
    fun _ h => h
  exact fors_finish ht h₁ h₂ h₃ ho

end ForsPkFromSig

section SplitDigest

open SplitDigestReal

def splitLocals (digest : Bytes)
    (i leafBytes leaf leafMask md mdBytes p treeBits treeBytes tree treeMask : Value) :
    List Value :=
  [.vecU8 digest, i, leafBytes, leaf, leafMask, md, mdBytes, p, treeBits, treeBytes, tree, treeMask]

variable {digest : Bytes} {i leaf leafMask md p tree treeMask : Value}

/-- A byte of the tree's index. -/
theorem split_tree {i v : Nat} {x : UInt8} (hi : i < 7) (hv : v < 2 ^ 64) (hx : digest[21 + i]? = some x) :
    Spends (run H splitDigestRealBytecode) 22
      ⟨[], splitLocals digest (int64 i) (int64 2) leaf leafMask md (int64 21) p (int64 54) (int64 7)
        (int64 v) treeMask, 35, none⟩
      (· = ⟨[], splitLocals digest (int64 (i + 1)) (int64 2) leaf leafMask md (int64 21) p
        (int64 54) (int64 7)
        (int64 (v <<< 8 % 2 ^ 64 ||| x.toNat)) treeMask, 35, none⟩) := by
  have hshift : int64 (v <<< 8) = int64 (v <<< 8 % 2 ^ 64) := congrArg Value.u64 UInt64.ofNat_mod_size.symm
  refine ops 3 (t := ⟨[.bool (decide ((UInt64.ofNat i).toNat < (UInt64.ofNat 7).toNat))],
    splitLocals digest (int64 i) (int64 2)
    leaf leafMask md (int64 21) p (int64 54) (int64 7) (int64 v) treeMask, 38, none⟩) rfl ?_
  refine brTrue rfl (lt_true hi (by decide)) ?_
  refine ops 1 (t := ⟨[], splitLocals digest (int64 i) (int64 2) leaf leafMask md (int64 21) p
    (int64 54) (int64 7) (int64 v) treeMask, 40, none⟩) rfl ?_
  refine ops 2 (t := ⟨[int8 8, int64 v], splitLocals digest (int64 i) (int64 2) leaf leafMask md
    (int64 21) p (int64 54) (int64 7) (int64 v) treeMask, 42, none⟩) rfl ?_
  refine op rfl (arith64 (· <<< ·) (k := 8) hv rfl) ?_
  rw [hshift]
  refine ops 3 (t := ⟨[int64 i, int64 21, .vecU8 digest, int64 (v <<< 8 % 2 ^ 64)],
    splitLocals digest (int64 i) (int64 2) leaf
    leafMask md (int64 21) p (int64 54) (int64 7) (int64 v) treeMask, 46, none⟩) rfl ?_
  refine op rfl (arith64 (· + ·) (a := 21) (by decide) (asNat64 (by omega))) ?_
  refine op rfl (immBorrow false (j := 0) (by omega) (by simp) hx) ?_
  refine ops 1 (t := ⟨[.u8 x, int64 (v <<< 8 % 2 ^ 64)],
    splitLocals digest (int64 i) (int64 2) leaf leafMask md (int64 21) p
    (int64 54) (int64 7) (int64 v) treeMask, 49, none⟩) rfl ?_
  refine op rfl (castU64 (k := x.toNat) rfl) ?_
  refine op rfl (arith64 (· ||| ·) (Nat.mod_lt _ (by decide))
    (asNat64 (Nat.lt_trans x.toNat_lt (by decide)))) ?_
  generalize v <<< 8 % 2 ^ 64 ||| x.toNat = v'
  refine ops 6 (t := ⟨[], splitLocals digest (.u64 (.ofNat i + .ofNat 1)) (int64 2) leaf leafMask md
    (int64 21) p (int64 54) (int64 7) (int64 v') treeMask, 35, none⟩) rfl ?_
  rw [← UInt64.ofNat_add]
  exact .done rfl

/-- A byte of the leaf's index. -/
theorem split_leaf {p v : Nat} {x : UInt8} {b : Value} (hp : p < 2) (hv : v < 2 ^ 32)
    (hx : digest[21 + 7 + p]? = some x) :
    Spends (run H splitDigestRealBytecode) 24
      ⟨[], splitLocals digest i (int64 2) (int32 v) leafMask md (int64 21) (int64 p) b
        (int64 7) tree treeMask, 72, none⟩
      (· = ⟨[], splitLocals digest i (int64 2) (int32 (v <<< 8 % 2 ^ 32 ||| x.toNat)) leafMask md
        (int64 21) (int64 (p + 1)) b
        (int64 7) tree treeMask, 72, none⟩) := by
  have hshift : int32 (v <<< 8) = int32 (v <<< 8 % 2 ^ 32) := congrArg Value.u32 UInt32.ofNat_mod_size.symm
  refine ops 3 (t := ⟨[.bool (decide ((UInt64.ofNat p).toNat < (UInt64.ofNat 2).toNat))],
    splitLocals digest i (int64 2)
    (int32 v) leafMask md (int64 21) (int64 p) b (int64 7) tree treeMask, 75, none⟩) rfl ?_
  refine brTrue rfl (lt_true hp (by decide)) ?_
  refine ops 1 (t := ⟨[], splitLocals digest i (int64 2) (int32 v) leafMask md (int64 21)
    (int64 p) b (int64 7) tree treeMask, 77, none⟩) rfl ?_
  refine ops 2 (t := ⟨[int8 8, int32 v], splitLocals digest i (int64 2) (int32 v) leafMask md
    (int64 21) (int64 p) b (int64 7) tree treeMask, 79, none⟩) rfl ?_
  refine op rfl (arith32 (· <<< ·) (k := 8) hv rfl) ?_
  rw [hshift]
  refine ops 5 (t := ⟨[int64 p, int64 28, .vecU8 digest, int32 (v <<< 8 % 2 ^ 32)],
    splitLocals digest i (int64 2) (int32 v)
    leafMask md (int64 21) (int64 p) b (int64 7) tree treeMask, 85, none⟩) rfl ?_
  refine op rfl (arith64 (· + ·) (a := 28) (by decide) (asNat64 (by omega))) ?_
  refine op rfl (immBorrow false (j := 0) (by omega) (by simp) hx) ?_
  refine ops 1 (t := ⟨[.u8 x, int32 (v <<< 8 % 2 ^ 32)],
    splitLocals digest i (int64 2) (int32 v) leafMask md (int64 21)
    (int64 p) b (int64 7) tree treeMask, 88, none⟩) rfl ?_
  refine op rfl (castU32 (k := x.toNat) rfl) ?_
  refine op rfl (arith32 (· ||| ·) (Nat.mod_lt _ (by decide))
    (asNat32 (Nat.lt_trans x.toNat_lt (by decide)))) ?_
  generalize v <<< 8 % 2 ^ 32 ||| x.toNat = v'
  refine ops 6 (t := ⟨[], splitLocals digest i (int64 2) (int32 v') leafMask md (int64 21)
    (.u64 (.ofNat p + .ofNat 1)) b (int64 7) tree treeMask, 72, none⟩) rfl ?_
  rw [← UInt64.ofNat_add]
  exact .done rfl

/-- The sizes, and the bytes of the FORS digest. -/
theorem split_start {m : Bytes} (hm : (MoveBytes.slice digest 0 21).res = .ok m) :
    Spends (run H splitDigestRealBytecode) 35 ⟨[], (initialState digest).locals, 0, none⟩
      (· = ⟨[], splitLocals digest (int64 0) (int64 2) (.u32 0) (.u32 0) (.vecU8 m) (int64 21)
        (.u64 0) (int64 54) (int64 7)
        (int64 0) (.u64 0), 35, none⟩) := by
  refine ops 8 (t := ⟨[], splitLocals digest (.u64 0) (.u64 0) (.u32 0) (.u32 0) (.vecU8 [])
    (int64 21) (.u64 0) (.u64 0) (.u64 0) (.u64 0) (.u64 0), 8, none⟩) rfl ?_
  refine ops 6 (t := ⟨[], splitLocals digest (.u64 0) (.u64 0) (.u32 0) (.u32 0) (.vecU8 [])
    (int64 21) (.u64 0) (int64 54) (.u64 0) (.u64 0) (.u64 0), 14, none⟩) rfl ?_
  refine ops 6 (t := ⟨[], splitLocals digest (.u64 0) (.u64 0) (.u32 0) (.u32 0) (.vecU8 [])
    (int64 21) (.u64 0) (int64 54) (int64 7) (.u64 0) (.u64 0), 20, none⟩) rfl ?_
  refine ops 6 (t := ⟨[], splitLocals digest (.u64 0) (int64 2) (.u32 0) (.u32 0) (.vecU8 [])
    (int64 21) (.u64 0) (int64 54) (int64 7) (.u64 0) (.u64 0), 26, none⟩) rfl ?_
  refine ops 3 (t := ⟨[int64 21, int64 0, .vecU8 digest], splitLocals digest (.u64 0) (int64 2)
    (.u32 0) (.u32 0) (.vecU8 [])
    (int64 21) (.u64 0) (int64 54) (int64 7) (.u64 0) (.u64 0), 29, none⟩) rfl ?_
  refine call (M := splitLocals digest (.u64 0) (int64 2) (.u32 0) (.u32 0) (.vecU8 []) (int64 21)
    (.u64 0) (int64 54)
    (int64 7) (.u64 0) (.u64 0)) rfl (slice_returns false (by decide) hm) rfl rfl rfl rfl ?_
  exact ops 5 (t := ⟨[], splitLocals digest (int64 0) (int64 2) (.u32 0) (.u32 0) (.vecU8 m)
    (int64 21) (.u64 0) (int64 54) (int64 7) (int64 0) (.u64 0), 35, none⟩) rfl (.done rfl)

/-- The tree's index, masked. -/
theorem split_mask {v : Nat} (hv : v < 2 ^ 64) :
    Spends (run H splitDigestRealBytecode) 19
      ⟨[], splitLocals digest (int64 7) (int64 2) leaf leafMask md (int64 21) p (int64 54) (int64 7)
        (int64 v) treeMask, 35, none⟩
      (· = ⟨[], splitLocals digest (int64 7) (int64 2) (int32 0) leafMask md (int64 21) (int64 0)
        (int64 54) (int64 7)
        (int64 (v &&& 18014398509481983)) (int64 18014398509481983), 72, none⟩) := by
  refine ops 3 (t := ⟨[.bool (decide ((UInt64.ofNat 7).toNat < (UInt64.ofNat 7).toNat))],
    splitLocals digest (int64 7) (int64 2)
    leaf leafMask md (int64 21) p (int64 54) (int64 7) (int64 v) treeMask, 38, none⟩) rfl ?_
  refine brFalse rfl lt_false ?_
  refine ops 7 (t := ⟨[], splitLocals digest (int64 7) (int64 2) leaf leafMask md (int64 21) p
    (int64 54) (int64 7) (int64 v) (int64 18014398509481983), 64, none⟩) rfl ?_
  refine ops 2 (t := ⟨[int64 18014398509481983, int64 v],
    splitLocals digest (int64 7) (int64 2) leaf leafMask md (int64 21) p
    (int64 54) (int64 7) (int64 v) (int64 18014398509481983), 66, none⟩) rfl ?_
  refine op rfl (arith64 (· &&& ·) (k := 18014398509481983) hv rfl) ?_
  generalize v &&& 18014398509481983 = v'
  exact ops 5 (t := ⟨[], splitLocals digest (int64 7) (int64 2) (int32 0) leafMask md (int64 21)
    (int64 0) (int64 54) (int64 7) (int64 v') (int64 18014398509481983), 72, none⟩) rfl (.done rfl)

/-- The leaf's index, masked. -/
theorem split_finish {v : Nat} (hv : v < 2 ^ 32) :
    Spends (run H splitDigestRealBytecode) 20
      ⟨[], splitLocals digest i (int64 2) (int32 v) leafMask md (int64 21) (int64 2) p
        (int64 7) tree treeMask, 72, none⟩
      (Stops splitDigestRealBytecode [int32 (v &&& 511), tree, md] []) := by
  refine ops 3 (t := ⟨[.bool (decide ((UInt64.ofNat 2).toNat < (UInt64.ofNat 2).toNat))],
    splitLocals digest i (int64 2)
    (int32 v) leafMask md (int64 21) (int64 2) p (int64 7) tree treeMask, 75, none⟩) rfl ?_
  refine brFalse rfl lt_false ?_
  refine ops 9 (t := ⟨[], splitLocals digest i (int64 2) (int32 v) (int32 511) md (int64 21)
    (int64 2) p (int64 7) tree treeMask, 105, none⟩) rfl ?_
  refine ops 2 (t := ⟨[int32 511, int32 v], splitLocals digest i (int64 2) (int32 v) (int32 511) md
    (int64 21) (int64 2) p (int64 7) tree treeMask, 107, none⟩) rfl ?_
  refine op rfl (arith32 (· &&& ·) (k := 511) hv rfl) ?_
  generalize v &&& 511 = v'
  exact ops 4 (t := ⟨[int32 v', tree, md], splitLocals digest i (int64 2) (int32 v') (int32 511) md
    (int64 21) (int64 2) p (int64 7) tree treeMask, 112, none⟩) rfl (stops 12 rfl rfl)

theorem splitDigest_returns {digest : Bytes} {out : Bytes × Nat × Nat}
    (h : (Sha2128s.splitDigest digest).res = .ok out) :
    Returns H splitDigestRealBytecode (initialState digest).locals [int32 out.2.2, int64 out.2.1,
      .vecU8 out.1] [] := by
  simp only [Sha2128s.splitDigest, Comp.bind_iff, Move.add_ok, Move.mul_ok, Move.sub_ok,
    Move.shl_ok, Move.cast_ok, Comp.pure_iff] at h
  obtain ⟨_, ⟨-, rfl⟩, _, ⟨-, rfl⟩, _, ⟨-, rfl⟩, _, ⟨-, rfl⟩, _, ⟨-, rfl⟩, _, ⟨-, rfl⟩, m, hm, t,
    ht, _, ⟨-, rfl⟩, _, ⟨-, rfl⟩, _, ⟨-, rfl⟩, l, hl, _, ⟨-, rfl⟩, _, ⟨-, rfl⟩, _, ⟨-, rfl⟩, rfl⟩ := h
  have htree : Spends (run H splitDigestRealBytecode) ((7 - 0) * 22)
      ⟨[], splitLocals digest (int64 0) (int64 2) (.u32 0) (.u32 0) (.vecU8 m) (int64 21) (.u64 0)
        (int64 54) (int64 7) (int64 0) (.u64 0), 35, none⟩
      fun s => t < 2 ^ 64 ∧ s = ⟨[], splitLocals digest (int64 7) (int64 2) (.u32 0) (.u32 0)
        (.vecU8 m) (int64 21) (.u64 0)
        (int64 54) (int64 7) (int64 t) (.u64 0), 35, none⟩ := by
    refine Fuel.Spends.whileLt (fun i t (s : State) => t < 2 ^ 64 ∧
      s = ⟨[], splitLocals digest (int64 i) (int64 2) (.u32 0)
      (.u32 0) (.vecU8 m) (int64 21) (.u64 0) (int64 54) (int64 7) (int64 t) (.u64 0), 35, none⟩)
      (Nat.zero_le _)
      (fun i v v' s _ hi hr _ hs => ?_) ht ⟨by decide, rfl⟩
    obtain ⟨hv, rfl⟩ := hs
    simp only [Comp.bind_iff, Move.add_ok, Move.shl_ok, Move.borrow_iff, Comp.pure_iff] at hr
    obtain ⟨_, ⟨-, rfl⟩, _, ⟨-, rfl⟩, x, hx, rfl⟩ := hr
    refine (split_tree hi hv hx).mono (Nat.le_refl _) fun t ht => ⟨?_, ht⟩
    exact Nat.or_lt_two_pow (Nat.mod_lt _ (by decide)) (Nat.lt_trans x.toNat_lt (by decide))
  have hleaf : ∀ {v w x y z : Value}, Spends (run H splitDigestRealBytecode) ((2 - 0) * 24)
      ⟨[], splitLocals digest v (int64 2) (int32 0) w (.vecU8 m) (int64 21) (int64 0) x
        (int64 7) y z, 72, none⟩
      fun s => l < 2 ^ 32 ∧ s = ⟨[], splitLocals digest v (int64 2) (int32 l) w (.vecU8 m)
        (int64 21) (int64 2) x (int64 7) y z,
        72, none⟩ := fun {v w x y z} => by
    refine Fuel.Spends.whileLt (fun p l (s : State) => l < 2 ^ 32 ∧
      s = ⟨[], splitLocals digest v (int64 2) (int32 l) w
      (.vecU8 m) (int64 21) (int64 p) x (int64 7) y z, 72, none⟩) (Nat.zero_le _)
      (fun p l l' s _ hp hr _ hs => ?_) hl ⟨by decide, rfl⟩
    obtain ⟨hv, rfl⟩ := hs
    simp only [Comp.bind_iff, Move.add_ok, Move.shl_ok, Move.borrow_iff, Comp.pure_iff] at hr
    obtain ⟨_, ⟨-, rfl⟩, _, ⟨-, rfl⟩, _, ⟨-, rfl⟩, x, hx, rfl⟩ := hr
    refine (split_leaf hp hv hx).mono (Nat.le_refl _) fun t ht => ⟨?_, ht⟩
    exact Nat.or_lt_two_pow (Nat.mod_lt _ (by decide)) (Nat.lt_trans x.toNat_lt (by decide))
  refine returns_of_stops (n := 35 + ((7 - 0) * 22 + (19 + ((2 - 0) * 24 + 20)))) (by decide) ?_
  refine (split_start hm).bind fun s hs => ?_
  subst hs
  refine htree.bind fun s hs => ?_
  obtain ⟨htlt, rfl⟩ := hs
  refine (split_mask htlt).bind fun s hs => ?_
  subst hs
  refine hleaf.bind fun s hs => ?_
  obtain ⟨hllt, rfl⟩ := hs
  exact split_finish hllt

end SplitDigest

end SuiPq.Proof.MoveVm.Source
