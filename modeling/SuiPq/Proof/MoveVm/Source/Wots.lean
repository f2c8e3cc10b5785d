import SuiPq.Proof.MoveVm.Source.Digits

/-!
# The bytecodes of WOTS+

`chain` and `wots_pk_from_sig`: where the Move function returns, its bytecode
does (`chain_returns`, `wotsPkFromSig_returns`), whether the signature and the
message are values of the caller or references to its locals.
-/

namespace SuiPq.Proof.MoveVm.Source

set_option maxRecDepth 10000

open SuiPq.Impl SuiPq.Impl.MoveVm
open SuiPq.Fuel (Spends)

variable {H : Hash}

theorem sha256Trunc_ok {buf out : Bytes} : (Sha2128s.sha256Trunc H buf).res =
    .ok out ↔ (H buf).take 16 = out := by
  rw [Sha2128s.sha256Trunc_eq, Comp.res_ret, Except.ok.injEq]

section Chain

open ChainReal

/-- The locals of `chain`, the last of them the address that the local 5 refers to. -/
def chainLocals (byRef : Bool) (src : Bytes) (srcOff iStart steps : Nat) (pre adrs : Bytes)
    (buf fin h j k s : Value) (tmp : Bytes) : List Value :=
  [passed byRef 13 src, int64 srcOff, int32 iStart, int32 steps, .vecU8 pre,
    .locRef (if byRef then 14 else 13), buf, fin, h, j, k, s, .vecU8 tmp] ++ held byRef src ++ [.vecU8 adrs]

variable {byRef : Bool} {src pre adrs tmp : Bytes} {srcOff iStart steps : Nat} {buf fin h j k s : Value}

theorem chain_copy {i : Nat} {x : UInt8} (hi : i < 16) (ho : srcOff + i < 2 ^ 64)
    (hx : src[srcOff + i]? = some x) :
    Spends (run H chainRealBytecode) 18
      ⟨[], chainLocals byRef src srcOff iStart steps pre adrs buf fin h j k (int64 i) tmp, 4, none⟩
      (· = ⟨[], chainLocals byRef src srcOff iStart steps pre adrs buf fin h j k (int64 (i + 1))
        (tmp ++ [x]), 4, none⟩) := by
  refine ops 3 (t := ⟨[.bool (decide ((UInt64.ofNat i).toNat < (UInt64.ofNat 16).toNat))],
    chainLocals byRef src srcOff iStart steps pre adrs buf fin h j k (int64 i) tmp, 7, none⟩) rfl ?_
  refine brTrue rfl (lt_true hi (by decide)) ?_
  refine ops 6 (t := ⟨[.u64 (.ofNat srcOff + .ofNat i), passed byRef 13 src, .locRef 12],
    chainLocals byRef src srcOff iStart steps pre adrs buf fin h j k (int64 i) tmp, 14, none⟩) rfl ?_
  rw [← UInt64.ofNat_add]
  refine op rfl (immBorrow _ ho (fun h => by subst h; rfl) hx) ?_
  refine ops 7 (t := ⟨[], chainLocals byRef src srcOff iStart steps pre adrs buf fin h j k
    (.u64 (.ofNat i + .ofNat 1)) (tmp ++ [x]), 4, none⟩) rfl ?_
  rw [← UInt64.ofNat_add]
  exact .done rfl

theorem chainLocals_adrs :
    (chainLocals byRef src srcOff iStart steps pre adrs buf fin h j k s tmp)[if byRef then 14 else 13]? =
    some (.vecU8 adrs) := by
  cases byRef <;> rfl

theorem chainLocals_setAdrs {adrs' : Bytes} :
    (chainLocals byRef src srcOff iStart steps pre adrs buf fin h j k s tmp).set
      (if byRef then 14 else 13) (.vecU8 adrs') =
      chainLocals byRef src srcOff iStart steps pre adrs' buf fin h j k s tmp := by
  cases byRef <;> rfl

theorem chain_setIndex {adrs' : Bytes} {j : Nat} (hj : j < 2 ^ 32)
    (ha : (Sha2128s.adrsSetTreeIndex adrs j).res = .ok adrs') :
    Spends (run H chainRealBytecode) 9
      ⟨[], chainLocals byRef src srcOff iStart steps pre adrs buf fin h (int32 j) k s tmp, 35, none⟩
      (· = ⟨[.vecU8 adrs', .locRef 6], chainLocals byRef src srcOff iStart steps pre adrs'
        (.vecU8 pre) fin h (int32 j) k s tmp,
        44, none⟩) := by
  refine ops 2 (t := ⟨[int32 j, .locRef (if byRef then 14 else 13)],
    chainLocals byRef src srcOff iStart steps pre adrs buf fin h (int32 j) k s tmp, 37, none⟩) rfl ?_
  refine callSetter rfl chainLocals_adrs (by simp) (adrsSetTreeIndex_returns hj ha) ?_
  rw [chainLocals_setAdrs]
  refine ops 5 (t := ⟨[.locRef (if byRef then 14 else 13), .locRef 6],
    chainLocals byRef src srcOff iStart steps pre adrs' (.vecU8 pre) fin h (int32 j) k s tmp, 43,
    none⟩) rfl ?_
  exact op rfl (readRef chainLocals_adrs) (.done rfl)

/-- The hash of the address and the value, truncated, in the place of the value. -/
theorem chain_hash {j : Nat} (hj : j < 2 ^ 32) :
    Spends (run H chainRealBytecode) 228
      ⟨[.vecU8 adrs, .locRef 6], chainLocals byRef src srcOff iStart steps pre adrs
        (.vecU8 pre) fin h (int32 j) k s tmp, 44, none⟩
      fun t => ∃ buf h k, t = ⟨[], chainLocals byRef src srcOff iStart steps pre adrs buf fin h
        (int32 (j + 1)) k s
        ((H (pre ++ adrs ++ tmp)).take 16), 30, none⟩ := by
  refine call (M := chainLocals byRef src srcOff iStart steps pre adrs (.vecU8 (pre ++ adrs)) fin h
    (int32 j) k s tmp) rfl (vectorAppend_returns pre adrs) rfl rfl rfl rfl ?_
  refine ops 2 (t := ⟨[.vecU8 tmp, .locRef 6], chainLocals byRef src srcOff iStart steps pre adrs
    (.vecU8 (pre ++ adrs)) fin h (int32 j) k s tmp, 47, none⟩) rfl ?_
  refine call (M := chainLocals byRef src srcOff iStart steps pre adrs (.vecU8 (pre ++ adrs ++ tmp))
    fin h (int32 j) k s tmp) rfl (vectorAppend_returns (pre ++ adrs) tmp) rfl rfl rfl rfl ?_
  generalize pre ++ adrs ++ tmp = buf
  refine ops 1 (t := ⟨[.vecU8 buf], chainLocals byRef src srcOff iStart steps pre adrs
    (.vecU8 buf) fin h (int32 j) k s tmp, 49, none⟩) rfl ?_
  refine op rfl (sha256 _) ?_
  refine ops 3 (t := ⟨[], chainLocals byRef src srcOff iStart steps pre adrs (.vecU8 buf) fin
    (.vecU8 (H buf)) (int32 j) (int64 0) s tmp, 53, none⟩) rfl ?_
  refine ((truncate_spends (h := 8) (c := 10) (p := 53) rfl (by decide) rfl rfl
    (H.length_apply _)).bind (n := 7) fun t ht => ?_).mono (by decide) fun _ h => h
  subst ht
  generalize (H buf).take 16 = tmp'
  refine ops 4 (t := ⟨[int32 1, int32 j], chainLocals byRef src srcOff iStart steps pre adrs
    (.vecU8 buf) fin (.vecU8 tmp') (int32 j) (int64 16) s tmp', 70, none⟩) rfl ?_
  refine op rfl (arith32 (· + ·) (k := 1) hj rfl) ?_
  generalize j + 1 = j'
  exact ops 2 (t := ⟨[], chainLocals byRef src srcOff iStart steps pre adrs (.vecU8 buf) fin (.vecU8 tmp')
    (int32 j') (int64 16) s tmp', 30, none⟩) rfl (.done ⟨_, _, _, rfl⟩)

theorem chain_round {adrs' : Bytes} {n j : Nat} (hj : j < n) (hn : n < 2 ^ 32)
    (ha : (Sha2128s.adrsSetTreeIndex adrs j).res = .ok adrs') :
    Spends (run H chainRealBytecode) 242
      ⟨[], chainLocals byRef src srcOff iStart steps pre adrs buf (int32 n) h (int32 j) k s tmp, 30, none⟩
      fun t => ∃ buf h k, t = ⟨[], chainLocals byRef src srcOff iStart steps pre adrs' buf
        (int32 n) h (int32 (j + 1)) k s
        ((H (pre ++ adrs' ++ tmp)).take 16), 30, none⟩ := by
  refine ops 3 (t := ⟨[.bool (decide ((UInt32.ofNat j).toNat < (UInt32.ofNat n).toNat))],
    chainLocals byRef src srcOff iStart steps pre adrs buf (int32 n) h (int32 j) k s tmp, 33, none⟩) rfl ?_
  refine brTrue rfl (lt_true32 hj hn) ?_
  refine ops 1 (t := ⟨[], chainLocals byRef src srcOff iStart steps pre adrs buf (int32 n) h
    (int32 j) k s tmp, 35, none⟩) rfl ?_
  refine ((chain_setIndex (by omega) ha).bind (n := 228) fun t ht => ?_).mono (by decide) fun _ h => h
  subst ht
  exact chain_hash (by omega)

theorem chain_piece {piece : Bytes} {buf fin h j k : Value} (hp : (Move.whileLt 64 0 16 [] fun s tmp => do
      let x ← (do Move.borrow src (← Move.add 64 srcOff s))
      pure (tmp ++ [x]) : MoveFn Bytes).res = .ok piece) :
    Spends (run H chainRealBytecode) ((16 - 0) * 18)
      ⟨[], chainLocals byRef src srcOff iStart steps pre adrs buf fin h j k (int64 0) [], 4, none⟩
      (· = ⟨[], chainLocals byRef src srcOff iStart steps pre adrs buf fin h j k (int64 16) piece,
        4, none⟩) := by
  refine Fuel.Spends.whileLt (fun i tmp (t : State) =>
    t = ⟨[], chainLocals byRef src srcOff iStart steps pre adrs buf fin h
    j k (int64 i) tmp, 4, none⟩) (Nat.zero_le _) (fun i tmp tmp' s _ hi hr _ hs => ?_) hp rfl
  subst hs
  obtain ⟨x, hx, hr⟩ := Comp.bind_ok hr
  obtain ⟨o, ho, hx⟩ := Comp.bind_ok hx
  obtain ⟨hlt, rfl⟩ := Move.add_ok.mp ho
  obtain rfl := Comp.pure_iff.mp hr
  exact chain_copy hi hlt (Move.borrow_iff.mp hx)

/-- `chain`, for as many steps as the VM has fuel for. -/
theorem chain_returns (byRef : Bool) {src pre adrs : Bytes} {srcOff iStart steps : Nat} {out : Bytes × Bytes}
    {a b c d e f g : Value} (hi : iStart < 2 ^ 32) (hs : steps ≤ 4000)
    (h : (Sha2128s.chain H src srcOff iStart steps pre adrs).res = .ok out) :
    Returns H chainRealBytecode ([passed byRef 13 src, int64 srcOff, int32 iStart, int32 steps, .vecU8 pre,
      .locRef (if byRef then 14 else 13), a, b, c, d, e, f, g] ++ held byRef src ++ [.vecU8 adrs])
      [.vecU8 out.1] (held byRef src ++ [.vecU8 out.2]) := by
  obtain ⟨piece, hpiece, h⟩ := Comp.bind_ok h
  obtain ⟨fin, hfin, h⟩ := Comp.bind_ok h
  obtain ⟨hlt, rfl⟩ := Move.add_ok.mp hfin
  have hloop : ∀ {buf h k s : Value}, Spends (run H chainRealBytecode) ((iStart + steps - iStart) * 242)
      ⟨[], chainLocals byRef src srcOff iStart steps pre adrs buf (int32 (iStart + steps)) h
        (int32 iStart) k s piece, 30, none⟩
      fun t => ∃ buf h k, t = ⟨[], chainLocals byRef src srcOff iStart steps pre out.2 buf
        (int32 (iStart + steps)) h
        (int32 (iStart + steps)) k s out.1, 30, none⟩ := fun {buf h' k s} => by
    refine Fuel.Spends.whileLt (fun j x (t : State) => ∃ buf h k,
      t = ⟨[], chainLocals byRef src srcOff iStart steps pre x.2
      buf (int32 (iStart + steps)) h (int32 j) k s x.1, 30, none⟩) (Nat.le_add_right ..)
      (fun j x x' s _ hj hr _ hs => ?_) h ⟨_, _, _, rfl⟩
    obtain ⟨buf, h, k, rfl⟩ := hs
    obtain ⟨adrs', ha, hr⟩ := Comp.bind_ok hr
    obtain ⟨tmp, ht, hr⟩ := Comp.bind_ok hr
    obtain rfl := Comp.pure_iff.mp hr
    obtain rfl := sha256Trunc_ok.mp ht
    exact chain_round hj hlt ha
  refine returns_of_stops (n := 4 + ((16 - 0) * 18 + (13 + (4000 * 242 + 9)))) (by decide) ?_
  refine ops 4 (t := ⟨[], chainLocals byRef src srcOff iStart steps pre adrs a b c d e (int64 0) [],
    4, none⟩) rfl ?_
  refine ((chain_piece hpiece).bind (n := 13 + (4000 * 242 + 9)) fun t ht => ?_).mono (by decide) fun _ h => h
  subst ht
  refine ops 3 (t := ⟨[.bool (decide ((UInt64.ofNat 16).toNat < (UInt64.ofNat 16).toNat))],
    chainLocals byRef src srcOff iStart steps pre adrs a b c d e (int64 16) piece, 7, none⟩) rfl ?_
  refine brFalse rfl lt_false ?_
  refine ops 6 (t := ⟨[int32 steps, int32 iStart],
    chainLocals byRef src srcOff iStart steps pre adrs a b c (int32 iStart) e (int64 16) piece, 28,
    none⟩) rfl ?_
  refine op rfl (arith32 (· + ·) hi (asNat32 (by omega))) ?_
  refine ops 1 (t := ⟨[], chainLocals byRef src srcOff iStart steps pre adrs a
    (int32 (iStart + steps)) c (int32 iStart) e
    (int64 16) piece, 30, none⟩) rfl ?_
  refine (hloop.bind (n := 9) fun t ht => ?_).mono (by omega) fun _ h => h
  obtain ⟨buf, h', k, rfl⟩ := ht
  refine ops 3 (t := ⟨[.bool
    (decide ((UInt32.ofNat (iStart + steps)).toNat < (UInt32.ofNat (iStart + steps)).toNat))],
    chainLocals byRef src srcOff iStart steps pre out.2 buf (int32 (iStart + steps)) h'
    (int32 (iStart + steps)) k
    (int64 16) out.1, 33, none⟩) rfl ?_
  refine brFalse rfl (decide_eq_false (Nat.lt_irrefl _)) ?_
  exact ops 5 (t := ⟨[.vecU8 out.1], chainLocals byRef src srcOff iStart steps pre out.2 buf
    (int32 (iStart + steps)) h'
    (int32 (iStart + steps)) k (int64 16) out.1, 78, none⟩) rfl (stops 13 rfl rfl)

end Chain

section WotsPkFromSig

open WotsPkFromSigReal

/-- The locals of `wots_pk_from_sig`, the last of them the address that the local 3 refers to. -/
def wotsLocals (rs rm : Bool) (sig msg pre adrs : Bytes) (a d digits i piece tAdrs tmp : Value) :
    List Value :=
  [passed rs 11 sig, passed rm (11 + rs.toNat) msg, .vecU8 pre, .locRef (11 + rs.toNat + rm.toNat),
    a, d, digits, i, piece, tAdrs, tmp] ++ held rs sig ++ held rm msg ++ [.vecU8 adrs]

variable {rs rm : Bool} {sig msg pre adrs : Bytes} {a d digits i piece tAdrs tmp : Value}

theorem wotsLocals_adrs :
    (wotsLocals rs rm sig msg pre adrs a d digits i piece tAdrs tmp)[11 + rs.toNat + rm.toNat]? =
      some (.vecU8 adrs) := by
  cases rs <;> cases rm <;> rfl

theorem wotsPk_digits {ns : List Nat} (h : (Sha2128s.msgToChainDigits msg).res = .ok ns) :
    Spends (run H wotsPkFromSigRealBytecode) 3
      ⟨[], wotsLocals rs rm sig msg pre adrs a d digits i piece tAdrs tmp, 0, none⟩
      (· = ⟨[], wotsLocals rs rm sig msg pre adrs a d (ints ns) i piece tAdrs tmp, 3, none⟩) := by
  refine ops 1 (t := ⟨[passed rm (11 + rs.toNat) msg],
    wotsLocals rs rm sig msg pre adrs a d digits i piece tAdrs tmp, 1, none⟩) rfl ?_
  have hdigits := msgToChainDigits_returns (H := H) rm (a := .vecU32 []) (b := .vecU32 []) (c := .u64 0) h
  refine Fuel.Spends.pay (m := 1) (Q := (· = ⟨[ints ns],
    wotsLocals rs rm sig msg pre adrs a d digits i piece tAdrs tmp, 2, none⟩)) ?_ (by decide) fun t ht => ?_
  · cases rs <;> cases rm <;> exact call rfl hdigits rfl rfl rfl rfl (.done rfl)
  subst ht
  exact ops 1 (t := ⟨[], wotsLocals rs rm sig msg pre adrs a d (ints ns) i piece tAdrs tmp, 3,
    none⟩) rfl (.done rfl)

theorem wotsPk_start {ns : List Nat} {adrs' : Bytes} (h : (Sha2128s.msgToChainDigits msg).res = .ok ns)
    (ha : (Sha2128s.adrsSetType adrs 0).res = .ok adrs') :
    Spends (run H wotsPkFromSigRealBytecode) 13
      ⟨[], wotsLocals rs rm sig msg pre adrs a d digits i piece tAdrs tmp, 0, none⟩
      (· = ⟨[], wotsLocals rs rm sig msg pre adrs (.vecU8 adrs') d (ints ns) (int64 0) piece tAdrs
        (.vecU8 []), 13,
        none⟩) := by
  refine ((wotsPk_digits h).bind (n := 10) fun t ht => ?_).mono (by decide) fun _ h => h
  subst ht
  refine ops 3 (t := ⟨[.locRef (11 + rs.toNat + rm.toNat)],
    wotsLocals rs rm sig msg pre adrs a d (ints ns) i piece tAdrs (.vecU8 []), 6, none⟩) rfl ?_
  refine op rfl (readRef wotsLocals_adrs) ?_
  refine ops 3 (t := ⟨[.u8 0, .locRef 4], wotsLocals rs rm sig msg pre adrs (.vecU8 adrs) d
    (ints ns) i piece tAdrs (.vecU8 []), 10, none⟩) rfl ?_
  refine call (M := wotsLocals rs rm sig msg pre adrs (.vecU8 adrs') d (ints ns) i piece tAdrs
    (.vecU8 [])) rfl (adrsSetType_returns ha) rfl rfl rfl rfl ?_
  exact ops 2 (t := ⟨[], wotsLocals rs rm sig msg pre adrs (.vecU8 adrs') d (ints ns)
    (int64 0) piece tAdrs (.vecU8 []), 13, none⟩) rfl (.done rfl)

/-- The call of `chain` in a round, with the arguments before it. -/
theorem wotsPk_chain {ns : List Nat} {i n : Nat} {v : Bytes} {out : Bytes × Bytes} (hi : i < 35) (hn : n ≤ 15)
    (hx : ns[i]? = some n) (h : (Sha2128s.chain H sig (i * 16) n (15 - n) pre v).res = .ok out) :
    Spends (run H wotsPkFromSigRealBytecode) 20
      ⟨[], wotsLocals rs rm sig msg pre adrs (.vecU8 v) d (ints ns) (int64 i) piece tAdrs tmp, 22, none⟩
      (· = ⟨[.vecU8 out.1], wotsLocals rs rm sig msg pre adrs (.vecU8 out.2) (int32 n) (ints ns)
        (int64 i) piece tAdrs tmp, 42,
        none⟩) := by
  refine ops 2 (t := ⟨[int64 i, passedInts true 6 ns],
    wotsLocals rs rm sig msg pre adrs (.vecU8 v) d (ints ns) (int64 i) piece tAdrs tmp, 24, none⟩) rfl ?_
  refine op rfl (immBorrow32 _ (by omega) (fun _ => rfl) hx) ?_
  refine ops 1 (t := ⟨[int32 n], wotsLocals rs rm sig msg pre adrs (.vecU8 v) d (ints ns)
    (int64 i) piece tAdrs tmp, 26, none⟩) rfl ?_
  refine op rfl (castU32 (asNat32 (by omega))) ?_
  refine ops 4 (t := ⟨[int64 16, int64 i, passed rs 11 sig],
    wotsLocals rs rm sig msg pre adrs (.vecU8 v) (int32 n) (ints ns) (int64 i) piece tAdrs tmp, 31,
    none⟩) rfl ?_
  refine op rfl (arith64 (· * ·) (k := 16) (by omega) rfl) ?_
  generalize i * 16 = off at h
  refine ops 6 (t := ⟨[int32 n, int32 15, int32 n, int64 off, passed rs 11 sig],
    wotsLocals rs rm sig msg pre adrs (.vecU8 v) (int32 n) (ints ns) (int64 i) piece tAdrs tmp, 38,
    none⟩) rfl ?_
  refine op rfl (arith32 (· - ·) (a := 15) (by decide) (asNat32 (by omega))) ?_
  refine ops 2 (t := ⟨[.locRef 4, .vecU8 pre, int32 (15 - n), int32 n, int64 off, passed rs 11 sig],
    wotsLocals rs rm sig msg pre adrs (.vecU8 v) (int32 n) (ints ns) (int64 i) piece tAdrs tmp, 41,
    none⟩) rfl ?_
  have hchain := chain_returns rs (a := .vecU8 []) (b := .u32 0) (c := .vecU8 []) (d := .u32 0)
    (e := .u64 0) (f := .u64 0)
    (g := .vecU8 []) (by omega) (by omega) h
  cases rs
  · exact call rfl hchain rfl rfl rfl rfl (.done rfl)
  · exact call rfl hchain rfl rfl rfl rfl (.done rfl)

theorem wotsPk_round {ns : List Nat} {i : Nat} {v tmp : Bytes} {x : Bytes × Bytes} (hi : i < 35)
    (h : (do
      let a ← Sha2128s.adrsSetTreeHeight v (← Move.cast 32 i)
      let d ← Move.borrow ns i
      let steps ← Move.sub (← Move.sub (← Move.cast 32 Sha2128s.W) 1) d
      let (piece, a) ← Sha2128s.chain H sig (← Move.mul 64 i Sha2128s.N) d steps pre a
      pure (a, tmp ++ piece) : MoveFn (Bytes × Bytes)).res = .ok x) :
    Spends (run H wotsPkFromSigRealBytecode) 38
      ⟨[], wotsLocals rs rm sig msg pre adrs (.vecU8 v) d (ints ns) (int64 i) piece tAdrs
        (.vecU8 tmp), 13, none⟩
      fun t => ∃ d piece, t = ⟨[], wotsLocals rs rm sig msg pre adrs (.vecU8 x.1) d (ints ns)
        (int64 (i + 1)) piece tAdrs
        (.vecU8 x.2), 13, none⟩ := by
  simp only [Comp.bind_iff, Move.cast_ok, Move.borrow_iff, Move.sub_ok, Move.mul_ok, Comp.pure_iff] at h
  obtain ⟨_, ⟨hlt, rfl⟩, v', hv, n, hn, _, ⟨-, rfl⟩, _, ⟨-, rfl⟩, _, ⟨hle, rfl⟩, _, ⟨-, rfl⟩,
    out, hout, rfl⟩ := h
  refine ops 3 (t := ⟨[.bool (decide ((UInt64.ofNat i).toNat < (UInt64.ofNat 35).toNat))],
    wotsLocals rs rm sig msg pre adrs (.vecU8 v) d (ints ns) (int64 i) piece tAdrs (.vecU8 tmp), 16,
    none⟩) rfl ?_
  refine brTrue rfl (lt_true hi (by decide)) ?_
  refine ops 3 (t := ⟨[int64 i, .locRef 4],
    wotsLocals rs rm sig msg pre adrs (.vecU8 v) d (ints ns) (int64 i) piece tAdrs (.vecU8 tmp), 20,
    none⟩) rfl ?_
  refine op rfl (castU32 (asNat64 (by omega))) ?_
  refine call (M := wotsLocals rs rm sig msg pre adrs (.vecU8 v') d (ints ns) (int64 i) piece tAdrs
    (.vecU8 tmp)) rfl (adrsSetTreeHeight_returns hlt hv) rfl rfl rfl rfl ?_
  refine ((wotsPk_chain hi hle hn hout).bind (n := 9) fun t ht => ?_).mono (by decide) fun _ h => h
  subst ht
  refine ops 3 (t := ⟨[.vecU8 out.1, .locRef 10], wotsLocals rs rm sig msg pre adrs (.vecU8 out.2)
    (int32 n) (ints ns) (int64 i) (.vecU8 out.1) tAdrs (.vecU8 tmp), 45, none⟩) rfl ?_
  refine call (M := wotsLocals rs rm sig msg pre adrs (.vecU8 out.2) (int32 n) (ints ns) (int64 i)
    (.vecU8 out.1) tAdrs
    (.vecU8 (tmp ++ out.1))) rfl (vectorAppend_returns tmp out.1) rfl rfl rfl rfl ?_
  refine ops 5 (t := ⟨[], wotsLocals rs rm sig msg pre adrs (.vecU8 out.2) (int32 n) (ints ns)
    (.u64 (.ofNat i + .ofNat 1)) (.vecU8 out.1) tAdrs (.vecU8 (tmp ++ out.1)), 13, none⟩) rfl ?_
  rw [← UInt64.ofNat_add]
  exact .done ⟨_, _, rfl⟩

/-- The chains' ends, hashed under the address of the key. -/
theorem wotsPk_finish {ns : List Nat} {v tmp t₁ t₂ t₃ out : Bytes}
    (h₁ : (Sha2128s.adrsSetType adrs 1).res = .ok t₁) (h₂ : (Sha2128s.adrsSetTreeHeight t₁ 0).res = .ok t₂)
    (h₃ : (Sha2128s.adrsSetTreeIndex t₂ 0).res = .ok t₃) (h : (Sha2128s.thash H pre t₃ tmp).res = .ok out) :
    Spends (run H wotsPkFromSigRealBytecode) 23
      ⟨[], wotsLocals rs rm sig msg pre adrs (.vecU8 v) d (ints ns) (int64 35) piece tAdrs
        (.vecU8 tmp), 13, none⟩
      (Stops wotsPkFromSigRealBytecode [.vecU8 out] (held rs sig ++ held rm msg ++ [.vecU8 adrs])) := by
  refine ops 3 (t := ⟨[.bool (decide ((UInt64.ofNat 35).toNat < (UInt64.ofNat 35).toNat))],
    wotsLocals rs rm sig msg pre adrs (.vecU8 v) d (ints ns) (int64 35) piece tAdrs (.vecU8 tmp),
    16, none⟩) rfl ?_
  refine brFalse rfl lt_false ?_
  refine ops 3 (t := ⟨[.locRef (11 + rs.toNat + rm.toNat)],
    wotsLocals rs rm sig msg pre adrs (.vecU8 v) d (ints ns) (int64 35) piece tAdrs (.vecU8 tmp),
    54, none⟩) rfl ?_
  refine op rfl (readRef wotsLocals_adrs) ?_
  refine ops 3 (t := ⟨[.u8 1, .locRef 9],
    wotsLocals rs rm sig msg pre adrs (.vecU8 v) d (ints ns) (int64 35) piece (.vecU8 adrs)
    (.vecU8 tmp), 58, none⟩) rfl ?_
  refine call (M := wotsLocals rs rm sig msg pre adrs (.vecU8 v) d (ints ns) (int64 35) piece
    (.vecU8 t₁) (.vecU8 tmp)) rfl (adrsSetType_returns h₁) rfl rfl rfl rfl ?_
  refine ops 2 (t := ⟨[int32 0, .locRef 9],
    wotsLocals rs rm sig msg pre adrs (.vecU8 v) d (ints ns) (int64 35) piece (.vecU8 t₁)
    (.vecU8 tmp), 61, none⟩) rfl ?_
  refine call (M := wotsLocals rs rm sig msg pre adrs (.vecU8 v) d (ints ns) (int64 35) piece
    (.vecU8 t₂) (.vecU8 tmp)) rfl (adrsSetTreeHeight_returns (by decide) h₂) rfl rfl rfl rfl ?_
  refine ops 2 (t := ⟨[int32 0, .locRef 9],
    wotsLocals rs rm sig msg pre adrs (.vecU8 v) d (ints ns) (int64 35) piece (.vecU8 t₂)
    (.vecU8 tmp), 64, none⟩) rfl ?_
  refine call (M := wotsLocals rs rm sig msg pre adrs (.vecU8 v) d (ints ns) (int64 35) piece
    (.vecU8 t₃) (.vecU8 tmp)) rfl (adrsSetTreeIndex_returns (by decide) h₃) rfl rfl rfl rfl ?_
  refine ops 3 (t := ⟨[.locRef 10, .locRef 9, .vecU8 pre],
    wotsLocals rs rm sig msg pre adrs (.vecU8 v) d (ints ns) (int64 35) piece (.vecU8 t₃)
    (.vecU8 tmp), 68, none⟩) rfl ?_
  refine call (M := wotsLocals rs rm sig msg pre adrs (.vecU8 v) d (ints ns) (int64 35) piece
    (.vecU8 t₃) (.vecU8 tmp)) rfl (thash_returns h) rfl rfl rfl rfl ?_
  exact stops 11 rfl rfl

theorem wotsPkFromSig_returns (rs rm : Bool) {sig msg pre adrs out : Bytes}
    {a d digits i piece tAdrs tmp : Value}
    (h : (Sha2128s.wotsPkFromSig H sig msg pre adrs).res = .ok out) :
    Returns H wotsPkFromSigRealBytecode
    (wotsLocals rs rm sig msg pre adrs a d digits i piece tAdrs tmp) [.vecU8 out]
      (held rs sig ++ held rm msg ++ [.vecU8 adrs]) := by
  obtain ⟨ns, hns, h⟩ := Comp.bind_ok h
  obtain ⟨v, hv, h⟩ := Comp.bind_ok h
  obtain ⟨x, hx, h⟩ := Comp.bind_ok h
  obtain ⟨t₁, h₁, h⟩ := Comp.bind_ok h
  obtain ⟨t₂, h₂, h⟩ := Comp.bind_ok h
  obtain ⟨t₃, h₃, h⟩ := Comp.bind_ok h
  have hloop : Spends (run H wotsPkFromSigRealBytecode) ((35 - 0) * 38)
      ⟨[], wotsLocals rs rm sig msg pre adrs (.vecU8 v) d (ints ns) (int64 0) piece tAdrs
        (.vecU8 []), 13, none⟩
      fun t => ∃ d piece, t = ⟨[], wotsLocals rs rm sig msg pre adrs (.vecU8 x.1) d (ints ns)
        (int64 35) piece tAdrs
        (.vecU8 x.2), 13, none⟩ := by
    refine Fuel.Spends.whileLt (fun i x (t : State) => ∃ d piece,
      t = ⟨[], wotsLocals rs rm sig msg pre adrs (.vecU8 x.1) d
      (ints ns) (int64 i) piece tAdrs (.vecU8 x.2), 13, none⟩) (Nat.zero_le _)
      (fun i x x' s _ hi hr _ hs => ?_) hx
      ⟨_, _, rfl⟩
    obtain ⟨d, piece, rfl⟩ := hs
    exact wotsPk_round hi hr
  refine returns_of_stops (n := 13 + ((35 - 0) * 38 + 23)) (by decide) ?_
  refine (wotsPk_start hns hv).bind fun t ht => ?_
  subst ht
  refine hloop.bind fun t ht => ?_
  obtain ⟨d, piece, rfl⟩ := ht
  exact wotsPk_finish h₁ h₂ h₃ h

end WotsPkFromSig

end SuiPq.Proof.MoveVm.Source
