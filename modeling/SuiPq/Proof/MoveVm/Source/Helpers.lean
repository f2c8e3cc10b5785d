import SuiPq.Proof.MoveVm.Source.Bytes

/-!
# The bytecodes of the address setters and of `thash`

The setters of a compressed address return what the Move functions do, and
`thash` the truncated hash. Every function that hashes has its own copy of the
loop that truncates: `truncateLoop` is that copy, and `truncate_spends` its
effect, wherever it stands in a bytecode and whichever locals it uses.
-/

namespace SuiPq.Proof.MoveVm.Source

set_option maxRecDepth 10000

open SuiPq.Impl SuiPq.Impl.MoveVm
open SuiPq.Fuel (Spends)

variable {H : Hash}

/-! ## Addresses -/

section AdrsNew

open AdrsNewAppendSliceReal

theorem adrsNew_round {i : Nat} {a : Bytes} (hi : i < 22) :
    Spends (run H adrsNewRealBytecode) 13 ⟨[], [.vecU8 a, int64 i], 4, none⟩
      (· = ⟨[], [.vecU8 (a ++ [0]), int64 (i + 1)], 4, none⟩) := by
  refine ops 3 (t := ⟨[.bool (decide ((UInt64.ofNat i).toNat < (UInt64.ofNat 22).toNat))],
    [.vecU8 a, int64 i], 7, none⟩) rfl ?_
  refine brTrue rfl (lt_true hi (by decide)) ?_
  refine ops 9 (t := ⟨[], [.vecU8 (a ++ [0]), .u64 (.ofNat i + .ofNat 1)], 4, none⟩) rfl ?_
  rw [← UInt64.ofNat_add]
  exact .done rfl

theorem adrsNew_returns {a : Bytes} {b c : Value} (h : Sha2128s.adrsNew.res = .ok a) :
    Returns H adrsNewRealBytecode [b, c] [.vecU8 a] [] := by
  have hloop : Spends (run H adrsNewRealBytecode) ((22 - 0) * 13) ⟨[], [.vecU8 [], int64 0], 4, none⟩
      (· = ⟨[], [.vecU8 a, int64 22], 4, none⟩) := by
    refine Fuel.Spends.whileLt (fun i a (t : State) => t = ⟨[], [.vecU8 a, int64 i], 4, none⟩) (Nat.zero_le _)
      (fun i out out' s _ hi hr _ hs => ?_) h rfl
    subst hs
    obtain rfl := Comp.pure_iff.mp hr
    exact adrsNew_round hi
  refine returns_of_stops (n := 4 + ((22 - 0) * 13 + 6)) (by decide) ?_
  refine ops 4 (t := ⟨[], [.vecU8 [], int64 0], 4, none⟩) rfl ?_
  refine (hloop.bind (n := 6) fun t ht => ?_).mono (by decide) fun _ h => h
  subst ht
  refine ops 4 (t := ⟨[], [.vecU8 a, int64 22], 17, none⟩) rfl ?_
  exact ops 1 (t := ⟨[.vecU8 a], [.vecU8 a, int64 22], 18, none⟩) rfl (stops 2 rfl rfl)

end AdrsNew

/-- The setters of one byte. -/
def setByteCode (off : UInt64) : Bytecode :=
  #[.MoveLoc 1, .MoveLoc 0, .LdU64 off, .VecMutBorrow, .WriteRef, .Ret]

theorem setByte_returns {a a' : Bytes} (off : Nat) {x : UInt8} (hoff : off < 2 ^ 64)
    (h : (Move.write a off x : MoveFn Bytes).res = .ok a') :
    Returns H (setByteCode (.ofNat off)) [.locRef 2, .u8 x, .vecU8 a] [] [.vecU8 a'] := by
  obtain ⟨hlen, rfl⟩ := Move.write_ok.mp h
  refine returns_of_stops (n := 5) (by decide) ?_
  refine ops 4 (t := ⟨[.vecElemRef 2 (UInt64.ofNat off).toNat, .u8 x], [.locRef 2, .u8 x, .vecU8 a],
    4, none⟩) rfl ?_
  rw [toNat64 hoff]
  exact op rfl (writeByte rfl hlen) (stops 2 rfl rfl)

theorem adrsSetType_returns {a a' : Bytes} {x : UInt8} (h : (Sha2128s.adrsSetType a x).res = .ok a') :
    Returns H AdrsSetTypeReal.adrsSetTypeRealBytecode [.locRef 2, .u8 x, .vecU8 a] [] [.vecU8 a'] :=
  setByte_returns 9 (by decide) h

theorem adrsSetLayer_returns {a a' : Bytes} {x : UInt8} (h : (Sha2128s.adrsSetLayer a x).res = .ok a') :
    Returns H AdrsSetTypeReal.adrsSetLayerRealBytecode [.locRef 2, .u8 x, .vecU8 a] [] [.vecU8 a'] :=
  setByte_returns 0 (by decide) h

/-- The setters of a `u32`. -/
def setU32Code (off : UInt64) : Bytecode :=
  #[.MoveLoc 0, .LdU64 off, .MoveLoc 1, .Call WriteU32BeReal.writeU32BeRealBytecode [] 3, .Ret]

theorem setU32_returns {a a' : Bytes} (off : Nat) {v : Nat} (hv : v < 2 ^ 32)
    (h : (MoveBytes.writeU32 a off v).res = .ok a') :
    Returns H (setU32Code (.ofNat off)) [.locRef 2, int32 v, .vecU8 a] [] [.vecU8 a'] := by
  refine returns_of_stops (n := 4) (by decide) ?_
  refine ops 3 (t := ⟨[int32 v, int64 off, .locRef 2], [.locRef 2, int32 v, .vecU8 a], 3, none⟩) rfl ?_
  exact call rfl (writeU32_returns hv h) rfl rfl rfl rfl (stops 2 rfl rfl)

theorem adrsSetKeypair_returns {a a' : Bytes} {v : Nat} (hv : v < 2 ^ 32)
    (h : (Sha2128s.adrsSetKeypair a v).res = .ok a') :
    Returns H AdrsSetKeypairReal.adrsSetKeypairRealBytecode [.locRef 2, int32 v, .vecU8 a] [] [.vecU8 a'] :=
  setU32_returns 10 hv h

theorem adrsSetTreeHeight_returns {a a' : Bytes} {v : Nat} (hv : v < 2 ^ 32)
    (h : (Sha2128s.adrsSetTreeHeight a v).res = .ok a') :
    Returns H AdrsSetKeypairReal.adrsSetTreeHeightRealBytecode [.locRef 2, int32 v, .vecU8 a] []
    [.vecU8 a'] :=
  setU32_returns 14 hv h

theorem adrsSetTreeIndex_returns {a a' : Bytes} {v : Nat} (hv : v < 2 ^ 32)
    (h : (Sha2128s.adrsSetTreeIndex a v).res = .ok a') :
    Returns H AdrsSetKeypairReal.adrsSetTreeIndexRealBytecode [.locRef 2, int32 v, .vecU8 a] [] [.vecU8 a'] :=
  setU32_returns 18 hv h

theorem adrsSetTree_returns {a a' : Bytes} {v : Nat} (hv : v < 2 ^ 64)
    (h : (Sha2128s.adrsSetTree a v).res = .ok a') :
    Returns H WriteU64BeReal.adrsSetTreeRealBytecode [.locRef 2, int64 v, .vecU8 a] [] [.vecU8 a'] := by
  refine returns_of_stops (n := 4) (by decide) ?_
  refine ops 3 (t := ⟨[int64 v, int64 1, .locRef 2], [.locRef 2, int64 v, .vecU8 a], 3, none⟩) rfl ?_
  exact call rfl (writeU64_returns hv h) rfl rfl rfl rfl (stops 2 rfl rfl)

/-- A call of a setter whose address is in the local `p`. -/
theorem callSetter {code callee : Bytecode} {n p pc : Nat} {a a' : Bytes} {x : Value} {stack L : List Value}
    {Q : State → Prop} (hop : code.toList[pc]? = some (.Call callee [] 2)) (hL : L[p]? = some (.vecU8 a))
    (hx : ∀ i, x ≠ .locRef i) (h : Returns H callee [.locRef 2, x, .vecU8 a] [] [.vecU8 a'])
    (h' : Spends (run H code) n ⟨stack, L.set p (.vecU8 a'), pc + 1, none⟩ Q) :
    Spends (run H code) (n + 1) ⟨x :: .locRef p :: stack, L, pc, none⟩ Q := by
  have hcopy : ∀ next, copyIn L next [.locRef p, x] = ([.locRef next, x], [.vecU8 a],
    [(p, next)]) := fun next => by
    cases x with
    | locRef i => exact absurd rfl (hx i)
    | _ => simp [copyIn, hL]
  have href : referenced L [.locRef p, x] = [p] := by
    have hp : refersTo L (.locRef p) = some p := if_pos (List.getElem?_eq_some_iff.mp hL).1
    have hnone : refersTo L x = none := by
      cases x with
      | locRef i => exact absurd rfl (hx i)
      | _ => rfl
    rw [referenced, List.filterMap_cons_some hp, List.filterMap_cons_none hnone, List.filterMap_nil]
  have henter : (State.enter ⟨x :: .locRef p :: stack, L, pc, none⟩ [] 2).locals =
    [.locRef 2, x, .vecU8 a] := by
    show (copyIn L 2 [.locRef p, x]).1 ++ [] ++ (copyIn L 2 [.locRef p, x]).2.1 = _
    rw [hcopy]
    rfl
  refine call (S := stack) (M := L.set p (.vecU8 a')) hop (by rw [henter]; exact h) rfl ?_ rfl ?_ h'
  · show (referenced L [.locRef p, x]).length = 1
    rw [href]
    rfl
  · show assign (referenced L [.locRef p, x]) [.vecU8 a'] L = _
    rw [href]
    rfl

/-! ## Truncated hashes -/

/-- The loop, from the place `p`, that drops the last 16 bytes of the local `h`, with the counter `c`. -/
def truncateLoop (h c p : Nat) : List Opcode :=
  [.CopyLoc c, .LdU64 16, .Lt, .BrFalse (p + 13), .Branch (p + 5), .MutBorrowLoc h,
    .VecPopBack, .Pop, .MoveLoc c, .LdU64 1, .Add, .StLoc c, .Branch p]

section Truncate

variable {code : Bytecode} {h c p : Nat} {L : List Value}

theorem truncate_op (hcode : (code.toList.drop p).take 13 = truncateLoop h c p) (k : Nat) {o : Opcode}
    (ho : (truncateLoop h c p)[k]?.filter callFree = some o) : code.toList[p + k]?.filter callFree =
      some o := by
  have hk : k < 13 := (List.getElem?_eq_some_iff.mp (Option.filter_eq_some_iff.mp ho).1).1
  rw [← hcode, List.getElem?_take_of_lt hk, List.getElem?_drop] at ho
  exact ho

theorem truncate_round {i : Nat} {v : Bytes} (hcode : (code.toList.drop p).take 13 = truncateLoop h c p)
    (hi : i < 16) (hne : h ≠ c) (hh : L[h]? = some (.vecU8 v)) (hc : L[c]? = some (int64 i)) (hv : v ≠ []) :
    Spends (run H code) 13 ⟨[], L, p, none⟩
      (· = ⟨[], (L.set h (.vecU8 v.dropLast)).set c (int64 (i + 1)), p, none⟩) := by
  have hc' : (L.set h (.vecU8 v.dropLast))[c]? = some (int64 i) := by rw [List.getElem?_set_ne hne, hc]
  refine op (truncate_op hcode 0 rfl) (copyLoc hc) ?_
  refine op (truncate_op hcode 1 rfl) rfl ?_
  refine op (t := ⟨[.bool (decide ((UInt64.ofNat i).toNat < (UInt64.ofNat 16).toNat))], L, p + 3, none⟩)
    (truncate_op hcode 2 rfl) rfl ?_
  refine brTrue (truncate_op hcode 3 rfl) (lt_true hi (by decide)) ?_
  refine op (truncate_op hcode 4 rfl) rfl ?_
  refine op (truncate_op hcode 5 rfl) rfl ?_
  refine op (truncate_op hcode 6 rfl) (popBack hh hv) ?_
  refine op (truncate_op hcode 7 rfl) rfl ?_
  refine op (truncate_op hcode 8 rfl) (moveLoc hc') ?_
  refine op (truncate_op hcode 9 rfl) rfl ?_
  refine op (t := ⟨[.u64 (.ofNat i + .ofNat 1)], L.set h (.vecU8 v.dropLast), p + 11, none⟩)
    (truncate_op hcode 10 rfl) rfl ?_
  refine op (truncate_op hcode 11 rfl) (stLoc (List.getElem?_eq_some_iff.mp hc').1) ?_
  refine op (truncate_op hcode 12 rfl) rfl ?_
  rw [← UInt64.ofNat_add]
  exact .done rfl

/-- The locals after `i` rounds. -/
def truncateLocals (h c : Nat) (L : List Value) (v : Bytes) (i : Nat) : List Value :=
  (L.set h (.vecU8 (v.take (32 - i)))).set c (int64 i)

theorem truncate_spends {v : Bytes} (hcode : (code.toList.drop p).take 13 = truncateLoop h c p)
    (hne : h ≠ c) (hh : L[h]? = some (.vecU8 v)) (hc : L[c]? = some (int64 0)) (hv : v.length = 32) :
    Spends (run H code) 212 ⟨[], L, p, none⟩
      (· = ⟨[], (L.set h (.vecU8 (v.take 16))).set c (int64 16), p + 13, none⟩) := by
  have hstate : ∀ i, (truncateLocals h c L v i)[h]? = some (.vecU8 (v.take (32 - i))) ∧
    (truncateLocals h c L v i)[c]? = some (int64 i) := fun i => by
    refine ⟨?_, ?_⟩
    · rw [truncateLocals, List.getElem?_set_ne hne.symm,
        List.getElem?_set_self (List.getElem?_eq_some_iff.mp hh).1]
    · rw [truncateLocals, List.getElem?_set_self (by simpa using (List.getElem?_eq_some_iff.mp hc).1)]
  have hzero : L = truncateLocals h c L v 0 := by
    have hset : ∀ {i : Nat} {x : Value}, L[i]? = some x → L.set i x = L := fun {i x} hx => by
      obtain ⟨hi, rfl⟩ := List.getElem?_eq_some_iff.mp hx
      exact List.set_getElem_self hi
    show L = (L.set h (.vecU8 (v.take 32))).set c (int64 0)
    rw [List.take_of_length_le (Nat.le_of_eq hv), hset hh, hset hc]
  have hloop : Spends (run H code) (16 * 13) ⟨[], L, p, none⟩
    (· = ⟨[], truncateLocals h c L v 16, p, none⟩) := by
    refine Fuel.Spends.loop (fun i (t : State) => t = ⟨[], truncateLocals h c L v i, p, none⟩)
      (fun i s hi hs => ?_) (by rw [← hzero])
    subst hs
    have hlen : (v.take (32 - i)).length = 32 - i := by
      rw [List.length_take, hv]
      omega
    refine (truncate_round hcode hi hne (hstate i).1 (hstate i).2 fun hnil => ?_).mono
      (Nat.le_refl _) fun t ht => ?_
    · rw [hnil] at hlen
      exact absurd hlen (by simp; omega)
    · rw [ht, List.dropLast_eq_take, hlen, List.take_take, show min (32 - i - 1) (32 - i) =
        32 - (i + 1) by omega,
        truncateLocals, List.set_comm _ _ hne.symm, List.set_set, List.set_set]
      rfl
  refine (hloop.bind (n := 4) fun t ht => ?_).mono (by decide) fun _ h => h
  subst ht
  refine op (truncate_op hcode 0 rfl) (copyLoc (hstate 16).2) ?_
  refine op (truncate_op hcode 1 rfl) rfl ?_
  refine op (t := ⟨[.bool (decide ((UInt64.ofNat 16).toNat < (UInt64.ofNat 16).toNat))],
    truncateLocals h c L v 16, p + 3, none⟩)
    (truncate_op hcode 2 rfl) rfl ?_
  exact brFalse (truncate_op hcode 3 rfl) lt_false (.done rfl)

end Truncate

section Thash

open ThashReal

def thashLocals (pre adrs m buf : Bytes) (b c : Value) : List Value :=
  [.vecU8 pre, .locRef 6, .locRef 7, .vecU8 buf, b, c, .vecU8 adrs, .vecU8 m]

theorem thash_returns {pre adrs m out : Bytes} {a b c : Value}
    (h : (Sha2128s.thash H pre adrs m).res = .ok out) :
    Returns H thashRealBytecode [.vecU8 pre, .locRef 6, .locRef 7, a, b, c, .vecU8 adrs, .vecU8 m]
      [.vecU8 out] [.vecU8 adrs, .vecU8 m] := by
  rw [Sha2128s.thash, Sha2128s.sha256Trunc_eq, Comp.res_ret] at h
  obtain rfl := Except.ok.inj h
  refine returns_of_stops (n := 16 + (212 + 1)) (by decide) ?_
  refine ops 6 (t := ⟨[.vecU8 adrs, .locRef 3], thashLocals pre adrs m pre b c, 6, none⟩) rfl ?_
  refine call rfl (vectorAppend_returns pre adrs) rfl rfl rfl rfl ?_
  refine ops 3 (t := ⟨[.vecU8 m, .locRef 3], thashLocals pre adrs m (pre ++ adrs) b c, 10, none⟩) rfl ?_
  refine call rfl (vectorAppend_returns (pre ++ adrs) m) rfl rfl rfl rfl ?_
  refine ops 1 (t := ⟨[.vecU8 (pre ++ adrs ++ m)], thashLocals pre adrs m (pre ++ adrs ++ m) b c,
    12, none⟩) rfl ?_
  refine op rfl (sha256 _) ?_
  refine ops 3 (t := ⟨[], thashLocals pre adrs m (pre ++ adrs ++ m) (.vecU8 (H (pre ++ adrs ++ m)))
    (int64 0), 16, none⟩) rfl ?_
  refine ((truncate_spends (h := 4) (c := 5) (p := 16) rfl (by decide) rfl rfl
    (H.length_apply _)).bind (n := 1) fun t ht => ?_).mono (by decide) fun _ h => h
  subst ht
  exact ops 1 (t := ⟨[.vecU8 ((H (pre ++ adrs ++ m)).take 16)], _, 30, none⟩) rfl (stops 6 rfl rfl)

end Thash

end SuiPq.Proof.MoveVm.Source
