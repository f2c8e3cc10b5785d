import SuiPq.Proof.Sha2128s.Digits

/-!
# The on-chain 128s verifier: WOTS+, XMSS, the hypertree and FORS

Each function that walks a structure of a signature returns the
specification's value and hashes, in order, the inputs of the specification's
evaluations. The address buffer that is handed on has the layer, tree, type
and key pair of the structure; the fields left over from the walk before
(existentially quantified here) are overwritten before they are hashed.
-/

namespace SuiPq.Proof.Sha2128s

open SuiPq.Impl SuiPq.Impl.MoveBytes SuiPq.Impl.Sha2128s SuiPq.Move SuiPq.HashSig
open SuiPq.Spec.Slh128s (Adrs params input digits forsIndex length_thash length_htRoot)

/-- The node hash of the specification. -/
abbrev T (H : Hash) (pre : Bytes) := Spec.Slh128s.thash H pre

variable {H : Hash} {pre : Bytes} {l t kp : Nat}

theorem input_eq (n : Node) (xs : List Bytes) :
    input pre (n, xs) = pre ++ (Spec.Slh128s.adrs n).bytes ++ xs.flatten := rfl

theorem thash_node (n : Node) (xs : List Bytes) {m : Bytes} (h : m = xs.flatten) :
    thash H pre (Spec.Slh128s.adrs n).bytes m = Comp.ret (T H pre n xs) [input pre (n, xs)] :=
  sha256Trunc_node H pre n xs (by rw [h, input_eq])

/-! ## WOTS+ -/

/-- The last position hashed by a chain of `k` steps stays in the address. -/
def lastIndex (ti i k : Nat) : Nat := if k = 0 then ti else i + k - 1

theorem chain_eq {src : Bytes} {off i k : Nat} (hsrc : off + 16 ≤ src.length) (hoff : off + 16 < 2 ^ 64)
    (hik : i + k < 2 ^ 32) (c ti : Nat) :
    Sha2128s.chain H src off i k pre (Adrs.bytes ⟨l, t, 0, kp, c, ti⟩) =
      Comp.ret (HashSig.chain (wotsStep (T H pre) l t kp c) i (window src off 16) k,
        Adrs.bytes ⟨l, t, 0, kp, c, lastIndex ti i k⟩)
      ((chainEvals (wotsStep (T H pre) l t kp c) i (window src off 16) k).map fun e =>
        input pre (.wotsStep l t kp c e.1, [e.2])) := by
  rw [Sha2128s.chain, N, sliceLoop_eq hsrc hoff, pure_bind, add_eq hik, pure_bind,
    ← bind_pure (whileLt _ _ _ _ _)]
  refine whileLt_bind (fun j s => s = (HashSig.chain (wotsStep (T H pre) l t kp c) i
      (window src off 16) j, Adrs.bytes ⟨l, t, 0, kp, c, lastIndex ti i j⟩))
    (fun j => [input pre (.wotsStep l t kp c (i + j), [HashSig.chain (wotsStep (T H pre) l t kp c) i
      (window src off 16) j])]) rfl hik ?_ ?_
  · rintro j _ hj rfl
    refine ⟨_, rfl, ?_⟩
    simp only [adrsSetTreeIndex_eq, pure_bind]
    rw [sha256Trunc_node H pre (.wotsStep l t kp c (i + j))
      [HashSig.chain (wotsStep (T H pre) l t kp c) i (window src off 16) j]
      (by simp [input_eq, Spec.Slh128s.adrs]), Comp.ret_bind, Comp.after_pure]
    rfl
  · rintro _ rfl
    rw [Comp.after_pure, chainEvals, List.map_map, ← List.map_eq_flatMap]
    rfl

theorem wotsPkFromSig_eq {sig msg : Bytes} (hmsg : msg.length = 16) (hsig : 560 ≤ sig.length)
    {s : Nat → Bytes} (hs : ∀ i < 35, window sig (i * 16) 16 = s i) (ty th ti : Nat) :
    Sha2128s.wotsPkFromSig H sig msg pre (Adrs.bytes ⟨l, t, ty, kp, th, ti⟩) =
      Comp.ret (HashSig.wotsPkFromSig params (T H pre) l t kp (digits msg) s)
        ((wotsEvals params (T H pre) l t kp (digits msg) s).map (input pre)) := by
  have hd := Spec.Slh128s.digits_lt msg
  rw [Sha2128s.wotsPkFromSig, msgToChainDigits_eq hmsg, pure_bind, adrsSetType_eq, pure_bind]
  refine whileLt_zero_bind (fun k x => (∃ th ti, x.1 = Adrs.bytes ⟨l, t, 0, kp, th, ti⟩) ∧
      x.2 = ((List.range k).map fun i => wotsTop params (T H pre) l t kp i (digits msg i) (s i)).flatten)
    (fun i => (chainEvals (wotsStep (T H pre) l t kp i) (digits msg i) (s i) (15 - digits msg i)).map
      fun e => input pre (.wotsStep l t kp i e.1, [e.2])) ⟨⟨th, ti, rfl⟩, rfl⟩ (by decide) ?_ ?_
  · rintro k ⟨a, tmp⟩ hk ⟨⟨th, ti, rfl⟩, rfl⟩
    replace hk : k < 35 := hk
    have hdk := hd k
    simp only [N, W, cast_eq (show k < 2 ^ 32 by omega), adrsSetTreeHeight_eq, pure_bind,
      borrow_eq (show k < ((List.range 35).map (digits msg)).length by simpa using hk), List.getElem_map,
      List.getElem_range, cast_eq (show 16 < 2 ^ 32 by decide), sub_eq (show 1 ≤ 16 by decide),
      sub_eq (show digits msg k ≤ 16 - 1 by omega), mul_eq (show k * 16 < 2 ^ 64 by omega)]
    rw [chain_eq (by omega) (by omega) (by omega), Comp.ret_bind, hs k hk, Comp.after_pure]
    refine ⟨_, ⟨⟨_, _, rfl⟩, ?_⟩, rfl⟩
    rw [List.range_succ, List.map_append, List.flatten_append]
    simp [wotsTop, top, params]
  · rintro ⟨a, tmp⟩ ⟨-, rfl⟩
    simp only [adrsSetType_eq, adrsSetTreeHeight_eq, adrsSetTreeIndex_eq, pure_bind]
    have hpk : thash H pre (Spec.Slh128s.adrs (.wotsPk l t kp)).bytes _ = _ := thash_node (.wotsPk l t kp)
      ((List.range 35).map fun i => wotsTop params (T H pre) l t kp i (digits msg i) (s i)) rfl
    rw [show LEN = 35 by rfl]
    refine (congrArg _ hpk).trans ?_
    rw [Comp.after_ret, wotsEvals, wotsStepEvals_eq, List.map_append, List.map_flatMap]
    simp only [List.map_map, Function.comp_def]
    rfl

/-! ## XMSS -/

/-- A climbing loop's hash of a node and its sibling, and what follows it. -/
theorem climbStep_eq {β : Type} {g : Bytes → MoveFn β} {auth : Bytes} {idx k : Nat} (n : Node) (v : Bytes)
    (h : k * 16 + 16 ≤ auth.length) (hf : k * 16 + 16 < 2 ^ 64) :
    (if idx >>> k &&& 1 = 0 then do
        let buf ← appendSlice (pre ++ (Spec.Slh128s.adrs n).bytes ++ v) auth (k * 16) 16
        let node ← sha256Trunc H buf
        g node
      else do
        let buf ← appendSlice (pre ++ (Spec.Slh128s.adrs n).bytes) auth (k * 16) 16
        let node ← sha256Trunc H (buf ++ v)
        g node) =
      let c := children idx k v (window auth (k * 16) 16)
      Comp.after [input pre (n, [c.1, c.2])] (g (T H pre n [c.1, c.2])) := by
  have hc := flatten_children idx k v (window auth (k * 16) 16)
  rw [appendSlice_eq h hf, appendSlice_eq h hf, pure_bind, pure_bind]
  split
  · rw [sha256Trunc_node H pre n _ (by rw [input_eq, hc, if_pos ‹_›, List.append_assoc]), Comp.ret_bind]
  · rw [sha256Trunc_node H pre n _ (by rw [input_eq, hc, if_neg ‹_›, List.append_assoc]),
      Comp.ret_bind]

theorem xmssPkFromSig_eq {idx : Nat} {sig msg : Bytes} (hmsg : msg.length = 16) (hsig : 704 ≤ sig.length)
    {s : XmssSig Bytes} (hw : ∀ i < 35, window sig (i * 16) 16 = s.wots i)
    (ha : ∀ j < 9, window sig (560 + j * 16) 16 = s.auth j) (ty kp th ti : Nat) :
    Sha2128s.xmssPkFromSig H idx sig msg pre (Adrs.bytes ⟨l, t, ty, kp, th, ti⟩) =
      Comp.ret (HashSig.xmssPkFromSig params (T H pre) l t idx (digits msg) s,
        Adrs.bytes ⟨l, t, 2, 0, 9, idx >>> 9⟩)
        ((xmssEvals params (T H pre) l t idx (digits msg) s).map (input pre)) := by
  have hauth : ∀ j < 9, window (window sig 560 144) (j * 16) 16 = s.auth j := fun j hj => by
    rw [window_window _ (by omega), ha j hj]
  have hlen : (window sig 560 144).length = 144 := length_window (by omega)
  rw [Sha2128s.xmssPkFromSig]
  simp only [LEN, N, H_PRIME, mul_eq (show 35 * 16 < 2 ^ 64 by decide),
    mul_eq (show 9 * 16 < 2 ^ 64 by decide), pure_bind, Nat.reduceMul]
  rw [slice_eq (by omega) (by decide), pure_bind, slice_eq (by omega) (by decide), pure_bind,
    adrsSetType_eq, pure_bind, adrsSetKeypair_eq, pure_bind,
    wotsPkFromSig_eq hmsg (by rw [length_window]; omega) (s := s.wots)
      (fun i hi => by rw [window_window _ (by omega), Nat.zero_add, hw i hi]),
    Comp.ret_bind, adrsSetType_eq, pure_bind, adrsSetKeypair_eq, pure_bind, xmssEvals, List.map_append,
    ← Comp.after_ret]
  refine congrArg (Comp.after _) (whileLt_zero_bind
    (fun k x => x.1 = idx >>> k ∧
      (∃ th ti, x.2.1 = Adrs.bytes ⟨l, t, 2, 0, th, ti⟩ ∧ (0 < k → th = k ∧ ti = idx >>> k)) ∧
      x.2.2 = climb (xmssNode (T H pre) l t) idx s.auth
        (HashSig.wotsPkFromSig params (T H pre) l t idx (digits msg) s.wots) k)
    (fun k => [input pre (.merkle l t (k + 1) (idx >>> (k + 1)),
      let c := children idx k (climb (xmssNode (T H pre) l t) idx s.auth
        (HashSig.wotsPkFromSig params (T H pre) l t idx (digits msg) s.wots) k) (s.auth k)
      [c.1, c.2])])
    ⟨rfl, ⟨_, _, rfl, fun h => absurd h (by decide)⟩, rfl⟩ (by decide) ?_ ?_)
  · rintro k ⟨cur, a, node⟩ hk ⟨rfl, ⟨th, ti, rfl, -⟩, rfl⟩
    replace hk : k < 9 := hk
    refine ⟨(idx >>> (k + 1), Adrs.bytes ⟨l, t, 2, 0, k + 1, idx >>> (k + 1)⟩, _),
      ⟨rfl, ⟨_, _, rfl, fun _ => ⟨rfl, rfl⟩⟩, rfl⟩, ?_⟩
    simp only [cast_eq (show k < 2 ^ 32 by omega), cast_eq (show k < 2 ^ 8 by omega), pure_bind,
      add_eq (show k + 1 < 2 ^ 32 by omega), shr_eq (show 1 < 32 by decide), adrsSetTreeHeight_eq,
      adrsSetTreeIndex_eq, shr_eq (show k < 32 by omega), mul_eq (show k * 16 < 2 ^ 64 by omega)]
    refine (climbStep_eq (.merkle l t (k + 1) (idx >>> (k + 1))) _ (by omega) (by omega)).trans ?_
    rw [hauth k hk, Comp.after_pure]
    rfl
  · rintro ⟨cur, a, node⟩ ⟨-, ⟨th, ti, rfl, h⟩, rfl⟩
    obtain ⟨rfl, rfl⟩ := h (by decide)
    rw [Comp.after_pure, ← List.map_eq_flatMap, xmssPathEvals, climbEvals, List.map_map, List.map_map]
    rfl

/-! ## The hypertree -/

theorem htRootFromSig_eq {sig msg : Bytes} (hmsg : msg.length = 16) (hsig : sig.length = 4928)
    (t kp : Nat) :
    Sha2128s.htRootFromSig H sig msg t kp pre =
      Comp.ret (htRoot params (T H pre) digits t kp msg (Spec.Slh128s.htSig sig) 7)
        ((htEvals params (T H pre) digits t kp msg (Spec.Slh128s.htSig sig) 7).map (input pre)) := by
  rw [Sha2128s.htRootFromSig]
  simp only [LEN, N, H_PRIME, D, add_eq (show 35 + 9 < 2 ^ 64 by decide), pure_bind,
    mul_eq (show (35 + 9) * 16 < 2 ^ 64 by decide), Nat.reduceAdd, Nat.reduceMul]
  refine whileLt_zero_bind (fun k x => x = (treeAt params t k, leafAt params t kp k,
      htRoot params (T H pre) digits t kp msg (Spec.Slh128s.htSig sig) k))
    (fun k => (xmssEvals params (T H pre) k (treeAt params t k) (leafAt params t kp k)
      (digits (htRoot params (T H pre) digits t kp msg (Spec.Slh128s.htSig sig) k))
      (Spec.Slh128s.htSig sig k)).map (input pre)) rfl (by decide) ?_ ?_
  · rintro k _ hk rfl
    replace hk : k < 7 := hk
    refine ⟨_, rfl, ?_⟩
    simp only [adrsNew_eq, byte_eq (show k < 2 ^ 8 by omega), adrsSetLayer_eq, adrsSetTree_eq, pure_bind,
      mul_eq (show k * 704 < 2 ^ 64 by omega), cast_eq (show 9 < 2 ^ 8 by decide),
      shl_eq (show 9 < 64 by decide) (show 1 <<< 9 < 2 ^ 64 by decide),
      sub_eq (show 1 ≤ 1 <<< 9 by decide), shr_eq (show 9 < 64 by decide)]
    rw [slice_eq (by omega) (by omega), pure_bind,
      xmssPkFromSig_eq (length_htRoot hmsg _ k) (by rw [length_window]; omega)
        (s := Spec.Slh128s.htSig sig k) (fun _ _ => rfl) fun _ _ => rfl,
      Comp.ret_bind, show 1 <<< 9 - 1 = 2 ^ 9 - 1 by decide, Nat.and_two_pow_sub_one_eq_mod,
      Move.cast_eq (by omega), pure_bind, Comp.after_pure, Spec.Slh128s.treeAt_succ]
    rfl
  · rintro _ rfl
    rw [Comp.after_pure, htEvals, List.map_flatMap]

/-! ## FORS -/

/-- The indices of a FORS tree's nodes fit their field. -/
theorem forsIndex_fits {i j h : Nat} (hi : i < 14) (hj : j < 2 ^ 12) (hh : h ≤ 12) :
    i * 2 ^ (12 - h) + j >>> h < 2 ^ 32 := by
  have h1 : 2 ^ (12 - h) ≤ 2 ^ 12 := Nat.pow_le_pow_right (by decide) (by omega)
  have h2 : j >>> h ≤ j := by rw [Nat.shiftRight_eq_div_pow]; exact Nat.div_le_self _ _
  have h3 := Nat.mul_le_mul (Nat.le_of_lt hi) h1
  omega

/-- One level of a FORS tree: the node above `v` and its sibling. -/
theorem forsLevel_eq {i j x : Nat} {authPath s : Bytes} (hi : i < 14) (hx : x < 2 ^ 12) (hj : j < 12)
    (hlen : authPath.length = 192) (hs : window authPath (j * 16) 16 = s) (v : Bytes) (th ti : Nat) :
    (do
      let leafAdrs ← adrsSetTreeHeight (Adrs.bytes ⟨l, t, 3, kp, th, ti⟩) (← add 32 (← cast 32 j) 1)
      let nodesAtHeight ← shl 32 1 (← cast 8 (← sub (← sub 12 j) 1))
      let parentIdx ← add 32 (← mul 32 i nodesAtHeight) (← shr 32 (x >>> j) 1)
      let leafAdrs ← adrsSetTreeIndex leafAdrs parentIdx
      let bit := x >>> j &&& 1
      let buf := pre ++ leafAdrs
      let buf ← if bit = 0 then appendSlice (buf ++ v) authPath (← mul 64 j 16) 16
        else do
          let buf ← appendSlice buf authPath (← mul 64 j 16) 16
          pure (buf ++ v)
      let node ← sha256Trunc H buf
      let cur ← shr 32 (x >>> j) 1
      pure (cur, leafAdrs, node) : MoveFn (Nat × Bytes × Bytes)) =
      let c := children x j v s
      let n := Node.forsNode l t kp (j + 1) (i * 2 ^ (12 - (j + 1)) + x >>> (j + 1))
      Comp.ret (x >>> (j + 1), (Spec.Slh128s.adrs n).bytes, T H pre n [c.1, c.2])
      [input pre (n, [c.1, c.2])] := by
  have hpow : 1 <<< (12 - j - 1) = 2 ^ (12 - (j + 1)) := by rw [Nat.one_shiftLeft, Nat.sub_sub]
  have hfit := forsIndex_fits hi hx (show j + 1 ≤ 12 by omega)
  have hpow32 : 2 ^ (12 - (j + 1)) < 2 ^ 32 := Nat.pow_lt_pow_right (by decide) (by omega)
  simp only [cast_eq (show j < 2 ^ 32 by omega), pure_bind, add_eq (show j + 1 < 2 ^ 32 by omega),
    adrsSetTreeHeight_eq, sub_eq (show j ≤ 12 by omega), sub_eq (show 1 ≤ 12 - j by omega),
    cast_eq (show 12 - j - 1 < 2 ^ 8 by omega),
    shl_eq (show 12 - j - 1 < 32 by omega) (show 1 <<< (12 - j - 1) < 2 ^ 32 by rwa [hpow]), hpow,
    mul_eq (Nat.lt_of_le_of_lt (Nat.le_add_right _ _) hfit), shr_eq (show 1 < 32 by decide),
    ← Nat.shiftRight_add, add_eq hfit, adrsSetTreeIndex_eq, mul_eq (show j * 16 < 2 ^ 64 by omega)]
  refine (climbStep_eq (.forsNode l t kp (j + 1) (i * 2 ^ (12 - (j + 1)) + x >>> (j + 1))) _
    (by omega) (by omega)).trans ?_
  rw [hs, Comp.after_pure]
  rfl

/-- One FORS tree: its root, after those before it. -/
theorem forsTree_eq {i x : Nat} {sk authPath : Bytes} {auth : Nat → Bytes} (hi : i < 14) (hx : x < 2 ^ 12)
    (hlen : authPath.length = 192) (hauth : ∀ j < 12, window authPath (j * 16) 16 = auth j) (roots : Bytes) :
    (do
      let node ← thash H pre (Adrs.bytes ⟨l, t, 3, kp, 0, i * 2 ^ 12 + x⟩) sk
      let (_, _, node) ← whileLt 64 0 12 (x, Adrs.bytes ⟨l, t, 3, kp, 0, i * 2 ^ 12 + x⟩, node)
        fun j (cur, leafAdrs, node) => do
          let leafAdrs ← adrsSetTreeHeight leafAdrs (← add 32 (← cast 32 j) 1)
          let nodesAtHeight ← shl 32 1 (← cast 8 (← sub (← sub 12 j) 1))
          let parentIdx ← add 32 (← mul 32 i nodesAtHeight) (← shr 32 cur 1)
          let leafAdrs ← adrsSetTreeIndex leafAdrs parentIdx
          let bit := cur &&& 1
          let buf := pre ++ leafAdrs
          let buf ← if bit = 0 then appendSlice (buf ++ node) authPath (← mul 64 j 16) 16
            else do
              let buf ← appendSlice buf authPath (← mul 64 j 16) 16
              pure (buf ++ node)
          let node ← sha256Trunc H buf
          let cur ← shr 32 cur 1
          pure (cur, leafAdrs, node)
      pure (roots ++ node) : MoveFn Bytes) =
      Comp.ret (roots ++ forsTreeRoot params (T H pre) l t kp i x sk auth)
        ((forsTreeEvals params (T H pre) l t kp i x sk auth).map (input pre)) := by
  have hleaf : thash H pre (Adrs.bytes ⟨l, t, 3, kp, 0, i * 2 ^ 12 + x⟩) sk =
      Comp.ret (forsLeaf params (T H pre) l t kp i x sk)
        [input pre (.forsNode l t kp 0 (i * 2 ^ 12 + x), [sk])] :=
    thash_node (.forsNode l t kp 0 (i * 2 ^ 12 + x)) [sk] (by simp)
  rw [hleaf, Comp.ret_bind]
  show _ = Comp.ret _ ([input pre (.forsNode l t kp 0 (i * 2 ^ 12 + x), [sk])] ++
    (forsPathEvals params (T H pre) l t kp i x sk auth).map (input pre))
  rw [← Comp.after_ret]
  refine congrArg (Comp.after _) (whileLt_zero_bind
    (fun j y => y.1 = x >>> j ∧ (∃ th ti, y.2.1 = Adrs.bytes ⟨l, t, 3, kp, th, ti⟩) ∧
      y.2.2 = climb (forsNode params (T H pre) l t kp i) x auth (forsLeaf params (T H pre) l t kp i x sk) j)
    (fun j => [input pre (.forsNode l t kp (j + 1) (i * 2 ^ (12 - (j + 1)) + x >>> (j + 1)),
      let c := children x j (climb (forsNode params (T H pre) l t kp i) x auth
        (forsLeaf params (T H pre) l t kp i x sk) j) (auth j)
      [c.1, c.2])])
    ⟨rfl, ⟨_, _, rfl⟩, rfl⟩ (by decide) ?_ ?_)
  · rintro j ⟨cur, a, node⟩ hj ⟨rfl, ⟨th, ti, rfl⟩, rfl⟩
    exact ⟨_, ⟨rfl, ⟨_, _, rfl⟩, rfl⟩, forsLevel_eq hi hx hj hlen (hauth j hj) _ th ti⟩
  · rintro ⟨cur, a, node⟩ ⟨-, -, rfl⟩
    rw [Comp.after_pure, ← List.map_eq_flatMap, forsPathEvals, climbEvals, List.map_map, List.map_map]
    rfl

theorem forsPkFromSig_eq {sig md : Bytes} (hmd : 21 ≤ md.length) (hsig : 2912 ≤ sig.length)
    (ty th ti : Nat) :
    Sha2128s.forsPkFromSig H sig md pre (Adrs.bytes ⟨l, t, ty, kp, th, ti⟩) =
      Comp.ret (HashSig.forsPkFromSig params (T H pre) l t kp (forsIndex (window md 0 21))
          (Spec.Slh128s.forsSig sig))
        ((forsEvals params (T H pre) l t kp (forsIndex (window md 0 21))
          (Spec.Slh128s.forsSig sig)).map (input pre)) := by
  rw [Sha2128s.forsPkFromSig, extractForsIndices_eq hmd]
  have hidx := Spec.Slh128s.forsIndex_lt (window md 0 21)
  generalize forsIndex (window md 0 21) = idx at hidx
  let s := Spec.Slh128s.forsSig sig
  simp only [A, N, K, add_eq (show 1 + 12 < 2 ^ 64 by decide), pure_bind,
    mul_eq (show (1 + 12) * 16 < 2 ^ 64 by decide), Nat.reduceAdd, Nat.reduceMul]
  refine whileLt_zero_bind (fun k x => x = ((List.range k).map fun i =>
      forsTreeRoot params (T H pre) l t kp i (idx i) (s.sk i) (s.auth i)).flatten)
    (fun i => (forsTreeEvals params (T H pre) l t kp i (idx i) (s.sk i) (s.auth i)).map (input pre))
    rfl (by decide) ?_ ?_
  · rintro i _ hi rfl
    replace hi : i < 14 := hi
    refine ⟨_, rfl, ?_⟩
    have hi12 : i <<< 12 = i * 2 ^ 12 := Nat.shiftLeft_eq _ _
    have hauth : ∀ j < 12, window (window sig (i * 208 + 16) 192) (j * 16) 16 = s.auth i j :=
      fun j hj => by rw [window_window _ (by omega)]; rfl
    have hfit := forsIndex_fits hi (hidx i) (Nat.zero_le 12)
    simp only [mul_eq (show i * 208 < 2 ^ 64 by omega), add_eq (show i * 208 + 16 < 2 ^ 64 by omega),
      mul_eq (show 12 * 16 < 2 ^ 64 by decide), Nat.reduceMul, pure_bind,
      borrow_eq (show i < ((List.range 14).map idx).length by simpa using hi), List.getElem_map,
      List.getElem_range, cast_eq (show i < 2 ^ 32 by omega), cast_eq (show 12 < 2 ^ 8 by decide),
      shl_eq (show 12 < 32 by decide) (show i <<< 12 < 2 ^ 32 by omega),
      add_eq (show i * 2 ^ 12 + idx i < 2 ^ 32 from hfit), adrsSetType_eq,
      adrsSetTreeHeight_eq, adrsSetTreeIndex_eq, show ADRS_FORS_TREE.toNat = 3 by rfl, hi12]
    rw [slice_eq (by omega) (by omega), pure_bind, slice_eq (by omega) (by omega), pure_bind]
    refine (forsTree_eq hi (hidx i) (length_window (by omega)) hauth _).trans ?_
    rw [List.range_succ (n := i), List.map_append, List.flatten_append, List.map_singleton,
      List.flatten_singleton]
    rfl
  · rintro _ rfl
    simp only [adrsSetType_eq, adrsSetTreeHeight_eq, adrsSetTreeIndex_eq, pure_bind]
    refine (congrArg _ (thash_node (H := H) (.forsRoots l t kp) ((List.range 14).map fun i =>
      forsTreeRoot params (T H pre) l t kp i (idx i) (s.sk i) (s.auth i)) rfl)).trans ?_
    rw [Comp.after_ret, forsEvals, List.map_append, List.map_flatMap]
    rfl

end SuiPq.Proof.Sha2128s
