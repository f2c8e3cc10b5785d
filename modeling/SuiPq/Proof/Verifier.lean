import SuiPq.Impl.Verifier
import SuiPq.Proof.WotsPlus
import SuiPq.Spec.SlhLite

/-!
# The on-chain SLH-DSA-LITE verifier is the specification

`verify_eq`: for a 64-byte key, and a message that fits in a vector behind the
seed, the verifier does not abort; it returns whether the signature has the
right length and leads to the key's root, and hashes the message digest's
input, then those of the specification's evaluations.
-/

namespace SuiPq.Proof.Verifier

open SuiPq.Impl SuiPq.Impl.MoveBytes SuiPq.Impl.Verifier SuiPq.Move SuiPq.HashSig
open SuiPq.Spec.SlhLite (Adrs params input payload pad32 xmssSig forsSig length_thash length_htRoot
  length_forsPk treeAt_succ)

/-- The node hash of the specification. -/
abbrev T (H : Hash) (seed : Bytes) := Spec.SlhLite.thash H seed

variable {H : Hash} {seed : Bytes} {l t kp : Nat}

theorem input_eq (n : Node) (xs : List Bytes) :
    input seed (n, xs) = seed ++ (Spec.SlhLite.adrs n).bytes ++ payload n xs := rfl

/-! ## Addresses and hashes -/

theorem adrsWith_eq (l ty kp : Nat) (ht : t < 2 ^ 32) :
    adrsWith l t ty kp = pure (Adrs.bytes ⟨l, t, ty, kp, 0, 0⟩) := by
  rw [adrsWith, Spec.SlhLite.pad_zero_bytes, writeU32_eq (by simp) (by decide), pure_bind,
    Move.cast_eq ht, pure_bind, Spec.SlhLite.patch_layer, writeU32_eq (by simp) (by decide), pure_bind,
    Spec.SlhLite.patch_tree ht, writeU32_eq (by simp) (by decide), pure_bind, Spec.SlhLite.patch_type,
    writeU32_eq (by simp) (by decide), Spec.SlhLite.patch_word1]

theorem writeWord1_eq (l t ty w1 w2 w3 v : Nat) :
    writeU32 (Adrs.bytes ⟨l, t, ty, w1, w2, w3⟩) 20 v = pure (Adrs.bytes ⟨l, t, ty, v, w2, w3⟩) := by
  rw [writeU32_eq (by simp) (by decide), Spec.SlhLite.patch_word1]

theorem writeWord2_eq (l t ty w1 w2 w3 v : Nat) :
    writeU32 (Adrs.bytes ⟨l, t, ty, w1, w2, w3⟩) 24 v = pure (Adrs.bytes ⟨l, t, ty, w1, v, w3⟩) := by
  rw [writeU32_eq (by simp) (by decide), Spec.SlhLite.patch_word2]

theorem thash_eq {a m : Bytes} (ha : a.length < 2 ^ 64) (hm : m.length < 2 ^ 64) :
    thash H seed a m = Comp.ret (H (seed ++ a ++ m)) [seed ++ a ++ m] := by
  rw [thash, concat_eq ha, pure_bind, concat_eq hm, pure_bind, Comp.hash]

/-- Hashing under the address of a position. -/
theorem thash_node (n : Node) (xs : List Bytes) {m : Bytes} (h : m = payload n xs)
    (hm : m.length < 2 ^ 64) :
    thash H seed (Spec.SlhLite.adrs n).bytes m = Comp.ret (T H seed n xs) [input seed (n, xs)] := by
  subst h
  rw [thash_eq (by simp) hm, input_eq, T, Spec.SlhLite.thash, input_eq]

/-! ## XMSS -/

/-- A climbing loop's hash of a node and its sibling, and what follows it. -/
theorem climbStep_eq {β : Type} {g : Bytes → MoveFn β} {v s : Bytes} {idx k : Nat} (n : Node)
    (hn : ∀ xs, payload n xs = xs.flatten) (hv : v.length = 32) (hs : s.length = 32) :
    (do
      let merged ← if idx >>> k &&& 1 = 0 then concat v s else concat s v
      let node ← thash H seed (Spec.SlhLite.adrs n).bytes merged
      g node) =
      let c := children idx k v s
      Comp.after [input seed (n, [c.1, c.2])] (g (T H seed n [c.1, c.2])) := by
  have hc := flatten_children idx k v s
  simp only [concat_eq (show s.length < 2 ^ 64 by omega), concat_eq (show v.length < 2 ^ 64 by omega),
    pure_bind]
  split
  · rw [thash_node n [(children idx k v s).1, (children idx k v s).2] (by rw [hn, hc, if_pos ‹_›])
      (by rw [List.length_append]; omega), Comp.ret_bind]
  · rw [thash_node n [(children idx k v s).1, (children idx k v s).2] (by rw [hn, hc, if_neg ‹_›])
      (by rw [List.length_append]; omega), Comp.ret_bind]

theorem walkAuthPath_eq {idx : Nat} {leaf authPath : Bytes} (hl : leaf.length = 32)
    (hauth : authPath.length = 128) (ht : t < 2 ^ 32) :
    walkAuthPath H seed l t idx leaf authPath =
      Comp.ret (climb (xmssNode (T H seed) l t) idx (fun j => window authPath (j * 32) 32) leaf 4)
        ((xmssPathEvals params (T H seed) l t idx (fun j => window authPath (j * 32) 32) leaf).map
          (input seed)) := by
  have hlen : ∀ k, (climb (xmssNode (T H seed) l t) idx (fun j => window authPath (j * 32) 32) leaf
      k).length = 32
    | 0 => hl
    | _ + 1 => length_thash _ _
  rw [walkAuthPath, TYPE_TREE, adrsWith_eq _ _ _ ht, pure_bind]
  refine whileLt_zero_bind (fun k x => (∃ h i, x.1 = Adrs.bytes ⟨l, t, 2, h, i, 0⟩) ∧
      x.2 = climb (xmssNode (T H seed) l t) idx (fun j => window authPath (j * 32) 32) leaf k)
    (fun k => [input seed (.merkle l t (k + 1) (idx >>> (k + 1)),
      let c := children idx k (climb (xmssNode (T H seed) l t) idx
        (fun j => window authPath (j * 32) 32) leaf k) (window authPath (k * 32) 32)
      [c.1, c.2])])
    ⟨⟨_, _, rfl⟩, rfl⟩ (by decide) ?_ ?_
  · rintro k ⟨a, node⟩ hk ⟨⟨h, i, rfl⟩, rfl⟩
    replace hk : k < 4 := hk
    refine ⟨(Adrs.bytes ⟨l, t, 2, k + 1, idx >>> (k + 1), 0⟩, _), ⟨⟨_, _, rfl⟩, rfl⟩, ?_⟩
    simp only [N, cast_eq (show k < 2 ^ 32 by omega), cast_eq (show k < 2 ^ 8 by omega), pure_bind,
      add_eq (show k + 1 < 2 ^ 32 by omega), add_eq (show k + 1 < 2 ^ 8 by omega), writeWord1_eq,
      writeWord2_eq, shr_eq (show k + 1 < 32 by omega), shr_eq (show k < 32 by omega),
      mul_eq (show k * 32 < 2 ^ 64 by omega),
      slice_eq (show k * 32 + 32 ≤ authPath.length by omega) (by omega)]
    refine (climbStep_eq (.merkle l t (k + 1) (idx >>> (k + 1))) (fun _ => rfl) (hlen k)
      (length_window (by omega))).trans ?_
    rw [Comp.after_pure]
    rfl
  · rintro ⟨a, node⟩ ⟨-, rfl⟩
    rw [Comp.after_pure, ← List.map_eq_flatMap, xmssPathEvals, climbEvals, List.map_map, List.map_map]
    rfl

theorem xmssRootFromSig_eq {m wotsSig authPath : Bytes} (hseed : seed.length = 32)
    (hm : m.length = 32) (hw : wotsSig.length = 2144) (ha : authPath.length = 128) (ht : t < 2 ^ 32) :
    xmssRootFromSig H seed l t kp m wotsSig authPath =
      Comp.ret (HashSig.xmssPkFromSig params (T H seed) l t kp (Spec.WotsPlus.digits m)
          (xmssSig wotsSig authPath))
        ((xmssEvals params (T H seed) l t kp (Spec.WotsPlus.digits m)
          (xmssSig wotsSig authPath)).map (input seed)) := by
  have hpk : payload (.wotsPk l t kp) (wotsTops params (T H seed) l t kp (Spec.WotsPlus.digits m)
      (xmssSig wotsSig authPath).wots) = _ := Spec.SlhLite.payload_wotsPk hw 0 0
  have hlen : (Spec.WotsPlus.pkFromSig H seed (Adrs.bytes ⟨l, t, 0, kp, 0, 0⟩) m wotsSig).length = 2144 :=
    Spec.WotsPlus.length_pkFromSig hw
  have hleaf : thash H seed (Adrs.bytes ⟨l, t, 1, kp, 0, 0⟩) _ = _ :=
    thash_node (.wotsPk l t kp) _ hpk.symm (by omega)
  rw [xmssRootFromSig, adrsWith_eq _ _ _ ht, pure_bind,
    WotsPlus.pkFromSig_eq hseed (Spec.SlhLite.Adrs.length_bytes _) hm hw, Comp.ret_bind, xmssLeafFromWotsPk,
    TYPE_WOTS_PK, adrsWith_eq _ _ _ ht, pure_bind, hleaf, Comp.ret_bind,
    walkAuthPath_eq (length_thash _ _) ha ht, Spec.SlhLite.hashed_wots m wotsSig authPath,
    Comp.after_ret, Comp.after_ret, xmssEvals, wotsEvals, List.map_append, List.map_append, List.append_assoc]
  rfl

/-! ## The hypertree -/

theorem htRootFromSig_eq {m sig : Bytes} (hseed : seed.length = 32) (hm : m.length = 32)
    (hsig : sig.length = 5056) (ht : t < 2 ^ 32) :
    htRootFromSig H seed m t kp (window sig 512 4544) =
      Comp.ret (htRoot params (T H seed) Spec.WotsPlus.digits t kp m (Spec.SlhLite.htSig sig) 2)
        ((htEvals params (T H seed) Spec.WotsPlus.digits t kp m (Spec.SlhLite.htSig sig) 2).map
          (input seed)) := by
  have hlen : (window sig 512 4544).length = 4544 := length_window (by omega)
  rw [htRootFromSig]
  simp only [LEN, N, H_PRIME, D, mul_eq (show 67 * 32 < 2 ^ 64 by decide),
    mul_eq (show 4 * 32 < 2 ^ 64 by decide), pure_bind, Nat.reduceMul,
    add_eq (show 2144 + 128 < 2 ^ 64 by decide), Nat.reduceAdd]
  refine whileLt_zero_bind (fun k x => x = (treeAt params t k, leafAt params t kp k,
      htRoot params (T H seed) Spec.WotsPlus.digits t kp m (Spec.SlhLite.htSig sig) k))
    (fun k => (xmssEvals params (T H seed) k (treeAt params t k) (leafAt params t kp k)
      (Spec.WotsPlus.digits (htRoot params (T H seed) Spec.WotsPlus.digits t kp m (Spec.SlhLite.htSig sig) k))
      (Spec.SlhLite.htSig sig k)).map (input seed)) rfl (by decide) ?_ ?_
  · rintro k _ hk rfl
    replace hk : k < 2 := hk
    have htk := treeAt_le (p := params) t k
    refine ⟨_, rfl, ?_⟩
    simp only [mul_eq (show k * 2272 < 2 ^ 64 by omega), add_eq (show k * 2272 + 2144 < 2 ^ 64 by omega),
      cast_eq (show k < 2 ^ 32 by omega), cast_eq (show 4 < 2 ^ 8 by decide), pure_bind,
      slice_eq (show k * 2272 + 2144 ≤ (window sig 512 4544).length by omega) (by omega),
      slice_eq (show k * 2272 + 2144 + 128 ≤ (window sig 512 4544).length by omega) (by omega),
      shl_eq (show 4 < 64 by decide) (show 1 <<< 4 < 2 ^ 64 by decide),
      sub_eq (show 1 ≤ 1 <<< 4 by decide), shr_eq (show 4 < 64 by decide)]
    rw [window_window _ (by omega), window_window _ (by omega),
      xmssRootFromSig_eq hseed (length_htRoot hm _ _ _ k) (length_window (by omega))
        (length_window (by omega)) (by omega),
      Comp.ret_bind, show 1 <<< 4 - 1 = 2 ^ 4 - 1 by decide, Nat.and_two_pow_sub_one_eq_mod,
      Move.cast_eq (by omega), pure_bind, Comp.after_pure, treeAt_succ, ← Nat.add_assoc]
    rfl
  · rintro _ rfl
    rw [Comp.after_pure, htEvals, List.map_flatMap]

/-! ## FORS -/

/-- The indices of a FORS tree's nodes fit their field. -/
theorem forsIndex_fits {i j h : Nat} (hi : i < 4) (hj : j < 2 ^ 3) (hh : h ≤ 3) :
    i * 2 ^ (3 - h) + j >>> h < 2 ^ 32 := by
  have h1 : 2 ^ (3 - h) ≤ 2 ^ 3 := Nat.pow_le_pow_right (by decide) (by omega)
  have h2 : j >>> h ≤ j := by rw [Nat.shiftRight_eq_div_pow]; exact Nat.div_le_self _ _
  have h3 := Nat.mul_le_mul (Nat.le_of_lt hi) h1
  omega

/-- One level of a FORS tree's climb. -/
theorem forsLevel_eq {i j x : Nat} {auth s v : Bytes} (hi : i < 4) (hx : x < 2 ^ 3) (hj : j < 3)
    (hauth : auth.length = 96) (hs : window auth (j * 32) 32 = s) (hv : v.length = 32) (h w : Nat) :
    (do
      let adrsTree ← writeU32 (Adrs.bytes ⟨0, t, 3, h, w, 0⟩) 20 (← cast 32 (1 + j))
      let nodesAtHeight ← shl 32 1 (← cast 8 (← sub 3 (1 + j)))
      let idxAtHeight ← shr 32 (x >>> j) 1
      let adrsTree ← writeU32 adrsTree 24 (← add 32 (← mul 32 i nodesAtHeight) idxAtHeight)
      let sib ← slice auth (← mul 64 (← sub (1 + j) 1) 32) 32
      let bit := x >>> j &&& 1
      let merged ← if bit = 0 then concat v sib else concat sib v
      let node ← thash H seed adrsTree merged
      let leafIdx ← shr 32 (x >>> j) 1
      pure (leafIdx, adrsTree, node) : MoveFn (Nat × Bytes × Bytes)) =
      let c := children x j v s
      let n := Node.forsNode 0 t kp (j + 1) (i * 2 ^ (3 - (j + 1)) + x >>> (j + 1))
      Comp.ret (x >>> (j + 1), (Spec.SlhLite.adrs n).bytes, T H seed n [c.1, c.2])
        [input seed (n, [c.1, c.2])] := by
  have hpow : 1 <<< (3 - (1 + j)) = 2 ^ (3 - (j + 1)) := by rw [Nat.one_shiftLeft, Nat.add_comm]
  have hfit := forsIndex_fits hi hx (show j + 1 ≤ 3 by omega)
  have hpow32 : 2 ^ (3 - (j + 1)) < 2 ^ 32 := Nat.pow_lt_pow_right (by decide) (by omega)
  simp only [cast_eq (show 1 + j < 2 ^ 32 by omega), pure_bind, writeWord1_eq,
    sub_eq (show 1 + j ≤ 3 by omega), cast_eq (show 3 - (1 + j) < 2 ^ 8 by omega),
    shl_eq (show 3 - (1 + j) < 32 by omega) (show 1 <<< (3 - (1 + j)) < 2 ^ 32 by rwa [hpow]), hpow,
    shr_eq (show 1 < 32 by decide), ← Nat.shiftRight_add,
    mul_eq (Nat.lt_of_le_of_lt (Nat.le_add_right _ _) hfit), add_eq hfit, writeWord2_eq,
    sub_eq (show 1 ≤ 1 + j by omega), Nat.add_sub_cancel_left, mul_eq (show j * 32 < 2 ^ 64 by omega),
    slice_eq (show j * 32 + 32 ≤ auth.length by omega) (by omega), hs]
  rw [Nat.add_comm 1 j]
  refine (climbStep_eq (.forsNode 0 t kp (j + 1) (i * 2 ^ (3 - (j + 1)) + x >>> (j + 1)))
    (fun _ => rfl) hv (hs ▸ length_window (by omega))).trans ?_
  rw [Comp.after_pure]
  rfl

/-- One FORS tree: its root, copied behind those before it. -/
theorem forsTree_eq {i x : Nat} {sk authPath roots : Bytes} {auth : Nat → Bytes} (hi : i < 4)
    (hx : x < 2 ^ 3) (hsk : sk.length = 32) (hlen : authPath.length = 96)
    (hauth : ∀ j < 3, window authPath (j * 32) 32 = auth j) (h w : Nat) :
    (do
      let node ← thash H seed (Adrs.bytes ⟨0, t, 3, 0, i * 8 + x, 0⟩) sk
      let (_, adrsTree, node) ← whileLt 64 1 4 (x, Adrs.bytes ⟨0, t, 3, h, w, 0⟩, node)
        fun height (leafIdx, adrsTree, node) => do
          let adrsTree ← writeU32 adrsTree 20 (← cast 32 height)
          let nodesAtHeight ← shl 32 1 (← cast 8 (← sub 3 height))
          let idxAtHeight ← shr 32 leafIdx 1
          let adrsTree ← writeU32 adrsTree 24 (← add 32 (← mul 32 i nodesAtHeight) idxAtHeight)
          let sib ← slice authPath (← mul 64 (← sub height 1) 32) 32
          let bit := leafIdx &&& 1
          let merged ← if bit = 0 then concat node sib else concat sib node
          let node ← thash H seed adrsTree merged
          let leafIdx ← shr 32 leafIdx 1
          pure (leafIdx, adrsTree, node)
      let roots ← whileLt 64 0 32 roots fun k roots => do
        let x ← borrow node k
        pure (roots ++ [x])
      pure (Adrs.bytes ⟨0, t, 3, 0, i * 8 + x, 0⟩, adrsTree, roots) : MoveFn (Bytes × Bytes × Bytes)) =
      Comp.ret (Adrs.bytes ⟨0, t, 3, 0, i * 8 + x, 0⟩, Adrs.bytes ⟨0, t, 3, 3, i * 2 ^ 0 + x >>> 3, 0⟩,
          roots ++ forsTreeRoot params (T H seed) 0 t kp i x sk auth)
        ((forsTreeEvals params (T H seed) 0 t kp i x sk auth).map (input seed)) := by
  have hfit := forsIndex_fits hi hx (Nat.zero_le 3)
  have hleaf : thash H seed (Adrs.bytes ⟨0, t, 3, 0, i * 8 + x, 0⟩) sk =
      Comp.ret (forsLeaf params (T H seed) 0 t kp i x sk)
        [input seed (.forsNode 0 t kp 0 (i * 8 + x), [sk])] :=
    thash_node (.forsNode 0 t kp 0 (i * 8 + x)) [sk] (by simp [payload]) (by omega)
  have hclimb : ∀ j, (climb (forsNode params (T H seed) 0 t kp i) x auth
      (forsLeaf params (T H seed) 0 t kp i x sk) j).length = 32 := by
    intro j
    cases j <;> exact length_thash _ _
  rw [hleaf, Comp.ret_bind]
  show _ = Comp.ret _ ([input seed (.forsNode 0 t kp 0 (i * 8 + x), [sk])] ++
    (forsPathEvals params (T H seed) 0 t kp i x sk auth).map (input seed))
  rw [← Comp.after_ret]
  refine congrArg (Comp.after _) (whileLt_bind (n := 3)
    (fun j y => y.1 = x >>> j ∧ (∃ h w, y.2.1 = Adrs.bytes ⟨0, t, 3, h, w, 0⟩ ∧
        (0 < j → h = j ∧ w = i * 2 ^ (3 - j) + x >>> j)) ∧
      y.2.2 = climb (forsNode params (T H seed) 0 t kp i) x auth (forsLeaf params (T H seed) 0 t kp i x sk) j)
    (fun j => [input seed (.forsNode 0 t kp (j + 1) (i * 2 ^ (3 - (j + 1)) + x >>> (j + 1)),
      let c := children x j (climb (forsNode params (T H seed) 0 t kp i) x auth
        (forsLeaf params (T H seed) 0 t kp i x sk) j) (auth j)
      [c.1, c.2])])
    ⟨rfl, ⟨_, _, rfl, fun h => absurd h (by decide)⟩, rfl⟩ (by decide) ?_ ?_)
  · rintro j ⟨leafIdx, a, node⟩ hj ⟨rfl, ⟨h, w, rfl, -⟩, rfl⟩
    exact ⟨_, ⟨rfl, ⟨_, _, rfl, fun _ => ⟨rfl, rfl⟩⟩, rfl⟩,
      forsLevel_eq hi hx hj hlen (hauth j hj) (hclimb j) h w⟩
  · rintro ⟨leafIdx, a, node⟩ ⟨-, ⟨h, w, rfl, hhw⟩, rfl⟩
    obtain ⟨rfl, rfl⟩ := hhw (by decide)
    have hroot : (forsTreeRoot params (T H seed) 0 t kp i x sk auth).length = 32 := hclimb 3
    have hcopy := copyLoop (ε := Code) (w := 64) (o := 0) (n := 32)
      (v := forsTreeRoot params (T H seed) 0 t kp i x sk auth) (s := roots) (by decide) (by omega)
      fun k _ => by rw [Nat.zero_add]
    rw [window_full (Nat.le_of_eq hroot)] at hcopy
    refine (congrArg (fun c => Comp.after _ (c >>= _)) hcopy).trans ?_
    rw [pure_bind, Comp.after_pure, ← List.map_eq_flatMap, forsPathEvals, climbEvals, List.map_map,
      List.map_map]
    rfl

theorem forsRootFromSig_eq {sig : Bytes} (kp : Nat) (hsig : sig.length = 512) (ht : t < 2 ^ 32)
    {idx : Nat → Nat} (hidx : ∀ i, idx i < 2 ^ 3) :
    forsRootFromSig H seed t ((List.range 4).map idx) sig =
      Comp.ret (HashSig.forsPkFromSig params (T H seed) 0 t kp idx (forsSig sig))
        ((forsEvals params (T H seed) 0 t kp idx (forsSig sig)).map (input seed)) := by
  let s := forsSig sig
  rw [forsRootFromSig, require_pos (by simp), pure_bind]
  simp only [N, A, K, TYPE_FORS_TREE, TYPE_FORS_ROOTS, mul_eq (show 3 * 32 < 2 ^ 64 by decide), pure_bind,
    add_eq (show 32 + 3 * 32 < 2 ^ 64 by decide), cast_eq (show 3 < 2 ^ 8 by decide),
    shl_eq (show 3 < 32 by decide) (show 1 <<< 3 < 2 ^ 32 by decide), adrsWith_eq _ _ _ ht,
    Nat.reduceMul, Nat.reduceAdd, Nat.reduceShiftLeft]
  refine whileLt_zero_bind (fun k x => (∃ w, x.1 = Adrs.bytes ⟨0, t, 3, 0, w, 0⟩) ∧
      (∃ h w, x.2.1 = Adrs.bytes ⟨0, t, 3, h, w, 0⟩) ∧ x.2.2 = ((List.range k).map fun i =>
        forsTreeRoot params (T H seed) 0 t kp i (idx i) (s.sk i) (s.auth i)).flatten)
    (fun i => (forsTreeEvals params (T H seed) 0 t kp i (idx i) (s.sk i) (s.auth i)).map (input seed))
    ⟨⟨0, rfl⟩, ⟨0, 0, rfl⟩, rfl⟩ (by decide) ?_ ?_
  · rintro i ⟨aLeaf, aTree, roots⟩ hi ⟨⟨w, rfl⟩, ⟨h, w', rfl⟩, rfl⟩
    replace hi : i < 4 := hi
    have hfit := forsIndex_fits hi (hidx i) (Nat.zero_le 3)
    simp only [mul_eq (show i * 128 < 2 ^ 64 by omega), add_eq (show i * 128 + 32 < 2 ^ 64 by omega),
      slice_eq (show i * 128 + 32 ≤ sig.length by omega) (by omega),
      slice_eq (show i * 128 + 32 + 96 ≤ sig.length by omega) (by omega), pure_bind,
      borrow_eq (show i < ((List.range 4).map idx).length by simpa using hi), List.getElem_map,
      List.getElem_range, cast_eq (show i < 2 ^ 32 by omega), mul_eq (show i * 8 < 2 ^ 32 by omega),
      add_eq (show i * 8 + idx i < 2 ^ 32 from hfit), writeWord2_eq]
    refine ⟨_, ⟨⟨_, rfl⟩, ⟨_, _, rfl⟩, ?_⟩, forsTree_eq hi (hidx i)
      (show (s.sk i).length = 32 from length_window (by omega)) (length_window (by omega))
      (show ∀ j < 3, _ = s.auth i j from fun _ _ => rfl) h w'⟩
    rw [List.range_succ (n := i), List.map_append, List.flatten_append, List.map_singleton,
      List.flatten_singleton]
  · rintro ⟨aLeaf, aTree, roots⟩ ⟨-, -, rfl⟩
    have hroots : ∀ x ∈ (List.range 4).map fun i =>
        forsTreeRoot params (T H seed) 0 t kp i (idx i) (s.sk i) (s.auth i), x.length = 32 := by
      intro x hx
      obtain ⟨i, -, rfl⟩ := List.mem_map.mp hx
      exact length_thash _ _
    have hthash : thash H seed (Adrs.bytes ⟨0, t, 4, 0, 0, 0⟩) _ = _ :=
      thash_node (.forsRoots 0 t kp) _ rfl (by
        rw [payload, length_flatten_of hroots]
        · simp
        · rintro _ _ _ ⟨⟩)
    refine (congrArg _ hthash).trans ?_
    rw [Comp.after_ret, forsEvals, List.map_append, List.map_flatMap]
    rfl

/-! ## Verification -/

theorem splitDigest_eq {digest : Bytes} (h : digest.length = 32) :
    splitDigest digest = pure ((List.range 4).map (Spec.SlhLite.split digest).fors,
      (Spec.SlhLite.split digest).tree, (Spec.SlhLite.split digest).leaf) := by
  have hv : ofBe (window digest 0 2) < 2 ^ 16 := ofBe_window_lt (by omega)
  have hp : ofBe (window digest 2 1) < 2 ^ 8 := ofBe_window_lt (by omega)
  unfold splitDigest
  simp only [K, A, H_PRIME, mul_eq (show 4 * 3 < 2 ^ 64 by decide),
    add_eq (show 4 * 3 + 7 < 2 ^ 64 by decide), add_eq (show 8 + 7 < 2 ^ 64 by decide), pure_bind,
    show (4 * 3 + 7) / 8 = 2 by decide, show (8 + 7) / 8 = 1 by decide, cast_eq (show 3 < 2 ^ 8 by decide),
    cast_eq (show 4 < 2 ^ 8 by decide), sub_eq (show 4 ≤ 8 by decide), Nat.reduceSub,
    shl_eq (show 3 < 64 by decide) (show 1 <<< 3 < 2 ^ 64 by decide), sub_eq (show 1 ≤ 1 <<< 3 by decide),
    shl_eq (show 8 < 64 by decide) (show 1 <<< 8 < 2 ^ 64 by decide), sub_eq (show 1 ≤ 1 <<< 8 by decide),
    shl_eq (show 4 < 64 by decide) (show 1 <<< 4 < 2 ^ 64 by decide), sub_eq (show 1 ≤ 1 <<< 4 by decide)]
  rw [ofBeLoop (o := 0) (u := 64) (v := digest) (by decide) (by omega) (by decide) (by decide)
      fun k hk x => by simp only [Nat.zero_add], pure_bind]
  refine whileLt_bind_pure (fun k x => x.1 = ofBe (window digest 0 2) >>> (3 * k) ∧
    x.2 = (List.range k).map fun i => ofBe (window digest 0 2) >>> (3 * i) % 2 ^ 3) ⟨rfl,
    rfl⟩ (by decide) ?_ ?_
  · rintro k ⟨v, fors⟩ hk ⟨rfl, rfl⟩
    refine ⟨(ofBe (window digest 0 2) >>> (3 * (k + 1)), _), ⟨rfl, rfl⟩, ?_⟩
    rw [and_mask, Move.cast_eq (by omega), pure_bind, shr_eq (by decide), pure_bind, ← Nat.shiftRight_add,
      ← Nat.mul_succ, List.range_succ, List.map_append]
    rfl
  · rintro ⟨v, fors⟩ ⟨rfl, rfl⟩
    rw [whileGt0_pure (fun k => (List.range k).map (Spec.SlhLite.split digest).fors) (by rfl) fun k hk => ?_,
      pure_bind,
      ofBeLoop (o := 2) (u := 64) (v := digest) (by decide) (by omega) (by decide) (by decide)
        fun k hk x => by simp only [add_eq (show 2 + k < 2 ^ 64 by omega), pure_bind],
      pure_bind]
    · simp only [and_mask, Nat.mod_eq_of_lt hp, shr_eq (show 4 < 64 by decide), pure_bind]
      rw [Move.cast_eq (by omega), pure_bind, Nat.shiftRight_eq_div_pow]
      rfl
    · have hk : 4 - 1 - k < ((List.range 4).map fun i => ofBe (window digest 0 2) >>>
        (3 * i) % 2 ^ 3).length := by
        rw [List.length_map, List.length_range]; omega
      rw [borrow_eq hk, pure_bind, List.getElem_map, List.getElem_range, List.range_succ, List.map_append,
        Nat.shiftRight_eq_div_pow, Nat.pow_mul]
      rfl

/-- The on-chain verifier, on a 64-byte key. -/
theorem verify_eq {pk msg sig : Bytes} (hpk : pk.length = 64) (hmsg : msg.length < 2 ^ 64) :
    verify H pk msg sig = Comp.ret (Spec.SlhLite.verify H pk msg sig)
      (if sig.length = 5056 then Spec.SlhLite.hashed H (window pk 0 32) msg sig
        else [window pk 0 32 ++ msg]) := by
  have hseed : (window pk 0 32).length = 32 := length_window (by omega)
  have ht := Spec.SlhLite.tree_lt (H (window pk 0 32 ++ msg))
  rw [Verifier.verify, require_pos (show pk.length = 2 * N from hpk), pure_bind]
  simp only [N, LEN, K, A, H_PRIME, D, slice_eq (show 0 + 32 ≤ pk.length by omega) (by decide),
    slice_eq (show 32 + 32 ≤ pk.length by omega) (by decide), pure_bind, concat_eq hmsg, Comp.hash,
    Comp.ret_bind, splitDigest_eq (H.length_apply _), mul_eq (show 3 * 32 < 2 ^ 64 by decide),
    add_eq (show 32 + 3 * 32 < 2 ^ 64 by decide), Nat.reduceMul, Nat.reduceAdd,
    mul_eq (show 4 * 128 < 2 ^ 64 by decide), mul_eq (show 67 * 32 < 2 ^ 64 by decide),
    mul_eq (show 4 * 32 < 2 ^ 64 by decide), add_eq (show 2144 + 128 < 2 ^ 64 by decide),
    mul_eq (show 2 * 2272 < 2 ^ 64 by decide), add_eq (show 512 + 4544 < 2 ^ 64 by decide)]
  by_cases hsig : sig.length = 5056
  · rw [if_neg (not_not.mpr hsig), if_pos hsig, slice_eq (by omega) (by decide), pure_bind,
      slice_eq (by omega) (by decide), pure_bind,
      forsRootFromSig_eq (Spec.SlhLite.split (H (window pk 0 32 ++ msg))).leaf (length_window (by omega))
        (by omega) (Spec.SlhLite.fors_lt _),
      Comp.ret_bind, htRootFromSig_eq hseed (length_forsPk _ _) hsig (by omega), Comp.ret_bind,
      bytesEq_eq (by rw [length_htRoot (length_forsPk _ _)]; decide), Comp.after_pure, Comp.after_ret,
      Comp.after_ret, Spec.SlhLite.verify, Spec.SlhLite.hashed, Spec.SlhLite.evals, Spec.SlhLite.evalsFrom,
      rootEvals, List.map_append]
    simp only [hsig, true_and]
    rfl
  · rw [if_pos hsig, if_neg hsig, Spec.SlhLite.verify, decide_eq_false fun h => hsig h.1]
    rfl

end SuiPq.Proof.Verifier
