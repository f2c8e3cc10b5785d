import SuiPq.Impl.SlhDsaRef
import SuiPq.Proof.WotsRef

/-!
# The TypeScript SLH-DSA-LITE verifier is the specification

`verify_eq`: on the unpacked parts of a signature of any length, the verifier
returns whether the root they lead to is the key's, and hashes the
specification's inputs. Unlike on-chain, the length of the signature is not
looked at: parts that are not there are shorter, or empty.
-/

namespace SuiPq.Proof.SlhDsaRef

open SuiPq.Impl SuiPq.Impl.JsBytes SuiPq.Impl.WotsRef SuiPq.Impl.SlhDsaRef SuiPq.Js SuiPq.HashSig
open SuiPq.Spec.SlhLite (Adrs params input payload pad32 xmssSig forsSig length_thash length_htRoot
  length_forsPk treeAt_succ)
open SuiPq.Spec.WotsPlus (digits digits_lt)

/-- The node hash of the specification. -/
abbrev T (H : Hash) (seed : Bytes) := Spec.SlhLite.thash H seed

variable {H : Hash} {seed : Bytes} {l t kp : Nat}

/-! ## Addresses and hashes -/

theorem writeType_eq (l t ty w1 w2 w3 v : Nat) :
    writeU32BE (Adrs.bytes ⟨l, t, ty, w1, w2, w3⟩) 16 v = Adrs.bytes ⟨l, t, v, w1, w2, w3⟩ := by
  rw [WotsRef.writeU32BE_adrs _ (by decide), Spec.SlhLite.patch_type]

theorem writeWord1_eq (l t ty w1 w2 w3 v : Nat) :
    writeU32BE (Adrs.bytes ⟨l, t, ty, w1, w2, w3⟩) 20 v = Adrs.bytes ⟨l, t, ty, v, w2, w3⟩ := by
  rw [WotsRef.writeU32BE_adrs _ (by decide), Spec.SlhLite.patch_word1]

theorem writeWord2_eq (l t ty w1 w2 w3 v : Nat) :
    writeU32BE (Adrs.bytes ⟨l, t, ty, w1, w2, w3⟩) 24 v = Adrs.bytes ⟨l, t, ty, w1, v, w3⟩ := by
  rw [WotsRef.writeU32BE_adrs _ (by decide), Spec.SlhLite.patch_word2]

theorem writeWord3_eq (l t ty w1 w2 w3 v : Nat) :
    writeU32BE (Adrs.bytes ⟨l, t, ty, w1, w2, w3⟩) 28 v = Adrs.bytes ⟨l, t, ty, w1, w2, v⟩ := by
  rw [WotsRef.writeU32BE_adrs _ (by decide), Spec.SlhLite.patch_word3]

/-- The addresses that are built. -/
theorem buildAdrs_at (ht : t < 2 ^ 64) (layer type keypair : Option Nat) :
    buildAdrs { layer, tree := some t, type, keypair } =
      pure (Adrs.bytes ⟨layer.getD 0, t, type.getD 0, keypair.getD 0, 0, 0⟩) := WotsRef.buildAdrs_eq ht

/-- Hashing under the address of a position. -/
theorem thash_node (n : Node) (xs : List Bytes) {m : Bytes} (h : m = payload n xs) :
    SlhDsaRef.thash H seed (Spec.SlhLite.adrs n).bytes m = Comp.ret (T H seed n xs) [input seed (n, xs)] := by
  have hin : [seed, (Spec.SlhLite.adrs n).bytes, m].flatten = input seed (n, xs) := by
    simp [input, h]
  rw [SlhDsaRef.thash, concat_eq, pure_bind, hin]
  rfl

/-! ## WOTS+ -/

theorem chainStep_eq (c start steps : Nat) (value : Bytes) (ty w2 w3 : Nat) :
    chainStep H seed (Adrs.bytes ⟨l, t, ty, kp, w2, w3⟩) c start steps value =
      Comp.ret (chain (wotsStep (T H seed) l t kp c) start value steps)
        ((chainEvals (wotsStep (T H seed) l t kp c) start value steps).map fun e =>
          input seed (.wotsStep l t kp c e.1, [e.2])) := by
  rw [chainStep, TYPE_WOTS_HASH, writeType_eq, writeWord2_eq]
  refine Comp.forLt_zero_bind (fun j s => s.1 = chain (wotsStep (T H seed) l t kp c) start value j ∧
      ∃ w, s.2 = Adrs.bytes ⟨l, t, 0, kp, c, w⟩)
    (fun j => [input seed (.wotsStep l t kp c (start + j),
      [chain (wotsStep (T H seed) l t kp c) start value j])]) ⟨rfl, w3, rfl⟩ ?_ ?_
  · rintro j ⟨v, a⟩ hj ⟨rfl, w, rfl⟩
    have hstep : SlhDsaRef.thash H seed (Adrs.bytes ⟨l, t, 0, kp, c, start + j⟩) _ = _ :=
      thash_node (.wotsStep l t kp c (start + j)) [chain (wotsStep (T H seed) l t kp c) start value j]
        (List.flatten_singleton).symm
    refine ⟨(_, Adrs.bytes ⟨l, t, 0, kp, c, start + j⟩), ⟨rfl, _, rfl⟩, ?_⟩
    simp only [writeWord3_eq, hstep, Comp.ret_bind, Comp.after_pure]
    rfl
  · rintro ⟨v, a⟩ ⟨rfl, -⟩
    rw [Comp.after_pure, ← List.map_eq_flatMap, chainEvals, List.map_map]
    rfl

/-- Filling the 67 cells of a WOTS+ value, each with a string that fits. -/
theorem cellsLoop {v : Nat → Bytes} (lg : Nat → List Bytes) (hv : ∀ i < 67, (v i).length ≤ 32)
    {b : Nat → Bytes → Js Bytes}
      (hb : ∀ i < 67, ∀ out, b i out = Comp.after (lg i) (set out (v i) (i * 32))) :
    forLt 0 67 (zeros (67 * 32)) b =
      Comp.ret ((List.range 67).flatMap fun i => pad32 (v i)) ((List.range 67).flatMap lg) := by
  rw [Comp.forLt_zero_ret (fun k => ((List.range k).flatMap fun i => pad32 (v i)) ++ zeros ((67 - k) * 32)) lg
    (by rfl) fun i hi => ?_]
  · rw [show zeros ((67 - 67) * 32) = [] by rfl, List.append_nil]
  · have hlen : ((List.range i).flatMap fun i => pad32 (v i)).length = i * 32 := by
      rw [List.flatMap, length_flatten_of (w := 32), List.length_map, List.length_range]
      intro x hx
      obtain ⟨j, hj, rfl⟩ := List.mem_map.mp hx
      exact Spec.SlhLite.length_pad32 (hv j (by have := List.mem_range.mp hj; omega))
    rw [hb i hi, set_cell hlen hi (hv i hi), Comp.after_pure, List.range_succ, List.flatMap_append,
      List.flatMap_singleton]
    rfl

theorem length_chain_le {x : Bytes} (hx : x.length ≤ 32) (c start : Nat) :
    ∀ k, (chain (wotsStep (T H seed) l t kp c) start x k).length ≤ 32
  | 0 => hx
  | _ + 1 => Nat.le_of_eq (length_thash _ _)

theorem wotsPkFromSig_eq {m : Bytes} (hm : m.length = 32) (sig auth : Bytes) (ty w2 w3 : Nat) :
    SlhDsaRef.wotsPkFromSig H seed (Adrs.bytes ⟨l, t, ty, kp, w2, w3⟩) m sig =
      Comp.ret (payload (.wotsPk l t kp) (wotsTops params (T H seed) l t kp (digits m)
        (xmssSig sig auth).wots))
        ((wotsStepEvals params (T H seed) l t kp (digits m) (xmssSig sig auth).wots).map (input seed)) := by
  let s := (xmssSig sig auth).wots
  rw [SlhDsaRef.wotsPkFromSig, WotsRef.msgToChains_eq hm, pure_bind]
  refine (cellsLoop (v := fun i => wotsTop params (T H seed) l t kp i (digits m i) (s i))
    (fun i => (chainEvals (wotsStep (T H seed) l t kp i) (digits m i) (s i) (15 - digits m i)).map
      fun e => input seed (.wotsStep l t kp i e.1, [e.2]))
    (fun i _ => length_chain_le (length_window_le _ _ _) _ _ _) fun i hi out => ?_).trans ?_
  · simp only [get_eq (show i < ((List.range 67).map (digits m)).length by simpa using hi), pure_bind,
      List.getElem_map, List.getElem_range, SLH.n, WOTS.w, Nat.succ_mul, slice_eq,
      chainStep_eq, Comp.ret_bind]
    rfl
  · rw [payload, wotsTops, List.flatMap_map, wotsStepEvals_eq, List.map_flatMap]
    simp only [List.map_map, Function.comp_def]
    rfl

/-! ## XMSS -/

/-- A climbing loop's hash of a node and its sibling, and what follows it. -/
theorem climbStep_eq {β : Type} {g : Bytes → Js β} {idx k bit : Nat} (n : Node) (v s : Bytes)
    (hn : ∀ xs, payload n xs = xs.flatten) (hb : bit = idx >>> k &&& 1) :
    (do
      let merged ← if bit = 0 then concat [v, s] else concat [s, v]
      let node ← SlhDsaRef.thash H seed (Spec.SlhLite.adrs n).bytes merged
      g node) =
      let c := children idx k v s
      Comp.after [input seed (n, [c.1, c.2])] (g (T H seed n [c.1, c.2])) := by
  have hc := flatten_children idx k v s
  subst hb
  simp only [concat_eq, pure_bind]
  split
  · rw [thash_node n [(children idx k v s).1, (children idx k v s).2] (by rw [hn, hc, if_pos ‹_›]; simp),
      Comp.ret_bind]
  · rw [thash_node n [(children idx k v s).1, (children idx k v s).2] (by rw [hn, hc, if_neg ‹_›]; simp),
      Comp.ret_bind]

/-- The low bit of a shifted number. -/
theorem and_shr_one {idx : Nat} (h : idx < 2 ^ 31) (k : Nat) : Js.and (idx >>> k) 1 = idx >>> k &&& 1 :=
  and_eq (Nat.lt_of_le_of_lt (Nat.shiftRight_le _ _) (by omega)) (by decide)

theorem xmssRootFromLeafChunk_eq {idx : Nat} (hidx : idx < 2 ^ 31) (leaf authPath : Bytes) :
    xmssRootFromLeafChunk H seed (Adrs.bytes ⟨l, t, 0, 0, 0, 0⟩) idx leaf authPath =
      Comp.ret (climb (xmssNode (T H seed) l t) idx (fun j => window authPath (j * 32) 32) leaf 4)
        ((xmssPathEvals params (T H seed) l t idx (fun j => window authPath (j * 32) 32) leaf).map
          (input seed)) := by
  rw [xmssRootFromLeafChunk, TYPE_TREE, writeType_eq]
  refine Comp.forLt_zero_bind (fun k x => (∃ h i, x.2 = Adrs.bytes ⟨l, t, 2, h, i, 0⟩) ∧
      x.1 = climb (xmssNode (T H seed) l t) idx (fun j => window authPath (j * 32) 32) leaf k)
    (fun k => [input seed (.merkle l t (k + 1) (idx >>> (k + 1)),
      let c := children idx k (climb (xmssNode (T H seed) l t) idx
        (fun j => window authPath (j * 32) 32) leaf k) (window authPath (k * 32) 32)
      [c.1, c.2])])
    ⟨⟨_, _, rfl⟩, rfl⟩ ?_ ?_
  · rintro k ⟨node, a⟩ hk ⟨⟨h, i, rfl⟩, rfl⟩
    replace hk : k < 4 := hk
    refine ⟨(_, Adrs.bytes ⟨l, t, 2, k + 1, idx >>> (k + 1), 0⟩), ⟨⟨_, _, rfl⟩, rfl⟩, ?_⟩
    simp only [SLH.n, writeWord1_eq, writeWord2_eq, sar_eq hidx (show k + 1 < 32 by omega),
      sar_eq hidx (show k < 32 by omega), pure_bind, Nat.succ_mul, slice_eq]
    refine (climbStep_eq (.merkle l t (k + 1) (idx >>> (k + 1))) _ _ (fun _ => rfl)
      (and_shr_one hidx k)).trans ?_
    rw [Comp.after_pure]
    rfl
  · rintro ⟨node, a⟩ ⟨-, rfl⟩
    rw [Comp.after_pure, ← List.map_eq_flatMap, xmssPathEvals, climbEvals, List.map_map, List.map_map]
    rfl

theorem xmssRootFromSig_eq {m : Bytes} (hm : m.length = 32) (ht : t < 2 ^ 64) (hkp : kp < 2 ^ 31)
    (sig : SlhDsaRef.XmssSig) :
    SlhDsaRef.xmssRootFromSig H seed l t kp m sig =
      Comp.ret (xmssPkFromSig params (T H seed) l t kp (digits m) (xmssSig sig.wotsSig sig.authPath))
        ((xmssEvals params (T H seed) l t kp (digits m) (xmssSig sig.wotsSig sig.authPath)).map
          (input seed)) := by
  have hleaf : SlhDsaRef.thash H seed (Adrs.bytes ⟨l, t, 1, kp, 0, 0⟩) _ = _ := thash_node (.wotsPk l t kp)
    (wotsTops params (T H seed) l t kp (digits m) (xmssSig sig.wotsSig sig.authPath).wots) rfl
  rw [SlhDsaRef.xmssRootFromSig]
  simp only [TYPE_WOTS_PK, buildAdrs_at ht, pure_bind, Option.getD_some, Option.getD_none,
    wotsPkFromSig_eq hm sig.wotsSig sig.authPath, Comp.ret_bind, hleaf, xmssRootFromLeafChunk_eq hkp,
    Comp.after_ret]
  rw [xmssEvals, wotsEvals, List.map_append, List.map_append, List.append_assoc]
  rfl

/-! ## The hypertree -/

theorem htRootFromSig_eq {m : Bytes} (hm : m.length = 32) (ht : t < 2 ^ 53) (hkp : kp < 2 ^ 4)
    (s : Nat → SlhDsaRef.XmssSig) :
    SlhDsaRef.htRootFromSig H seed m t kp ⟨(List.range 2).map s⟩ =
      Comp.ret (htRoot params (T H seed) digits t kp m (fun l => xmssSig (s l).wotsSig (s l).authPath) 2)
        ((htEvals params (T H seed) digits t kp m (fun l => xmssSig (s l).wotsSig (s l).authPath) 2).map
          (input seed)) := by
  let ht' l := xmssSig (s l).wotsSig (s l).authPath
  refine Comp.forLt_zero_bind (fun k x => x = (htRoot params (T H seed) digits t kp m ht' k,
      treeAt params t k, leafAt params t kp k))
    (fun k => (xmssEvals params (T H seed) k (treeAt params t k) (leafAt params t kp k)
      (digits (htRoot params (T H seed) digits t kp m ht' k)) (ht' k)).map (input seed)) rfl ?_ ?_
  · rintro k _ hk rfl
    replace hk : k < 2 := hk
    have htk := treeAt_le (p := params) t k
    have hleaf : leafAt params t kp k < 2 ^ 4 := leafAt_lt hkp k
    refine ⟨_, rfl, ?_⟩
    simp only [SLH.h_prime, number_eq (show treeAt params t k < 2 ^ 53 by omega), and_mask,
      number_eq (show treeAt params t k % 2 ^ 4 < 2 ^ 53 by omega), pure_bind,
      get_eq (show k < ((List.range 2).map s).length by simpa using hk), List.getElem_map,
      List.getElem_range]
    rw [xmssRootFromSig_eq (length_htRoot hm _ _ _ k) (by omega) (by omega), Comp.ret_bind,
      Comp.after_pure, treeAt_succ]
    rfl
  · rintro _ rfl
    rw [Comp.after_pure, htEvals, List.map_flatMap]
    rfl

/-! ## FORS -/

theorem forsRootFromSig_eq (kp : Nat) (ht : t < 2 ^ 64) {idx : Nat → Nat} (hidx : ∀ i, idx i < 2 ^ 3)
    (sig : SlhDsaRef.ForsSig) :
    SlhDsaRef.forsRootFromSig H seed t ((List.range 4).map idx) sig =
      Comp.ret (forsPkFromSig params (T H seed) 0 t kp idx (forsSig sig.bytes))
        ((forsEvals params (T H seed) 0 t kp idx (forsSig sig.bytes)).map (input seed)) := by
  let s := forsSig sig.bytes
  rw [SlhDsaRef.forsRootFromSig]
  simp only [TYPE_FORS_TREE, TYPE_FORS_ROOTS, buildAdrs_at ht, pure_bind, Option.getD_some,
    Option.getD_none, SLH.n, SLH.a, SLH.k, Nat.reduceMul, Nat.reduceAdd]
  refine Comp.forLt_zero_bind (fun k x => (∃ w, x.2.1 = Adrs.bytes ⟨0, t, 3, 0, w, 0⟩) ∧
      (∃ h w, x.2.2 = Adrs.bytes ⟨0, t, 3, h, w, 0⟩) ∧ x.1 = (List.range k).map fun i =>
        forsTreeRoot params (T H seed) 0 t kp i (idx i) (s.sk i) (s.auth i))
    (fun i => (forsTreeEvals params (T H seed) 0 t kp i (idx i) (s.sk i) (s.auth i)).map (input seed))
    ⟨⟨0, rfl⟩, ⟨0, 0, rfl⟩, rfl⟩ ?_ ?_
  · rintro i ⟨roots, aLeaf, aTree⟩ hi ⟨⟨w, rfl⟩, ⟨h, w', rfl⟩, rfl⟩
    replace hi : i < 4 := hi
    have hi31 : idx i < 2 ^ 31 := Nat.lt_trans (hidx i) (by decide)
    have hshl : shl 1 3 = pure (2 ^ 3) := shl_eq (by decide) (by decide)
    have hleaf : SlhDsaRef.thash H seed (Adrs.bytes ⟨0, t, 3, 0, i * 2 ^ 3 + idx i, 0⟩) (s.sk i) =
        Comp.ret (forsLeaf params (T H seed) 0 t kp i (idx i) (s.sk i))
          [input seed (.forsNode 0 t kp 0 (i * 2 ^ 3 + idx i), [s.sk i])] :=
      thash_node (.forsNode 0 t kp 0 (i * 2 ^ 3 + idx i)) [s.sk i] (by simp [payload])
    have hslice : slice sig.bytes (i * 128 + 32) (i * 128 + 128) = window sig.bytes (i * 128 + 32) 96 :=
      slice_eq _ _ 96
    simp only [hslice, slice_eq, get_eq (show i < ((List.range 4).map idx).length by simpa using hi),
      List.getElem_map, List.getElem_range, pure_bind, hshl, writeWord2_eq]
    rw [show window sig.bytes (i * 128) 32 = s.sk i by rfl, hleaf, Comp.ret_bind]
    refine ⟨(_, Adrs.bytes ⟨0, t, 3, 0, i * 2 ^ 3 + idx i, 0⟩,
        Adrs.bytes ⟨0, t, 3, 3, i * 2 ^ 0 + idx i >>> 3, 0⟩), ⟨⟨_, rfl⟩, ⟨_, _, rfl⟩, rfl⟩, ?_⟩
    show _ = Comp.ret _ ([input seed (.forsNode 0 t kp 0 (i * 2 ^ 3 + idx i), [s.sk i])] ++
      (forsPathEvals params (T H seed) 0 t kp i (idx i) (s.sk i) (s.auth i)).map (input seed))
    rw [← Comp.after_ret]
    refine congrArg (Comp.after _) (Comp.forLt_one_bind (n := 3)
      (fun j x => x.2.1 = idx i >>> j ∧ (∃ h w, x.2.2 = Adrs.bytes ⟨0, t, 3, h, w, 0⟩ ∧
          (0 < j → h = j ∧ w = i * 2 ^ (3 - j) + idx i >>> j)) ∧
        x.1 = climb (forsNode params (T H seed) 0 t kp i) (idx i) (s.auth i)
          (forsLeaf params (T H seed) 0 t kp i (idx i) (s.sk i)) j)
      (fun j => [input seed (.forsNode 0 t kp (j + 1) (i * 2 ^ (3 - (j + 1)) + idx i >>> (j + 1)),
        let c := children (idx i) j (climb (forsNode params (T H seed) 0 t kp i) (idx i) (s.auth i)
          (forsLeaf params (T H seed) 0 t kp i (idx i) (s.sk i)) j) (s.auth i j)
        [c.1, c.2])])
      ⟨rfl, ⟨_, _, rfl, fun h => absurd h (by decide)⟩, rfl⟩ ?_ ?_)
    · rintro j ⟨node, cur, a⟩ hj ⟨rfl, ⟨h, w, rfl, -⟩, rfl⟩
      have hpow : 1 <<< (3 - (j + 1)) < 2 ^ 31 := by
        rw [Nat.one_shiftLeft]
        exact Nat.pow_lt_pow_right (by decide) (by omega)
      have hcur : idx i >>> j < 2 ^ 31 := Nat.lt_of_le_of_lt (Nat.shiftRight_le _ _) hi31
      simp only [writeWord1_eq, writeWord2_eq, Nat.add_sub_cancel, Nat.succ_mul, slice_eq,
        shl_eq (show 3 - (j + 1) < 32 by omega) hpow, Nat.one_shiftLeft, sar_eq hcur (show 1 < 32 by decide),
        ← Nat.shiftRight_add, pure_bind]
      refine ⟨(_, idx i >>> (j + 1),
        Adrs.bytes ⟨0, t, 3, j + 1, i * 2 ^ (3 - (j + 1)) + idx i >>> (j + 1), 0⟩),
        ⟨rfl, ⟨_, _, rfl, fun _ => ⟨rfl, rfl⟩⟩, rfl⟩, ?_⟩
      refine (climbStep_eq (.forsNode 0 t kp (j + 1) (i * 2 ^ (3 - (j + 1)) + idx i >>> (j + 1))) _ _
        (fun _ => rfl) (and_shr_one hi31 j)).trans ?_
      rw [Comp.after_pure]
      rfl
    · rintro ⟨node, cur, a⟩ ⟨-, ⟨h, w, rfl, hhw⟩, rfl⟩
      obtain ⟨rfl, rfl⟩ := hhw (by decide)
      rw [Comp.after_pure, ← List.map_eq_flatMap, forsPathEvals, climbEvals, List.map_map, List.map_map,
        List.range_succ (n := i), List.map_append]
      rfl
  · rintro ⟨roots, aLeaf, aTree⟩ ⟨-, -, rfl⟩
    have hthash : SlhDsaRef.thash H seed (Adrs.bytes ⟨0, t, 4, 0, 0, 0⟩) _ = _ :=
      thash_node (.forsRoots 0 t kp) ((List.range 4).map fun i =>
        forsTreeRoot params (T H seed) 0 t kp i (idx i) (s.sk i) (s.auth i)) rfl
    rw [concat_eq, pure_bind]
    refine (congrArg _ hthash).trans ?_
    rw [Comp.after_ret, forsEvals, List.map_append, List.map_flatMap]
    rfl

/-! ## Verification -/

theorem splitDigest_eq {digest : Bytes} (h : digest.length = 32) :
    SlhDsaRef.splitDigest digest = pure ((List.range 4).map (Spec.SlhLite.split digest).fors,
      (Spec.SlhLite.split digest).tree, (Spec.SlhLite.split digest).leaf) := by
  have hp : ofBe (window digest 2 1) < 2 ^ 8 := ofBe_window_lt (by omega)
  have hround : ∀ (s k : Nat) (h : s + k < digest.length),
      ofBe (window digest s k) <<< 8 ||| (digest.getD (s + k) 0).toNat = ofBe (window digest s (k + 1)) := by
    intro s k h
    rw [List.getD_eq_getElem _ _ h, ofBe_window_round h]
  have hshl : shl 1 3 = pure (2 ^ 3) := shl_eq (by decide) (by decide)
  unfold SlhDsaRef.splitDigest
  simp only [SLH.k, SLH.a, SLH.h, SLH.h_prime, show ceilDiv (4 * 3) 8 = 2 by decide,
    show ceilDiv 8 8 = 1 by decide, Nat.reduceSub, hshl, pure_bind]
  rw [forLt_zero_pure (fun k => ofBe (window digest 0 k)) (by rfl) fun k hk => by
      have := hround 0 k (by omega)
      rw [Nat.zero_add] at this
      rw [this], pure_bind,
    forDown_pure (fun k => (ofBe (window digest 0 2) >>> (3 * k),
      (List.range k).map fun i => (Spec.SlhLite.split digest).fors (4 - k + i))) (by rfl) fun k hk => ?_,
    pure_bind, forLt_zero_pure (fun k => ofBe (window digest 2 k)) (by rfl) fun k hk => by
      rw [hround 2 k (by omega)], pure_bind]
  · simp only [and_mask, Nat.mod_eq_of_lt hp]
    rw [number_eq (by omega), pure_bind, Nat.shiftRight_eq_div_pow]
    rfl
  · have hd : ofBe (window digest 0 2) >>> (3 * k) % 2 ^ 3 = (Spec.SlhLite.split digest).fors (3 - k) := by
      show _ = ofBe (window digest 0 2) / 8 ^ (4 - 1 - (3 - k)) % 8
      rw [show 4 - 1 - (3 - k) = k by omega, Nat.shiftRight_eq_div_pow, Nat.pow_mul]
      rfl
    rw [show 2 ^ 3 - 1 = 1 <<< 3 - 1 by rfl, and_mask, number_eq (by omega), pure_bind,
      ← Nat.shiftRight_add, ← Nat.mul_succ, hd, List.range_succ_eq_map, List.map_cons,
      List.map_map, Nat.add_zero, show 4 - (k + 1) = 3 - k by omega]
    have hmap : (List.range k).map (fun i => (Spec.SlhLite.split digest).fors (4 - k + i)) =
        (List.range k).map ((fun i => (Spec.SlhLite.split digest).fors (3 - k + i)) ∘ Nat.succ) :=
      List.map_congr_left fun i _ => congrArg _ (by omega)
    rw [hmap]
    rfl

/-- The hypertree part of a signature. -/
abbrev htParts (s : Nat → SlhDsaRef.XmssSig) (l : Nat) : XmssSig Bytes := xmssSig (s l).wotsSig (s l).authPath

/-- The verifier, on the parts of a signature. -/
theorem verify_parts (pk : SlhDsaRef.PublicKey) (msg fors : Bytes) (s : Nat → SlhDsaRef.XmssSig) :
    SlhDsaRef.verify H pk msg ⟨⟨fors⟩, ⟨(List.range 2).map s⟩⟩ =
      Comp.ret (decide (Spec.SlhLite.rootFrom H pk.seed msg (forsSig fors) (htParts s) = pk.root))
        ((pk.seed ++ msg) ::
          (Spec.SlhLite.evalsFrom H pk.seed msg (forsSig fors) (htParts s)).map (input pk.seed)) := by
  have hsel : Spec.SlhLite.split (H (pk.seed ++ msg)) = Spec.SlhLite.selection H pk.seed msg := rfl
  have ht := Spec.SlhLite.tree_lt (H (pk.seed ++ msg))
  have hkp := Spec.SlhLite.leaf_lt (H (pk.seed ++ msg))
  have hcat : [pk.seed, msg].flatten = pk.seed ++ msg := by simp
  rw [SlhDsaRef.verify, concat_eq, pure_bind, hcat, Comp.hash, Comp.ret_bind,
    splitDigest_eq (H.length_apply _), pure_bind]
  have hfors := Spec.SlhLite.fors_lt (H (pk.seed ++ msg))
  simp only [hsel] at ht hkp hfors ⊢
  rw [forsRootFromSig_eq (Spec.SlhLite.selection H pk.seed msg).leaf (by omega) hfors,
    Comp.ret_bind, htRootFromSig_eq (length_forsPk _ _) (by omega) hkp, Comp.ret_bind, sameBytes_eq,
    Comp.after_pure, Comp.after_ret, Comp.after_ret, Spec.SlhLite.evalsFrom, rootEvals, List.map_append]
  rfl

/-- A layer's part of a signature of any length. -/
def layerParts (sig : Bytes) (l : Nat) : SlhDsaRef.XmssSig where
  wotsSig := window sig (512 + l * 2272) 2144
  authPath := window sig (512 + l * 2272 + 2144) 128

theorem unpackSignature_eq (sig : Bytes) :
    unpackSignature sig = pure ⟨⟨window sig 0 512⟩, ⟨(List.range 2).map (layerParts sig)⟩⟩ := by
  rw [unpackSignature]
  simp only [SLH.k, SLH.n, SLH.a, SLH.len, SLH.h_prime, SLH.d, Nat.reduceMul, Nat.reduceAdd]
  rw [forLt_zero_pure (fun k => ((List.range k).map (layerParts sig), 512 + k * 2272)) (by rfl)
    fun k _ => ?_, pure_bind]
  · rfl
  · have hauth : slice sig (512 + k * 2272 + 2144) (512 + k * 2272 + 2272) =
        window sig (512 + k * 2272 + 2144) 128 := slice_eq _ _ 128
    simp only [slice_eq, hauth]
    rw [List.range_succ, List.map_append, show 512 + k * 2272 + 2272 = 512 + (k + 1) * 2272 by omega]
    rfl

/-- The verifier, on a signature of any length. -/
theorem verify_eq (pk : SlhDsaRef.PublicKey) (msg sig : Bytes) :
    (do SlhDsaRef.verify H pk msg (← unpackSignature sig)) =
      Comp.ret (decide (Spec.SlhLite.root H pk.seed msg sig = pk.root))
        (Spec.SlhLite.hashed H pk.seed msg sig) := by
  rw [unpackSignature_eq, pure_bind, verify_parts]
  rfl

end SuiPq.Proof.SlhDsaRef
