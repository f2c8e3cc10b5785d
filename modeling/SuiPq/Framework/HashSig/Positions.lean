import SuiPq.Framework.HashSig.Scheme
import Mathlib.Data.List.Nodup

/-!
# Hypertree signatures: positions

A verification evaluates its tweakable hash once at each position it visits
(`rootEvals_nodup`), and the coordinates of the positions are bounded by the
sizes of the structure (`rootEvals_fits`).
-/

namespace SuiPq.HashSig

/-- The layer of a position. -/
def Node.layer : Node → Nat
  | .wotsStep l .. | .wotsPk l .. | .merkle l .. | .forsNode l .. | .forsRoots l .. => l

/-- Whether a position is in a FORS tree or its compression. -/
def Node.isFors : Node → Bool
  | .forsNode .. | .forsRoots .. => true
  | _ => false

/-- Layers below `L`, trees below `T`, and all other coordinates below `W`. -/
def Node.Fits (L T W : Nat) : Node → Prop
  | .wotsStep l t kp i j => l < L ∧ t < T ∧ kp < W ∧ i < W ∧ j < W
  | .wotsPk l t kp => l < L ∧ t < T ∧ kp < W
  | .merkle l t h i => l < L ∧ t < T ∧ h < W ∧ i < W
  | .forsNode l t kp h i => l < L ∧ t < T ∧ kp < W ∧ h < W ∧ i < W
  | .forsRoots l t kp => l < L ∧ t < T ∧ kp < W

theorem nodup_flatMap_range {β : Type} {n : Nat} {f : Nat → List β} (h : ∀ i < n, (f i).Nodup)
    (hd : ∀ i < n, ∀ j < n, ∀ x, x ∈ f i → x ∈ f j → i = j) : ((List.range n).flatMap f).Nodup := by
  rw [List.nodup_flatMap]
  refine ⟨fun i hi => h i (List.mem_range.mp hi), ?_⟩
  refine List.Pairwise.imp_of_mem (fun {i j} hi hj hne x hxi hxj => ?_) List.nodup_range
  exact hne (hd i (List.mem_range.mp hi) j (List.mem_range.mp hj) x hxi hxj)

section Positions

variable {α : Type} {p : Params} {T : Node → List α → α} {l t kp : Nat} {n : Node}

/-- The positions of evaluations. -/
abbrev nodes (E : List (Eval α)) : List Node := E.map Prod.fst

/-! ## WOTS+ and XMSS -/

theorem nodes_wotsEvals (dig : Nat → Nat) (s : Nat → α) :
    nodes (wotsEvals p T l t kp dig s) =
      ((List.range p.len).flatMap fun i =>
        (List.range (p.w - 1 - dig i)).map fun j => .wotsStep l t kp i (dig i + j)) ++
      [.wotsPk l t kp] := by
  simp only [nodes, wotsEvals, wotsStepEvals, topsEvals, chainEvals, List.map_append, List.map_flatMap,
    List.map_map, Function.comp_def, List.map_cons, List.map_nil]

theorem mem_nodes_wots {dig : Nat → Nat} {s : Nat → α} (h : n ∈ nodes (wotsEvals p T l t kp dig s)) :
    (∃ i < p.len, ∃ j < p.w, n = .wotsStep l t kp i j) ∨ n = .wotsPk l t kp := by
  rw [nodes_wotsEvals, List.mem_append, List.mem_flatMap, List.mem_singleton] at h
  refine h.imp_left fun ⟨i, hi, hn⟩ => ?_
  obtain ⟨j, hj, rfl⟩ := List.mem_map.mp hn
  rw [List.mem_range] at hi hj
  exact ⟨i, hi, dig i + j, by omega, rfl⟩

theorem nodup_wots (dig : Nat → Nat) (s : Nat → α) : (nodes (wotsEvals p T l t kp dig s)).Nodup := by
  rw [nodes_wotsEvals]
  refine List.nodup_append.mpr ⟨nodup_flatMap_range (fun i _ => ?_) fun i _ j _ x hi hj => ?_,
    List.nodup_singleton _, fun x hx y hy => ?_⟩
  · refine List.nodup_range.map fun a b e => ?_
    simp only [Node.wotsStep.injEq, true_and] at e
    omega
  · obtain ⟨a, -, rfl⟩ := List.mem_map.mp hi
    obtain ⟨b, -, e⟩ := List.mem_map.mp hj
    simp only [Node.wotsStep.injEq, true_and] at e
    exact e.1.symm
  · obtain ⟨i, -, hx⟩ := List.mem_flatMap.mp hx
    obtain ⟨j, -, rfl⟩ := List.mem_map.mp hx
    rw [List.mem_singleton.mp hy]
    exact Node.noConfusion

theorem nodes_xmssPath (auth : Nat → α) (leaf : α) :
    nodes (xmssPathEvals p T l t kp auth leaf) =
      (List.range p.hp).map fun j => .merkle l t (j + 1) (kp >>> (j + 1)) := by
  simp only [nodes, xmssPathEvals, climbEvals, List.map_map, Function.comp_def]

theorem mem_nodes_xmss {dig : Nat → Nat} {s : XmssSig α} (h : n ∈ nodes (xmssEvals p T l t kp dig s)) :
    (∃ i < p.len, ∃ j < p.w, n = .wotsStep l t kp i j) ∨ n = .wotsPk l t kp ∨
      ∃ j < p.hp, n = .merkle l t (j + 1) (kp >>> (j + 1)) := by
  rw [nodes, xmssEvals, List.map_append, List.mem_append] at h
  rcases h with h | h
  · rcases mem_nodes_wots h with h | h
    · exact .inl h
    · exact .inr (.inl h)
  · rw [← nodes, nodes_xmssPath] at h
    obtain ⟨j, hj, rfl⟩ := List.mem_map.mp h
    exact .inr (.inr ⟨j, List.mem_range.mp hj, rfl⟩)

theorem nodup_xmss (dig : Nat → Nat) (s : XmssSig α) : (nodes (xmssEvals p T l t kp dig s)).Nodup := by
  rw [nodes, xmssEvals, List.map_append]
  refine List.nodup_append.mpr ⟨nodup_wots _ _, ?_, fun x hx y hy => ?_⟩
  · rw [← nodes, nodes_xmssPath]
    refine List.nodup_range.map fun a b e => ?_
    simp only [Node.merkle.injEq, true_and] at e
    omega
  · rw [← nodes, nodes_xmssPath] at hy
    obtain ⟨j, -, rfl⟩ := List.mem_map.mp hy
    rcases mem_nodes_wots hx with ⟨_, _, _, _, rfl⟩ | rfl <;> exact Node.noConfusion

/-! ## The hypertree -/

variable {digits : α → Nat → Nat}

theorem mem_nodes_ht {m : α} {s : Nat → XmssSig α} {d : Nat}
    (h : n ∈ nodes (htEvals p T digits t kp m s d)) :
    ∃ l < d, ∃ dig, n ∈ nodes (xmssEvals p T l (treeAt p t l) (leafAt p t kp l) dig (s l)) := by
  rw [nodes, htEvals, List.map_flatMap, List.mem_flatMap] at h
  obtain ⟨l, hl, h⟩ := h
  exact ⟨l, List.mem_range.mp hl, _, h⟩

theorem layer_of_mem_xmss {dig : Nat → Nat} {s : XmssSig α}
    (h : n ∈ nodes (xmssEvals p T l t kp dig s)) : n.layer = l ∧ n.isFors = false := by
  rcases mem_nodes_xmss h with ⟨_, _, _, _, rfl⟩ | rfl | ⟨_, _, rfl⟩ <;> exact ⟨rfl, rfl⟩

theorem nodup_ht (m : α) (s : Nat → XmssSig α) (d : Nat) :
    (nodes (htEvals p T digits t kp m s d)).Nodup := by
  rw [nodes, htEvals, List.map_flatMap]
  refine nodup_flatMap_range (fun l _ => nodup_xmss _ _) fun l _ l' _ x h h' => ?_
  rw [← (layer_of_mem_xmss h).1, (layer_of_mem_xmss h').1]

/-! ## FORS -/

theorem nodes_forsTree (i j : Nat) (sk : α) (auth : Nat → α) :
    nodes (forsTreeEvals p T l t kp i j sk auth) =
      (List.range (p.a + 1)).map fun h => .forsNode l t kp h (i * 2 ^ (p.a - h) + j >>> h) := by
  simp only [nodes, forsTreeEvals, forsPathEvals, climbEvals, List.map_cons, List.map_map,
    Function.comp_def, List.range_succ_eq_map, Nat.sub_zero, Nat.shiftRight_zero, Nat.succ_eq_add_one]

/-- A FORS tree's index at height `h` tells the tree. -/
theorem forsIndex_inj {a h i j i' j' : Nat} (hh : h ≤ a) (hj : j < 2 ^ a) (hj' : j' < 2 ^ a)
    (e : i * 2 ^ (a - h) + j >>> h = i' * 2 ^ (a - h) + j' >>> h) : i = i' := by
  have hlt : ∀ x < 2 ^ a, x >>> h < 2 ^ (a - h) := fun x hx => by
    rw [Nat.shiftRight_eq_div_pow]
    exact Nat.div_lt_of_lt_mul (by rwa [← Nat.pow_add, Nat.add_sub_cancel' hh])
  have hpos : 0 < 2 ^ (a - h) := Nat.pow_pos (by decide)
  have := congrArg (· / 2 ^ (a - h)) e
  simp only [Nat.mul_comm _ (2 ^ (a - h)), Nat.mul_add_div hpos, Nat.div_eq_of_lt (hlt j hj),
    Nat.div_eq_of_lt (hlt j' hj'), Nat.add_zero] at this
  exact this

theorem mem_nodes_fors {idx : Nat → Nat} {s : ForsSig α} (h : n ∈ nodes (forsEvals p T l t kp idx s)) :
    (∃ i < p.k, ∃ h ≤ p.a, n = .forsNode l t kp h (i * 2 ^ (p.a - h) + idx i >>> h)) ∨
      n = .forsRoots l t kp := by
  rw [nodes, forsEvals, List.map_append, List.map_flatMap, List.mem_append, List.mem_flatMap] at h
  rcases h with ⟨i, hi, h⟩ | h
  · rw [← nodes, nodes_forsTree] at h
    obtain ⟨x, hx, rfl⟩ := List.mem_map.mp h
    exact .inl ⟨i, List.mem_range.mp hi, x, Nat.le_of_lt_succ (List.mem_range.mp hx), rfl⟩
  · exact .inr (List.mem_singleton.mp h)

theorem nodup_fors {idx : Nat → Nat} (hidx : ∀ i < p.k, idx i < 2 ^ p.a) (s : ForsSig α) :
    (nodes (forsEvals p T l t kp idx s)).Nodup := by
  rw [nodes, forsEvals, List.map_append, List.map_flatMap]
  refine List.nodup_append.mpr ⟨nodup_flatMap_range (fun i _ => ?_) fun i hi j hj x hx hx' => ?_,
    List.nodup_singleton _, fun x hx y hy => ?_⟩
  · rw [← nodes, nodes_forsTree]
    refine List.nodup_range.map fun a b e => ?_
    simp only [Node.forsNode.injEq, true_and] at e
    exact e.1
  · rw [← nodes, nodes_forsTree] at hx hx'
    obtain ⟨h, hh, rfl⟩ := List.mem_map.mp hx
    obtain ⟨h', -, e⟩ := List.mem_map.mp hx'
    simp only [Node.forsNode.injEq, true_and] at e
    obtain ⟨rfl, e⟩ := e
    exact (forsIndex_inj (Nat.le_of_lt_succ (List.mem_range.mp hh)) (hidx j hj) (hidx i hi) e).symm
  · obtain ⟨i, -, hx⟩ := List.mem_flatMap.mp hx
    rw [← nodes, nodes_forsTree] at hx
    obtain ⟨h, -, rfl⟩ := List.mem_map.mp hx
    rw [List.mem_singleton.mp hy]
    exact Node.noConfusion

/-! ## Signatures -/

/-- The positions of a verification are pairwise different. -/
theorem rootEvals_nodup {idx : Nat → Nat} (hidx : ∀ i < p.k, idx i < 2 ^ p.a) (fors : ForsSig α)
    (ht : Nat → XmssSig α) : (nodes (rootEvals p T digits t kp idx fors ht)).Nodup := by
  rw [nodes, rootEvals, List.map_append]
  refine List.nodup_append.mpr ⟨nodup_fors hidx _, nodup_ht _ _ _, fun x hx y hy => ?_⟩
  obtain ⟨l, -, dig, hy⟩ := mem_nodes_ht hy
  have hy := (layer_of_mem_xmss hy).2
  rintro rfl
  rcases mem_nodes_fors hx with ⟨_, _, _, _, rfl⟩ | rfl <;> exact Bool.noConfusion hy

/-- The coordinates of a verification's positions are bounded. -/
theorem rootEvals_fits {L N W : Nat} {idx : Nat → Nat} (hidx : ∀ i < p.k, idx i < 2 ^ p.a)
    (ht : t < N) (hkp : kp < 2 ^ p.hp) (hL : 0 < L) (hd : p.d ≤ L) (hhp : 2 ^ p.hp ≤ W)
    (hlen : p.len ≤ W) (hw : p.w ≤ W) (ha : p.a < W) (hk : p.k * 2 ^ p.a ≤ W) {fors : ForsSig α}
    {s : Nat → XmssSig α} (h : n ∈ nodes (rootEvals p T digits t kp idx fors s)) : n.Fits L N W := by
  rw [nodes, rootEvals, List.map_append, List.mem_append] at h
  rcases h with h | h
  · rcases mem_nodes_fors h with ⟨i, hi, x, hx, rfl⟩ | rfl
    · refine ⟨hL, ht, by omega, by omega, ?_⟩
      have hlt : idx i >>> x < 2 ^ (p.a - x) := by
        rw [Nat.shiftRight_eq_div_pow]
        refine Nat.div_lt_of_lt_mul ?_
        rw [← Nat.pow_add, Nat.add_sub_cancel' hx]
        exact hidx i hi
      calc i * 2 ^ (p.a - x) + idx i >>> x
          < (i + 1) * 2 ^ (p.a - x) := by rw [Nat.succ_mul]; omega
        _ ≤ p.k * 2 ^ p.a := Nat.mul_le_mul hi (Nat.pow_le_pow_right (by decide) (Nat.sub_le _ _))
        _ ≤ W := hk
    · exact ⟨hL, ht, by omega⟩
  · obtain ⟨l, hl, dig, h⟩ := mem_nodes_ht h
    have htl : treeAt p t l < N := Nat.lt_of_le_of_lt (treeAt_le t l) ht
    have hkl : leafAt p t kp l < 2 ^ p.hp := leafAt_lt hkp l
    have hll : l < L := Nat.lt_of_lt_of_le hl hd
    rcases mem_nodes_xmss h with ⟨i, hi, j, hj, rfl⟩ | rfl | ⟨j, hj, rfl⟩
    · exact ⟨hll, htl, by omega, by omega, by omega⟩
    · exact ⟨hll, htl, by omega⟩
    · refine ⟨hll, htl, ?_, ?_⟩
      · have := Nat.lt_two_pow_self (n := p.hp)
        omega
      · rw [Nat.shiftRight_eq_div_pow]
        exact Nat.lt_of_le_of_lt (Nat.div_le_self _ _) (by omega)

end Positions

end SuiPq.HashSig
