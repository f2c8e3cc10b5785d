import SuiPq.Framework.HashSig.Scheme

/-!
# Hypertree signatures: signing

A signer builds every tree it passes through from the secrets at the tree's
leaves (`Secret`). What it signs climbs to the top tree's root
(`rootFromSig_sign`).

Beside the values stand the events of a signer: the secrets it derives and
the evaluations it makes, in order.
-/

namespace SuiPq.HashSig

/-- A secret: the start of a WOTS+ chain, or a FORS leaf. -/
inductive Secret where
  | wots (layer tree keypair chain : Nat)
  | fors (tree keypair treeNum leaf : Nat)
deriving DecidableEq, Repr

/-- What a signer does: derive a secret, or evaluate the tweakable hash. -/
inductive Event (α : Type) where
  | derive (s : Secret)
  | eval (e : Eval α)

section Sign

variable {α : Type} (p : Params) (T : Node → List α → α) (sk : Secret → α)

/-! ## WOTS+ and XMSS -/

def wotsPk (l t kp : Nat) : α :=
  T (.wotsPk l t kp) ((List.range p.len).map fun i => wotsTop p T l t kp i 0 (sk (.wots l t kp i)))

def wotsSign (l t kp : Nat) (dig : Nat → Nat) (i : Nat) : α :=
  chain (wotsStep T l t kp i) 0 (sk (.wots l t kp i)) (dig i)

/-- The XMSS tree `t` of layer `l`. -/
def xmssTree (l t : Nat) : Nat → Nat → α := tree (xmssNode T l t) (wotsPk p T sk l t)

def xmssSign (l t kp : Nat) (dig : Nat → Nat) : XmssSig α where
  wots := wotsSign T sk l t kp dig
  auth j := xmssTree p T sk l t j (sibling kp j)

/-! ## The hypertree -/

variable (digits : α → Nat → Nat)

/-- What layer `l` signs: the message, or the root of the tree below. -/
def htMsg (t : Nat) (m : α) : Nat → α
  | 0 => m
  | l + 1 => xmssTree p T sk l (treeAt p t l) p.hp 0

def htSign (t kp : Nat) (m : α) (l : Nat) : XmssSig α :=
  xmssSign p T sk l (treeAt p t l) (leafAt p t kp l) (digits (htMsg p T sk t m l))

/-! ## FORS -/

/-- The FORS tree `i` at leaf `kp` of tree `t` of layer `l`. -/
def forsTree (l t kp i : Nat) : Nat → Nat → α :=
  tree (forsNode p T l t kp i) fun j => forsLeaf p T l t kp i j (sk (.fors t kp i j))

def forsSign (l t kp : Nat) (idx : Nat → Nat) : ForsSig α where
  sk i := sk (.fors t kp i (idx i))
  auth i h := forsTree p T sk l t kp i h (sibling (idx i) h)

/-! ## Completeness -/

variable {p T sk digits}

theorem wotsTop_sign {l t kp i : Nat} {dig : Nat → Nat} (hd : dig i ≤ p.w - 1) :
    wotsTop p T l t kp i (dig i) (wotsSign T sk l t kp dig i) =
      wotsTop p T l t kp i 0 (sk (.wots l t kp i)) := by
  have := chain_add (wotsStep T l t kp i) 0 (sk (.wots l t kp i)) (dig i) (p.w - 1 - dig i)
  rw [Nat.add_sub_cancel' hd, Nat.zero_add] at this
  exact this.symm

theorem wotsPkFromSig_sign {l t kp : Nat} {dig : Nat → Nat} (hd : ∀ i < p.len, dig i ≤ p.w - 1) :
    wotsPkFromSig p T l t kp dig (wotsSign T sk l t kp dig) = wotsPk p T sk l t kp := by
  rw [wotsPkFromSig, wotsPk, wotsTops]
  exact congrArg _ (List.map_congr_left fun i hi => wotsTop_sign (hd i (List.mem_range.mp hi)))

theorem xmssPkFromSig_sign {l t kp : Nat} {dig : Nat → Nat} (hkp : kp < 2 ^ p.hp)
    (hd : ∀ i < p.len, dig i ≤ p.w - 1) :
    xmssPkFromSig p T l t kp dig (xmssSign p T sk l t kp dig) = xmssTree p T sk l t p.hp 0 := by
  have := climb_path (xmssNode T l t) (wotsPk p T sk l t) kp p.hp
  rw [Nat.shiftRight_eq_div_pow, Nat.div_eq_of_lt hkp] at this
  rw [xmssPkFromSig, xmssSign, wotsPkFromSig_sign hd]
  exact this

theorem htRoot_sign {t kp : Nat} {m : α} (hkp : kp < 2 ^ p.hp)
    (hd : ∀ x, ∀ i < p.len, digits x i ≤ p.w - 1) :
    ∀ l, htRoot p T digits t kp m (htSign p T sk digits t kp m) l = htMsg p T sk t m l
  | 0 => rfl
  | l + 1 => by
    rw [htRoot, htRoot_sign hkp hd l]
    refine xmssPkFromSig_sign ?_ (hd _)
    cases l with
    | zero => exact hkp
    | succ l => exact Nat.mod_lt _ (Nat.pow_pos (by decide))

/-- What is signed at leaf `kp` of tree `t` climbs to the top tree's root. -/
theorem rootFromSig_sign {t kp : Nat} {idx : Nat → Nat} (hd0 : 0 < p.d) (hkp : kp < 2 ^ p.hp)
    (ht : t < 2 ^ (p.hp * (p.d - 1))) (hd : ∀ x, ∀ i < p.len, digits x i ≤ p.w - 1) (fors : ForsSig α) :
    rootFromSig p T digits t kp idx fors
        (htSign p T sk digits t kp (forsPkFromSig p T 0 t kp idx fors)) =
      xmssTree p T sk (p.d - 1) 0 p.hp 0 := by
  obtain ⟨d, h⟩ : ∃ d, p.d = d + 1 := ⟨p.d - 1, by omega⟩
  rw [h, Nat.add_sub_cancel] at ht
  rw [rootFromSig, htRoot_sign hkp hd, h, htMsg, treeAt, Nat.shiftRight_eq_div_pow, Nat.div_eq_of_lt ht,
    Nat.add_sub_cancel]

/-! ## Events -/

variable (p T sk digits)

/-- A chain of `k` steps from its secret. -/
def chainEvents (l t kp i k : Nat) : List (Event α) :=
  .derive (.wots l t kp i) ::
    (chainEvals (wotsStep T l t kp i) 0 (sk (.wots l t kp i)) k).map fun e =>
      .eval (.wotsStep l t kp i e.1, [e.2])

/-- The nodes of a tree of height `n`, level by level, each at its position. -/
def levelEvents (node : Nat → Nat → Node) (value : Nat → Nat → α) (n : Nat) : List (Event α) :=
  (List.range n).flatMap fun h => (List.range (2 ^ (n - (h + 1)))).map fun j =>
    .eval (node (h + 1) j, [value h (2 * j), value h (2 * j + 1)])

def wotsPkEvents (l t kp : Nat) : List (Event α) :=
  ((List.range p.len).flatMap fun i => chainEvents T sk l t kp i (p.w - 1)) ++
    [.eval (.wotsPk l t kp, (List.range p.len).map fun i => wotsTop p T l t kp i 0 (sk (.wots l t kp i)))]

def xmssTreeEvents (l t : Nat) : List (Event α) :=
  ((List.range (2 ^ p.hp)).flatMap (wotsPkEvents p T sk l t)) ++
    levelEvents (.merkle l t) (xmssTree p T sk l t) p.hp

def wotsSignEvents (l t kp : Nat) (dig : Nat → Nat) : List (Event α) :=
  (List.range p.len).flatMap fun i => chainEvents T sk l t kp i (dig i)

/-- Signing at a leaf, and building its tree for the authentication path. -/
def xmssSignEvents (l t kp : Nat) (dig : Nat → Nat) : List (Event α) :=
  wotsSignEvents p T sk l t kp dig ++ xmssTreeEvents p T sk l t

/-- Signing at each layer, and building its tree once more for its root. -/
def htSignEvents (t kp : Nat) (m : α) (n : Nat) : List (Event α) :=
  (List.range n).flatMap fun l =>
    xmssSignEvents p T sk l (treeAt p t l) (leafAt p t kp l) (digits (htMsg p T sk t m l)) ++
      xmssTreeEvents p T sk l (treeAt p t l)

def forsTreeEvents (l t kp i : Nat) : List (Event α) :=
  ((List.range (2 ^ p.a)).flatMap fun j =>
    [.derive (.fors t kp i j), .eval (.forsNode l t kp 0 (i * 2 ^ p.a + j), [sk (.fors t kp i j)])]) ++
  levelEvents (fun h j => .forsNode l t kp h (i * 2 ^ (p.a - h) + j)) (forsTree p T sk l t kp i) p.a

def forsSignEvents (l t kp : Nat) (idx : Nat → Nat) : List (Event α) :=
  (List.range p.k).flatMap fun i => forsTreeEvents p T sk l t kp i ++ [.derive (.fors t kp i (idx i))]

/-- A signature at leaf `kp` of tree `t`: FORS, its public key, and the hypertree above it. -/
def signEvents (t kp : Nat) (idx : Nat → Nat) : List (Event α) :=
  forsSignEvents p T sk 0 t kp idx ++
    (forsEvals p T 0 t kp idx (forsSign p T sk 0 t kp idx)).map .eval ++
    htSignEvents p T sk digits t kp (forsPkFromSig p T 0 t kp idx (forsSign p T sk 0 t kp idx)) p.d

/-- The part of a signature that is about FORS. -/
def forsEvents (t kp : Nat) (idx : Nat → Nat) : List (Event α) :=
  forsSignEvents p T sk 0 t kp idx ++
    (forsEvals p T 0 t kp idx (forsSign p T sk 0 t kp idx)).map .eval

theorem signEvents_eq (t kp : Nat) (idx : Nat → Nat) :
    signEvents p T sk digits t kp idx = forsEvents p T sk t kp idx ++
      htSignEvents p T sk digits t kp (forsPkFromSig p T 0 t kp idx (forsSign p T sk 0 t kp idx)) p.d := rfl

/-! ## Which secrets are derived -/

variable {p T sk digits} {l t kp : Nat} {s : Secret}

theorem derive_mem_chain {i k : Nat} :
    .derive s ∈ chainEvents T sk l t kp i k ↔ s = .wots l t kp i := by
  simp [chainEvents]

theorem derive_mem_wotsPk :
    .derive s ∈ wotsPkEvents p T sk l t kp ↔ ∃ i < p.len, s = .wots l t kp i := by
  simp [wotsPkEvents, derive_mem_chain]

theorem derive_not_mem_level (node : Nat → Nat → Node) (value : Nat → Nat → α) (n : Nat) :
    .derive s ∉ levelEvents node value n := by
  simp [levelEvents]

theorem derive_mem_xmssTree :
    .derive s ∈ xmssTreeEvents p T sk l t ↔ ∃ kp < 2 ^ p.hp, ∃ i < p.len, s = .wots l t kp i := by
  simp [xmssTreeEvents, derive_mem_wotsPk, derive_not_mem_level]

/-- Signing at a leaf derives secrets of its tree only, and building the tree derives them all. -/
theorem derive_mem_xmssSign {dig : Nat → Nat} (hkp : kp < 2 ^ p.hp) :
    .derive s ∈ xmssSignEvents p T sk l t kp dig ↔ ∃ kp < 2 ^ p.hp, ∃ i < p.len, s = .wots l t kp i := by
  rw [xmssSignEvents, List.mem_append, derive_mem_xmssTree]
  refine ⟨fun h => h.elim (fun h => ?_) id, .inr⟩
  obtain ⟨i, hi, h⟩ := List.mem_flatMap.mp h
  exact ⟨kp, hkp, i, List.mem_range.mp hi, derive_mem_chain.mp h⟩

theorem derive_mem_htSign {m : α} {n : Nat} (hkp : kp < 2 ^ p.hp) :
    .derive s ∈ htSignEvents p T sk digits t kp m n ↔
      ∃ l < n, ∃ kp < 2 ^ p.hp, ∃ i < p.len, s = .wots l (treeAt p t l) kp i := by
  simp only [htSignEvents, List.mem_flatMap, List.mem_range, List.mem_append,
    derive_mem_xmssSign (leafAt_lt hkp _), derive_mem_xmssTree, or_self]

theorem derive_mem_fors {idx : Nat → Nat} (h : .derive s ∈ forsEvents p T sk t kp idx) :
    ∃ i < p.k, ∃ j, s = .fors t kp i j := by
  rw [forsEvents, List.mem_append] at h
  rcases h with h | h
  · obtain ⟨i, hi, h⟩ := List.mem_flatMap.mp h
    refine ⟨i, List.mem_range.mp hi, ?_⟩
    rcases List.mem_append.mp h with h | h
    · rw [forsTreeEvents, List.mem_append] at h
      rcases h with h | h
      · obtain ⟨j, -, h⟩ := List.mem_flatMap.mp h
        exact ⟨j, by simpa using h⟩
      · exact absurd h (derive_not_mem_level _ _ _)
    · exact ⟨idx i, by simpa using h⟩
  · obtain ⟨e, -, h⟩ := List.mem_map.mp h
    cases h

/-- A position of FORS at leaf `kp` of tree `t`. -/
def Node.InFors (l t kp : Nat) (n : Node) : Prop := (∃ h i, n = .forsNode l t kp h i) ∨ n = .forsRoots l t kp

theorem forsEvals_inFors {idx : Nat → Nat} {f : ForsSig α} {e : Eval α}
    (h : e ∈ forsEvals p T l t kp idx f) : e.1.InFors l t kp := by
  rw [forsEvals, List.mem_append, List.mem_flatMap] at h
  rcases h with ⟨i, -, h⟩ | h
  · rcases List.mem_cons.mp h with rfl | h
    · exact .inl ⟨_, _, rfl⟩
    · obtain ⟨c, -, rfl⟩ := List.mem_map.mp h
      exact .inl ⟨_, _, rfl⟩
  · obtain rfl := List.mem_singleton.mp h
    exact .inr rfl

theorem eval_mem_fors {idx : Nat → Nat} {e : Eval α} (h : .eval e ∈ forsEvents p T sk t kp idx) :
    e.1.InFors 0 t kp := by
  rw [forsEvents, List.mem_append] at h
  rcases h with h | h
  · obtain ⟨i, -, h⟩ := List.mem_flatMap.mp h
    rcases List.mem_append.mp h with h | h
    · rw [forsTreeEvents, List.mem_append] at h
      rcases h with h | h
      · obtain ⟨j, -, h⟩ := List.mem_flatMap.mp h
        obtain rfl : e = _ := by simpa using h
        exact .inl ⟨_, _, rfl⟩
      · obtain ⟨x, -, h⟩ := List.mem_flatMap.mp h
        obtain ⟨j, -, h⟩ := List.mem_map.mp h
        cases h
        exact .inl ⟨_, _, rfl⟩
    · simp at h
  · obtain ⟨e', he, h⟩ := List.mem_map.mp h
    cases h
    exact forsEvals_inFors he

/-- A signature derives the WOTS+ secrets of the trees that it passes through. -/
theorem derive_mem_sign {idx : Nat → Nat} {x y z c : Nat} (hkp : kp < 2 ^ p.hp) :
    .derive (.wots x y z c) ∈ signEvents p T sk digits t kp idx ↔
      x < p.d ∧ y = treeAt p t x ∧ z < 2 ^ p.hp ∧ c < p.len := by
  rw [signEvents_eq, List.mem_append, derive_mem_htSign hkp]
  constructor
  · rintro (h | ⟨l, hl, k, hk, i, hi, h⟩)
    · obtain ⟨i, -, j, h⟩ := derive_mem_fors h
      cases h
    · cases h
      exact ⟨hl, rfl, hk, hi⟩
  · rintro ⟨hx, rfl, hz, hc⟩
    exact .inr ⟨x, hx, z, hz, c, hc, rfl⟩

end Sign

end SuiPq.HashSig
