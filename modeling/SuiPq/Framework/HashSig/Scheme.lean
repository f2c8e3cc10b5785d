import SuiPq.Framework.HashSig.Winternitz

/-!
# Hypertree signatures: verification

The verification of a stateless hash-based signature, over any type of values
and one tweakable hash `T`: WOTS+ public keys from signatures
(`wotsPkFromSig`), the XMSS trees over them (`xmssPkFromSig`), the hypertree
of XMSS trees (`htRoot`) and the few-time signature FORS below it
(`forsPkFromSig`). A value is hashed at the position it has in the structure
(`Node`).

Beside each function stands the list of its evaluations of `T`, in the order
it makes them: their positions and inputs.
-/

namespace SuiPq.HashSig

/-- A position: what a value of a signature is the hash of. -/
inductive Node where
  | wotsStep (layer tree keypair chain step : Nat)
  | wotsPk (layer tree keypair : Nat)
  | merkle (layer tree height index : Nat)
  | forsNode (layer tree keypair height index : Nat)
  | forsRoots (layer tree keypair : Nat)
deriving DecidableEq, Repr

/-- The sizes: `len` chains of length `w`, `d` layers of trees of height `hp`,
and `k` FORS trees of height `a`. -/
structure Params where
  w : Nat
  len : Nat
  hp : Nat
  d : Nat
  a : Nat
  k : Nat

/-- A signature of an XMSS tree: the chains' values and the path's siblings. -/
structure XmssSig (α : Type) where
  wots : Nat → α
  auth : Nat → α

/-- A FORS signature: each tree's secret and its path's siblings. -/
structure ForsSig (α : Type) where
  sk : Nat → α
  auth : Nat → Nat → α

/-- An evaluation of a tweakable hash: where, and of what. -/
abbrev Eval (α : Type) := Node × List α

section Verify

variable {α : Type} (p : Params) (T : Node → List α → α)

/-! ## WOTS+ -/

/-- The step at position `j` of chain `i`. -/
def wotsStep (l t kp i j : Nat) (x : α) : α := T (.wotsStep l t kp i j) [x]

def wotsTop (l t kp i d : Nat) (x : α) : α := top (wotsStep T l t kp) p.w i d x

def wotsTops (l t kp : Nat) (dig : Nat → Nat) (s : Nat → α) : List α :=
  (List.range p.len).map fun i => wotsTop p T l t kp i (dig i) (s i)

def wotsPkFromSig (l t kp : Nat) (dig : Nat → Nat) (s : Nat → α) : α :=
  T (.wotsPk l t kp) (wotsTops p T l t kp dig s)

def wotsStepEvals (l t kp : Nat) (dig : Nat → Nat) (s : Nat → α) : List (Eval α) :=
  (topsEvals (wotsStep T l t kp) p.w p.len dig s).map fun e => (.wotsStep l t kp e.1.1 e.1.2, [e.2])

theorem wotsStepEvals_eq (l t kp : Nat) (dig : Nat → Nat) (s : Nat → α) :
    wotsStepEvals p T l t kp dig s = (List.range p.len).flatMap fun i =>
      (chainEvals (wotsStep T l t kp i) (dig i) (s i) (p.w - 1 - dig i)).map fun e =>
        (.wotsStep l t kp i e.1, [e.2]) := by
  simp only [wotsStepEvals, topsEvals, List.map_flatMap, List.map_map, Function.comp_def]

def wotsEvals (l t kp : Nat) (dig : Nat → Nat) (s : Nat → α) : List (Eval α) :=
  wotsStepEvals p T l t kp dig s ++ [(.wotsPk l t kp, wotsTops p T l t kp dig s)]

/-! ## XMSS -/

def xmssNode (l t h i : Nat) (x y : α) : α := T (.merkle l t h i) [x, y]

def xmssPkFromSig (l t kp : Nat) (dig : Nat → Nat) (s : XmssSig α) : α :=
  climb (xmssNode T l t) kp s.auth (wotsPkFromSig p T l t kp dig s.wots) p.hp

def xmssPathEvals (l t kp : Nat) (auth : Nat → α) (leaf : α) : List (Eval α) :=
  (climbEvals (xmssNode T l t) kp auth leaf p.hp).map fun e =>
    (.merkle l t e.1.1 e.1.2, [e.2.1, e.2.2])

def xmssEvals (l t kp : Nat) (dig : Nat → Nat) (s : XmssSig α) : List (Eval α) :=
  wotsEvals p T l t kp dig s.wots ++
    xmssPathEvals p T l t kp s.auth (wotsPkFromSig p T l t kp dig s.wots)

/-! ## The hypertree -/

/-- The index, in its layer, of the tree at layer `l` above tree `t` of layer 0. -/
def treeAt (t l : Nat) : Nat := t >>> (p.hp * l)

/-- The leaf of the tree at layer `l`: the message's, or the tree's below. -/
def leafAt (t kp : Nat) : Nat → Nat
  | 0 => kp
  | l + 1 => treeAt p t l % 2 ^ p.hp

variable (digits : α → Nat → Nat)

/-- The root of layer `n - 1` above the message `m`, signed at leaf `kp` of tree `t`. -/
def htRoot (t kp : Nat) (m : α) (s : Nat → XmssSig α) : Nat → α
  | 0 => m
  | l + 1 => xmssPkFromSig p T l (treeAt p t l) (leafAt p t kp l) (digits (htRoot t kp m s l)) (s l)

def htEvals (t kp : Nat) (m : α) (s : Nat → XmssSig α) (n : Nat) : List (Eval α) :=
  (List.range n).flatMap fun l =>
    xmssEvals p T l (treeAt p t l) (leafAt p t kp l) (digits (htRoot p T digits t kp m s l)) (s l)

/-! ## FORS -/

/-- The node at height `h` and index `j` of tree `i`. -/
def forsNode (l t kp i h j : Nat) (x y : α) : α :=
  T (.forsNode l t kp h (i * 2 ^ (p.a - h) + j)) [x, y]

def forsLeaf (l t kp i j : Nat) (sk : α) : α := T (.forsNode l t kp 0 (i * 2 ^ p.a + j)) [sk]

def forsTreeRoot (l t kp i j : Nat) (sk : α) (auth : Nat → α) : α :=
  climb (forsNode p T l t kp i) j auth (forsLeaf p T l t kp i j sk) p.a

def forsTreeRoots (l t kp : Nat) (idx : Nat → Nat) (s : ForsSig α) : List α :=
  (List.range p.k).map fun i => forsTreeRoot p T l t kp i (idx i) (s.sk i) (s.auth i)

def forsPkFromSig (l t kp : Nat) (idx : Nat → Nat) (s : ForsSig α) : α :=
  T (.forsRoots l t kp) (forsTreeRoots p T l t kp idx s)

def forsPathEvals (l t kp i j : Nat) (sk : α) (auth : Nat → α) : List (Eval α) :=
  (climbEvals (forsNode p T l t kp i) j auth (forsLeaf p T l t kp i j sk) p.a).map fun e =>
    (.forsNode l t kp e.1.1 (i * 2 ^ (p.a - e.1.1) + e.1.2), [e.2.1, e.2.2])

def forsTreeEvals (l t kp i j : Nat) (sk : α) (auth : Nat → α) : List (Eval α) :=
  (.forsNode l t kp 0 (i * 2 ^ p.a + j), [sk]) :: forsPathEvals p T l t kp i j sk auth

def forsEvals (l t kp : Nat) (idx : Nat → Nat) (s : ForsSig α) : List (Eval α) :=
  ((List.range p.k).flatMap fun i => forsTreeEvals p T l t kp i (idx i) (s.sk i) (s.auth i)) ++
    [(.forsRoots l t kp, forsTreeRoots p T l t kp idx s)]

/-! ## Signatures -/

/-- The hypertree's root from a signature: FORS at leaf `kp` of tree `t`, and the
hypertree above it. -/
def rootFromSig (t kp : Nat) (idx : Nat → Nat) (fors : ForsSig α) (ht : Nat → XmssSig α) : α :=
  htRoot p T digits t kp (forsPkFromSig p T 0 t kp idx fors) ht p.d

def rootEvals (t kp : Nat) (idx : Nat → Nat) (fors : ForsSig α) (ht : Nat → XmssSig α) :
    List (Eval α) :=
  forsEvals p T 0 t kp idx fors ++
    htEvals p T digits t kp (forsPkFromSig p T 0 t kp idx fors) ht p.d

/-! ## Trees, leaves and the values that count -/

/-- Signatures of a tree with the same values. -/
def XmssSig.Agree (s s' : XmssSig α) : Prop :=
  (∀ i < p.len, s.wots i = s'.wots i) ∧ ∀ j < p.hp, s.auth j = s'.auth j

/-- FORS signatures with the same values. -/
def ForsSig.Agree (s s' : ForsSig α) : Prop :=
  ∀ i < p.k, s.sk i = s'.sk i ∧ ∀ j < p.a, s.auth i j = s'.auth i j

variable {p T digits} {l t kp : Nat}

theorem treeAt_le (t l : Nat) : treeAt p t l ≤ t := by
  rw [treeAt, Nat.shiftRight_eq_div_pow]
  exact Nat.div_le_self _ _

theorem leafAt_lt (hkp : kp < 2 ^ p.hp) : ∀ l, leafAt p t kp l < 2 ^ p.hp
  | 0 => hkp
  | _ + 1 => Nat.mod_lt _ (Nat.pow_pos (by decide))

theorem xmssPkFromSig_congr {dig : Nat → Nat} {s s' : XmssSig α} (h : s.Agree p s') :
    xmssPkFromSig p T l t kp dig s = xmssPkFromSig p T l t kp dig s' := by
  have hw : wotsTops p T l t kp dig s.wots = wotsTops p T l t kp dig s'.wots :=
    List.map_congr_left fun i hi => by rw [h.1 i (List.mem_range.mp hi)]
  rw [xmssPkFromSig, xmssPkFromSig, wotsPkFromSig, wotsPkFromSig, hw, climb_congr _ h.2]

theorem htRoot_congr {m : α} {s s' : Nat → XmssSig α} :
    ∀ {n : Nat}, (∀ l < n, (s l).Agree p (s' l)) → htRoot p T digits t kp m s n =
      htRoot p T digits t kp m s' n
  | 0, _ => rfl
  | n + 1, h => by
    rw [htRoot, htRoot, htRoot_congr fun l hl => h l (Nat.lt_succ_of_lt hl),
      xmssPkFromSig_congr (h n (Nat.lt_succ_self n))]

theorem forsTreeRoots_congr {idx : Nat → Nat} {s s' : ForsSig α} (h : s.Agree p s') :
    forsTreeRoots p T l t kp idx s = forsTreeRoots p T l t kp idx s' :=
  List.map_congr_left fun i hi => by
    obtain ⟨hs, ha⟩ := h i (List.mem_range.mp hi)
    rw [forsTreeRoot, forsTreeRoot, hs, climb_congr _ ha]

theorem forsPkFromSig_congr {idx : Nat → Nat} {s s' : ForsSig α} (h : s.Agree p s') :
    forsPkFromSig p T l t kp idx s = forsPkFromSig p T l t kp idx s' := by
  rw [forsPkFromSig, forsPkFromSig, forsTreeRoots_congr h]

theorem forsEvals_congr {idx : Nat → Nat} {s s' : ForsSig α} (h : s.Agree p s') :
    forsEvals p T l t kp idx s = forsEvals p T l t kp idx s' := by
  rw [forsEvals, forsEvals, forsTreeRoots_congr h]
  congr 1
  refine List.flatMap_congr fun i hi => ?_
  obtain ⟨hs, ha⟩ := h i (List.mem_range.mp hi)
  rw [forsTreeEvals, forsTreeEvals, forsPathEvals, forsPathEvals, hs, climbEvals_congr _ ha]

end Verify

end SuiPq.HashSig
