import Mathlib.Data.List.Basic
import Mathlib.Data.Nat.Bitwise
import Mathlib.Tactic.Common

/-!
# Hash chains and hash trees

The two structures a hash-based signature is built from, over any type of
values: a chain (`chain`), whose step depends on its position, and a binary
tree (`tree`), climbed from a leaf along an authentication path (`climb`),
whose nodes depend on their height and index.

`Collides` says that two computations evaluate one function, at one key, at
two inputs with the same value. Two chains that meet, or two paths that
climb to the same node, are equal or collide (`chain_collides`,
`climb_collides`). Climbing from a leaf along its own siblings gives the
tree's node above it (`climb_path`).
-/

namespace SuiPq.HashSig

/-- Among the evaluations `E` and `E'` of `f` there are two, at one key, with
different inputs and the same value. -/
def Collides {κ β γ : Type} (f : κ → β → γ) (E E' : List (κ × β)) : Prop :=
  ∃ k x y, (k, x) ∈ E ∧ (k, y) ∈ E' ∧ x ≠ y ∧ f k x = f k y

theorem Collides.mono {κ β γ : Type} {f : κ → β → γ} {E E' F F' : List (κ × β)}
    (h : Collides f E E') (hE : ∀ e ∈ E, e ∈ F) (hE' : ∀ e ∈ E', e ∈ F') : Collides f F F' := by
  obtain ⟨k, x, y, hx, hy, hne, he⟩ := h
  exact ⟨k, x, y, hE _ hx, hE' _ hy, hne, he⟩

/-- A collision of `f` is one of `g`, when `g` evaluates `f` at mapped keys and inputs. -/
theorem Collides.map {κ β γ κ' β' : Type} {f : κ → β → γ} {g : κ' → β' → γ} {E E' : List (κ × β)}
    (a : κ → κ') (b : β → β') (hb : ∀ x y, b x = b y → x = y) (hg : ∀ k x, g (a k) (b x) = f k x)
    (h : Collides f E E') :
    Collides g (E.map fun e => (a e.1, b e.2)) (E'.map fun e => (a e.1, b e.2)) := by
  obtain ⟨k, x, y, hx, hy, hne, he⟩ := h
  refine ⟨a k, b x, b y, List.mem_map.mpr ⟨_, hx, rfl⟩, List.mem_map.mpr ⟨_, hy, rfl⟩,
    fun e => hne (hb _ _ e), ?_⟩
  rw [hg, hg, he]

variable {α : Type}

/-! ## Chains -/

section Chain

variable (f : Nat → α → α)

/-- The value `k` steps along a chain from the value `x` at position `i`. -/
def chain (i : Nat) (x : α) : Nat → α
  | 0 => x
  | k + 1 => f (i + k) (chain i x k)

/-- The steps of `chain f i x k`: their positions and inputs. -/
def chainEvals (i : Nat) (x : α) (k : Nat) : List (Nat × α) :=
  (List.range k).map fun j => (i + j, chain f i x j)

theorem chain_add (i : Nat) (x : α) (a b : Nat) :
    chain f i x (a + b) = chain f (i + a) (chain f i x a) b := by
  induction b with
  | zero => rfl
  | succ b ih => rw [← Nat.add_assoc, chain, chain, ih, Nat.add_assoc]

theorem mem_chainEvals {i : Nat} {x : α} {k : Nat} {e : Nat × α} :
    e ∈ chainEvals f i x k ↔ ∃ j < k, e = (i + j, chain f i x j) := by
  simp only [chainEvals, List.mem_map, List.mem_range, eq_comm]

theorem chainEvals_add (i : Nat) (x : α) (a b : Nat) {e : Nat × α}
    (h : e ∈ chainEvals f (i + a) (chain f i x a) b) : e ∈ chainEvals f i x (a + b) := by
  obtain ⟨j, hj, rfl⟩ := (mem_chainEvals f).mp h
  refine (mem_chainEvals f).mpr ⟨a + j, by omega, ?_⟩
  rw [chain_add, Nat.add_assoc]

/-- Two chains from different values at one position that meet have collided. -/
theorem chain_collides {i : Nat} {x y : α} {k : Nat} (hne : x ≠ y)
    (h : chain f i x k = chain f i y k) : Collides f (chainEvals f i x k) (chainEvals f i y k) := by
  induction k with
  | zero => exact absurd h hne
  | succ k ih =>
    by_cases hk : chain f i x k = chain f i y k
    · refine (ih hk).mono (fun e he => ?_) fun e he => ?_ <;>
      · obtain ⟨j, hj, rfl⟩ := (mem_chainEvals f).mp he
        exact (mem_chainEvals f).mpr ⟨j, by omega, rfl⟩
    · exact ⟨i + k, _, _, (mem_chainEvals f).mpr ⟨k, by omega, rfl⟩,
        (mem_chainEvals f).mpr ⟨k, by omega, rfl⟩, hk, h⟩

end Chain

/-! ## Trees -/

section Tree

variable (node : Nat → Nat → α → α → α)

/-- The children of a node on the path from leaf `idx`, in order: `v` at height
`h` of the path, and its sibling `s`. -/
def children (idx h : Nat) (v s : α) : α × α := if idx >>> h % 2 = 0 then (v, s) else (s, v)

/-- The node at height `h` above leaf `idx`, from the leaf's value and its siblings. -/
def climb (idx : Nat) (auth : Nat → α) (leaf : α) : Nat → α
  | 0 => leaf
  | h + 1 =>
    let c := children idx h (climb idx auth leaf h) (auth h)
    node (h + 1) (idx >>> (h + 1)) c.1 c.2

/-- The nodes `climb` computes: their heights, indices and children. -/
def climbEvals (idx : Nat) (auth : Nat → α) (leaf : α) (h : Nat) : List ((Nat × Nat) × α × α) :=
  (List.range h).map fun j =>
    ((j + 1, idx >>> (j + 1)), children idx j (climb node idx auth leaf j) (auth j))

/-- The node at height `h` and index `i` of the tree over `leaf`. -/
def tree (leaf : Nat → α) : Nat → Nat → α
  | 0, i => leaf i
  | h + 1, i => node (h + 1) i (tree leaf h (2 * i)) (tree leaf h (2 * i + 1))

/-- The index of the sibling, at height `h`, of the path from leaf `idx`. -/
def sibling (idx h : Nat) : Nat := idx >>> h ^^^ 1

/-- Only the siblings below the height that is climbed to count. -/
theorem climb_congr {idx : Nat} {auth auth' : Nat → α} {leaf : α} :
    ∀ {h : Nat}, (∀ j < h, auth j = auth' j) → climb node idx auth leaf h = climb node idx auth' leaf h
  | 0, _ => rfl
  | h + 1, ha => by
    rw [climb, climb, climb_congr fun j hj => ha j (Nat.lt_succ_of_lt hj), ha h (Nat.lt_succ_self h)]

theorem climbEvals_congr {idx : Nat} {auth auth' : Nat → α} {leaf : α} {h : Nat}
    (ha : ∀ j < h, auth j = auth' j) : climbEvals node idx auth leaf h = climbEvals node idx auth' leaf h :=
  List.map_congr_left fun j hj => by
    have hj : j < h := List.mem_range.mp hj
    rw [climb_congr node fun i hi => ha i (Nat.lt_trans hi hj), ha j hj]

theorem children_inj {idx h : Nat} {v s v' s' : α} (e : children idx h v s = children idx h v' s') :
    v = v' ∧ s = s' := by
  unfold children at e
  split at e <;> simp only [Prod.mk.injEq] at e
  · exact e
  · exact e.symm

/-- The two ways to order a node and its sibling. -/
theorem flatten_children {β : Type} (idx h : Nat) (v s : List β) :
    [(children idx h v s).1, (children idx h v s).2].flatten =
      if idx >>> h &&& 1 = 0 then v ++ s else s ++ v := by
  rw [children, Nat.and_one_is_mod]
  split <;> simp

theorem mem_climbEvals {idx : Nat} {auth : Nat → α} {leaf : α} {h : Nat} {e : (Nat × Nat) × α × α} :
    e ∈ climbEvals node idx auth leaf h ↔ ∃ j < h,
      e = ((j + 1, idx >>> (j + 1)), children idx j (climb node idx auth leaf j) (auth j)) := by
  simp only [climbEvals, List.mem_map, List.mem_range, eq_comm]

/-- Two different paths from one leaf index that reach the same node have collided. -/
theorem climb_collides {idx : Nat} {auth auth' : Nat → α} {leaf leaf' : α} {h : Nat}
    (hne : leaf ≠ leaf' ∨ ∃ j < h, auth j ≠ auth' j)
    (he : climb node idx auth leaf h = climb node idx auth' leaf' h) :
    Collides (fun k c => node k.1 k.2 c.1 c.2) (climbEvals node idx auth leaf h)
      (climbEvals node idx auth' leaf' h) := by
  induction h with
  | zero =>
    rcases hne with hne | ⟨j, hj, -⟩
    · exact absurd he hne
    · omega
  | succ h ih =>
    by_cases hc : children idx h (climb node idx auth leaf h) (auth h) =
        children idx h (climb node idx auth' leaf' h) (auth' h)
    · obtain ⟨hv, hs⟩ := children_inj hc
      have hne' : leaf ≠ leaf' ∨ ∃ j < h, auth j ≠ auth' j := hne.imp_right fun ⟨j, hj, hjne⟩ => by
        rcases Nat.lt_succ_iff_lt_or_eq.mp hj with hj | rfl
        · exact ⟨j, hj, hjne⟩
        · exact absurd hs hjne
      refine (ih hne' hv).mono (fun e hm => ?_) fun e hm => ?_ <;>
      · obtain ⟨j, hj, rfl⟩ := (mem_climbEvals node).mp hm
        exact (mem_climbEvals node).mpr ⟨j, by omega, rfl⟩
    · exact ⟨(h + 1, idx >>> (h + 1)), _, _, (mem_climbEvals node).mpr ⟨h, by omega, rfl⟩,
        (mem_climbEvals node).mpr ⟨h, by omega, rfl⟩, hc, he⟩

theorem xor_one (n : Nat) : n ^^^ 1 = if n % 2 = 0 then n + 1 else n - 1 := by
  split
  · exact Nat.xor_one_of_even (Nat.even_iff.mpr ‹_›)
  · exact Nat.xor_one_of_odd (Nat.odd_iff.mpr (by omega))

theorem children_tree (leaf : Nat → α) (idx h : Nat) :
    children idx h (tree node leaf h (idx >>> h)) (tree node leaf h (sibling idx h)) =
      (tree node leaf h (2 * idx >>> (h + 1)), tree node leaf h (2 * idx >>> (h + 1) + 1)) := by
  rw [sibling, xor_one, children, Nat.shiftRight_succ]
  generalize idx >>> h = i
  split
  · rw [show 2 * (i / 2) = i by omega]
  · rw [show 2 * (i / 2) = i - 1 by omega, Nat.sub_add_cancel (by omega)]

/-- Climbing from a leaf of a tree along the path's siblings gives the node above the leaf. -/
theorem climb_path (leaf : Nat → α) (idx h : Nat) :
    climb node idx (fun j => tree node leaf j (sibling idx j)) (leaf idx) h =
      tree node leaf h (idx >>> h) := by
  induction h with
  | zero => rfl
  | succ h ih => rw [climb, ih, children_tree]; rfl

end Tree

end SuiPq.HashSig
