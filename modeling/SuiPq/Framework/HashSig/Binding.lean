import SuiPq.Framework.HashSig.Scheme

/-!
# Hypertree signatures: binding

Every part of a signature reaches the value it is verified to. Two different
signatures at one position, of one message, with the same value have
collided: WOTS+ (`wots_collides`), XMSS (`xmss_collides`) and FORS
(`fors_collides`). Two WOTS+ signatures of different messages have collided,
or one walks up to the other (`wots_walk_or_collides`).
-/

namespace SuiPq.HashSig

variable {α : Type} {p : Params} {T : Node → List α → α}

theorem map_range_inj {n : Nat} {f g : Nat → α}
    (h : (List.range n).map f = (List.range n).map g) : ∀ i < n, f i = g i := fun i hi =>
  List.map_inj_left.mp h i (List.mem_range.mpr hi)

/-! ## WOTS+ -/

theorem Collides.of_tops {l t kp : Nat} {dig dig' : Nat → Nat} {s s' : Nat → α}
    (h : Collides (fun k x => wotsStep T l t kp k.1 k.2 x)
      (topsEvals (wotsStep T l t kp) p.w p.len dig s)
      (topsEvals (wotsStep T l t kp) p.w p.len dig' s')) :
    Collides T (wotsEvals p T l t kp dig s) (wotsEvals p T l t kp dig' s') :=
  (h.map (g := T) (fun k : Nat × Nat => .wotsStep l t kp k.1 k.2) (fun x : α => [x])
    (fun _ _ e => List.singleton_inj.mp e)
    fun _ _ => rfl).mono (fun _ he => List.mem_append_left _ he) fun _ he => List.mem_append_left _ he

/-- The tops of WOTS+ signatures with the same public key are the same, or the keys have collided. -/
theorem wotsTops_eq_or_collides {l t kp : Nat} {dig dig' : Nat → Nat} {s s' : Nat → α}
    (h : wotsPkFromSig p T l t kp dig s = wotsPkFromSig p T l t kp dig' s') :
    (∀ i < p.len, wotsTop p T l t kp i (dig i) (s i) = wotsTop p T l t kp i (dig' i) (s' i)) ∨
      Collides T (wotsEvals p T l t kp dig s) (wotsEvals p T l t kp dig' s') := by
  by_cases ht : wotsTops p T l t kp dig s = wotsTops p T l t kp dig' s'
  · exact .inl (map_range_inj ht)
  · exact .inr ⟨_, _, _, List.mem_append_right _ (List.mem_singleton_self _),
      List.mem_append_right _ (List.mem_singleton_self _), ht, h⟩

theorem wots_collides {l t kp : Nat} {dig : Nat → Nat} {s s' : Nat → α} (hne : ∃ i < p.len, s i ≠ s' i)
    (h : wotsPkFromSig p T l t kp dig s = wotsPkFromSig p T l t kp dig s') :
    Collides T (wotsEvals p T l t kp dig s) (wotsEvals p T l t kp dig s') := by
  rcases wotsTops_eq_or_collides h with h | h
  · exact (tops_collides _ _ hne h).of_tops
  · exact h

/-- WOTS+ signatures of two messages with the same public key: on a chain where
the second message's digit is lower, the second signature walks up to the
first, or the two have collided. -/
theorem wots_walk_or_collides {l t kp i : Nat} (hi : i < p.len) {dig dig' : Nat → Nat} {s s' : Nat → α}
    (hd : dig' i < dig i) (hw : dig i < p.w)
    (h : wotsPkFromSig p T l t kp dig s = wotsPkFromSig p T l t kp dig' s') :
    chain (wotsStep T l t kp i) (dig' i) (s' i) (dig i - dig' i) = s i ∨
      Collides T (wotsEvals p T l t kp dig s) (wotsEvals p T l t kp dig' s') := by
  rcases wotsTops_eq_or_collides h with h | h
  · exact (tops_reduction _ _ hi hd hw (h i hi)).imp_right Collides.of_tops
  · exact .inr h

/-! ## XMSS -/

theorem pair_inj {c c' : α × α} (h : [c.1, c.2] = [c'.1, c'.2]) : c = c' := by
  simp only [List.cons.injEq, and_true] at h
  exact Prod.ext h.1 h.2

theorem xmss_collides {l t kp : Nat} {dig : Nat → Nat} {s s' : XmssSig α}
    (hne : (∃ i < p.len, s.wots i ≠ s'.wots i) ∨ ∃ j < p.hp, s.auth j ≠ s'.auth j)
    (h : xmssPkFromSig p T l t kp dig s = xmssPkFromSig p T l t kp dig s') :
    Collides T (xmssEvals p T l t kp dig s) (xmssEvals p T l t kp dig s') := by
  by_cases hleaf : wotsPkFromSig p T l t kp dig s.wots = wotsPkFromSig p T l t kp dig s'.wots ∧
      ∃ i < p.len, s.wots i ≠ s'.wots i
  · exact (wots_collides hleaf.2 hleaf.1).mono (fun _ he => List.mem_append_left _ he)
      fun _ he => List.mem_append_left _ he
  · have hne' : wotsPkFromSig p T l t kp dig s.wots ≠ wotsPkFromSig p T l t kp dig s'.wots ∨
        ∃ j < p.hp, s.auth j ≠ s'.auth j := by
      rcases hne with hw | ha
      · exact .inl fun e => hleaf ⟨e, hw⟩
      · exact .inr ha
    exact ((climb_collides _ hne' h).map (g := T) (fun k : Nat × Nat => .merkle l t k.1 k.2)
      (fun c : α × α => [c.1, c.2])
      (fun _ _ => pair_inj) fun _ _ => rfl).mono (fun _ he => List.mem_append_right _ he)
      fun _ he => List.mem_append_right _ he

/-! ## FORS -/

theorem forsTree_collides {l t kp i j : Nat} {sk sk' : α} {auth auth' : Nat → α}
    (hne : sk ≠ sk' ∨ ∃ h < p.a, auth h ≠ auth' h)
    (h : forsTreeRoot p T l t kp i j sk auth = forsTreeRoot p T l t kp i j sk' auth') :
    Collides T (forsTreeEvals p T l t kp i j sk auth) (forsTreeEvals p T l t kp i j sk' auth') := by
  by_cases hleaf : forsLeaf p T l t kp i j sk = forsLeaf p T l t kp i j sk' ∧ sk ≠ sk'
  · exact ⟨_, _, _, List.mem_cons_self, List.mem_cons_self,
      fun e => hleaf.2 (List.singleton_inj.mp e), hleaf.1⟩
  · have hne' : forsLeaf p T l t kp i j sk ≠ forsLeaf p T l t kp i j sk' ∨
        ∃ h < p.a, auth h ≠ auth' h := by
      rcases hne with hs | ha
      · exact .inl fun e => hleaf ⟨e, hs⟩
      · exact .inr ha
    exact ((climb_collides _ hne' h).map (g := T)
      (fun k : Nat × Nat => .forsNode l t kp k.1 (i * 2 ^ (p.a - k.1) + k.2))
      (fun c : α × α => [c.1, c.2])
      (fun _ _ => pair_inj) fun _ _ => rfl).mono (fun _ he => List.mem_cons_of_mem _ he)
      fun _ he => List.mem_cons_of_mem _ he

theorem fors_collides {l t kp : Nat} {idx : Nat → Nat} {s s' : ForsSig α}
    (hne : ∃ i < p.k, s.sk i ≠ s'.sk i ∨ ∃ h < p.a, s.auth i h ≠ s'.auth i h)
    (h : forsPkFromSig p T l t kp idx s = forsPkFromSig p T l t kp idx s') :
    Collides T (forsEvals p T l t kp idx s) (forsEvals p T l t kp idx s') := by
  by_cases hr : forsTreeRoots p T l t kp idx s = forsTreeRoots p T l t kp idx s'
  · obtain ⟨i, hi, hine⟩ := hne
    refine (forsTree_collides hine (map_range_inj hr i hi)).mono (fun e he => ?_) fun e he => ?_ <;>
    exact List.mem_append_left _ (List.mem_flatMap.mpr ⟨i, List.mem_range.mpr hi, he⟩)
  · exact ⟨_, _, _, List.mem_append_right _ (List.mem_singleton_self _),
      List.mem_append_right _ (List.mem_singleton_self _), hr, h⟩

/-! ## Shapes -/

/-- How many values are hashed at a position. -/
def Params.arity (p : Params) : Node → Nat
  | .wotsStep .. => 1
  | .wotsPk .. => p.len
  | .merkle .. => 2
  | .forsNode _ _ _ h _ => if h = 0 then 1 else 2
  | .forsRoots .. => p.k

/-- An evaluation of as many values as its position takes, all of which satisfy `P`. -/
structure Shaped (p : Params) (P : α → Prop) (e : Eval α) : Prop where
  arity : e.2.length = p.arity e.1
  values : ∀ x ∈ e.2, P x

section Shapes

variable {P : α → Prop} (hT : ∀ n xs, P (T n xs)) {l t kp : Nat}

theorem chain_values {f : Nat → α → α} (hf : ∀ j x, P (f j x)) {x : α} (hx : P x) (i : Nat) :
    ∀ k, P (chain f i x k)
  | 0 => hx
  | _ + 1 => hf _ _

theorem climb_values {f : Nat → Nat → α → α → α} (hf : ∀ h j x y, P (f h j x y)) {x : α} (hx : P x)
    (idx : Nat) (auth : Nat → α) : ∀ h, P (climb f idx auth x h)
  | 0 => hx
  | _ + 1 => hf _ _ _ _

theorem children_values {idx h : Nat} {v s : α} (hv : P v) (hs : P s) :
    ∀ x ∈ [(children idx h v s).1, (children idx h v s).2], P x := by
  unfold children
  split <;> simp [hv, hs]

include hT

theorem wotsEvals_shaped {dig : Nat → Nat} {s : Nat → α} (hs : ∀ i < p.len, P (s i)) :
    ∀ e ∈ wotsEvals p T l t kp dig s, Shaped p P e := by
  intro e he
  rw [wotsEvals, wotsStepEvals_eq, List.mem_append, List.mem_flatMap, List.mem_singleton] at he
  rcases he with ⟨i, hi, he⟩ | rfl
  · obtain ⟨e', he', rfl⟩ := List.mem_map.mp he
    obtain ⟨j, -, rfl⟩ := (mem_chainEvals _).mp he'
    refine ⟨rfl, fun x hx => ?_⟩
    obtain rfl := List.mem_singleton.mp hx
    exact chain_values (fun _ _ => hT _ _) (hs i (List.mem_range.mp hi)) _ _
  · refine ⟨by simp [wotsTops, Params.arity], fun x hx => ?_⟩
    obtain ⟨i, hi, rfl⟩ := List.mem_map.mp hx
    exact chain_values (fun _ _ => hT _ _) (hs i (List.mem_range.mp hi)) _ _

theorem xmssEvals_shaped {dig : Nat → Nat} {s : XmssSig α} (hw : ∀ i < p.len, P (s.wots i))
    (ha : ∀ j < p.hp, P (s.auth j)) : ∀ e ∈ xmssEvals p T l t kp dig s, Shaped p P e := by
  intro e he
  rw [xmssEvals, List.mem_append] at he
  rcases he with he | he
  · exact wotsEvals_shaped hT hw e he
  · obtain ⟨e', he', rfl⟩ := List.mem_map.mp he
    obtain ⟨j, hj, rfl⟩ := (mem_climbEvals _).mp he'
    exact ⟨rfl, children_values (climb_values (fun _ _ _ _ => hT _ _) (hT _ _) _ _ _) (ha j hj)⟩

theorem forsEvals_shaped {idx : Nat → Nat} {s : ForsSig α} (hs : ∀ i < p.k, P (s.sk i))
    (ha : ∀ i < p.k, ∀ h < p.a, P (s.auth i h)) :
    ∀ e ∈ forsEvals p T l t kp idx s, Shaped p P e := by
  intro e he
  rw [forsEvals, List.mem_append, List.mem_flatMap, List.mem_singleton] at he
  rcases he with ⟨i, hi, he⟩ | rfl
  · replace hi := List.mem_range.mp hi
    rcases List.mem_cons.mp he with rfl | he
    · exact ⟨rfl, fun x hx => List.mem_singleton.mp hx ▸ hs i hi⟩
    · obtain ⟨e', he', rfl⟩ := List.mem_map.mp he
      obtain ⟨j, hj, rfl⟩ := (mem_climbEvals _).mp he'
      exact ⟨rfl, children_values (climb_values (fun _ _ _ _ => hT _ _) (hT _ _) _ _ _) (ha i hi j hj)⟩
  · refine ⟨by simp [forsTreeRoots, Params.arity], fun x hx => ?_⟩
    obtain ⟨i, hi, rfl⟩ := List.mem_map.mp hx
    exact climb_values (fun _ _ _ _ => hT _ _) (hT _ _) _ _ _

end Shapes

/-- A collision of shaped evaluations is one of inputs with as many values. -/
theorem Collides.shaped {P : α → Prop} {E E' : List (Eval α)} (h : Collides T E E')
    (hE : ∀ e ∈ E, Shaped p P e) (hE' : ∀ e ∈ E', Shaped p P e) :
    ∃ n xs ys, (n, xs) ∈ E ∧ (n, ys) ∈ E' ∧ xs ≠ ys ∧ xs.length = ys.length ∧ (∀ x ∈ xs, P x) ∧
      (∀ y ∈ ys, P y) ∧ T n xs = T n ys := by
  obtain ⟨n, xs, ys, hx, hy, hne, he⟩ := h
  exact ⟨n, xs, ys, hx, hy, hne, (hE _ hx).arity.trans (hE' _ hy).arity.symm, (hE _ hx).values,
    (hE' _ hy).values, he⟩

end SuiPq.HashSig
