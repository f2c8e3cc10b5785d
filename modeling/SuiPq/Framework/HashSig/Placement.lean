import SuiPq.Framework.HashSig.Binding
import SuiPq.Framework.HashSig.Positions
import SuiPq.Framework.HashSig.Signing

/-!
# Hypertree signatures: where values are hashed

Verifying and signing evaluate the tweakable hash at positions of the
structure only (`Node.Valid`), and of as many values as the position takes
(`Placed`): `rootEvals_placed` and `signEvents_placed`.
-/

namespace SuiPq.HashSig

/-- A position of the structure. -/
def Node.Valid (p : Params) : Node → Prop
  | .wotsStep l t kp i j =>
    (l < p.d ∧ t < 2 ^ (p.hp * (p.d - 1 - l))) ∧ kp < 2 ^ p.hp ∧ i < p.len ∧ j < p.w - 1
  | .wotsPk l t kp => (l < p.d ∧ t < 2 ^ (p.hp * (p.d - 1 - l))) ∧ kp < 2 ^ p.hp
  | .merkle l t h i =>
    (l < p.d ∧ t < 2 ^ (p.hp * (p.d - 1 - l))) ∧ (0 < h ∧ h ≤ p.hp) ∧ i < 2 ^ (p.hp - h)
  | .forsNode l t kp h i =>
    (l = 0 ∧ t < 2 ^ (p.hp * (p.d - 1))) ∧ kp < 2 ^ p.hp ∧ h ≤ p.a ∧ i < p.k * 2 ^ (p.a - h)
  | .forsRoots l t kp => (l = 0 ∧ t < 2 ^ (p.hp * (p.d - 1))) ∧ kp < 2 ^ p.hp

/-- An evaluation at a position of the structure, of as many values as it
takes, all of which satisfy `P`. -/
structure Placed {α : Type} (p : Params) (P : α → Prop) (e : Eval α) : Prop where
  valid : e.1.Valid p
  shaped : Shaped p P e

section Placement

variable {α : Type} {p : Params} {T : Node → List α → α} {sk : Secret → α} {digits : α → Nat → Nat}
  {P : α → Prop} {l t kp : Nat}

theorem forsIndex_lt {m k i j : Nat} (hi : i < k) (hj : j < m) : i * m + j < k * m :=
  calc i * m + j < (i + 1) * m := by rw [Nat.succ_mul]; omega
    _ ≤ k * m := Nat.mul_le_mul_right _ hi

theorem shiftRight_lt {n h x : Nat} (hh : h ≤ n) (hx : x < 2 ^ n) : x >>> h < 2 ^ (n - h) := by
  rw [Nat.shiftRight_eq_div_pow]
  exact Nat.div_lt_of_lt_mul (by rwa [← Nat.pow_add, Nat.add_sub_cancel' hh])

theorem treeAt_lt (ht : t < 2 ^ (p.hp * (p.d - 1))) (hl : l < p.d) :
    treeAt p t l < 2 ^ (p.hp * (p.d - 1 - l)) := by
  rw [Nat.mul_sub]
  exact shiftRight_lt (Nat.mul_le_mul_left _ (by omega)) ht

/-! ## Verifying -/

section Verify

variable (hT : ∀ n xs, P (T n xs))

include hT

theorem xmssEvals_placed (hl : l < p.d ∧ t < 2 ^ (p.hp * (p.d - 1 - l))) (hkp : kp < 2 ^ p.hp)
    {dig : Nat → Nat} {s : XmssSig α} (hw : ∀ i < p.len, P (s.wots i)) (ha : ∀ j < p.hp, P (s.auth j)) :
    ∀ e ∈ xmssEvals p T l t kp dig s, Placed p P e := by
  refine fun e he => ⟨?_, xmssEvals_shaped hT hw ha e he⟩
  rw [xmssEvals, wotsEvals, wotsStepEvals_eq, List.mem_append, List.mem_append, List.mem_flatMap,
    List.mem_singleton] at he
  rcases he with (⟨i, hi, he⟩ | rfl) | he
  · obtain ⟨e', he', rfl⟩ := List.mem_map.mp he
    obtain ⟨j, hj, rfl⟩ := (mem_chainEvals _).mp he'
    exact ⟨hl, hkp, List.mem_range.mp hi, show dig i + j < p.w - 1 by omega⟩
  · exact ⟨hl, hkp⟩
  · obtain ⟨e', he', rfl⟩ := List.mem_map.mp he
    obtain ⟨j, hj, rfl⟩ := (mem_climbEvals _).mp he'
    exact ⟨hl, ⟨Nat.succ_pos j, hj⟩, shiftRight_lt hj hkp⟩

theorem forsEvals_placed (ht : t < 2 ^ (p.hp * (p.d - 1))) (hkp : kp < 2 ^ p.hp) {idx : Nat → Nat}
    (hidx : ∀ i < p.k, idx i < 2 ^ p.a) {s : ForsSig α} (hs : ∀ i < p.k, P (s.sk i))
    (ha : ∀ i < p.k, ∀ h < p.a, P (s.auth i h)) : ∀ e ∈ forsEvals p T 0 t kp idx s, Placed p P e := by
  refine fun e he => ⟨?_, forsEvals_shaped hT hs ha e he⟩
  rw [forsEvals, List.mem_append, List.mem_flatMap, List.mem_singleton] at he
  rcases he with ⟨i, hi, he⟩ | rfl
  · replace hi := List.mem_range.mp hi
    rcases List.mem_cons.mp he with rfl | he
    · exact ⟨⟨rfl, ht⟩, hkp, Nat.zero_le _, forsIndex_lt hi (hidx i hi)⟩
    · obtain ⟨e', he', rfl⟩ := List.mem_map.mp he
      obtain ⟨j, hj, rfl⟩ := (mem_climbEvals _).mp he'
      exact ⟨⟨rfl, ht⟩, hkp, hj, forsIndex_lt hi (shiftRight_lt hj (hidx i hi))⟩
  · exact ⟨⟨rfl, ht⟩, hkp⟩

theorem rootEvals_placed (ht : t < 2 ^ (p.hp * (p.d - 1))) (hkp : kp < 2 ^ p.hp) {idx : Nat → Nat}
    (hidx : ∀ i < p.k, idx i < 2 ^ p.a) {fors : ForsSig α} (hs : ∀ i < p.k, P (fors.sk i))
    (ha : ∀ i < p.k, ∀ h < p.a, P (fors.auth i h)) {s : Nat → XmssSig α}
    (hw : ∀ l < p.d, ∀ i < p.len, P ((s l).wots i)) (hauth : ∀ l < p.d, ∀ j < p.hp, P ((s l).auth j)) :
    ∀ e ∈ rootEvals p T digits t kp idx fors s, Placed p P e := by
  intro e he
  rcases List.mem_append.mp he with he | he
  · exact forsEvals_placed hT ht hkp hidx hs ha e he
  · obtain ⟨l, hl, he⟩ := List.mem_flatMap.mp he
    replace hl := List.mem_range.mp hl
    exact xmssEvals_placed hT ⟨hl, treeAt_lt ht hl⟩ (leafAt_lt hkp l) (hw l hl) (hauth l hl) e he

end Verify

/-! ## Signing -/

/-- All evaluations among the events are placed. -/
def AllPlaced (p : Params) (P : α → Prop) (es : List (Event α)) : Prop := ∀ e, .eval e ∈ es → Placed p P e

theorem AllPlaced.append {es es' : List (Event α)} (h : AllPlaced p P es) (h' : AllPlaced p P es') :
    AllPlaced p P (es ++ es') := fun e he => (List.mem_append.mp he).elim (h e) (h' e)

theorem AllPlaced.flatMap {n : Nat} {f : Nat → List (Event α)} (h : ∀ i < n, AllPlaced p P (f i)) :
    AllPlaced p P ((List.range n).flatMap f) := fun e he => by
  obtain ⟨i, hi, he⟩ := List.mem_flatMap.mp he
  exact h i (List.mem_range.mp hi) e he

theorem AllPlaced.derive (s : Secret) : AllPlaced p P [.derive s] := fun e he => by
  cases List.mem_singleton.mp he

theorem AllPlaced.eval {n : Node} {xs : List α} (hn : n.Valid p) (ha : xs.length = p.arity n)
    (hx : ∀ x ∈ xs, P x) : AllPlaced p P [.eval (n, xs)] := fun e he => by
  cases List.mem_singleton.mp he
  exact ⟨hn, ha, hx⟩

theorem tree_values {node : Nat → Nat → α → α → α} (hn : ∀ h i x y, P (node h i x y)) {leaf : Nat → α}
    (hl : ∀ i, P (leaf i)) : ∀ h i, P (tree node leaf h i)
  | 0, i => hl i
  | _ + 1, _ => hn _ _ _ _

theorem levelEvents_placed {node : Nat → Nat → Node} {value : Nat → Nat → α} {n : Nat}
    (hn : ∀ h < n, ∀ j < 2 ^ (n - (h + 1)), (node (h + 1) j).Valid p ∧ p.arity (node (h + 1) j) = 2)
    (hv : ∀ h i, P (value h i)) : AllPlaced p P (levelEvents node value n) :=
  .flatMap fun h hh e he => by
    obtain ⟨j, hj, he⟩ := List.mem_map.mp he
    obtain ⟨hvalid, har⟩ := hn h hh j (List.mem_range.mp hj)
    cases he
    refine ⟨hvalid, har.symm, fun x hx => ?_⟩
    simp only [List.mem_cons, List.not_mem_nil, or_false] at hx
    rcases hx with rfl | rfl <;> exact hv _ _

section Sign

variable (hT : ∀ n xs, P (T n xs)) (hsk : ∀ s, P (sk s))

include hT hsk

theorem chainEvents_placed (hl : l < p.d ∧ t < 2 ^ (p.hp * (p.d - 1 - l))) (hkp : kp < 2 ^ p.hp) {i k : Nat}
    (hi : i < p.len) (hk : k ≤ p.w - 1) : AllPlaced p P (chainEvents T sk l t kp i k) := by
  refine (AllPlaced.derive _).append fun e he => ?_
  obtain ⟨e', he', he⟩ := List.mem_map.mp he
  obtain ⟨j, hj, rfl⟩ := (mem_chainEvals _).mp he'
  cases he
  refine ⟨⟨hl, hkp, hi, show 0 + j < p.w - 1 by omega⟩, rfl, fun x hx => ?_⟩
  obtain rfl := List.mem_singleton.mp hx
  exact chain_values (fun _ _ => hT _ _) (hsk _) _ _

theorem xmssTreeEvents_placed (hl : l < p.d ∧ t < 2 ^ (p.hp * (p.d - 1 - l))) :
    AllPlaced p P (xmssTreeEvents p T sk l t) := by
  refine (AllPlaced.flatMap fun kp hkp => ?_).append (levelEvents_placed (fun h hh j hj => ?_) fun h i => ?_)
  · refine (AllPlaced.flatMap fun i hi => chainEvents_placed hT hsk hl hkp hi (Nat.le_refl _)).append
      (.eval ⟨hl, hkp⟩ (by simp [Params.arity]) fun x hx => ?_)
    obtain ⟨i, -, rfl⟩ := List.mem_map.mp hx
    exact chain_values (fun _ _ => hT _ _) (hsk _) _ _
  · exact ⟨⟨hl, ⟨Nat.succ_pos h, hh⟩, hj⟩, rfl⟩
  · exact tree_values (fun _ _ _ _ => hT _ _) (fun _ => hT _ _) h i

theorem htSignEvents_placed (ht : t < 2 ^ (p.hp * (p.d - 1))) (hkp : kp < 2 ^ p.hp)
    (hd : ∀ x, ∀ i < p.len, digits x i ≤ p.w - 1) (m : α) :
    AllPlaced p P (htSignEvents p T sk digits t kp m p.d) :=
  .flatMap fun l hl => by
    have htree := xmssTreeEvents_placed (t := treeAt p t l) hT hsk ⟨hl, treeAt_lt ht hl⟩
    refine ((AllPlaced.flatMap fun i hi => ?_).append htree).append htree
    exact chainEvents_placed hT hsk ⟨hl, treeAt_lt ht hl⟩ (leafAt_lt hkp l) hi (hd _ i hi)

theorem forsEvents_placed (ht : t < 2 ^ (p.hp * (p.d - 1))) (hkp : kp < 2 ^ p.hp) {idx : Nat → Nat}
    (hidx : ∀ i < p.k, idx i < 2 ^ p.a) : AllPlaced p P (forsEvents p T sk t kp idx) := by
  have hvalue (i : Nat) : ∀ h j, P (forsTree p T sk 0 t kp i h j) :=
    tree_values (fun _ _ _ _ => hT _ _) fun _ => hT _ _
  refine (AllPlaced.flatMap fun i hi => AllPlaced.append (.append (.flatMap fun j hj => ?_) ?_)
    (.derive _)).append fun e he => ?_
  · refine (AllPlaced.derive _).append (.eval ⟨⟨rfl, ht⟩, hkp, Nat.zero_le _, ?_⟩ rfl fun x hx => ?_)
    · exact forsIndex_lt hi hj
    · obtain rfl := List.mem_singleton.mp hx
      exact hsk _
  · refine levelEvents_placed (fun h hh j hj => ⟨⟨⟨rfl, ht⟩, hkp, hh, forsIndex_lt hi hj⟩, ?_⟩) (hvalue i)
    rfl
  · obtain ⟨e', he', he⟩ := List.mem_map.mp he
    cases he
    exact forsEvals_placed hT ht hkp hidx (fun _ _ => hsk _) (fun i _ h _ => hvalue i h _) e he'

theorem signEvents_placed (ht : t < 2 ^ (p.hp * (p.d - 1))) (hkp : kp < 2 ^ p.hp) {idx : Nat → Nat}
    (hidx : ∀ i < p.k, idx i < 2 ^ p.a) (hd : ∀ x, ∀ i < p.len, digits x i ≤ p.w - 1) :
    AllPlaced p P (signEvents p T sk digits t kp idx) := by
  rw [signEvents_eq]
  exact (forsEvents_placed hT hsk ht hkp hidx).append (htSignEvents_placed hT hsk ht hkp hd _)

end Sign

end Placement

end SuiPq.HashSig
