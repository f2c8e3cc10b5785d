import SuiPq.Framework.HashSig.Binding

/-!
# Hypertree signatures: two signatures at one leaf

Two different signatures at one leaf that lead to one root have collided, or
the second one inverts a chain of the first: it takes the step below a value
that the first discloses, and arrives at that value (`Inverts`). The messages
of a layer differ where the trees below have different roots, so that a layer
alone need not collide (`htRoot_collides_or_inverts`);
`rootFromSig_collides_or_inverts` is about the whole.
-/

namespace SuiPq.HashSig

variable {α : Type} {p : Params} {T : Node → List α → α} {l t kp : Nat}

/-! ## One layer -/

/-- WOTS+ signatures of two messages with one public key: where the second
message's digit is lower, the second signature steps to the first's value. -/
theorem wots_collides_or_inverts {i : Nat} (hi : i < p.len) {dig dig' : Nat → Nat} {s s' : Nat → α}
    (hd : dig' i < dig i) (hw : dig i < p.w)
    (h : wotsPkFromSig p T l t kp dig s = wotsPkFromSig p T l t kp dig' s') :
    Collides T (wotsEvals p T l t kp dig s) (wotsEvals p T l t kp dig' s') ∨
      ∃ j x, dig i = j + 1 ∧ (.wotsStep l t kp i j, [x]) ∈ wotsEvals p T l t kp dig' s' ∧
        T (.wotsStep l t kp i j) [x] = s i := by
  obtain ⟨k, hk⟩ := Nat.exists_eq_add_of_lt hd
  rcases wots_walk_or_collides hi hd hw h with hwalk | hcoll
  · rw [show dig i - dig' i = k + 1 by omega] at hwalk
    refine .inr ⟨dig' i + k, chain (wotsStep T l t kp i) (dig' i) (s' i) k, hk, ?_, hwalk⟩
    rw [wotsEvals, wotsStepEvals_eq]
    apply List.mem_append_left
    apply List.mem_flatMap.mpr
    refine ⟨i, List.mem_range.mpr hi, List.mem_map.mpr ⟨_, (mem_chainEvals _).mpr ⟨k, by omega, rfl⟩, rfl⟩⟩
  · exact .inl hcoll

/-- XMSS signatures of two messages with one root have collided, or the parts above
the WOTS+ keys are the same. -/
theorem xmss_collides_or_agree {dig dig' : Nat → Nat} {s s' : XmssSig α}
    (h : xmssPkFromSig p T l t kp dig s = xmssPkFromSig p T l t kp dig' s') :
    Collides T (xmssEvals p T l t kp dig s) (xmssEvals p T l t kp dig' s') ∨
      wotsPkFromSig p T l t kp dig s.wots = wotsPkFromSig p T l t kp dig' s'.wots ∧
        ∀ j < p.hp, s.auth j = s'.auth j := by
  by_cases hne : wotsPkFromSig p T l t kp dig s.wots ≠ wotsPkFromSig p T l t kp dig' s'.wots ∨
      ∃ j < p.hp, s.auth j ≠ s'.auth j
  · refine .inl (Collides.mono ?_ (fun _ he => List.mem_append_right _ he) fun _ he =>
      List.mem_append_right _ he)
    exact (climb_collides _ hne h).map (g := T) (fun k : Nat × Nat => .merkle l t k.1 k.2)
      (fun c : α × α => [c.1, c.2]) (fun _ _ => pair_inj) fun _ _ => rfl
  · simp only [not_or, not_not, not_exists, not_and] at hne
    exact .inr hne

/-- XMSS signatures of one message at one leaf with one root have collided, or are the same. -/
theorem xmss_collides_or_eq {dig : Nat → Nat} {s s' : XmssSig α}
    (h : xmssPkFromSig p T l t kp dig s = xmssPkFromSig p T l t kp dig s') :
    Collides T (xmssEvals p T l t kp dig s) (xmssEvals p T l t kp dig s') ∨ s.Agree p s' := by
  by_cases hs : s.Agree p s'
  · exact .inr hs
  · refine .inl (xmss_collides ?_ h)
    simp only [XmssSig.Agree, not_and_or, not_forall, exists_prop] at hs
    exact hs

theorem fors_collides_or_eq {idx : Nat → Nat} {s s' : ForsSig α}
    (h : forsPkFromSig p T l t kp idx s = forsPkFromSig p T l t kp idx s') :
    Collides T (forsEvals p T l t kp idx s) (forsEvals p T l t kp idx s') ∨ s.Agree p s' := by
  by_cases hs : s.Agree p s'
  · exact .inr hs
  · refine .inl (fors_collides ?_ h)
    simp only [ForsSig.Agree, not_and_or, not_forall, exists_prop] at hs
    exact hs

/-! ## The hypertree -/

section Hypertree

variable (p T) (digits : α → Nat → Nat)

/-- On a chain of layer `l` of the signature `s` of `m`, the evaluations `E` take the
step below the value that `s` discloses, and arrive at it. -/
def Inverts (t kp : Nat) (m : α) (s : Nat → XmssSig α) (E : List (Eval α)) (l : Nat) : Prop :=
  ∃ i < p.len, ∃ j x, digits (htRoot p T digits t kp m s l) i = j + 1 ∧
    (.wotsStep l (treeAt p t l) (leafAt p t kp l) i j, [x]) ∈ E ∧
    T (.wotsStep l (treeAt p t l) (leafAt p t kp l) i j) [x] = (s l).wots i

variable {p T digits} {m m' : α} {s s' : Nat → XmssSig α}

theorem Inverts.mono {E E' : List (Eval α)} (h : Inverts p T digits t kp m s E l) (hE : ∀ e ∈ E, e ∈ E') :
    Inverts p T digits t kp m s E' l := by
  obtain ⟨i, hi, j, x, hd, he, hx⟩ := h
  exact ⟨i, hi, j, x, hd, hE _ he, hx⟩

theorem mem_htEvals_of_lt {n : Nat} {e : Eval α} (hl : l < n)
    (he : e ∈ xmssEvals p T l (treeAt p t l) (leafAt p t kp l)
      (digits (htRoot p T digits t kp m s l)) (s l)) :
    e ∈ htEvals p T digits t kp m s n := List.mem_flatMap.mpr ⟨l, List.mem_range.mpr hl, he⟩

theorem mem_htEvals_mono {n k : Nat} (hn : n ≤ k) {e : Eval α} (he : e ∈ htEvals p T digits t kp m s n) :
    e ∈ htEvals p T digits t kp m s k := by
  obtain ⟨l, hl, he⟩ := List.mem_flatMap.mp he
  exact mem_htEvals_of_lt (Nat.lt_of_lt_of_le (List.mem_range.mp hl) hn) he

variable {P : α → Prop} (hT : ∀ n xs, P (T n xs)) (hw : ∀ x, ∀ i < p.len, digits x i < p.w)
  (hdig : ∀ x y, P x → P y → x ≠ y → ∃ i < p.len, digits y i < digits x i)

include hT

theorem htRoot_values (hm : P m) : ∀ n, P (htRoot p T digits t kp m s n)
  | 0 => hm
  | _ + 1 => climb_values (fun _ _ _ _ => hT _ _) (hT _ _) _ _ _

include hw hdig

/-- Hypertree signatures with one root have collided, or one inverts a chain of the
other, or message and signature are the same. -/
theorem htRoot_collides_or_inverts (hm : P m) (hm' : P m') : ∀ n,
    htRoot p T digits t kp m s n = htRoot p T digits t kp m' s' n →
      Collides T (htEvals p T digits t kp m s n) (htEvals p T digits t kp m' s' n) ∨
      (∃ l < n, Inverts p T digits t kp m s (htEvals p T digits t kp m' s' n) l) ∨
      m = m' ∧ ∀ l < n, (s l).Agree p (s' l)
  | 0, h => .inr (.inr ⟨h, fun l hl => absurd hl (Nat.not_lt_zero l)⟩)
  | n + 1, h => by
    have hlast {m : α} {s : Nat → XmssSig α} : ∀ e ∈ xmssEvals p T n (treeAt p t n) (leafAt p t kp n)
        (digits (htRoot p T digits t kp m s n)) (s n), e ∈ htEvals p T digits t kp m s (n + 1) :=
      fun _ he => mem_htEvals_of_lt (Nat.lt_succ_self n) he
    have hbelow {m : α} {s : Nat → XmssSig α} : ∀ e ∈ htEvals p T digits t kp m s n,
        e ∈ htEvals p T digits t kp m s (n + 1) := fun _ he => mem_htEvals_mono (Nat.le_succ n) he
    rcases xmss_collides_or_agree h with hcoll | ⟨hwots, -⟩
    · exact .inl (hcoll.mono hlast hlast)
    by_cases hroot : htRoot p T digits t kp m s n = htRoot p T digits t kp m' s' n
    · -- the same is signed at this layer, so that the layer below decides
      rw [htRoot, htRoot, hroot] at h
      rcases xmss_collides_or_eq h with hcoll | hagree
      · exact .inl (hcoll.mono (fun e he => hlast e (hroot ▸ he)) hlast)
      rcases htRoot_collides_or_inverts hm hm' n hroot with hcoll | ⟨l, hl, hinv⟩ | ⟨hmm, hall⟩
      · exact .inl (hcoll.mono hbelow hbelow)
      · exact .inr (.inl ⟨l, Nat.lt_succ_of_lt hl, hinv.mono hbelow⟩)
      · refine .inr (.inr ⟨hmm, fun l hl => ?_⟩)
        rcases Nat.lt_succ_iff_lt_or_eq.mp hl with hl | rfl
        · exact hall l hl
        · exact hagree
    · obtain ⟨i, hi, hlt⟩ := hdig _ _ (htRoot_values hT hm n) (htRoot_values hT hm' n) hroot
      rcases wots_collides_or_inverts hi hlt (hw _ i hi) hwots with hcoll | ⟨j, x, hj, he, hx⟩
      · exact .inl (hcoll.mono (fun e he => hlast e (List.mem_append_left _ he))
          fun e he => hlast e (List.mem_append_left _ he))
      · exact .inr (.inl ⟨n, Nat.lt_succ_self n, i, hi, j, x, hj, hlast _ (List.mem_append_left _ he), hx⟩)

/-- Signatures at one leaf with one root have collided, or the second inverts a chain
of the first, or they are the same. -/
theorem rootFromSig_collides_or_inverts {idx : Nat → Nat} {fors fors' : ForsSig α}
    (h : rootFromSig p T digits t kp idx fors s = rootFromSig p T digits t kp idx fors' s') :
    Collides T (rootEvals p T digits t kp idx fors s) (rootEvals p T digits t kp idx fors' s') ∨
      (∃ l < p.d, Inverts p T digits t kp (forsPkFromSig p T 0 t kp idx fors) s
        (rootEvals p T digits t kp idx fors' s') l) ∨
      fors.Agree p fors' ∧ ∀ l < p.d, (s l).Agree p (s' l) := by
  have hht {m : α} {s : Nat → XmssSig α} {E : List (Eval α)} : ∀ e ∈ htEvals p T digits t kp m s p.d,
      e ∈ E ++ htEvals p T digits t kp m s p.d := fun _ he => List.mem_append_right _ he
  rcases htRoot_collides_or_inverts hT hw hdig (hT _ _) (hT _ _) p.d h with hcoll | ⟨l, hl,
    hinv⟩ | ⟨hpk, hall⟩
  · exact .inl (hcoll.mono hht hht)
  · exact .inr (.inl ⟨l, hl, hinv.mono hht⟩)
  · exact (fors_collides_or_eq hpk).imp (fun hcoll => hcoll.mono (fun _ he => List.mem_append_left _ he)
      fun _ he => List.mem_append_left _ he) fun hfors => .inr ⟨hfors, hall⟩

end Hypertree

/-! ## Shapes -/

theorem rootEvals_shaped {P : α → Prop} (hT : ∀ n xs, P (T n xs)) {digits : α → Nat → Nat} {idx : Nat → Nat}
    {fors : ForsSig α} {s : Nat → XmssSig α} (hsk : ∀ i < p.k, P (fors.sk i))
    (hpath : ∀ i < p.k, ∀ h < p.a, P (fors.auth i h)) (hw : ∀ l < p.d, ∀ i < p.len, P ((s l).wots i))
    (ha : ∀ l < p.d, ∀ j < p.hp, P ((s l).auth j)) :
    ∀ e ∈ rootEvals p T digits t kp idx fors s, Shaped p P e := by
  intro e he
  rcases List.mem_append.mp he with he | he
  · exact forsEvals_shaped hT hsk hpath e he
  · obtain ⟨l, hl, he⟩ := List.mem_flatMap.mp he
    replace hl := List.mem_range.mp hl
    exact xmssEvals_shaped hT (hw l hl) (ha l hl) e he

end SuiPq.HashSig
