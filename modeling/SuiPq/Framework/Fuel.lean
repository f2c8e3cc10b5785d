import SuiPq.Framework.Move

/-!
# Interpreters with fuel

An interpreter spends a unit of its fuel on each step: `Spends run n s Q` says
that from `s` it comes to a state with `Q` for `n` units at most, however much
it has left then. Such runs follow one another (`Spends.bind`), and a loop of
the interpreter runs in step with a counting loop of a function: forwards
(`Spends.whileLt`), backwards (`Spends.whileGt0`) or while a condition holds
(`Spends.whileGas`), from what one round of each does.
-/

namespace SuiPq.Fuel

variable {σ τ ρ ε : Type} {run : σ → Nat → ρ} {s t : σ} {m n : Nat} {Q R : σ → Prop}

def Spends (run : σ → Nat → ρ) (n : Nat) (s : σ) (Q : σ → Prop) : Prop :=
  ∃ t, ∃ m ≤ n, (∀ fuel, run s (fuel + m) = run t fuel) ∧ Q t

namespace Spends

theorem done (h : Q s) : Spends run n s Q := ⟨s, 0, Nat.zero_le n, fun _ => rfl, h⟩

theorem mono (h : Spends run m s Q) (hn : m ≤ n) (hQ : ∀ t, Q t → R t) : Spends run n s R := by
  obtain ⟨t, k, hk, hs, hq⟩ := h
  exact ⟨t, k, hk.trans hn, hs, hQ t hq⟩

theorem bind (h : Spends run m s Q) (h' : ∀ t, Q t → Spends run n t R) : Spends run (m + n) s R := by
  obtain ⟨t, i, hi, hs, hq⟩ := h
  obtain ⟨u, j, hj, ht, hr⟩ := h' t hq
  refine ⟨u, j + i, by omega, fun fuel => ?_, hr⟩
  rw [← Nat.add_assoc, hs, ht]

/-- A stretch that always costs `m` units. -/
theorem step (hs : ∀ fuel, run s (fuel + m) = run t fuel) (h : Spends run n t Q) :
    Spends run (n + m) s Q := by
  obtain ⟨u, j, hj, ht, hq⟩ := h
  exact ⟨u, j + m, by omega, fun fuel => by rw [← Nat.add_assoc, hs, ht], hq⟩

/-- `m` of the `n` units are spent on the way to a state with `Q`. -/
theorem pay (h : Spends run m s Q) (hn : m ≤ n) (h' : ∀ t, Q t → Spends run (n - m) t R) : Spends run n s R :=
  (h.bind h').mono (by omega) fun _ hr => hr

/-- What the interpreter returns from a state that it leaves for good. -/
theorem final (h : Spends run n s Q) {fuel : Nat} (hf : n < fuel) {P : ρ → Prop}
    (hP : ∀ t fuel, fuel ≠ 0 → Q t → P (run t fuel)) : P (run s fuel) := by
  obtain ⟨t, m, hm, hs, hq⟩ := h
  rw [show fuel = fuel - m + m by omega, hs]
  exact hP t _ (by omega) hq

/-! ## Loops -/

/-- A loop in step with one of a function: `c` units pay for a round. -/
theorem forLt {a k c : Nat} {body : Nat → τ → Comp ε τ} {x x' : τ} (Inv : Nat → τ → σ → Prop) (hak : a ≤ k)
    (hbody : ∀ i x x' s, a ≤ i → i < k → (body i x).res = .ok x' → Inv i x s →
      Spends run c s (Inv (i + 1) x'))
    (h : (SuiPq.forLt a k x body).res = .ok x') (hs : Inv a x s) : Spends run ((k - a) * c) s (Inv k x') := by
  induction hd : k - a generalizing a x s with
  | zero =>
    obtain rfl : a = k := by omega
    rw [forLt_ge (Nat.le_refl a)] at h
    obtain rfl : x = x' := by simpa using h
    exact done hs
  | succ d ih =>
    rw [forLt_succ_left (by omega)] at h
    obtain ⟨y, hy, h⟩ := Comp.bind_ok h
    have hround := hbody a x y s (Nat.le_refl a) (by omega) hy hs
    refine (hround.bind fun t ht => ih (by omega) (fun i x x' s hi => hbody i x x' s (by omega)) h ht
      (by omega)).mono ?_ fun _ hq => hq
    rw [Nat.succ_mul, Nat.add_comm]

/-- A loop whose states satisfy `Inv`. -/
theorem loop {k c : Nat} (Inv : Nat → σ → Prop)
    (hbody : ∀ i s, i < k → Inv i s → Spends run c s (Inv (i + 1)))
    (hs : Inv 0 s) : Spends run (k * c) s (Inv k) :=
  have hloop : (SuiPq.forLt 0 k () fun _ _ => (pure () : Comp Unit Unit)).res = .ok () :=
    congrArg Comp.res (forLt_zero_pure (fun _ => ()) rfl fun _ _ => rfl)
  forLt (fun i _ => Inv i) (Nat.zero_le k) (fun i _ _ s _ hi _ hs => hbody i s hi hs) hloop hs

theorem whileLt {w a k c : Nat} {body : Nat → τ → Move ε τ} {x x' : τ} (Inv : Nat → τ → σ → Prop)
    (hak : a ≤ k)
    (hbody : ∀ i x x' s, a ≤ i → i < k → (body i x).res = .ok x' → i + 1 < 2 ^ w → Inv i x s →
      Spends run c s (Inv (i + 1) x'))
    (h : (Move.whileLt w a k x body).res = .ok x') (hs : Inv a x s) :
    Spends run ((k - a) * c) s (Inv k x') := by
  refine forLt Inv hak (fun i x x' s hi hk h hs => ?_) h hs
  obtain ⟨y, hy, h⟩ := Comp.bind_ok h
  obtain ⟨_, hadd, h⟩ := Comp.bind_ok h
  obtain rfl : y = x' := by simpa using h
  exact hbody i x y s hi hk hy (Move.add_ok.mp hadd).1 hs

/-- A loop that counts down, with `i` for the rounds it has made. -/
theorem whileGt0 {k c : Nat} {body : Nat → τ → Move ε τ} {x x' : τ} (Inv : Nat → τ → σ → Prop)
    (hbody : ∀ i x x' s, i < k → (body (k - i - 1) x).res = .ok x' → Inv i x s →
      Spends run c s (Inv (i + 1) x'))
    (h : (Move.whileGt0 k x body).res = .ok x') (hs : Inv 0 x s) : Spends run (k * c) s (Inv k x') := by
  refine forLt Inv (Nat.zero_le k) (fun i x x' s _ hk h hs => ?_) h hs
  obtain ⟨j, hj, h⟩ := Comp.bind_ok h
  obtain ⟨-, rfl⟩ := Move.sub_ok.mp hj
  exact hbody i x x' s hk h hs

/-- A loop that a condition ends. -/
theorem whileGas {gas c : Nat} {cond : τ → Bool} {body : τ → Move ε τ} {x x' : τ} (Inv : τ → σ → Prop)
    (hbody : ∀ x x' s, cond x = true → (body x).res = .ok x' → Inv x s → Spends run c s (Inv x'))
    (h : (Move.whileGas cond body gas x).res = .ok x') (hs : Inv x s) :
    Spends run (gas * c) s fun t => cond x' = false ∧ Inv x' t := by
  induction gas generalizing x s with
  | zero =>
    by_cases hc : cond x = true
    · rw [Move.whileGas, Comp.whileFuel, if_pos hc] at h
      cases h
    · rw [Move.whileGas, Comp.whileFuel, if_neg hc] at h
      obtain rfl : x = x' := by simpa using h
      exact done ⟨by simpa using hc, hs⟩
  | succ gas ih =>
    by_cases hc : cond x = true
    · rw [Move.whileGas, Comp.whileFuel, if_pos hc] at h
      obtain ⟨y, hy, h⟩ := Comp.bind_ok h
      refine ((hbody x y s hc hy hs).bind fun t ht => ih h ht).mono ?_ fun _ hq => hq
      rw [Nat.succ_mul, Nat.add_comm]
    · rw [Move.whileGas, Comp.whileFuel, if_neg hc] at h
      obtain rfl : x = x' := by simpa using h
      exact done ⟨by simpa using hc, hs⟩

end Spends

end SuiPq.Fuel
