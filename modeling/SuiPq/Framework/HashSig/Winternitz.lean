import SuiPq.Framework.HashSig.Chain
import Mathlib.Algebra.Group.Action.Defs
import Mathlib.Algebra.Order.BigOperators.Group.Finset
import Mathlib.Tactic.Ring

/-!
# Winternitz one-time signatures

A message is `n` digits in base `w`, and is signed with the digits of its
checksum behind them (`encode`), so that of the encodings of two messages
neither is at every digit at least the other (`exists_encode_lt`).

A signature's values are walked, each along its own chain, from its digit to
the chain's top (`top`). Two signatures with the same tops have collided, or
on some chain the second message's digit is lower than the first's and the
second signature's value walks up to the first's (`tops_reduction`).
-/

namespace SuiPq.HashSig

/-! ## Digits and checksums -/

/-- Digit `j` of the `k` digits of `c` in base `w`, most significant first. -/
def digit (w k c j : Nat) : Nat := c / w ^ (k - 1 - j) % w

/-- The sum of what `n` digits lack of the largest digit. -/
def checksum (w n : Nat) (d : Nat → Nat) : Nat := ∑ i ∈ Finset.range n, (w - 1 - d i)

/-- The `n` digits `d`, and behind them the `k` digits of their checksum. -/
def encode (w n k : Nat) (d : Nat → Nat) (i : Nat) : Nat :=
  if i < n then d i else digit w k (checksum w n d) (i - n)

theorem digit_lt {w : Nat} (hw : 0 < w) (k c j : Nat) : digit w k c j < w := Nat.mod_lt _ hw

theorem encode_lt {w n k : Nat} (hw : 0 < w) {d : Nat → Nat} (hd : ∀ i < n, d i < w) (i : Nat) :
    encode w n k d i < w := by
  unfold encode
  split
  · exact hd i ‹_›
  · exact digit_lt hw _ _ _

theorem encode_left {w n k : Nat} {d : Nat → Nat} {i : Nat} (h : i < n) : encode w n k d i = d i :=
  if_pos h

theorem encode_right (w n k : Nat) (d : Nat → Nat) (j : Nat) :
    encode w n k d (n + j) = digit w k (checksum w n d) j := by
  rw [encode, if_neg (by omega), Nat.add_sub_cancel_left]

theorem checksum_succ (w n : Nat) (d : Nat → Nat) :
    checksum w (n + 1) d = checksum w n d + (w - 1 - d n) := Finset.sum_range_succ ..

theorem checksum_le (w n : Nat) (d : Nat → Nat) : checksum w n d ≤ n * (w - 1) := by
  have := Finset.sum_le_card_nsmul (Finset.range n) (fun i => w - 1 - d i) (w - 1)
    fun i _ => Nat.sub_le _ _
  rwa [Finset.card_range, smul_eq_mul] at this

theorem digit_succ_left (w k c : Nat) (hc : c < w ^ (k + 1)) : digit w (k + 1) c 0 = c / w ^ k := by
  rw [digit, Nat.add_sub_cancel, Nat.sub_zero, Nat.mod_eq_of_lt]
  exact Nat.div_lt_of_lt_mul (by rwa [pow_succ] at hc)

theorem digit_succ_right (w k c j : Nat) (hj : j < k) :
    digit w (k + 1) c (j + 1) = digit w k (c % w ^ k) j := by
  obtain ⟨e, rfl⟩ : ∃ e, k = e + (j + 1) := ⟨k - (j + 1), by omega⟩
  rw [digit, digit, show e + (j + 1) + 1 - 1 - (j + 1) = e by omega,
    show e + (j + 1) - 1 - j = e by omega, pow_add, pow_succ, ← Nat.mul_assoc, Nat.mul_comm _ w,
    ← Nat.mul_assoc, Nat.mul_comm w, Nat.mul_assoc, Nat.mod_mul_right_div_self,
    Nat.mod_mul_right_mod]

/-- Digit by digit order of two numbers is their order. -/
theorem le_of_digit_le {w : Nat} (hw : 0 < w) : ∀ {k c c' : Nat}, c < w ^ k → c' < w ^ k →
    (∀ j < k, digit w k c j ≤ digit w k c' j) → c ≤ c'
  | 0, c, c', hc, _, _ => by rw [pow_zero] at hc; omega
  | k + 1, c, c', hc, hc', h => by
    have hk := Nat.pow_pos (n := k) hw
    have h0 := h 0 (by omega)
    rw [digit_succ_left w k c hc, digit_succ_left w k c' hc'] at h0
    have hr : c % w ^ k ≤ c' % w ^ k := by
      refine le_of_digit_le hw (Nat.mod_lt _ hk) (Nat.mod_lt _ hk) fun j hj => ?_
      rw [← digit_succ_right w k c j hj, ← digit_succ_right w k c' j hj]
      exact h (j + 1) (by omega)
    have hm := Nat.mul_le_mul_left (w ^ k) h0
    have := Nat.div_add_mod c (w ^ k)
    have := Nat.div_add_mod c' (w ^ k)
    omega

/-- Of two digit vectors, the one with a larger digit and none smaller has the smaller checksum. -/
theorem checksum_lt {w n : Nat} {d d' : Nat → Nat} (hd' : ∀ i < n, d' i < w)
    (hle : ∀ i < n, d i ≤ d' i) (hlt : ∃ i < n, d i < d' i) : checksum w n d' < checksum w n d := by
  refine Finset.sum_lt_sum (fun i hi => ?_) ?_
  · have := hle i (Finset.mem_range.mp hi)
    omega
  · obtain ⟨i, hi, h⟩ := hlt
    have := hd' i hi
    exact ⟨i, Finset.mem_range.mpr hi, by omega⟩

/-- The encodings of two different messages: some digit of the second's is
smaller than the first's. -/
theorem exists_encode_lt {w n k : Nat} (hk : n * (w - 1) < w ^ k) {d d' : Nat → Nat}
    (hd' : ∀ i < n, d' i < w) (hne : ∃ i < n, d i ≠ d' i) :
    ∃ i < n + k, encode w n k d' i < encode w n k d i := by
  by_contra hno
  have hle : ∀ i < n + k, encode w n k d i ≤ encode w n k d' i := fun i hi =>
    Nat.le_of_not_lt fun h => hno ⟨i, hi, h⟩
  have hd : ∀ i < n, d i ≤ d' i := fun i hi => by
    have := hle i (by omega)
    rwa [encode_left hi, encode_left hi] at this
  obtain ⟨i, hi, hine⟩ := hne
  have hw : 0 < w := Nat.zero_lt_of_lt (hd' i hi)
  have hlt := checksum_lt hd' hd ⟨i, hi, Nat.lt_of_le_of_ne (hd i hi) hine⟩
  have hcs := le_of_digit_le hw (Nat.lt_of_le_of_lt (checksum_le w n d) hk)
    (Nat.lt_of_le_of_lt (checksum_le w n d') hk) fun j hj => by
      have := hle (n + j) (by omega)
      rwa [encode_right, encode_right] at this
  omega

/-! ## Tops -/

section Tops

variable {α : Type} (f : Nat → Nat → α → α) (w : Nat)

/-- The top of chain `i`, from a value at position `d`. -/
def top (i d : Nat) (x : α) : α := chain (f i) d x (w - 1 - d)

/-- The steps to the tops of `n` chains: their chains and positions, and inputs. -/
def topsEvals (n : Nat) (d : Nat → Nat) (s : Nat → α) : List ((Nat × Nat) × α) :=
  (List.range n).flatMap fun i =>
    (chainEvals (f i) (d i) (s i) (w - 1 - d i)).map fun e => ((i, e.1), e.2)

theorem mem_topsEvals {n : Nat} {d : Nat → Nat} {s : Nat → α} {e : (Nat × Nat) × α} :
    e ∈ topsEvals f w n d s ↔
      ∃ i < n, ∃ e' ∈ chainEvals (f i) (d i) (s i) (w - 1 - d i), e = ((i, e'.1), e'.2) := by
  simp only [topsEvals, List.mem_flatMap, List.mem_range, List.mem_map, eq_comm]

/-- The evaluations of a collision on one chain are among those of the tops. -/
theorem Collides.of_chain {n i : Nat} (hi : i < n) {d d' : Nat → Nat} {s s' : Nat → α}
    {E E' : List (Nat × α)} (h : Collides (f i) E E')
    (hE : ∀ e ∈ E, e ∈ chainEvals (f i) (d i) (s i) (w - 1 - d i))
    (hE' : ∀ e ∈ E', e ∈ chainEvals (f i) (d' i) (s' i) (w - 1 - d' i)) :
    Collides (fun k x => f k.1 k.2 x) (topsEvals f w n d s) (topsEvals f w n d' s') := by
  obtain ⟨j, x, y, hx, hy, hne, he⟩ := h
  exact ⟨(i, j), x, y, (mem_topsEvals f w).mpr ⟨i, hi, _, hE _ hx, rfl⟩,
    (mem_topsEvals f w).mpr ⟨i, hi, _, hE' _ hy, rfl⟩, hne, he⟩

/-- Different signatures of one message with the same tops have collided. -/
theorem tops_collides {n : Nat} {d : Nat → Nat} {s s' : Nat → α} (hne : ∃ i < n, s i ≠ s' i)
    (h : ∀ i < n, top f w i (d i) (s i) = top f w i (d i) (s' i)) :
    Collides (fun k x => f k.1 k.2 x) (topsEvals f w n d s) (topsEvals f w n d s') := by
  obtain ⟨i, hi, hine⟩ := hne
  exact (chain_collides (f i) hine (h i hi)).of_chain f w hi (fun _ he => he) fun _ he => he

/-- Signatures with the same tops on a chain where the second digit is lower:
the second's value walks up to the first's, or the two chains have collided. -/
theorem tops_reduction {n i : Nat} (hi : i < n) {d d' : Nat → Nat} {s s' : Nat → α}
    (hd : d' i < d i) (hw : d i < w) (h : top f w i (d i) (s i) = top f w i (d' i) (s' i)) :
    chain (f i) (d' i) (s' i) (d i - d' i) = s i ∨
      Collides (fun k x => f k.1 k.2 x) (topsEvals f w n d s) (topsEvals f w n d' s') := by
  have hs : w - 1 - d' i = (d i - d' i) + (w - 1 - d i) := by omega
  have he : d' i + (d i - d' i) = d i := by omega
  by_cases hx : chain (f i) (d' i) (s' i) (d i - d' i) = s i
  · exact .inl hx
  · right
    rw [top, top, hs, chain_add, he] at h
    refine (chain_collides (f i) (Ne.symm hx) h).of_chain f w hi (fun _ he => he) fun e hm => ?_
    rw [hs]
    exact chainEvals_add (f i) _ _ _ _ (by rwa [he])

end Tops

end SuiPq.HashSig
