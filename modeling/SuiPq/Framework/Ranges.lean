import Mathlib.Data.Nat.Bitwise
import Mathlib.Tactic.Common

/-!
# Ranges of natural numbers

What is known of a number while a program is analysed: bounds, and possibly
that it is a ghost variable plus a constant (`Range`); and what is known of a
length: that it is at least a constant, plus a ghost variable (`Least`). A
valuation `ρ` gives the ghost variables' values. The operations on ranges
are sound for those on numbers.

A loop that counts in a ghost variable `k` has an invariant in terms of `k`:
`shift k c` is what it says where `k` is greater by `c`, and `close k v` what is left
of it where `k` is no longer known but to be at least `v`.
-/

namespace SuiPq

/-! ## Numbers -/

theorem or_le_add (m n : Nat) : m ||| n ≤ m + n := by
  induction m using Nat.strongRecOn generalizing n with
  | ind m ih =>
    rcases Nat.eq_zero_or_pos m with rfl | hm
    · simp
    have hdiv := ih (m / 2) (Nat.div_lt_self hm Nat.one_lt_two) (n / 2)
    rw [← Nat.or_div_two] at hdiv
    have hmod : (m ||| n) % 2 ≤ m % 2 + n % 2 := by
      have := Nat.or_mod_two_eq_one (a := m) (b := n)
      omega
    omega

structure Range where
  lo : Nat
  hi : Nat
  /-- A ghost variable and a constant whose sum the number is. -/
  ghost : Option (Nat × Nat)

namespace Range

structure Holds (ρ : Nat → Nat) (r : Range) (n : Nat) : Prop where
  lo : r.lo ≤ n
  hi : n ≤ r.hi
  ghost : ∀ p ∈ r.ghost, n = ρ p.1 + p.2

def const (n : Nat) : Range := ⟨n, n, none⟩

def upTo (n : Nat) : Range := ⟨0, n, none⟩

def add (a b : Range) : Range :=
  ⟨a.lo + b.lo, a.hi + b.hi, if b.lo = b.hi then a.ghost.map fun p => (p.1, p.2 + b.lo) else none⟩

def sub (a b : Range) : Range := ⟨a.lo - b.hi, a.hi - b.lo, none⟩

def mul (a b : Range) : Range := ⟨a.lo * b.lo, a.hi * b.hi, none⟩

def div (a b : Range) : Range := ⟨a.lo / b.hi, a.hi / b.lo, none⟩

def mod (_ b : Range) : Range := ⟨0, b.hi - 1, none⟩

/-- The left shift, modulo `m`. -/
def shl (m : Nat) (a b : Range) : Range :=
  if a.hi <<< b.hi < m then ⟨a.lo <<< b.lo, a.hi <<< b.hi, none⟩ else ⟨0, m - 1, none⟩

def shr (a b : Range) : Range := ⟨a.lo >>> b.hi, a.hi >>> b.lo, none⟩

def and (a b : Range) : Range := ⟨0, min a.hi b.hi, none⟩

def or (a b : Range) : Range := ⟨0, a.hi + b.hi, none⟩

/-- Whether the first is less than the second, if this is known. -/
def lt (a b : Range) : Option Bool :=
  if a.hi < b.lo then some true else if b.hi ≤ a.lo then some false else none

/-- Whether the two are equal, if this is known. -/
def eq (a b : Range) : Option Bool :=
  if a.lo = a.hi ∧ b.lo = b.hi ∧ a.lo = b.lo then some true
  else if a.hi < b.lo ∨ b.hi < a.lo then some false else none

def le (a b : Range) : Bool :=
  decide (b.lo ≤ a.lo) && decide (a.hi ≤ b.hi) && (b.ghost.isNone || b.ghost == a.ghost)

def shift (k c : Nat) (r : Range) : Range :=
  { r with ghost := r.ghost.map fun p => if p.1 = k then (p.1, p.2 + c) else p }

def close (k : Nat) (r : Range) : Range := { r with ghost := r.ghost.filter fun p => p.1 ≠ k }

section Soundness

variable {ρ ρ' : Nat → Nat} {a b : Range} {m n : Nat}

@[simp] theorem const_holds : (const n).Holds ρ n := ⟨le_rfl, le_rfl, by simp [const]⟩

theorem upTo_holds (h : n ≤ m) : (upTo m).Holds ρ n := ⟨Nat.zero_le _, h, by simp [upTo]⟩

theorem add_holds (ha : a.Holds ρ m) (hb : b.Holds ρ n) : (a.add b).Holds ρ (m + n) := by
  refine ⟨Nat.add_le_add ha.lo hb.lo, Nat.add_le_add ha.hi hb.hi, fun p hp => ?_⟩
  simp only [add] at hp
  split at hp
  · obtain ⟨q, hq, rfl⟩ := Option.mem_map.mp hp
    have := ha.ghost q hq
    have := hb.lo
    have := hb.hi
    dsimp only
    omega
  · cases hp

theorem sub_holds (ha : a.Holds ρ m) (hb : b.Holds ρ n) : (a.sub b).Holds ρ (m - n) := by
  have := ha.lo
  have := ha.hi
  have := hb.lo
  have := hb.hi
  exact ⟨show a.lo - b.hi ≤ m - n by omega, show m - n ≤ a.hi - b.lo by omega, by simp [sub]⟩

theorem mul_holds (ha : a.Holds ρ m) (hb : b.Holds ρ n) : (a.mul b).Holds ρ (m * n) :=
  ⟨Nat.mul_le_mul ha.lo hb.lo, Nat.mul_le_mul ha.hi hb.hi, by simp [mul]⟩

theorem div_holds (ha : a.Holds ρ m) (hb : b.Holds ρ n) (h : 0 < b.lo) : (a.div b).Holds ρ (m / n) :=
  ⟨Nat.div_le_div ha.lo hb.hi (by have := hb.lo; omega), Nat.div_le_div ha.hi hb.lo (by omega),
    by simp [div]⟩

theorem mod_holds (hb : b.Holds ρ n) (h : 0 < b.lo) : (a.mod b).Holds ρ (m % n) := by
  have := Nat.mod_lt m (show 0 < n from Nat.lt_of_lt_of_le h hb.lo)
  have := hb.hi
  exact ⟨Nat.zero_le _, show m % n ≤ b.hi - 1 by omega, by simp [mod]⟩

theorem shl_holds {w : Nat} (hw : 0 < w) (ha : a.Holds ρ m) (hb : b.Holds ρ n) :
    (a.shl w b).Holds ρ ((m <<< n) % w) := by
  have h : m <<< n ≤ a.hi <<< b.hi := by
    rw [Nat.shiftLeft_eq, Nat.shiftLeft_eq]
    exact Nat.mul_le_mul ha.hi (Nat.pow_le_pow_right Nat.two_pos hb.hi)
  unfold shl
  split
  · rename_i hlt
    rw [Nat.mod_eq_of_lt (by omega)]
    refine ⟨?_, h, by simp⟩
    simp only [Nat.shiftLeft_eq]
    exact Nat.mul_le_mul ha.lo (Nat.pow_le_pow_right Nat.two_pos hb.lo)
  · have := Nat.mod_lt (m <<< n) hw
    exact ⟨Nat.zero_le _, show _ ≤ w - 1 by omega, by simp⟩

theorem shr_holds (ha : a.Holds ρ m) (hb : b.Holds ρ n) : (a.shr b).Holds ρ (m >>> n) := by
  refine ⟨?_, ?_, by simp [shr]⟩ <;> simp only [shr, Nat.shiftRight_eq_div_pow]
  · exact Nat.div_le_div ha.lo (Nat.pow_le_pow_right Nat.two_pos hb.hi) (Nat.two_pow_pos _).ne'
  · exact Nat.div_le_div ha.hi (Nat.pow_le_pow_right Nat.two_pos hb.lo) (Nat.two_pow_pos _).ne'

theorem and_holds (ha : a.Holds ρ m) (hb : b.Holds ρ n) : (a.and b).Holds ρ (m &&& n) :=
  ⟨Nat.zero_le _, le_min (Nat.and_le_left.trans ha.hi) (Nat.and_le_right.trans hb.hi), by simp [and]⟩

theorem or_holds (ha : a.Holds ρ m) (hb : b.Holds ρ n) : (a.or b).Holds ρ (m ||| n) := by
  have h := or_le_add m n
  exact ⟨Nat.zero_le _, h.trans (Nat.add_le_add ha.hi hb.hi), by simp [or]⟩

theorem lt_holds (ha : a.Holds ρ m) (hb : b.Holds ρ n) : ∀ c ∈ a.lt b, decide (m < n) = c := by
  intro c hc
  have := ha.lo
  have := ha.hi
  have := hb.lo
  have := hb.hi
  unfold lt at hc
  split at hc
  · cases hc
    exact decide_eq_true (by omega)
  · split at hc
    · cases hc
      exact decide_eq_false (by omega)
    · cases hc

theorem eq_holds (ha : a.Holds ρ m) (hb : b.Holds ρ n) : ∀ c ∈ a.eq b, decide (m = n) = c := by
  intro c hc
  have := ha.lo
  have := ha.hi
  have := hb.lo
  have := hb.hi
  unfold eq at hc
  split at hc
  · cases hc
    exact decide_eq_true (by omega)
  · split at hc
    · cases hc
      exact decide_eq_false (by omega)
    · cases hc

theorem le_holds (h : a.le b = true) (ha : a.Holds ρ n) : b.Holds ρ n := by
  simp only [le, Bool.and_eq_true, decide_eq_true_eq, Bool.or_eq_true, Option.isNone_iff_eq_none,
    beq_iff_eq] at h
  obtain ⟨⟨hlo, hhi⟩, hg⟩ := h
  refine ⟨hlo.trans ha.lo, ha.hi.trans hhi, fun p hp => ?_⟩
  rcases hg with hg | hg
  · rw [hg] at hp
    cases hp
  · exact ha.ghost p (hg ▸ hp)

theorem holds_of_shift {k c : Nat} (hk : ρ' k = ρ k + c) (hρ : ∀ j, j ≠ k → ρ' j = ρ j)
    (h : (a.shift k c).Holds ρ n) : a.Holds ρ' n := by
  refine ⟨h.lo, h.hi, fun p hp => ?_⟩
  have := h.ghost _ (Option.mem_map_of_mem _ hp)
  by_cases hpk : p.1 = k
  · rw [if_pos hpk] at this
    rw [this, hpk, hk]
    omega
  · rw [if_neg hpk] at this
    rw [this, hρ _ hpk]

theorem close_holds {k : Nat} (hρ : ∀ j, j ≠ k → ρ' j = ρ j) (h : a.Holds ρ n) : (a.close k).Holds ρ' n := by
  refine ⟨h.lo, h.hi, fun p hp => ?_⟩
  obtain ⟨hp, hk⟩ := Option.mem_filter_iff.mp hp
  rw [hρ _ (of_decide_eq_true hk), h.ghost p hp]

end Soundness

end Range

/-! ## Lengths -/

/-- A lower bound: `n`, and a ghost variable. -/
structure Least where
  n : Nat
  ghost : Option Nat

namespace Least

def Holds (ρ : Nat → Nat) (l : Least) (m : Nat) : Prop := l.n + l.ghost.elim 0 ρ ≤ m

def const (n : Nat) : Least := ⟨n, none⟩

def add (l : Least) (m : Nat) : Least := { l with n := l.n + m }

/-- `a` is at least `b`, where a ghost variable may be known to be at most some number. -/
def le (most : Option (Nat × Nat)) (a b : Least) : Bool :=
  match b.ghost with
  | none => b.n ≤ a.n
  | some k => (decide (b.n ≤ a.n) && a.ghost == some k) ||
    match most with
    | none => false
    | some (k', h) => k = k' && b.n + h ≤ a.n

/-- The number is an index below the length. -/
def covers (l : Least) (i : Range) : Bool :=
  decide (i.hi < l.n) ||
    match i.ghost, l.ghost with
    | some (k, c), some k' => k = k' && c < l.n
    | _, _ => false

def shift (k c : Nat) (l : Least) : Least := if l.ghost = some k then { l with n := l.n + c } else l

def close (k v : Nat) (l : Least) : Least := if l.ghost = some k then ⟨l.n + v, none⟩ else l

section Soundness

variable {ρ ρ' : Nat → Nat} {a b : Least} {m n k : Nat}

theorem const_holds (h : m ≤ n) : (const m).Holds ρ n := h

theorem add_holds (ha : a.Holds ρ m) (h : n ≤ k) : (a.add n).Holds ρ (m + k) := by
  unfold Holds at ha
  show a.n + n + a.ghost.elim 0 ρ ≤ m + k
  omega

theorem le_holds {most : Option (Nat × Nat)} (hm : ∀ p ∈ most, ρ p.1 ≤ p.2) (h : a.le most b = true)
    (ha : a.Holds ρ n) : b.Holds ρ n := by
  unfold Holds at *
  unfold le at h
  split at h
  · rename_i hb
    rw [hb, Option.elim_none]
    have := of_decide_eq_true h
    omega
  · rename_i k hb
    rw [hb, Option.elim_some]
    rcases Bool.or_eq_true_iff.mp h with h | h
    · obtain ⟨h, hg⟩ := Bool.and_eq_true_iff.mp h
      rw [beq_iff_eq.mp hg, Option.elim_some] at ha
      have := of_decide_eq_true h
      omega
    · split at h
      · cases h
      · obtain ⟨hk, h⟩ := Bool.and_eq_true_iff.mp h
        have hk := of_decide_eq_true hk
        have := of_decide_eq_true h
        have := hm _ rfl
        dsimp only at this
        rw [hk]
        omega

theorem covers_holds {i : Range} (h : a.covers i = true) (ha : a.Holds ρ n) (hi : i.Holds ρ m) : m < n := by
  unfold Holds at ha
  rcases Bool.or_eq_true_iff.mp h with h | h
  · have := of_decide_eq_true h
    have := hi.hi
    omega
  · split at h
    · rename_i hg hg'
      obtain ⟨hk, h⟩ := Bool.and_eq_true_iff.mp h
      have hk := of_decide_eq_true hk
      have := of_decide_eq_true h
      have := hi.ghost _ hg
      rw [hg', Option.elim_some, ← hk] at ha
      dsimp only at this
      omega
    · cases h

theorem holds_of_shift {k c : Nat} (hk : ρ' k = ρ k + c) (hρ : ∀ j, j ≠ k → ρ' j = ρ j)
    (h : (a.shift k c).Holds ρ n) : a.Holds ρ' n := by
  unfold Holds shift at *
  split at h
  · rename_i hg
    simp only [hg, Option.elim_some] at h ⊢
    omega
  · rename_i hg
    cases hg' : a.ghost with
    | none => rwa [hg'] at h
    | some j =>
      rw [hg', Option.elim_some] at h
      rwa [Option.elim_some, hρ j fun hj => hg (hj ▸ hg')]

theorem close_holds {k v : Nat} (hv : v ≤ ρ k) (hρ : ∀ j, j ≠ k → ρ' j = ρ j) (h : a.Holds ρ n) :
    (a.close k v).Holds ρ' n := by
  unfold Holds close at *
  split
  · rename_i hg
    rw [hg, Option.elim_some] at h
    show a.n + v + 0 ≤ n
    omega
  · rename_i hg
    cases hg' : a.ghost with
    | none => rwa [hg'] at h
    | some j =>
      rw [hg', Option.elim_some] at h
      rwa [Option.elim_some, hρ j fun hj => hg (hj ▸ hg')]

end Soundness

end Least

end SuiPq
