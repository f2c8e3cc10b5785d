import Mathlib.Algebra.Order.Floor.Ring
import Mathlib.Algebra.Order.Archimedean.Basic
import Mathlib.Data.Int.Log
import Mathlib.Data.Nat.Find
import Mathlib.Data.Rat.Floor
import Mathlib.Tactic.Linarith
import Mathlib.Tactic.NormNum
import Mathlib.Tactic.Positivity
import Mathlib.Tactic.Ring

/-!
# Doubles

The finite doubles are rationals (`IsDouble`). `nearest` rounds to them, to the
even one of two, and leaves them as they are (`nearest_self`); beyond the
greatest of them it gives what they would be. `shortest` is the decimal with
the fewest digits among those that are rounded to a double, of two the closest
to it (`nearest_shortest`).
-/

namespace SuiPq

/-- The rationals with 53 bits, in the range of a double's exponent. -/
def IsDouble (q : ℚ) : Prop :=
  ∃ m e : ℤ, |m| ≤ 2 ^ 53 ∧ -1074 ≤ e ∧ q = m * 2 ^ e ∧ |q| < 2 ^ 1024

/-- A finite double, up to the sign of zero. -/
abbrev Double := { q : ℚ // IsDouble q }

namespace Double

/-! ## Rounding -/

/-- The integer nearest to `q`, of two the even one. -/
def roundEven (q : ℚ) : ℤ :=
  if Int.fract q < 1 / 2 ∨ Int.fract q = 1 / 2 ∧ Even ⌊q⌋ then ⌊q⌋ else ⌊q⌋ + 1

/-- The exponent of the last of the 53 bits of `q`, or that of the least double. -/
def exponent (q : ℚ) : ℤ := max (Int.log 2 |q| - 52) (-1074)

/-- The nearest to `q` that has its bits from `exponent q` on. -/
def nearest (q : ℚ) : ℚ := roundEven (q / 2 ^ exponent q) * 2 ^ exponent q

theorem roundEven_intCast (n : ℤ) : roundEven n = n := by
  rw [roundEven, Int.fract_intCast, Int.floor_intCast, if_pos (.inl (by norm_num))]

theorem roundEven_neg (q : ℚ) : roundEven (-q) = -roundEven q := by
  by_cases hq : Int.fract q = 0
  · obtain ⟨n, rfl⟩ := Int.fract_eq_zero_iff.mp hq
    rw [← Int.cast_neg, roundEven_intCast, roundEven_intCast]
  · have hfract : Int.fract (-q) = 1 - Int.fract q := Int.fract_neg hq
    have hfloor : ⌊-q⌋ = -⌊q⌋ - 1 := by
      have hsum := Int.floor_add_fract q
      have hneg := Int.floor_add_fract (-q)
      have : ((⌊-q⌋ : ℤ) : ℚ) = ((-⌊q⌋ - 1 : ℤ) : ℚ) := by
        push_cast
        linarith
      exact_mod_cast this
    rw [roundEven, roundEven, hfract, hfloor]
    rcases lt_trichotomy (Int.fract q) (1 / 2) with hlt | heq | hgt
    · rw [if_neg (by rintro (h | ⟨h, -⟩) <;> linarith), if_pos (.inl hlt)]
      ring
    · have heven : Even (-⌊q⌋ - 1) ↔ ¬ Even ⌊q⌋ := by
        rw [Int.even_sub_one, even_neg]
      by_cases h : Even ⌊q⌋
      · rw [if_neg (by rintro (h' | ⟨-, h'⟩) <;> [linarith; exact heven.mp h' h]),
          if_pos (.inr ⟨heq, h⟩)]
        ring
      · rw [if_pos (.inr ⟨by linarith, heven.mpr h⟩),
          if_neg (by rintro (h' | ⟨-, h'⟩) <;> [linarith; exact h h'])]
        ring
    · rw [if_pos (.inl (by linarith)), if_neg (by rintro (h | ⟨h, -⟩) <;> linarith)]
      ring

theorem abs_roundEven_le {q : ℚ} {n : ℕ} (h : |q| < n) : |roundEven q| ≤ n := by
  obtain ⟨hl, hr⟩ := abs_lt.mp h
  have hlow : -(n : ℤ) ≤ ⌊q⌋ := Int.le_floor.mpr (by push_cast; exact hl.le)
  have hhigh : ⌊q⌋ < n := Int.floor_lt.mpr (by push_cast; exact hr)
  rw [roundEven, abs_le]
  split <;> omega

theorem nearest_neg (q : ℚ) : nearest (-q) = -nearest q := by
  rw [nearest, nearest, exponent, exponent, abs_neg, neg_div, roundEven_neg, Int.cast_neg, neg_mul]

theorem two_zpow_pos (e : ℤ) : (0 : ℚ) < 2 ^ e := zpow_pos (by norm_num) e

theorem abs_div_lt (q : ℚ) : |q / 2 ^ exponent q| < (2 ^ 53 : ℕ) := by
  rw [abs_div, abs_of_pos (two_zpow_pos _), div_lt_iff₀ (two_zpow_pos _)]
  push_cast
  calc |q| < 2 ^ (Int.log 2 |q| + 1) := Int.lt_zpow_succ_log_self (by decide) _
    _ ≤ 2 ^ (53 + exponent q) := by
      refine zpow_le_zpow_right₀ (by norm_num) ?_
      have : Int.log 2 |q| - 52 ≤ exponent q := le_max_left _ _
      omega
    _ = 2 ^ 53 * 2 ^ exponent q := by rw [zpow_add₀ (by norm_num)]; norm_num

theorem isDouble_nearest {q : ℚ} (h : |nearest q| < 2 ^ 1024) : IsDouble (nearest q) :=
  ⟨_, _, by exact_mod_cast abs_roundEven_le (abs_div_lt q), le_max_right _ _, rfl, h⟩

/-- Of a double, there are no bits before `exponent`. -/
theorem exists_bits {q : ℚ} (h : IsDouble q) : ∃ n : ℤ, q / 2 ^ exponent q = n := by
  obtain ⟨m, e, hm, he, hq, -⟩ := h
  have hdiv : q / 2 ^ exponent q = m * 2 ^ (e - exponent q) := by
    rw [hq, zpow_sub₀ (by norm_num), mul_div_assoc]
  rcases le_or_gt (exponent q) e with hle | hlt
  · refine ⟨m * 2 ^ (e - exponent q).toNat, ?_⟩
    rw [hdiv]
    push_cast
    rw [← zpow_natCast, Int.toNat_of_nonneg (by omega)]
  · -- more bits than there are, unless it is the power of two above them
    by_cases hzero : q = 0
    · exact ⟨0, by rw [hzero, zero_div, Int.cast_zero]⟩
    have hexp : exponent q = Int.log 2 |q| - 52 :=
      (max_choice _ _).resolve_right fun h => by rw [exponent, h] at hlt; omega
    have hlow : (2 : ℚ) ^ (exponent q + 52) ≤ |m| * 2 ^ e := by
      calc (2 : ℚ) ^ (exponent q + 52) = 2 ^ Int.log 2 |q| := by rw [hexp, Int.sub_add_cancel]
        _ ≤ |q| := Int.zpow_log_le_self (by decide) (abs_pos.mpr hzero)
        _ = |m| * 2 ^ e := by rw [hq, abs_mul, abs_of_pos (two_zpow_pos _), Int.cast_abs]
    have hbits : (2 : ℚ) ^ (exponent q + 52 - e) ≤ |m| := by
      rw [zpow_sub₀ (by norm_num), div_le_iff₀ (two_zpow_pos _)]
      exact_mod_cast hlow
    have hm' : ((|m| : ℤ) : ℚ) ≤ 2 ^ (53 : ℤ) := by exact_mod_cast hm
    have hle : exponent q + 52 - e ≤ 53 :=
      (zpow_le_zpow_iff_right₀ (by norm_num : (1 : ℚ) < 2)).mp (hbits.trans hm')
    obtain rfl : e = exponent q - 1 := by omega
    rw [show exponent q + 52 - (exponent q - 1) = 53 by ring] at hbits
    have habs : |m| = 2 ^ 53 := by exact_mod_cast le_antisymm hm' hbits
    refine ⟨m / 2, ?_⟩
    rw [hdiv, show exponent q - 1 - exponent q = -1 by ring, zpow_neg_one, ← div_eq_mul_inv]
    rcases abs_eq (by norm_num) |>.mp habs with rfl | rfl <;> norm_num

theorem nearest_self {q : ℚ} (h : IsDouble q) : nearest q = q := by
  obtain ⟨n, hn⟩ := exists_bits h
  rw [nearest, hn, roundEven_intCast, ← hn, div_mul_cancel₀ _ (two_zpow_pos _).ne']

theorem isDouble_natCast {n : ℕ} (h : n ≤ 2 ^ 53) : IsDouble n := by
  refine ⟨n, 0, by rwa [Nat.abs_cast, ← Nat.cast_ofNat, ← Nat.cast_pow, Nat.cast_le], by decide, by simp, ?_⟩
  rw [Nat.abs_cast]
  calc (n : ℚ) ≤ 2 ^ 53 := by exact_mod_cast h
    _ < 2 ^ 1024 := pow_lt_pow_right₀ (by norm_num) (by norm_num)

/-- A natural number that is one. -/
def nat (n : ℕ) (h : n ≤ 2 ^ 53) : Double := ⟨n, isDouble_natCast h⟩

/-! ## Decimals -/

/-- The `s` of the decimals `s * 10 ^ e` next to `|q|`, the closest first, that are rounded to it. -/
def decimals (q : ℚ) (e : ℤ) : List ℕ :=
  let s := roundEven (|q| / 10 ^ e)
  [s.toNat, (⌊|q| / 10 ^ e⌋ + ⌈|q| / 10 ^ e⌉ - s).toNat].filter fun s => nearest (s * 10 ^ e) = |q|

/-- The exponent of the last of the first `k + 1` digits of `|q|`. -/
def place (q : ℚ) (k : ℕ) : ℤ := Int.log 10 |q| - k

theorem isDouble_abs {q : ℚ} (h : IsDouble q) : IsDouble |q| := by
  obtain ⟨m, e, hm, he, rfl, hq⟩ := h
  refine ⟨|m|, e, by rwa [abs_abs], he, ?_, by rwa [abs_abs]⟩
  rw [abs_mul, abs_of_pos (two_zpow_pos _), Int.cast_abs]

/-- A double has a last digit. -/
theorem exists_digits {q : ℚ} (h : IsDouble q) : ∃ k n : ℕ, |q| * 10 ^ k = n := by
  obtain ⟨m, e, -, -, hq, -⟩ := isDouble_abs h
  have hm : (0 : ℚ) ≤ m := nonneg_of_mul_nonneg_left (hq ▸ abs_nonneg q) (two_zpow_pos e)
  refine ⟨(-e).toNat, m.toNat * 2 ^ (e + (-e).toNat).toNat * 5 ^ (-e).toNat, ?_⟩
  have hpow : (2 : ℚ) ^ (e + (-e).toNat).toNat = 2 ^ e * 2 ^ (-e).toNat := by
    rw [← zpow_natCast, Int.toNat_of_nonneg (by omega), zpow_add₀ (by norm_num), zpow_natCast]
  have hnat : ((m.toNat : ℕ) : ℚ) = m := by
    rw [← Int.cast_natCast, Int.toNat_of_nonneg (by exact_mod_cast hm)]
  push_cast
  rw [hpow, hnat, hq, show (10 : ℚ) = 2 * 5 by norm_num, mul_pow]
  ring

theorem mem_decimals {q : ℚ} {e : ℤ} {s : ℕ} (h : s ∈ decimals q e) : nearest (s * 10 ^ e) = |q| :=
  of_decide_eq_true (List.mem_filter.mp h).2

theorem decimals_of_eq {q : ℚ} {e : ℤ} {n : ℕ} (hq : IsDouble q) (h : |q| / 10 ^ e = n) :
    decimals q e ≠ [] := by
  have hpos : (0 : ℚ) < 10 ^ e := zpow_pos (by norm_num) e
  refine List.ne_nil_of_mem (a := n) (List.mem_filter.mpr ⟨?_, decide_eq_true ?_⟩)
  · rw [h, ← Int.cast_natCast, roundEven_intCast, Int.toNat_natCast]
    exact List.mem_cons_self
  · rw [← h, div_mul_cancel₀ _ hpos.ne', nearest_self (isDouble_abs hq)]

theorem exists_decimals {q : ℚ} (h : IsDouble q) : ∃ k, decimals q (place q k) ≠ [] := by
  obtain ⟨k, n, hn⟩ := exists_digits h
  have hle : place q (Int.log 10 |q| + k).toNat ≤ -k := by rw [place]; omega
  refine ⟨(Int.log 10 |q| + k).toNat,
    decimals_of_eq (n := n * 10 ^ (-place q (Int.log 10 |q| + k).toNat - k).toNat) h ?_⟩
  generalize place q (Int.log 10 |q| + k).toNat = e at hle
  push_cast
  rw [← hn, ← zpow_natCast, ← zpow_natCast, Int.toNat_of_nonneg (by omega), mul_assoc,
    ← zpow_add₀ (by norm_num), div_eq_mul_inv, ← zpow_neg, add_sub_cancel]

/-- The value of `s * 10 ^ e`. -/
def value (d : ℕ × ℤ) : ℚ := d.1 * 10 ^ d.2

/-- `s * 10 ^ e` with `k + 1` digits, one more of which `s` has if it is a power of ten. -/
def digits (k s : ℕ) (e : ℤ) : ℕ × ℤ := if s = 10 ^ (k + 1) then (10 ^ k, e + 1) else (s, e)

theorem value_digits (k s : ℕ) (e : ℤ) : value (digits k s e) = s * 10 ^ e := by
  rw [digits]
  split
  · rename_i hs
    rw [hs, value, zpow_add₀ (by norm_num)]
    push_cast
    ring
  · rfl

/-- The decimal of the fewest digits for `|x|`. -/
def shortest (x : Double) : ℕ × ℤ :=
  let k := Nat.find (exists_decimals x.2)
  digits k ((decimals x.1 (place x.1 k)).head (Nat.find_spec (exists_decimals x.2))) (place x.1 k)

theorem nearest_shortest (x : Double) : nearest (value (shortest x)) = |x.1| := by
  rw [shortest, value_digits]
  exact mem_decimals (List.head_mem _)

/-- The decimal of the fewest digits for `x`. -/
def decimal (x : Double) : ℚ := if x.1 < 0 then -value (shortest x) else value (shortest x)

theorem nearest_decimal (x : Double) : nearest (decimal x) = x.1 := by
  rw [decimal]
  split
  · rw [nearest_neg, nearest_shortest, abs_of_neg ‹_›, neg_neg]
  · rw [nearest_shortest, abs_of_nonneg (not_lt.mp ‹_›)]

end Double

end SuiPq
