import SuiPq.Framework.Bytes
import SuiPq.Framework.HashSig.Winternitz

/-!
# Base-16 digits of byte strings

The base-16 digits of the integer a byte string spells are the halves of its
bytes (`digit_ofBe_even`, `digit_ofBe_odd`), and tell the string
(`exists_digit_ne`). Its bits are the bytes' (`bit_ofBe`).
-/

namespace SuiPq.HashSig

theorem and_15 (n : Nat) : n &&& 15 = n % 16 := Nat.and_two_pow_sub_one_eq_mod n 4

/-- The base-16 digits of a byte string are the halves of its bytes. -/
theorem digit_ofBe_even {b : Bytes} {k : Nat} (h : k < b.length) :
    digit 16 (2 * b.length) (ofBe b) (2 * k) = b[k].toNat >>> 4 &&& 15 := by
  rw [and_15, ← ofBe_div_mod h, digit, show 2 * b.length - 1 - 2 * k = 2 * (b.length - 1 - k) + 1 by omega,
    pow_succ, pow_mul, ← Nat.div_div_eq_div_mul, Nat.shiftRight_eq_div_pow]
  generalize ofBe b / _ = n
  omega

theorem digit_ofBe_odd {b : Bytes} {k : Nat} (h : k < b.length) :
    digit 16 (2 * b.length) (ofBe b) (2 * k + 1) = b[k].toNat &&& 15 := by
  rw [and_15, ← ofBe_div_mod h, digit, show 2 * b.length - 1 - (2 * k + 1) = 2 * (b.length - 1 - k) by omega,
    pow_mul]
  generalize ofBe b / _ = n
  omega

/-- The high half of a byte needs no mask. -/
theorem shr_and_15 (x : UInt8) : x.toNat >>> 4 &&& 15 = x.toNat >>> 4 := by
  have := x.toNat_lt
  rw [and_15, Nat.mod_eq_of_lt]
  rw [Nat.shiftRight_eq_div_pow]
  omega

/-- A checksum's three digits are those of its two shifted bytes. -/
theorem digit_shifted {c j : Nat} (hj : j < 3) : digit 16 4 (c <<< 4) j = digit 16 3 c j := by
  rw [digit, digit, Nat.shiftLeft_eq, show 4 - 1 - j = 3 - 1 - j + 1 by omega, pow_succ _ (3 - 1 - j),
    show 2 ^ 4 = 16 by rfl, Nat.mul_div_mul_right _ _ (by decide)]

/-- Numbers with the same digits are the same. -/
theorem digit_inj {w k c c' : Nat} (hw : 0 < w) (hc : c < w ^ k) (hc' : c' < w ^ k)
    (h : ∀ j < k, digit w k c j = digit w k c' j) : c = c' :=
  Nat.le_antisymm (le_of_digit_le hw hc hc' fun j hj => Nat.le_of_eq (h j hj))
    (le_of_digit_le hw hc' hc fun j hj => Nat.le_of_eq (h j hj).symm)

theorem ofBe_inj {b b' : Bytes} (hl : b.length = b'.length) (h : ofBe b = ofBe b') : b = b' := by
  rw [← be_ofBe b, ← be_ofBe b', h, hl]

/-- Different byte strings of one length differ in a digit. -/
theorem exists_digit_ne {n : Nat} {b b' : Bytes} (hb : b.length = n) (hb' : b'.length = n) (h : b ≠ b') :
    ∃ i < 2 * n, digit 16 (2 * n) (ofBe b) i ≠ digit 16 (2 * n) (ofBe b') i := by
  by_contra hno
  have hlt : ∀ c : Bytes, c.length = n → ofBe c < 16 ^ (2 * n) := fun c hc => by
    rw [pow_mul, ← hc]
    exact ofBe_lt c
  exact h (ofBe_inj (hb.trans hb'.symm) (digit_inj (by decide) (hlt b hb) (hlt b' hb') fun i hi =>
    by_contra fun hne => hno ⟨i, hi, hne⟩))

/-! ## Bits -/

/-- The bits of a byte string are those of the integer it spells. -/
theorem bit_ofBe {b : Bytes} {i : Nat} (h : i / 8 < b.length) :
    b[i / 8].toNat >>> (7 - i % 8) &&& 1 = ofBe b / 2 ^ (8 * b.length - 1 - i) % 2 := by
  have hbyte : ∀ n s, s ≤ 7 → n % 256 / 2 ^ s % 2 = n / 2 ^ s % 2 := fun n s hs => by
    have he : 256 = 2 ^ s * (2 * 2 ^ (7 - s)) := by
      rw [← pow_succ', ← pow_add, show s + (7 - s + 1) = 8 by omega]; rfl
    rw [he, Nat.mod_mul_right_div_self, Nat.mod_mul_right_mod]
  rw [Nat.and_one_is_mod, ← ofBe_div_mod h, Nat.shiftRight_eq_div_pow, hbyte _ _ (by omega),
    show 256 = 2 ^ 8 by rfl, ← pow_mul, Nat.div_div_eq_div_mul, ← pow_add]
  congr 3
  omega

theorem mod_two_pow_succ (x b : Nat) : x % 2 ^ (b + 1) = 2 * (x / 2 % 2 ^ b) + x % 2 := by
  rw [pow_succ', Nat.mod_mul, Nat.add_comm]

end SuiPq.HashSig
