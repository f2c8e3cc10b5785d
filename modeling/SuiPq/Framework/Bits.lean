import SuiPq.Framework.HashSig.ByteDigits

/-!
# Bits

The low bits of an integer, most significant first (`bits`, read back by
`ofBits`). Those of the digits of an integer are its own, one digit after the
other (`bits_digits`); those of a byte string are the ones of the integer that
it spells (`bitsOf_eq`).
-/

namespace SuiPq

open SuiPq.HashSig

/-- The low `w` bits of `n`, most significant first. -/
def bits : Nat → Nat → List Bool
  | 0, _ => []
  | w + 1, n => n.testBit w :: bits w n

/-- The integer a bit string spells, most significant bit first. -/
def ofBits (l : List Bool) : Nat := l.foldl (fun n b => 2 * n + b.toNat) 0

/-- The bits of the bytes, in order. -/
def bitsOf (b : Bytes) : List Bool := b.flatMap fun x => bits 8 x.toNat

/-! ## Bits of integers -/

@[simp] theorem length_bits (w n : Nat) : (bits w n).length = w := by
  induction w with
  | zero => rfl
  | succ w ih => rw [bits, List.length_cons, ih]

theorem bits_add (a b n : Nat) : bits (a + b) n = bits a (n >>> b) ++ bits b n := by
  induction a with
  | zero => rw [Nat.zero_add, bits, List.nil_append]
  | succ a ih =>
    rw [Nat.succ_add, bits, bits, ih, List.cons_append, Nat.testBit_shiftRight, Nat.add_comm b]

/-- Bits above the low ones do not count. -/
theorem bits_mod {w k : Nat} (hw : w ≤ k) (n : Nat) : bits w (n % 2 ^ k) = bits w n := by
  induction w with
  | zero => rfl
  | succ w ih =>
    rw [bits, bits, ih (by omega), Nat.testBit_mod_two_pow, decide_eq_true (show w < k by omega),
      Bool.true_and]

theorem foldl_ofBits (l : List Bool) (n : Nat) :
    l.foldl (fun n b => 2 * n + b.toNat) n = 2 ^ l.length * n + ofBits l := by
  induction l generalizing n with
  | nil => simp [ofBits]
  | cons b l ih =>
    rw [ofBits, List.foldl_cons, List.foldl_cons, ih, ih, List.length_cons, pow_succ]
    ring

theorem ofBits_cons (b : Bool) (l : List Bool) : ofBits (b :: l) = 2 ^ l.length * b.toNat + ofBits l := by
  rw [ofBits, List.foldl_cons, foldl_ofBits, Nat.mul_zero, Nat.zero_add]

theorem ofBits_bits (w n : Nat) : ofBits (bits w n) = n % 2 ^ w := by
  induction w with
  | zero => rw [pow_zero, Nat.mod_one]; rfl
  | succ w ih => rw [bits, ofBits_cons, ih, length_bits, Nat.mod_pow_succ, Nat.add_comm, Nat.toNat_testBit]

/-- Numbers that fit in `w` bits are told apart by them. -/
theorem bits_inj {w a b : Nat} (ha : a < 2 ^ w) (hb : b < 2 ^ w) : bits w a = bits w b ↔ a = b := by
  refine ⟨fun h => ?_, congrArg _⟩
  have := congrArg ofBits h
  rwa [ofBits_bits, ofBits_bits, Nat.mod_eq_of_lt ha, Nat.mod_eq_of_lt hb] at this

theorem window_bits (a b n : Nat) : window (bits (a + b) n) a b = bits b n := by
  have h := window_append_right (bits a (n >>> b)) (bits b n) 0 b
  rwa [length_bits, Nat.add_zero, window_full (length_bits b n).le, ← bits_add] at h

/-- The bits of the digits are those of the integer. -/
theorem bits_digits (w k n : Nat) :
    ((List.range k).map (digit (2 ^ w) k n)).flatMap (bits w) = bits (k * w) n := by
  induction k generalizing n with
  | zero => rw [Nat.zero_mul]; rfl
  | succ k ih =>
    have hlast : digit (2 ^ w) (k + 1) n k = n % 2 ^ w := by
      rw [digit, Nat.add_sub_cancel, Nat.sub_self, pow_zero, Nat.div_one]
    have hfirst : ∀ i ∈ List.range k, digit (2 ^ w) (k + 1) n i = digit (2 ^ w) k (n >>> w) i := by
      intro i hi
      have hlt := List.mem_range.mp hi
      rw [digit, digit, Nat.shiftRight_eq_div_pow, Nat.div_div_eq_div_mul, ← pow_succ',
        show k - 1 - i + 1 = k + 1 - 1 - i by omega]
    rw [List.range_succ, List.map_append, List.flatMap_append, List.map_congr_left hfirst, ih,
      List.map_singleton, List.flatMap_singleton, hlast, bits_mod le_rfl, Nat.succ_mul, bits_add]

/-! ## Bits of byte strings -/

theorem bitsOf_append (a b : Bytes) : bitsOf (a ++ b) = bitsOf a ++ bitsOf b := List.flatMap_append

theorem bitsOf_eq (b : Bytes) : bitsOf b = bits (8 * b.length) (ofBe b) := by
  induction b with
  | nil => rfl
  | cons x b ih =>
    have hlt := ofBe_lt b
    have hpow : 256 ^ b.length = 2 ^ (8 * b.length) := by rw [pow_mul]; rfl
    have hshift : (256 ^ b.length * x.toNat + ofBe b) >>> (8 * b.length) = x.toNat := by
      rw [Nat.shiftRight_eq_div_pow, ← hpow, Nat.mul_add_div (Nat.pow_pos (by decide)), Nat.div_eq_of_lt hlt,
        Nat.add_zero]
    have hmod : (256 ^ b.length * x.toNat + ofBe b) % 2 ^ (8 * b.length) = ofBe b := by
      rw [← hpow, Nat.mul_add_mod, Nat.mod_eq_of_lt hlt]
    have hlow := bits_mod (le_refl (8 * b.length)) (256 ^ b.length * x.toNat + ofBe b)
    rw [List.length_cons, ofBe_cons, Nat.mul_succ, Nat.add_comm, bits_add, hshift, ← hlow, hmod, ← ih]
    rfl

theorem length_bitsOf (b : Bytes) : (bitsOf b).length = 8 * b.length := by
  rw [bitsOf_eq, length_bits]

/-- The bits of a slice. -/
theorem bitsOf_window {b : Bytes} {s n : Nat} (h : s + n ≤ b.length) :
    bitsOf (window b s n) = window (bitsOf b) (8 * s) (8 * n) := by
  have hb : b = window b 0 s ++ window b s n ++ window b (s + n) (b.length - (s + n)) := by
    conv_lhs => rw [← window_full (Nat.le_refl b.length),
      show b.length = s + n + (b.length - (s + n)) by omega, window_add, window_add,
        Nat.zero_add, Nat.zero_add]
  conv_rhs => rw [hb, bitsOf_append, bitsOf_append]
  exact (window_part (by rw [length_bitsOf, length_window (by omega)])
    (by rw [length_bitsOf, length_window h])).symm

/-- Byte strings of one length are told apart by their bits. -/
theorem bitsOf_inj {a b : Bytes} (hl : a.length = b.length) : bitsOf a = bitsOf b ↔ a = b := by
  refine ⟨fun h => ofBe_inj hl ?_, congrArg _⟩
  have hlt : ∀ c : Bytes, ofBe c < 2 ^ (8 * c.length) := fun c => by
    rw [pow_mul]
    exact ofBe_lt c
  rw [bitsOf_eq, bitsOf_eq, ← hl] at h
  exact (bits_inj (hlt a) (hl ▸ hlt b)).mp h

end SuiPq
