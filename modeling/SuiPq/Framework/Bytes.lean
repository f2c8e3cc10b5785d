import SuiPq.Framework.Comp
import Mathlib.Tactic.Ring

/-!
# Byte strings

Big-endian integers (`be`, read back by `ofBe`), slices (`window`) and writes
into the middle of a string (`patch`).
-/

namespace SuiPq

/-! ## Big-endian integers -/

/-- The low `w` bytes of `n`, most significant first. -/
def be : Nat → Nat → Bytes
  | 0, _ => []
  | w + 1, n => UInt8.ofNat (n >>> (8 * w)) :: be w n

/-- The integer a byte string spells, most significant byte first. -/
def ofBe (b : Bytes) : Nat := b.foldl (fun n x => 256 * n + x.toNat) 0

@[simp] theorem length_be (w n : Nat) : (be w n).length = w := by
  induction w with
  | zero => rfl
  | succ w ih => rw [be, List.length_cons, ih]

theorem foldl_ofBe (b : Bytes) (n : Nat) :
    b.foldl (fun n x => 256 * n + x.toNat) n = 256 ^ b.length * n + ofBe b := by
  induction b generalizing n with
  | nil => simp [ofBe]
  | cons x b ih =>
    rw [ofBe, List.foldl_cons, List.foldl_cons, ih, ih, List.length_cons, pow_succ]
    ring

theorem ofBe_cons (x : UInt8) (b : Bytes) : ofBe (x :: b) = 256 ^ b.length * x.toNat + ofBe b := by
  rw [ofBe, List.foldl_cons, foldl_ofBe, Nat.mul_zero, Nat.zero_add]

theorem ofBe_be (w n : Nat) : ofBe (be w n) = n % 256 ^ w := by
  induction w with
  | zero => simp [be, ofBe, Nat.mod_one]
  | succ w ih =>
    rw [be, ofBe_cons, ih, length_be, UInt8.toNat_ofNat', Nat.shiftRight_eq_div_pow, Nat.pow_mul,
      Nat.mod_pow_succ (b := 256), Nat.add_comm]

theorem ofBe_lt (b : Bytes) : ofBe b < 256 ^ b.length := by
  induction b with
  | nil => simp [ofBe]
  | cons x b ih =>
    rw [ofBe_cons, List.length_cons, pow_succ]
    have hx : x.toNat ≤ 255 := by have := x.toNat_lt; omega
    have := Nat.mul_le_mul_left (256 ^ b.length) hx
    omega

theorem be_succ_right (w n : Nat) : be (w + 1) n = be w (n >>> 8) ++ [UInt8.ofNat n] := by
  induction w with
  | zero => rfl
  | succ w ih =>
    rw [be, ih, be, List.cons_append, ← Nat.shiftRight_add, Nat.mul_succ, Nat.add_comm]

theorem be_add (a b n : Nat) : be (a + b) n = be a (n >>> (8 * b)) ++ be b n := by
  induction a with
  | zero => rw [Nat.zero_add, be, List.nil_append]
  | succ a ih =>
    rw [show a + 1 + b = a + b + 1 by omega, be, be, ih, List.cons_append, ← Nat.shiftRight_add,
      Nat.mul_add, Nat.add_comm]

/-- Numbers that fit in `w` bytes are told apart by them. -/
theorem be_inj {w a b : Nat} (ha : a < 256 ^ w) (hb : b < 256 ^ w) (h : be w a = be w b) : a = b := by
  have := congrArg ofBe h
  rwa [ofBe_be, ofBe_be, Nat.mod_eq_of_lt ha, Nat.mod_eq_of_lt hb] at this

theorem be_add_mul (w k a b : Nat) (hk : w ≤ k) : be w (256 ^ k * a + b) = be w b := by
  induction w with
  | zero => rfl
  | succ w ih =>
    rw [be, be, ih (by omega)]
    congr 1
    apply UInt8.toNat_inj.mp
    rw [UInt8.toNat_ofNat', UInt8.toNat_ofNat', Nat.shiftRight_eq_div_pow, Nat.shiftRight_eq_div_pow,
      Nat.pow_mul]
    obtain ⟨d, rfl⟩ : ∃ d, k = w + 1 + d := ⟨k - (w + 1), by omega⟩
    rw [show 256 ^ (w + 1 + d) * a + b = (2 ^ 8) ^ w * (2 ^ 8 * (256 ^ d * a)) + b by ring,
      Nat.mul_add_div (Nat.pow_pos (by decide)), Nat.mul_add_mod]

/-- Bits above the field do not count. -/
theorem be_mod (w n : Nat) : be w (n % 256 ^ w) = be w n := by
  rw [← be_add_mul w w (n / 256 ^ w) _ (Nat.le_refl _), Nat.div_add_mod]

theorem be_ofBe (b : Bytes) : be b.length (ofBe b) = b := by
  induction b with
  | nil => rfl
  | cons x b ih =>
    rw [List.length_cons, be, ofBe_cons, be_add_mul _ _ _ _ (Nat.le_refl _), ih,
      Nat.shiftRight_eq_div_pow, Nat.pow_mul, Nat.mul_add_div (Nat.pow_pos (by decide)),
      Nat.div_eq_of_lt (ofBe_lt b), Nat.add_zero, UInt8.ofNat_toNat]

theorem ofBe_append (a b : Bytes) : ofBe (a ++ b) = 256 ^ b.length * ofBe a + ofBe b := by
  rw [ofBe, List.foldl_append, foldl_ofBe]
  rfl

/-- The bytes of the integer a byte string spells are the string's. -/
theorem ofBe_div_mod {b : Bytes} {i : Nat} (h : i < b.length) :
    ofBe b / 256 ^ (b.length - 1 - i) % 256 = b[i].toNat := by
  have hb : ofBe b = ofBe (b.take i ++ b[i] :: b.drop (i + 1)) := by
    rw [List.getElem_cons_drop, List.take_append_drop]
  have hl : b.length - 1 - i = (b.drop (i + 1)).length := by rw [List.length_drop]; omega
  have hd := ofBe_lt (b.drop (i + 1))
  rw [hb, hl, ofBe_append, ofBe_cons, List.length_cons, pow_succ, Nat.mul_assoc, ← Nat.add_assoc,
    ← Nat.mul_add, Nat.mul_add_div (Nat.pow_pos (by decide)), Nat.div_eq_of_lt hd, Nat.add_zero,
    Nat.mul_add_mod, Nat.mod_eq_of_lt b[i].toNat_lt]

theorem ofNat_and_ff (n : Nat) : UInt8.ofNat (n &&& 0xff) = UInt8.ofNat n := by
  apply UInt8.toNat_inj.mp
  rw [UInt8.toNat_ofNat', UInt8.toNat_ofNat', show (0xff : Nat) = 2 ^ 8 - 1 by rfl,
    Nat.and_two_pow_sub_one_eq_mod]
  omega

/-- The low bits of a number. -/
theorem and_mask (n k : Nat) : n &&& (1 <<< k - 1) = n % 2 ^ k := by
  rw [Nat.one_shiftLeft, Nat.and_two_pow_sub_one_eq_mod]

theorem and_ff_lt (n : Nat) : n &&& 0xff < 256 := by
  rw [show (0xff : Nat) = 2 ^ 8 - 1 by rfl, Nat.and_two_pow_sub_one_eq_mod]
  exact Nat.mod_lt _ (by decide)

/-! ## Strings of one width -/

theorem length_flatten_of {α : Type} {w : Nat} : ∀ {xs : List (List α)}, (∀ x ∈ xs, x.length = w) →
    xs.flatten.length = xs.length * w
  | [], _ => by simp
  | x :: xs, h => by
    rw [List.flatten_cons, List.length_append, h x List.mem_cons_self,
      length_flatten_of fun y hy => h y (List.mem_cons_of_mem _ hy), List.length_cons, Nat.succ_mul,
      Nat.add_comm]

/-- As many strings of one width are told apart by their concatenation. -/
theorem flatten_inj {α : Type} {w : Nat} : ∀ {xs ys : List (List α)}, xs.length = ys.length →
    (∀ x ∈ xs, x.length = w) → (∀ y ∈ ys, y.length = w) → xs.flatten = ys.flatten → xs = ys
  | [], [], _, _, _, _ => rfl
  | [], _ :: _, hl, _, _, _ => by cases hl
  | _ :: _, [], hl, _, _, _ => by cases hl
  | x :: xs, y :: ys, hl, hx, hy, h => by
    rw [List.flatten_cons, List.flatten_cons] at h
    obtain ⟨h1, h2⟩ := List.append_inj h (by rw [hx x List.mem_cons_self, hy y List.mem_cons_self])
    rw [h1, flatten_inj (Nat.succ.inj hl) (fun z hz => hx z (List.mem_cons_of_mem _ hz))
      (fun z hz => hy z (List.mem_cons_of_mem _ hz)) h2]

/-! ## Slices and patches -/

section Slices

variable {α : Type}

/-- The `n` elements of `l` from `s`; fewer if `l` ends before. -/
def window (l : List α) (s n : Nat) : List α := (l.drop s).take n

/-- `l` with the elements from `off` replaced by `p`. -/
def patch (l : List α) (off : Nat) (p : List α) : List α := l.take off ++ p ++ l.drop (off + p.length)

theorem length_window_le (l : List α) (s n : Nat) : (window l s n).length ≤ n := by
  simp [window]

theorem length_window {l : List α} {s n : Nat} (h : s + n ≤ l.length) : (window l s n).length = n := by
  simp only [window, List.length_take, List.length_drop]; omega

theorem window_zero (l : List α) (s : Nat) : window l s 0 = [] := List.take_zero

theorem window_succ {l : List α} {s n : Nat} (h : s + n < l.length) :
    window l s (n + 1) = window l s n ++ [l[s + n]] := by
  have hn : n < (l.drop s).length := by rw [List.length_drop]; omega
  rw [window, List.take_succ_eq_append_getElem hn, List.getElem_drop]
  rfl

theorem window_add (l : List α) (s a b : Nat) : window l s (a + b) = window l s a ++ window l (s + a) b := by
  rw [window, window, window, List.take_add, List.drop_drop]

theorem ofBe_window_succ {b : Bytes} {s n : Nat} (h : s + n < b.length) :
    ofBe (window b s (n + 1)) = 256 * ofBe (window b s n) + b[s + n].toNat := by
  rw [window_succ h, ofBe_append, ofBe_cons]
  simp [ofBe]

/-- The round of a loop that reads an integer. -/
theorem ofBe_window_round {b : Bytes} {s n : Nat} (h : s + n < b.length) :
    ofBe (window b s n) <<< 8 ||| b[s + n].toNat = ofBe (window b s (n + 1)) := by
  rw [← Nat.shiftLeft_add_eq_or_of_lt b[s + n].toNat_lt, ofBe_window_succ h, Nat.shiftLeft_eq, Nat.mul_comm]

theorem ofBe_window_lt {b : Bytes} {s n : Nat} (h : s + n ≤ b.length) : ofBe (window b s n) < 256 ^ n := by
  have hlt := ofBe_lt (window b s n)
  rwa [length_window h] at hlt

theorem window_full {l : List α} {n : Nat} (h : l.length ≤ n) : window l 0 n = l := by
  rw [window, List.drop_zero, List.take_of_length_le h]

theorem window_window (l : List α) {s n s' n' : Nat} (h : s' + n' ≤ n) :
    window (window l s n) s' n' = window l (s + s') n' := by
  simp only [window, List.drop_take, List.drop_drop, List.take_take]
  rw [show min n' (n - s') = n' by omega]

theorem window_append_left (a b : List α) {s n : Nat} (h : s + n ≤ a.length) :
    window (a ++ b) s n = window a s n := by
  rw [window, List.drop_append_of_le_length (by omega),
    List.take_append_of_le_length (by rw [List.length_drop]; omega)]
  rfl

theorem window_append_right (a b : List α) (s n : Nat) : window (a ++ b) (a.length + s) n = window b s n := by
  rw [window, ← List.drop_drop, List.drop_left]
  rfl

/-- Reading one part of a string. -/
theorem window_part {x y z : List α} {s n : Nat} (hx : x.length = s) (hy : y.length = n) :
    window (x ++ y ++ z) s n = y := by
  rw [List.append_assoc, ← hx, ← Nat.add_zero x.length, window_append_right,
    window_append_left _ _ (by omega), window_full (Nat.le_of_eq hy)]

theorem getElem_window {l : List α} {s n i : Nat} (h : i < (window l s n).length) :
    (window l s n)[i] = l.get ⟨s + i,
      by simp only [window, List.length_take, List.length_drop] at h; omega⟩ := by
  simp only [window, List.getElem_take, List.getElem_drop, List.get_eq_getElem]

/-- A string is its slices of width `w`. -/
theorem flatMap_windows (l : List α) (w k : Nat) :
    ((List.range k).flatMap fun i => window l (i * w) w) = window l 0 (k * w) := by
  induction k with
  | zero => rw [Nat.zero_mul, window_zero]; rfl
  | succ k ih =>
    rw [List.range_succ, List.flatMap_append, ih, List.flatMap_singleton, Nat.succ_mul, window_add,
      Nat.zero_add]

theorem length_flatMap_range {f : Nat → List α} {w n : Nat} (h : ∀ i < n, (f i).length = w) :
    ((List.range n).flatMap f).length = n * w := by
  rw [List.flatMap, length_flatten_of (w := w), List.length_map, List.length_range]
  intro x hx
  obtain ⟨i, hi, rfl⟩ := List.mem_map.mp hx
  exact h i (List.mem_range.mp hi)

/-- The cells of a string of cells. -/
theorem window_flatMap {f : Nat → List α} {w : Nat} : ∀ {n i : Nat}, (∀ i < n, (f i).length = w) → i < n →
    window ((List.range n).flatMap f) (i * w) w = f i
  | n + 1, i, h, hi => by
    have hlen := length_flatMap_range fun i hi => h i (Nat.lt_succ_of_lt hi)
    rw [List.range_succ, List.flatMap_append, List.flatMap_singleton]
    rcases Nat.lt_succ_iff_lt_or_eq.mp hi with hlt | rfl
    · have hle : (i + 1) * w ≤ n * w := Nat.mul_le_mul_right w hlt
      rw [Nat.succ_mul] at hle
      rw [window_append_left _ _ (by omega), window_flatMap (fun i hi => h i (Nat.lt_succ_of_lt hi)) hlt]
    · rw [← hlen, ← Nat.add_zero (List.length _), window_append_right,
        window_full (Nat.le_of_eq (h i (Nat.lt_succ_self i)))]

/-- Strings of length `k * w` are told apart by their slices of width `w`. -/
theorem eq_of_windows {l l' : List α} {w k : Nat} (hl : l.length = k * w) (hl' : l'.length = k * w)
    (h : ∀ i < k, window l (i * w) w = window l' (i * w) w) : l = l' := by
  rw [← window_full (Nat.le_of_eq hl), ← window_full (Nat.le_of_eq hl'), ← flatMap_windows,
    ← flatMap_windows]
  simp only [List.flatMap]
  exact congrArg _ (List.map_congr_left fun i hi => h i (List.mem_range.mp hi))

theorem exists_window_ne {l l' : List α} {w k : Nat} (hl : l.length = k * w) (hl' : l'.length = k * w)
    (h : l ≠ l') : ∃ i < k, window l (i * w) w ≠ window l' (i * w) w := by
  by_contra hno
  exact h (eq_of_windows hl hl' fun i hi => by_contra fun hne => hno ⟨i, hi, hne⟩)

@[simp] theorem length_patch {l : List α} {off : Nat} {p : List α} (h : off + p.length ≤ l.length) :
    (patch l off p).length = l.length := by
  simp only [patch, List.length_append, List.length_take, List.length_drop]; omega

theorem patch_append_left (a b : List α) {off : Nat} {p : List α} (h : off + p.length ≤ a.length) :
    patch (a ++ b) off p = patch a off p ++ b := by
  rw [patch, patch, List.take_append_of_le_length (by omega),
    List.drop_append_of_le_length h, List.append_assoc, List.append_assoc, List.append_assoc]

theorem patch_append_right (a b : List α) (off : Nat) (p : List α) :
    patch (a ++ b) (a.length + off) p = a ++ patch b off p := by
  simp only [patch, List.take_length_add_append, Nat.add_assoc, List.append_assoc]
  rw [← List.drop_drop, List.drop_left]

theorem patch_nil (l : List α) (off : Nat) : patch l off [] = l := by
  rw [patch, List.append_nil, List.length_nil, Nat.add_zero, List.take_append_drop]

/-- Writing the element behind a patch. -/
theorem set_patch_right {l : List α} {off : Nat} {p : List α} (h : off + p.length < l.length) (x : α) :
    (patch l off p).set (off + p.length) x = patch l off (p ++ [x]) := by
  have ht : (l.take off).length = off := by rw [List.length_take]; omega
  have hd : l.drop (off + p.length) = l[off + p.length] :: l.drop (off + p.length + 1) := by simp
  rw [patch, patch, hd, List.set_append_right _ _ (by simp only [List.length_append, ht]; omega)]
  simp only [List.length_append, ht, Nat.sub_self, List.set_cons_zero, List.append_assoc,
    List.singleton_append, List.length_singleton, Nat.add_assoc]

/-- Writing the element before a patch. -/
theorem set_patch_left {l : List α} {off : Nat} {p : List α} (h : off < l.length) (x : α) :
    (patch l (off + 1) p).set off x = patch l off (x :: p) := by
  have ht : (l.take off).length = off := by rw [List.length_take]; omega
  rw [patch, patch, List.take_succ_eq_append_getElem h, List.append_assoc, List.append_assoc,
    List.set_append_right _ _ (by omega), ht, Nat.sub_self, List.length_cons,
    show off + 1 + p.length = off + (p.length + 1) by omega]
  simp

theorem patch_self {l p : List α} (h : p.length = l.length) : patch l 0 p = p := by
  rw [patch, List.take_zero, List.nil_append, Nat.zero_add, h, List.drop_length, List.append_nil]

/-- Writing one part of a string. -/
theorem patch_part {x y z p : List α} (h : p.length = y.length) :
    patch (x ++ y ++ z) x.length p = x ++ p ++ z := by
  rw [List.append_assoc, ← Nat.add_zero x.length, patch_append_right,
    patch_append_left _ _ (by omega), patch_self h, List.append_assoc]

theorem patch_patch {l p q : List α} {off : Nat} (hpq : p.length = q.length)
    (h : off + p.length ≤ l.length) : patch (patch l off p) off q = patch l off q := by
  have ht : (l.take off).length = off := by rw [List.length_take]; omega
  have hl : (patch l off p).take off = l.take off := by
    rw [patch, List.append_assoc, List.take_left' ht]
  have hr : (patch l off p).drop (off + p.length) = l.drop (off + p.length) := by
    rw [patch, List.drop_left' (by rw [List.length_append, ht])]
  rw [patch, hl, ← hpq, hr, patch, hpq]

end Slices

end SuiPq
