import SuiPq.Framework.Bytes

/-!
# The JavaScript language

The numbers of the TypeScript packages are never negative, and are natural
numbers here; bigints are natural numbers too. `+`, `-`, `*` and `>>>` are
exact in the ranges they are used in; the bitwise operators work on 32 bits
(`ushr`, `and`), and where their result would be negative (`shl`, `sar`, `or`,
`xor`) the model stops. It also stops at an element past the end of an array
that the code takes to be there (`get`), where a typed array does not have
room for another (`set`), and where a bigint is not a number's (`number`).
-/

namespace SuiPq

/-- Why a model of a function stops: an error it throws, or a value the model does not have. -/
inductive JsError where
  | range
  | error (message : String)
  | undefined
  | negative
  | inexact
  | fuel
deriving DecidableEq, Repr

abbrev Js := Comp JsError

namespace Js

variable {α : Type}

/-! ## Numbers -/

/-- A number as an int32 that is not negative. -/
def int32 (x : Nat) : Js Nat := if x < 2 ^ 31 then pure x else Comp.stop .negative

/-- `a >>> s`. -/
def ushr (a s : Nat) : Nat := (a % 2 ^ 32) >>> (s % 32)

/-- `a & b`, one of which is below 2^31. -/
def and (a b : Nat) : Nat := a % 2 ^ 32 &&& b % 2 ^ 32

/-- `a << s`. -/
def shl (a s : Nat) : Js Nat := int32 (a <<< (s % 32) % 2 ^ 32)

/-- `a >> s`. -/
def sar (a s : Nat) : Js Nat := do return (← int32 (a % 2 ^ 32)) >>> (s % 32)

/-- `a | b`. -/
def or (a b : Nat) : Js Nat := int32 (a % 2 ^ 32 ||| b % 2 ^ 32)

/-- `(a >> s) & b`, for `b` not negative. -/
def sarAnd (a s b : Nat) : Nat := ((BitVec.ofNat 32 a).sshiftRight (s % 32) &&& BitVec.ofNat 32 b).toNat

/-- `a ^ b`. -/
def xor (a b : Nat) : Js Nat := int32 ((a % 2 ^ 32) ^^^ (b % 2 ^ 32))

/-- `Number(a)` of a bigint. -/
def number (a : Nat) : Js Nat := if a < 2 ^ 53 then pure a else Comp.stop .inexact

/-- `Math.ceil(a / b)`. -/
def ceilDiv (a b : Nat) : Nat := (a + (b - 1)) / b

/-! ## Arrays -/

/-- `x ?? y`. -/
def orElse (x : Option α) (y : Js α) : Js α := x.elim y pure

/-- `xs[i]!`. -/
def get (xs : List α) (i : Nat) : Js α :=
  if h : i < xs.length then pure xs[i] else Comp.stop .undefined

/-- `xs.push(y, ...)`, which throws where the array would have 2^32 elements. -/
def push (xs ys : List α) : Js (List α) :=
  if xs.length + ys.length < 2 ^ 32 then pure (xs ++ ys) else Comp.stop .range

/-- `new Uint8Array(n)`. -/
def zeros (n : Nat) : Bytes := List.replicate n 0

/-- `new Uint8Array(xs)`. -/
def uint8Array (xs : List Nat) : Bytes := xs.map UInt8.ofNat

/-- `xs.slice(b, e)`. -/
def slice (xs : List α) (b e : Nat) : List α := (xs.take e).drop b

/-- `buf[i] = v`, which does nothing past the end. -/
def put (buf : Bytes) (i v : Nat) : Bytes := buf.set i (UInt8.ofNat v)

/-- `buf.set(src, off)`. -/
def set (buf src : Bytes) (off : Nat) : Js Bytes :=
  if off + src.length ≤ buf.length then pure (patch buf off src) else Comp.stop .range

/-! ## Operations that do not stop -/

section Lemmas

theorem int32_eq {x : Nat} (h : x < 2 ^ 31) : int32 x = pure x := if_pos h

theorem ushr_eq {a s : Nat} (ha : a < 2 ^ 32) (hs : s < 32) : ushr a s = a >>> s := by
  rw [ushr, Nat.mod_eq_of_lt ha, Nat.mod_eq_of_lt hs]

theorem and_eq {a b : Nat} (ha : a < 2 ^ 32) (hb : b < 2 ^ 32) : and a b = a &&& b := by
  rw [and, Nat.mod_eq_of_lt ha, Nat.mod_eq_of_lt hb]

theorem shl_eq {a s : Nat} (hs : s < 32) (h : a <<< s < 2 ^ 31) : shl a s = pure (a <<< s) := by
  rw [shl, Nat.mod_eq_of_lt hs, Nat.mod_eq_of_lt (Nat.lt_trans h (by decide)), int32_eq h]

theorem sar_eq {a s : Nat} (ha : a < 2 ^ 31) (hs : s < 32) : sar a s = pure (a >>> s) := by
  rw [sar, Nat.mod_eq_of_lt (Nat.lt_trans ha (by decide)), int32_eq ha, pure_bind, Nat.mod_eq_of_lt hs]

theorem or_eq {a b : Nat} (ha : a < 2 ^ 31) (hb : b < 2 ^ 31) : or a b = pure (a ||| b) := by
  rw [or, Nat.mod_eq_of_lt (Nat.lt_trans ha (by decide)), Nat.mod_eq_of_lt (Nat.lt_trans hb (by decide)),
    int32_eq (Nat.or_lt_two_pow ha hb)]

theorem xor_eq {a b : Nat} (ha : a < 2 ^ 31) (hb : b < 2 ^ 31) : xor a b = pure (a ^^^ b) := by
  rw [xor, Nat.mod_eq_of_lt (Nat.lt_trans ha (by decide)), Nat.mod_eq_of_lt (Nat.lt_trans hb (by decide)),
    int32_eq (Nat.xor_lt_two_pow ha hb)]

theorem number_eq {a : Nat} (h : a < 2 ^ 53) : number a = pure a := if_pos h

theorem get_eq {xs : List α} {i : Nat} (h : i < xs.length) : get xs i = pure xs[i] := dif_pos h

theorem set_eq {buf src : Bytes} {off : Nat} (h : off + src.length ≤ buf.length) :
    set buf src off = pure (patch buf off src) := if_pos h

@[simp] theorem length_zeros (n : Nat) : (zeros n).length = n := List.length_replicate

@[simp] theorem length_put (buf : Bytes) (i v : Nat) : (put buf i v).length = buf.length := List.length_set

theorem slice_eq (xs : List α) (b n : Nat) : slice xs b (b + n) = window xs b n := by
  rw [slice, window, List.drop_take, Nat.add_sub_cancel_left]

/-- The low byte of a number, shifted. -/
theorem ofNat_and_ushr (v : Nat) {s : Nat} (hs : s ≤ 24) :
    UInt8.ofNat (and (ushr v s) 0xff) = UInt8.ofNat (v >>> s) := by
  apply UInt8.toNat_inj.mp
  have hlt : (v % 2 ^ 32) >>> s < 2 ^ 32 := by
    rw [Nat.shiftRight_eq_div_pow]
    exact Nat.lt_of_le_of_lt (Nat.div_le_self _ _) (Nat.mod_lt _ (by decide))
  have hsplit : 2 ^ 32 = 2 ^ s * (2 ^ 8 * 2 ^ (24 - s)) := by
    rw [← Nat.pow_add, ← Nat.pow_add]
    congr 1
    omega
  rw [ushr, Nat.mod_eq_of_lt (show s < 32 by omega), and_eq hlt (by decide), ofNat_and_ff,
    UInt8.toNat_ofNat', UInt8.toNat_ofNat', Nat.shiftRight_eq_div_pow, Nat.shiftRight_eq_div_pow, hsplit,
    Nat.mod_mul_right_div_self, Nat.mod_mul_right_mod]

theorem ofNat_and (v : Nat) : UInt8.ofNat (and v 0xff) = UInt8.ofNat v := by
  apply UInt8.toNat_inj.mp
  rw [and, show 0xff % 2 ^ 32 = 0xff by rfl, ofNat_and_ff, UInt8.toNat_ofNat', UInt8.toNat_ofNat']
  omega

theorem ofNat_sarAnd (a : Nat) {s : Nat} (hs : s ≤ 24) : UInt8.ofNat (sarAnd a s 0xff) =
    UInt8.ofNat (a >>> s) := by
  apply UInt8.toNat_inj.mp
  rw [UInt8.toNat_ofNat', UInt8.toNat_ofNat', sarAnd, Nat.mod_eq_of_lt (show s < 32 by omega)]
  apply Nat.eq_of_testBit_eq
  intro i
  rw [Nat.testBit_mod_two_pow, Nat.testBit_mod_two_pow, Nat.testBit_shiftRight, BitVec.testBit_toNat]
  by_cases hi : i < 8
  · have hff : (BitVec.ofNat 32 0xff).getLsbD i = true := by
      rw [BitVec.getLsbD_ofNat, show 0xff = 2 ^ 8 - 1 by rfl, Nat.testBit_two_pow_sub_one, decide_eq_true hi,
        decide_eq_true (show i < 32 by omega), Bool.and_self]
    have hshift : ((BitVec.ofNat 32 a).sshiftRight s).getLsbD i = a.testBit (s + i) := by
      rw [BitVec.getLsbD_sshiftRight, if_pos (show s + i < 32 by omega), BitVec.getLsbD_ofNat,
        decide_eq_true (show s + i < 32 by omega), Bool.true_and, decide_eq_false (show ¬ 32 ≤ i by omega)]
      rfl
    rw [BitVec.getLsbD_and, hff, hshift, Bool.and_true]
  · rw [decide_eq_false hi, Bool.false_and, Bool.false_and]

/-- Two pushes are one. -/
theorem push_push {β : Type} (out xs ys : List α) (k : List α → Js β) :
    (push out xs >>= fun out => push out ys >>= k) = push out (xs ++ ys) >>= k := by
  unfold push
  rw [List.length_append, ← Nat.add_assoc]
  by_cases hx : out.length + xs.length < 2 ^ 32
  · rw [if_pos hx, pure_bind, List.length_append, List.append_assoc]
  · rw [if_neg hx, if_neg (by omega)]
    rfl

/-- Pushing elements one by one, in a loop. -/
theorem push_loop {β γ : Type} (f : γ → α) (out xs : List α) (ys : List γ) (k : List α → Js β) :
    (push out xs >>= fun out => ys.foldlM (fun out y => push out [f y]) out >>= k) =
      push out (xs ++ ys.map f) >>= k := by
  induction ys generalizing xs with
  | nil => simp only [List.foldlM_nil, pure_bind, List.map_nil, List.append_nil]
  | cons y ys ih =>
    simp only [List.foldlM_cons, bind_assoc]
    rw [push_push, ih, List.append_assoc, List.singleton_append, List.map_cons]

/-- Pushing elements one by one is pushing them at once. -/
theorem foldlM_push {out : List α} (h : out.length < 2 ^ 32) (ys : List α) :
    ys.foldlM (fun out y => push out [y]) out = push out ys := by
  have hnil : push out [] = pure out := by
    rw [push, List.length_nil, Nat.add_zero, if_pos h, List.append_nil]
  have hloop := push_loop id out [] ys pure
  rw [hnil, pure_bind] at hloop
  simpa only [id_eq, bind_pure, List.nil_append, List.map_id] using hloop

/-- Filling the cell `k` of `n` cells of width `w`, the first of which are filled. -/
theorem set_cell {n w k : Nat} {done p : Bytes} (hd : done.length = k * w) (hk : k < n)
    (hp : p.length ≤ w) : set (done ++ zeros ((n - k) * w)) p (k * w) =
      pure (done ++ (p ++ zeros (w - p.length)) ++ zeros ((n - (k + 1)) * w)) := by
  have hz : zeros ((n - k) * w) = zeros p.length ++ (zeros (w - p.length) ++ zeros ((n - (k + 1)) * w)) := by
    simp only [zeros, List.replicate_append_replicate]
    congr 1
    rw [show n - k = n - (k + 1) + 1 by omega, Nat.succ_mul]
    omega
  rw [hz, ← hd, ← List.append_assoc, set_eq (by simp only [List.length_append, length_zeros]; omega),
    patch_part (by simp)]
  simp only [List.append_assoc]

/-- Writing a big-endian integer from its last byte. -/
theorem beLoop {n o v : Nat} {buf : Bytes} {b : Nat → Nat × Bytes → Js (Nat × Bytes)}
    (hb : o + n ≤ buf.length) (h : ∀ i < n, ∀ u ≤ v, ∀ buf,
      b i (u, buf) = pure (u >>> 8, buf.set (o + i) (UInt8.ofNat u))) :
    forDown n (v, buf) b = pure (v >>> (8 * n), patch buf o (be n v)) := by
  rw [forDown_pure (fun k => (v >>> (8 * k), patch buf (o + (n - k)) (be k v)))
    (by simp [be, patch_nil]) fun k hk => ?_]
  · simp
  · rw [h _ (by omega) _ (Nat.shiftRight_le _ _), show o + (n - k) = o + (n - 1 - k) + 1 by omega,
      set_patch_left (by omega), show o + (n - 1 - k) = o + (n - (k + 1)) by omega,
      ← Nat.shiftRight_add, Nat.mul_succ, be]

end Lemmas

end Js

end SuiPq
