import SuiPq.Impl.MoveBytes

/-!
# The byte helpers of the Move packages

What they compute on vectors whose lengths are u64s: a concatenation, a
window, equality, a patch and the big-endian bytes of a u64.
-/

namespace SuiPq.Impl.MoveBytes

open SuiPq.Move

theorem concat_eq {b : Bytes} (h : b.length < 2 ^ 64) (a : Bytes) : concat a b = pure (a ++ b) := by
  have := copyLoop (ε := Code) (s := a) (v := b) (o := 0) h (by simp)
    (fun k _ => congrArg (borrow b) (Nat.zero_add k).symm)
  rwa [window_full (Nat.le_refl _)] at this

theorem slice_eq {src : Bytes} {start len : Nat} (h : start + len ≤ src.length)
    (hf : start + len < 2 ^ 64) : slice src start len = pure (window src start len) :=
  copyLoop (by omega) h fun k hk => by rw [add_eq (by omega), pure_bind]

/-- `slice`, inlined. -/
theorem sliceLoop_eq {src : Bytes} {start len : Nat} (h : start + len ≤ src.length)
    (hf : start + len < 2 ^ 64) :
    (whileLt 64 0 len [] fun i out => do
      let x ← (do borrow src (← Move.add 64 start i))
      pure (out ++ [x]) : MoveFn Bytes) = pure (window src start len) :=
  slice_eq h hf

theorem bytesEq_eq {a : Bytes} (h : a.length < 2 ^ 64) (b : Bytes) :
    bytesEq a b = pure (decide (a = b)) := by
  unfold bytesEq
  by_cases hl : a.length = b.length
  · rw [if_neg (not_not.mpr hl)]
    refine Comp.eqLoop hl fun k hk => ?_
    simp only [borrow_eq hk, borrow_eq (show k < b.length by omega), pure_bind]
    by_cases hx : a[k] = b[k]
    · simp only [hx, ne_eq, not_true_eq_false, if_false, add_eq (show k + 1 < 2 ^ 64 by omega), pure_bind]
    · simp only [hx, ne_eq, not_false_eq_true, if_true]
  · rw [if_pos hl, decide_eq_false fun e => hl (congrArg _ e)]

theorem writeU32_eq {buf : Bytes} {off : Nat} (h : off + 4 ≤ buf.length) (hf : off + 4 < 2 ^ 64)
    (v : Nat) : writeU32 buf off v = pure (patch buf off (be 4 v)) := by
  have hset : ∀ (p : Bytes) (x : UInt8) (_ : p.length < 4),
      (write (patch buf off p) (off + p.length) x : MoveFn Bytes) = pure (patch buf off (p ++ [x])) := by
    intro p x hp
    rw [write_eq (by rw [length_patch (by omega)]; omega), set_patch_right (by omega)]
  have h0 := hset [] (UInt8.ofNat (v >>> 24)) (by simp)
  have h1 := hset [UInt8.ofNat (v >>> 24)] (UInt8.ofNat (v >>> 16)) (by simp)
  have h2 := hset [UInt8.ofNat (v >>> 24), UInt8.ofNat (v >>> 16)] (UInt8.ofNat (v >>> 8)) (by simp)
  have h3 := hset [UInt8.ofNat (v >>> 24), UInt8.ofNat (v >>> 16), UInt8.ofNat (v >>> 8)]
    (UInt8.ofNat v) (by simp)
  simp only [patch_nil, List.length_nil, List.length_cons, List.nil_append, List.cons_append,
    Nat.reduceAdd] at h0 h1 h2 h3
  unfold writeU32
  simp only [add_eq (show off + 0 < 2 ^ 64 by omega), add_eq (show off + 1 < 2 ^ 64 by omega),
    add_eq (show off + 2 < 2 ^ 64 by omega), add_eq (show off + 3 < 2 ^ 64 by omega),
    shr_eq (show 24 < 32 by decide), shr_eq (show 16 < 32 by decide), shr_eq (show 8 < 32 by decide),
    pure_bind, byte_and_ff, h0, h1, h2, h3]
  simp [be]

theorem u64Be_eq (v : Nat) : u64Be v = pure (be 8 v) := by
  refine (whileLt_pure (fun k => be k (v >>> (8 * (8 - k)))) (by rfl) (by decide) fun k hk => ?_).trans ?_
  · rw [sub_eq (by omega), pure_bind, mul_eq (by omega), pure_bind, Move.cast_eq (by omega), pure_bind,
      shr_eq (by omega), pure_bind, byte_and_ff, pure_bind, be_succ_right, ← Nat.shiftRight_add,
      show 8 * (8 - (k + 1)) + 8 = 8 * (8 - k) by omega, show (7 - k) * 8 = 8 * (8 - (k + 1)) by omega]
  · rw [Nat.sub_self, Nat.mul_zero, Nat.shiftRight_zero]

end SuiPq.Impl.MoveBytes
