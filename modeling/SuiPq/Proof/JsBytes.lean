import SuiPq.Impl.JsBytes

/-!
# The byte helpers of the TypeScript packages

What they compute: a concatenation, a patch and equality.
-/

namespace SuiPq.Impl.JsBytes

open SuiPq.Js

theorem foldl_length (parts : List Bytes) (n : Nat) :
    parts.foldl (fun a p => a + p.length) n = n + parts.flatten.length := by
  induction parts generalizing n with
  | nil => rfl
  | cons p parts ih => rw [List.foldl_cons, ih, List.flatten_cons, List.length_append, Nat.add_assoc]

/-- The loop of `concat`: what is written grows, and what is left is zero. -/
theorem concatLoop (done : Bytes) (parts : List Bytes) :
    (parts.foldlM (fun (out, off) p => do
      let out ← set out p off
      pure (out, off + p.length)) (done ++ zeros parts.flatten.length, done.length) :
        Js (Bytes × Nat)) = pure (done ++ parts.flatten, done.length + parts.flatten.length) := by
  induction parts generalizing done with
  | nil => rfl
  | cons p parts ih =>
    have hset : patch (done ++ zeros (p ++ parts.flatten).length) done.length p =
        done ++ p ++ zeros parts.flatten.length := by
      rw [List.length_append, zeros, ← List.replicate_append_replicate, ← List.append_assoc,
        patch_part (by simp)]
      rfl
    have hround : (do
        let out ← set (done ++ zeros (p ++ parts.flatten).length) p done.length
        pure (out, done.length + p.length) : Js (Bytes × Nat)) =
        pure (done ++ p ++ zeros parts.flatten.length, (done ++ p).length) := by
      rw [set_eq (by simp), pure_bind, hset, List.length_append]
    rw [List.foldlM_cons, List.flatten_cons]
    refine (congrArg (· >>= _) hround).trans ?_
    rw [pure_bind, ih]
    simp [Nat.add_assoc]

theorem concat_eq (parts : List Bytes) : concat parts = pure parts.flatten := by
  have := concatLoop [] parts
  rw [concat, foldl_length, Nat.zero_add]
  exact congrArg (· >>= fun x => pure x.1) this

theorem writeU32BE_eq {buf : Bytes} {off : Nat} (h : off + 4 ≤ buf.length) (v : Nat) :
    writeU32BE buf off v = patch buf off (be 4 v) := by
  have hput : ∀ (p : Bytes) (x : Nat), p.length < 4 →
      put (patch buf off p) (off + p.length) x = patch buf off (p ++ [UInt8.ofNat x]) := by
    intro p x hp
    rw [put, set_patch_right (by omega)]
  have h0 := hput [] (Js.and (ushr v 24) 0xff) (by simp)
  have h1 := hput [UInt8.ofNat (v >>> 24)] (Js.and (ushr v 16) 0xff) (by simp)
  have h2 := hput [UInt8.ofNat (v >>> 24), UInt8.ofNat (v >>> 16)] (Js.and (ushr v 8) 0xff) (by simp)
  have h3 := hput [UInt8.ofNat (v >>> 24), UInt8.ofNat (v >>> 16), UInt8.ofNat (v >>> 8)]
    (Js.and v 0xff) (by simp)
  simp only [patch_nil, List.length_nil, List.length_cons, List.nil_append, List.cons_append,
    Nat.reduceAdd, ofNat_and_ushr v (show 24 ≤ 24 by decide), ofNat_and_ushr v (show 16 ≤ 24 by decide),
    ofNat_and_ushr v (show 8 ≤ 24 by decide), ofNat_and] at h0 h1 h2 h3
  simp only [writeU32BE, h0, h1, h2, h3]
  simp [be]

/-- Writing over a word of a string of words. -/
theorem writeU32BE_word {x z : Bytes} {off : Nat} (hx : x.length = off) (w v : Nat) :
    writeU32BE (x ++ be 4 w ++ z) off v = x ++ be 4 v ++ z := by
  rw [writeU32BE_eq (by simp only [List.length_append, length_be]; omega), ← hx, patch_part (by simp)]

/-- A search for a place in which two strings of one length differ. -/
theorem mismatch_eq {ρ : Type} {a b : Bytes} (hl : a.length = b.length) (r : ρ) :
    (searchLt 0 a.length fun i => do
      if (← get a i) ≠ (← get b i) then return some r
      return none : Js (Option ρ)) = pure (if a = b then none else some r) := by
  apply Comp.searchEq hl
  intro k hk
  have hk' : k < b.length := by rwa [← hl]
  simp only [get_eq hk, get_eq hk', pure_bind]
  split <;> rfl

theorem sameBytes_eq (a b : Bytes) : sameBytes a b = pure (decide (a = b)) := by
  unfold sameBytes
  by_cases hl : a.length = b.length
  · rw [if_neg (not_not.mpr hl), mismatch_eq hl, pure_bind]
    by_cases he : a = b <;> simp [he]
  · rw [if_pos hl, decide_eq_false fun e => hl (congrArg _ e)]

end SuiPq.Impl.JsBytes
