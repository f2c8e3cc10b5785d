import SuiPq.Framework.Bytes

/-!
# The Move language

Move's unsigned integers are natural numbers here, and each operation on them
carries its width: arithmetic whose exact result does not fit, a lossy cast
and a shift by the whole width or more abort, as an index past the end of a
vector does. A function of a Move module is a computation (`Move`) that
aborts with a code of the module (`code`) or for one of these reasons.

A loop whose number of rounds is not a counter's gets gas for the rounds it
may make (`whileGas`), and aborts without it.
-/

namespace SuiPq

/-- Why a Move function stops, with `ε` the codes of `assert!` and `abort`. -/
inductive Abort (ε : Type) where
  | code (e : ε)
  | vector
  | arithmetic
  | gas
deriving DecidableEq, Repr

abbrev Move (ε : Type) := Comp (Abort ε)

namespace Move

variable {ε α β σ : Type}

def require (p : Prop) [Decidable p] (e : ε) : Move ε Unit :=
  if p then pure () else Comp.stop (.code e)

def guardArith (p : Prop) [Decidable p] (a : α) : Move ε α :=
  if p then pure a else Comp.stop .arithmetic

def add (w a b : Nat) : Move ε Nat := guardArith (a + b < 2 ^ w) (a + b)
def sub (a b : Nat) : Move ε Nat := guardArith (b ≤ a) (a - b)
def mul (w a b : Nat) : Move ε Nat := guardArith (a * b < 2 ^ w) (a * b)

/-- `a << s`: the bits past the width are lost. -/
def shl (w a s : Nat) : Move ε Nat := guardArith (s < w) (a <<< s % 2 ^ w)
def shr (w a s : Nat) : Move ε Nat := guardArith (s < w) (a >>> s)

/-- `a as u<w>`. -/
def cast (w a : Nat) : Move ε Nat := guardArith (a < 2 ^ w) a

/-- `a as u8`, as an element of a byte vector. -/
def byte (a : Nat) : Move ε UInt8 := guardArith (a < 2 ^ 8) (UInt8.ofNat a)

/-- A byte string literal `b"…"`. -/
def ascii (s : String) : Bytes := s.toList.map fun c => UInt8.ofNat c.toNat

/-- `*v.borrow(i)`. -/
def borrow (v : List α) (i : Nat) : Move ε α :=
  if h : i < v.length then pure v[i] else Comp.stop .vector

/-- `*v.borrow_mut(i) = x`. -/
def write (v : List α) (i : Nat) (x : α) : Move ε (List α) :=
  if i < v.length then pure (v.set i x) else Comp.stop .vector

/-- `v.pop_back()`, its result dropped. -/
def popBack (v : List α) : Move ε (List α) :=
  if v = [] then Comp.stop .vector else pure v.dropLast

/-- `while (i < n) { s = body; i = i + 1 }`, with `i` of width `w`. -/
def whileLt (w i n : Nat) (s : σ) (body : Nat → σ → Move ε σ) : Move ε σ :=
  forLt i n s fun i s => do
    let s ← body i s
    let _ ← add w i 1
    pure s

/-- `while (i > 0) { i = i - 1; s = body }`. -/
def whileGt0 (i : Nat) (s : σ) (body : Nat → σ → Move ε σ) : Move ε σ :=
  forLt 0 i s fun k s => do
    let i ← sub (i - k) 1
    body i s

/-- `while (c) { s = body }`, for `gas` rounds at most. -/
def whileGas (c : σ → Bool) (body : σ → Move ε σ) (gas : Nat) (s : σ) : Move ε σ :=
  Comp.whileFuel .gas c body gas s

/-! ## Operations that do not abort -/

theorem require_pos {p : Prop} [Decidable p] {e : ε} (h : p) : require p e = pure () := if_pos h

theorem require_ok {p : Prop} [Decidable p] {e : ε} {u : Unit} (h : (require p e).res = .ok u) : p := by
  by_contra hp
  rw [require, if_neg hp] at h
  cases h

theorem require_bind_ok {p : Prop} [Decidable p] {e : ε} {m : Move ε α} {a : α}
    (h : (require p e >>= fun _ => m).res = .ok a) : p ∧ m.res = .ok a := by
  obtain ⟨_, hp, h⟩ := Comp.bind_ok h
  exact ⟨require_ok hp, h⟩

theorem require_bind_error {p : Prop} [Decidable p] {c : ε} {m : Move ε α} {e : Abort ε}
    (h : (require p c >>= fun _ => m).res = .error e) : e = .code c ∨ p ∧ m.res = .error e := by
  by_cases hp : p
  · rw [require_pos hp, pure_bind] at h
    exact .inr ⟨hp, h⟩
  · rw [require, if_neg hp, Comp.stop_bind] at h
    cases h
    exact .inl rfl

theorem guardArith_pos {p : Prop} [Decidable p] {a : α} (h : p) :
    (guardArith p a : Move ε α) = pure a := if_pos h

theorem add_eq {w a b : Nat} (h : a + b < 2 ^ w) : (add w a b : Move ε Nat) = pure (a + b) := if_pos h
theorem sub_eq {a b : Nat} (h : b ≤ a) : (sub a b : Move ε Nat) = pure (a - b) := if_pos h
theorem mul_eq {w a b : Nat} (h : a * b < 2 ^ w) : (mul w a b : Move ε Nat) = pure (a * b) := if_pos h

theorem shl_eq {w a s : Nat} (h : s < w) (hf : a <<< s < 2 ^ w) :
    (shl w a s : Move ε Nat) = pure (a <<< s) := by
  rw [shl, guardArith_pos h, Nat.mod_eq_of_lt hf]

theorem shr_eq {w a s : Nat} (h : s < w) : (shr w a s : Move ε Nat) = pure (a >>> s) := if_pos h
theorem cast_eq {w a : Nat} (h : a < 2 ^ w) : (cast w a : Move ε Nat) = pure a := if_pos h

theorem byte_eq {a : Nat} (h : a < 2 ^ 8) : (byte a : Move ε UInt8) = pure (UInt8.ofNat a) := if_pos h

/-- The low byte of an integer. -/
@[simp] theorem byte_and_ff (a : Nat) : (byte (a &&& 0xff) : Move ε UInt8) = pure (UInt8.ofNat a) := by
  rw [byte_eq (and_ff_lt a), ofNat_and_ff]

theorem borrow_eq {v : List α} {i : Nat} (h : i < v.length) : (borrow v i : Move ε α) = pure v[i] :=
  dif_pos h

theorem write_eq {v : List α} {i : Nat} {x : α} (h : i < v.length) :
    (write v i x : Move ε (List α)) = pure (v.set i x) := if_pos h

theorem popBack_append (v : List α) (x : α) : (popBack (v ++ [x]) : Move ε (List α)) = pure v := by
  rw [popBack, if_neg (by simp), List.dropLast_concat]

/-! ## Operations that return -/

theorem guardArith_ok {p : Prop} [Decidable p] {a b : α} :
    (guardArith p a : Move ε α).res = .ok b ↔ p ∧ a = b := by
  unfold guardArith
  split <;> simp_all

theorem add_ok {w a b c : Nat} : (add w a b : Move ε Nat).res = .ok c ↔ a + b < 2 ^ w ∧ a + b = c :=
  guardArith_ok

theorem sub_ok {a b c : Nat} : (sub a b : Move ε Nat).res = .ok c ↔ b ≤ a ∧ a - b = c := guardArith_ok

theorem mul_ok {w a b c : Nat} : (mul w a b : Move ε Nat).res = .ok c ↔ a * b < 2 ^ w ∧ a * b = c :=
  guardArith_ok

theorem shl_ok {w a s c : Nat} : (shl w a s : Move ε Nat).res = .ok c ↔ s < w ∧ a <<< s % 2 ^ w = c :=
  guardArith_ok

theorem shr_ok {w a s c : Nat} : (shr w a s : Move ε Nat).res = .ok c ↔ s < w ∧ a >>> s = c := guardArith_ok

theorem cast_ok {w a c : Nat} : (cast w a : Move ε Nat).res = .ok c ↔ a < 2 ^ w ∧ a = c := guardArith_ok

theorem byte_ok {a : Nat} {x : UInt8} : (byte a : Move ε UInt8).res = .ok x ↔ a < 2 ^ 8 ∧ UInt8.ofNat a = x :=
  guardArith_ok

theorem borrow_iff {v : List α} {i : Nat} {x : α} : (borrow v i : Move ε α).res = .ok x ↔ v[i]? = some x := by
  unfold borrow
  split
  · simp_all
  · simp_all

theorem write_ok {v v' : List α} {i : Nat} {x : α} :
    (write v i x : Move ε (List α)).res = .ok v' ↔ i < v.length ∧ v.set i x = v' := by
  unfold write
  split <;> simp_all

/-! ## Loops -/

/-- A counting loop of `n` rounds whose states satisfy `R`, whose round `k`
hashes `l k`, and what follows it. -/
theorem whileLt_bind {w i n : Nat} {s : σ} {b : Nat → σ → Move ε σ} {g : σ → Move ε β} {c : Move ε β}
    (R : Nat → σ → Prop) (l : Nat → List Bytes) (h0 : R 0 s) (hn : i + n < 2 ^ w)
    (h : ∀ k s, k < n → R k s → ∃ s', R (k + 1) s' ∧ b (i + k) s = Comp.ret s' (l k))
    (hg : ∀ s, R n s → Comp.after ((List.range n).flatMap l) (g s) = c) :
    whileLt w i (i + n) s b >>= g = c := by
  obtain ⟨s', hs', hl⟩ := Comp.forLt_inv (a := i) (n := i + n) (s := s)
    (b := fun i s => do
      let s ← b i s
      let _ ← add w i 1
      pure s)
    (fun j => R (j - i)) (fun j => l (j - i)) (Nat.le_add_right _ _) (by rwa [Nat.sub_self])
    fun j s hj hjn hR => by
      obtain ⟨k, rfl⟩ := Nat.exists_eq_add_of_le hj
      rw [Nat.add_sub_cancel_left] at hR ⊢
      obtain ⟨s', hs', hb⟩ := h k s (by omega) hR
      exact ⟨s', by rwa [show i + k + 1 - i = k + 1 by omega],
        by rw [hb, Comp.ret_bind, add_eq (by omega), pure_bind, Comp.after_pure]⟩
  rw [Nat.add_sub_cancel_left] at hs' hl
  rw [whileLt, hl, Comp.ret_bind, ← hg s' hs', List.range'_eq_map_range, List.flatMap_map]
  simp only [Nat.add_sub_cancel_left]

theorem whileLt_zero_bind {w n : Nat} {s : σ} {b : Nat → σ → Move ε σ} {g : σ → Move ε β}
    {c : Move ε β} (R : Nat → σ → Prop) (l : Nat → List Bytes) (h0 : R 0 s) (hn : n < 2 ^ w)
    (h : ∀ k s, k < n → R k s → ∃ s', R (k + 1) s' ∧ b k s = Comp.ret s' (l k))
    (hg : ∀ s, R n s → Comp.after ((List.range n).flatMap l) (g s) = c) :
    whileLt w 0 n s b >>= g = c := by
  rw [← Nat.zero_add n]
  exact whileLt_bind R l h0 (by rwa [Nat.zero_add])
    (fun k s hk hR => by rw [Nat.zero_add]; exact h k s hk hR) hg

theorem whileLt_zero_inv {w n : Nat} {s : σ} {b : Nat → σ → Move ε σ} (R : Nat → σ → Prop)
    (l : Nat → List Bytes) (h0 : R 0 s) (hn : n < 2 ^ w)
    (h : ∀ k s, k < n → R k s → ∃ s', R (k + 1) s' ∧ b k s = Comp.ret s' (l k)) :
    ∃ s', R n s' ∧ whileLt w 0 n s b = Comp.ret s' ((List.range n).flatMap l) := by
  obtain ⟨s', hs', hl⟩ := Comp.forLt_inv (a := 0) (n := n) (s := s)
    (b := fun i s => do
      let s ← b i s
      let _ ← add w i 1
      pure s) R l (Nat.zero_le _) h0 fun k s _ hkn hR => by
    obtain ⟨s', hs', hb⟩ := h k s hkn hR
    exact ⟨s', hs', by rw [hb, Comp.ret_bind, add_eq (by omega), pure_bind, Comp.after_pure]⟩
  exact ⟨s', hs', by rw [whileLt, hl, List.range_eq_range', Nat.sub_zero]⟩

theorem whileLt_bind_pure {w n : Nat} {s : σ} {b : Nat → σ → Move ε σ} {g : σ → Move ε β}
    {c : Move ε β} (R : Nat → σ → Prop) (h0 : R 0 s) (hn : n < 2 ^ w)
    (h : ∀ k s, k < n → R k s → ∃ s', R (k + 1) s' ∧ b k s = pure s') (hg : ∀ s, R n s → g s = c) :
    whileLt w 0 n s b >>= g = c :=
  whileLt_zero_bind R (fun _ => []) h0 hn h fun s hs => by
    rw [List.flatMap_eq_nil_iff.mpr fun _ _ => rfl, Comp.after_nil, hg s hs]

/-- A counting loop whose states have the closed form `f`, and whose round `k` hashes `l k`. -/
theorem whileLt_ret {w n : Nat} {s : σ} {b : Nat → σ → Move ε σ} (f : Nat → σ)
    (l : Nat → List Bytes) (hs : s = f 0) (hn : n < 2 ^ w)
    (h : ∀ k < n, b k (f k) = Comp.ret (f (k + 1)) (l k)) :
    whileLt w 0 n s b = Comp.ret (f n) ((List.range n).flatMap l) := by
  refine Comp.forLt_zero_ret f l hs fun k hk => ?_
  rw [h k hk, Comp.ret_bind, add_eq (by omega), pure_bind, Comp.after_pure]

theorem whileLt_pure {w n : Nat} {s : σ} {b : Nat → σ → Move ε σ} (f : Nat → σ) (hs : s = f 0)
    (hn : n < 2 ^ w) (h : ∀ k < n, b k (f k) = pure (f (k + 1))) :
    whileLt w 0 n s b = pure (f n) := by
  rw [whileLt_ret f (fun _ => []) hs hn h, List.flatMap_eq_nil_iff.mpr fun _ _ => rfl]
  rfl

theorem whileGt0_pure {n : Nat} {s : σ} {b : Nat → σ → Move ε σ} (f : Nat → σ) (hs : s = f 0)
    (h : ∀ k < n, b (n - 1 - k) (f k) = pure (f (k + 1))) : whileGt0 n s b = pure (f n) := by
  refine forLt_zero_pure f hs fun k hk => ?_
  rw [sub_eq (by omega), pure_bind, Nat.sub_right_comm, h k hk]

/-- Pushing one element over and over. -/
theorem fillLoop {w n : Nat} {s : List α} {x : α} (hn : n < 2 ^ w) :
    (whileLt w 0 n s fun _ out => pure (out ++ [x]) : Move ε (List α)) =
      pure (s ++ List.replicate n x) := by
  refine whileLt_pure (fun k => s ++ List.replicate k x) (by simp) hn fun k _ => ?_
  rw [List.append_assoc, ← List.replicate_succ']

/-- Copying the elements of `v` from `o` behind `s`. -/
theorem copyLoop {w o n : Nat} {s v : List α} {b : Nat → Move ε α} (hn : n < 2 ^ w)
    (hv : o + n ≤ v.length) (h : ∀ k < n, b k = borrow v (o + k)) :
    (whileLt w 0 n s fun i out => do
      let x ← b i
      pure (out ++ [x])) = pure (s ++ window v o n) := by
  refine whileLt_pure (fun k => s ++ window v o k) (by simp [window_zero]) hn fun k hk => ?_
  rw [h k hk, borrow_eq (by omega), pure_bind, window_succ (by omega), List.append_assoc]

/-- Dropping the last elements of a vector by `pop_back`. -/
theorem popLoop {w n : Nat} {v : List α} (hn : n < 2 ^ w) (hv : n ≤ v.length) :
    (whileLt w 0 n v fun _ v => popBack v : Move ε (List α)) = pure (v.take (v.length - n)) := by
  refine whileLt_pure (fun k => v.take (v.length - k)) (by simp) hn fun k hk => ?_
  show popBack (v.take (v.length - k)) = _
  rw [show v.length - k = v.length - (k + 1) + 1 by omega,
    List.take_succ_eq_append_getElem (by omega), popBack_append]

theorem borrow_ok {v : List α} {i : Nat} {x : α} (h : (borrow v i : Move ε α).res = .ok x) :
    i < v.length := by
  by_contra hi
  rw [borrow, dif_neg hi] at h
  cases h

/-- Every round of a counting loop that returns does, from a state that satisfies `R`. -/
theorem whileLt_ok {w n : Nat} {s s' : σ} {b : Nat → σ → Move ε σ} (R : Nat → σ → Prop) (h0 : R 0 s)
    (hR : ∀ k s s', k < n → R k s → (b k s).res = .ok s' → R (k + 1) s')
    (h : (whileLt w 0 n s b).res = .ok s') {k : Nat} (hk : k < n) :
    ∃ s s', R k s ∧ (b k s).res = .ok s' := by
  have hround : ∀ i s s', (do
      let s ← b i s
      let _ ← add w i 1
      pure s : Move ε σ).res = .ok s' → (b i s).res = .ok s' := fun i s s' h => by
    obtain ⟨s₁, hb, h⟩ := Comp.bind_ok h
    obtain ⟨_, -, h⟩ := Comp.bind_ok h
    cases h
    exact hb
  obtain ⟨s, s', hs, hb⟩ := Comp.forLt_ok R h0 (fun i s s' _ hi hs hb => hR i s s' hi hs (hround _ _ _ hb))
    h (Nat.zero_le k) hk
  exact ⟨s, s', hs, hround _ _ _ hb⟩

/-- Writing a big-endian integer from its last byte. -/
theorem beLoop {n o v : Nat} {buf : Bytes} {b : Nat → Nat × Bytes → Move ε (Nat × Bytes)}
    (hb : o + n ≤ buf.length) (h : ∀ i < n, ∀ v buf, b i (v, buf) = do
      let buf ← write buf (o + i) (UInt8.ofNat v)
      pure (v >>> 8, buf)) :
    whileGt0 n (v, buf) b = pure (v >>> (8 * n), patch buf o (be n v)) := by
  have hlen : ∀ k ≤ n, (patch buf (o + (n - k)) (be k v)).length = buf.length := fun k hk =>
    length_patch (by rw [length_be]; omega)
  rw [whileGt0_pure (fun k => (v >>> (8 * k), patch buf (o + (n - k)) (be k v)))
    (by simp [be, patch_nil]) fun k hk => ?_]
  · simp
  · rw [h _ (by omega), write_eq (by rw [hlen k (by omega)]; omega), pure_bind,
      show o + (n - k) = o + (n - 1 - k) + 1 by omega, set_patch_left (by omega),
      show o + (n - 1 - k) = o + (n - (k + 1)) by omega, ← Nat.shiftRight_add,
      Nat.mul_succ, be]

/-- Reading a big-endian integer of width `u` from the bytes of `v` from `o`. -/
theorem ofBeLoop {w u n o : Nat} {v : Bytes} {b : Nat → Nat → Move ε Nat} (hn : n < 2 ^ w)
    (hv : o + n ≤ v.length) (hw : 0 < n → 8 < u) (hf : 8 * n ≤ u) (h : ∀ k < n, ∀ x, b k x = do
      let t ← shl u x 8
      let y ← borrow v (o + k)
      pure (t ||| y.toNat)) :
    whileLt w 0 n 0 b = pure (ofBe (window v o n)) := by
  refine whileLt_pure (fun k => ofBe (window v o k)) (by simp [window_zero, ofBe]) hn fun k hk => ?_
  have hlt : ofBe (window v o k) < 2 ^ (8 * k) := by
    have := ofBe_window_lt (show o + k ≤ v.length by omega)
    rwa [show 256 = 2 ^ 8 by rfl, ← pow_mul] at this
  have hfit : ofBe (window v o k) <<< 8 < 2 ^ u := by
    rw [Nat.shiftLeft_eq]
    calc ofBe (window v o k) * 2 ^ 8
        < 2 ^ (8 * k) * 2 ^ 8 := Nat.mul_lt_mul_of_pos_right hlt (by decide)
      _ = 2 ^ (8 * k + 8) := (pow_add ..).symm
      _ ≤ 2 ^ u := Nat.pow_le_pow_right (by decide) (by omega)
  rw [h k hk, shl_eq (hw (by omega)) hfit, pure_bind, borrow_eq (by omega), pure_bind,
    ofBe_window_round (by omega)]

end Move

end SuiPq
