import Mathlib.Data.List.Basic
import Mathlib.Tactic.Common

/-!
# Computations with a hash

A computation (`Comp`) returns a value or stops with an error, and asks a
hash for the values of byte strings on the way; its `log` is what it asked
for, in order. The code's functions are computations, so that what they
return, where they stop and which inputs they hash are read off one
definition.

A function's specification is an equation with `ret` on its right: the value
it returns and the inputs it hashes. `ret_bind`, `after_ret` and `ret_nil`
run such equations through a `do` block, and `forLt_ret` through a loop, from
a closed form of the loop's states.
-/

namespace SuiPq

abbrev Bytes := List UInt8

/-- A hash with 32-byte output. -/
structure Hash where
  fn : Bytes → Bytes
  length_fn (x : Bytes) : (fn x).length = 32

instance : CoeFun Hash fun _ => Bytes → Bytes := ⟨Hash.fn⟩

@[simp] theorem Hash.length_apply (H : Hash) (x : Bytes) : (H x).length = 32 := H.length_fn x

/-- The hash that is zero everywhere. -/
def Hash.zero : Hash := ⟨fun _ => List.replicate 32 0, fun _ => List.length_replicate⟩

/-- What a computation hashed, and what it returns or stops with. -/
@[ext] structure Comp (ε α : Type) where
  log : List Bytes
  res : Except ε α

namespace Comp

variable {ε α β σ : Type}

/-- Returning `a` after hashing `l`. -/
def ret (a : α) (l : List Bytes) : Comp ε α := ⟨l, .ok a⟩

/-- Stopping with an error. -/
def stop (e : ε) : Comp ε α := ⟨[], .error e⟩

/-- `c`, after hashing `l`. -/
def after (l : List Bytes) (c : Comp ε α) : Comp ε α := ⟨l ++ c.log, c.res⟩

def bind (c : Comp ε α) (f : α → Comp ε β) : Comp ε β :=
  match c.res with
  | .ok a => after c.log (f a)
  | .error e => ⟨c.log, .error e⟩

instance : Monad (Comp ε) where
  pure a := ret a []
  bind := bind

/-- The value of the hash `H` at `x`. -/
def hash (H : Bytes → Bytes) (x : Bytes) : Comp ε Bytes := ret (H x) [x]

theorem pure_eq (a : α) : (pure a : Comp ε α) = ret a [] := rfl

@[simp] theorem ret_nil (a : α) : (ret a [] : Comp ε α) = pure a := rfl

@[simp] theorem after_nil (c : Comp ε α) : after [] c = c := rfl

@[simp] theorem after_after (l l' : List Bytes) (c : Comp ε α) :
    after l (after l' c) = after (l ++ l') c := by
  simp [after]

@[simp] theorem after_ret (l l' : List Bytes) (a : α) :
    (after l (ret a l') : Comp ε α) = ret a (l ++ l') := rfl

@[simp] theorem after_pure (l : List Bytes) (a : α) : (after l (pure a) : Comp ε α) = ret a l := by
  rw [pure_eq, after_ret, List.append_nil]

@[simp] theorem ret_bind (a : α) (l : List Bytes) (f : α → Comp ε β) :
    ret a l >>= f = after l (f a) := rfl

@[simp] theorem after_bind (l : List Bytes) (c : Comp ε α) (f : α → Comp ε β) :
    after l c >>= f = after l (c >>= f) := by
  show bind (after l c) f = after l (bind c f)
  unfold bind after
  cases c.res <;> simp

@[simp] theorem stop_bind (e : ε) (f : α → Comp ε β) : (stop e : Comp ε α) >>= f = stop e := rfl

@[simp] theorem map_ret (a : α) (l : List Bytes) (f : α → β) :
    f <$> (ret a l : Comp ε α) = ret (f a) l := by
  show after l (ret (f a) []) = _
  rw [after_ret, List.append_nil]

@[simp] theorem res_ret (a : α) (l : List Bytes) : (ret a l : Comp ε α).res = .ok a := rfl
@[simp] theorem log_ret (a : α) (l : List Bytes) : (ret a l : Comp ε α).log = l := rfl
@[simp] theorem res_pure (a : α) : (pure a : Comp ε α).res = .ok a := rfl
@[simp] theorem log_pure (a : α) : (pure a : Comp ε α).log = [] := rfl
@[simp] theorem res_stop (e : ε) : (stop e : Comp ε α).res = .error e := rfl

instance : LawfulMonad (Comp ε) := LawfulMonad.mk' (Comp ε)
  (fun c => by
    show bind c (fun a => ret a []) = c
    unfold bind after ret
    cases h : c.res <;> ext1 <;> simp [h])
  (fun _ _ => rfl)
  (fun c f g => by
    show bind (bind c f) g = bind c fun a => bind (f a) g
    cases h : c.res with
    | error e => simp only [bind, h]
    | ok a =>
      simp only [bind, h]
      exact after_bind _ _ _)

/-- What a computation that returns does: `ret_bind` for one known by its fields. -/
theorem eq_ret {c : Comp ε α} {a : α} (h : c.res = .ok a) : c = ret a c.log := by
  ext1 <;> simp [h]

theorem toOption_some {r : Except ε α} {a : α} : r.toOption = some a ↔ r = .ok a := by
  unfold Except.toOption
  cases r <;> simp

/-- A bind that returns: both of its parts do. -/
theorem bind_ok {c : Comp ε α} {f : α → Comp ε β} {b : β} (h : (c >>= f).res = .ok b) :
    ∃ a, c.res = .ok a ∧ (f a).res = .ok b := by
  cases hc : c.res with
  | ok a =>
    rw [eq_ret hc, ret_bind] at h
    exact ⟨a, rfl, h⟩
  | error e =>
    have hs : c >>= f = ⟨c.log, .error e⟩ := by
      show bind c f = _
      simp only [bind, hc]
    rw [hs] at h
    cases h

theorem bind_iff {c : Comp ε α} {f : α → Comp ε β} {b : β} :
    (c >>= f).res = .ok b ↔ ∃ a, c.res = .ok a ∧ (f a).res = .ok b := by
  refine ⟨bind_ok, fun ⟨a, ha, hb⟩ => ?_⟩
  rw [eq_ret ha, ret_bind]
  exact hb

theorem pure_iff {a b : α} : (pure a : Comp ε α).res = .ok b ↔ a = b := by simp

/-- A bind whose first part stops. -/
theorem bind_error {c : Comp ε α} {e : ε} (h : c.res = .error e) (f : α → Comp ε β) :
    (c >>= f).res = .error e := by
  show (bind c f).res = _
  rw [bind, h]

theorem bind_congr_ok {c : Comp ε α} {f g : α → Comp ε β} (h : ∀ a, c.res = .ok a → f a = g a) :
    c >>= f = c >>= g := by
  show bind c f = bind c g
  unfold bind
  split
  · rw [h _ ‹_›]
  · rfl

end Comp

/-! ## Loops -/

section Loops

variable {m : Type → Type} [Monad m] {σ ρ : Type}

/-- `k` rounds of `body`, numbered from `i`. -/
def rounds (body : Nat → σ → m σ) : Nat → Nat → σ → m σ
  | _, 0, s => pure s
  | i, k + 1, s => do rounds body (i + 1) k (← body i s)

/-- `for (i = a; i < n; i++) s = body i s`. -/
def forLt (a n : Nat) (s : σ) (body : Nat → σ → m σ) : m σ := rounds body a (n - a) s

/-- `for (i = n - 1; i >= 0; i--) s = body i s`. -/
def forDown (n : Nat) (s : σ) (body : Nat → σ → m σ) : m σ := forLt 0 n s fun k => body (n - 1 - k)

/-- `for (i = a; i < n; i++) if body i returns r then return r`, with no other
state; `none` if no round returns. -/
def searchLt (a n : Nat) (body : Nat → m (Option ρ)) : m (Option ρ) :=
  forLt a n none fun i r => if r.isSome then pure r else body i

theorem forLt_succ_left [LawfulMonad m] {a n : Nat} (h : a < n) (s : σ) (b : Nat → σ → m σ) :
    forLt a n s b = b a s >>= fun s => forLt (a + 1) n s b := by
  rw [forLt, show n - a = n - (a + 1) + 1 by omega]
  rfl

theorem forLt_ge {a n : Nat} (h : n ≤ a) (s : σ) (b : Nat → σ → m σ) : forLt a n s b = pure s := by
  rw [forLt, show n - a = 0 by omega]
  rfl

/-- A loop whose states have the closed form `f`. -/
theorem forLt_pure [LawfulMonad m] {a n : Nat} {b : Nat → σ → m σ} (f : Nat → σ) (hab : a ≤ n)
    (h : ∀ i, a ≤ i → i < n → b i (f i) = pure (f (i + 1))) :
    forLt a n (f a) b = pure (f n) := by
  induction hk : n - a generalizing a with
  | zero => rw [forLt_ge (by omega), show a = n by omega]
  | succ k ih =>
    rw [forLt_succ_left (by omega), h a (Nat.le_refl _) (by omega), pure_bind]
    exact ih (by omega) (fun i hi => h i (by omega)) (by omega)

theorem forLt_zero_pure [LawfulMonad m] {n : Nat} {s : σ} {b : Nat → σ → m σ} (f : Nat → σ)
    (hs : s = f 0) (h : ∀ i < n, b i (f i) = pure (f (i + 1))) : forLt 0 n s b = pure (f n) := by
  subst hs
  exact forLt_pure f (Nat.zero_le _) fun i _ hi => h i hi

theorem forDown_pure [LawfulMonad m] {n : Nat} {s : σ} {b : Nat → σ → m σ} (f : Nat → σ) (hs : s = f 0)
    (h : ∀ k < n, b (n - 1 - k) (f k) = pure (f (k + 1))) : forDown n s b = pure (f n) :=
  forLt_zero_pure f hs h

/-- A loop of pure rounds whose states satisfy `R`, and what follows it. -/
theorem forLt_id {ρ : Type} {a n : Nat} {s : σ} {b : Nat → σ → Id σ} {g : σ → Id ρ} {c : ρ}
    (R : Nat → σ → Prop) (hab : a ≤ n) (h0 : R a s)
    (h : ∀ i s, a ≤ i → i < n → R i s → R (i + 1) (b i s)) (hg : ∀ s, R n s → g s = c) :
    (forLt a n s b >>= g : Id ρ) = c := by
  induction hk : n - a generalizing a s with
  | zero =>
    obtain rfl : a = n := by omega
    rw [forLt_ge (Nat.le_refl _), pure_bind]
    exact hg s h0
  | succ k ih =>
    rw [forLt_succ_left (by omega), bind_assoc]
    exact ih (by omega) (h a s (Nat.le_refl _) (by omega) h0) (fun i s hi => h i s (by omega)) (by omega)

theorem forLt_zero_id {ρ : Type} {n : Nat} {s : σ} {b : Nat → σ → Id σ} {g : σ → Id ρ} {c : ρ}
    (R : Nat → σ → Prop) (h0 : R 0 s) (h : ∀ i s, i < n → R i s → R (i + 1) (b i s))
    (hg : ∀ s, R n s → g s = c) : (forLt 0 n s b >>= g : Id ρ) = c :=
  forLt_id R (Nat.zero_le _) h0 (fun i s _ hi => h i s hi) hg

end Loops

namespace Comp

variable {ε σ : Type}

/-- A loop whose states have the closed form `f`, and whose round `i` hashes `l i`. -/
theorem forLt_ret {a n : Nat} {b : Nat → σ → Comp ε σ} (f : Nat → σ) (l : Nat → List Bytes)
    (hab : a ≤ n) (h : ∀ i, a ≤ i → i < n → b i (f i) = ret (f (i + 1)) (l i)) :
    forLt a n (f a) b = ret (f n) ((List.range' a (n - a)).flatMap l) := by
  induction hk : n - a generalizing a with
  | zero =>
    rw [forLt_ge (by omega), show a = n by omega]
    rfl
  | succ k ih =>
    rw [forLt_succ_left (by omega), h a (Nat.le_refl _) (by omega), ret_bind,
      ih (by omega) (fun i hi => h i (by omega)) (by omega), after_ret, List.range'_succ,
      List.flatMap_cons]

/-- A loop whose states satisfy `R`, and whose round `i` hashes `l i`. -/
theorem forLt_inv {a n : Nat} {s : σ} {b : Nat → σ → Comp ε σ} (R : Nat → σ → Prop)
    (l : Nat → List Bytes) (hab : a ≤ n) (h0 : R a s)
    (h : ∀ i s, a ≤ i → i < n → R i s → ∃ s', R (i + 1) s' ∧ b i s = ret s' (l i)) :
    ∃ s', R n s' ∧ forLt a n s b = ret s' ((List.range' a (n - a)).flatMap l) := by
  induction hk : n - a generalizing a s with
  | zero =>
    obtain rfl : a = n := by omega
    exact ⟨s, h0, forLt_ge (Nat.le_refl _) _ _⟩
  | succ k ih =>
    obtain ⟨s₁, h₁, hb⟩ := h a s (Nat.le_refl _) (by omega) h0
    obtain ⟨s', hs', hl⟩ := ih (by omega) h₁ (fun i s hi => h i s (by omega)) (by omega)
    refine ⟨s', hs', ?_⟩
    rw [forLt_succ_left (by omega), hb, ret_bind, hl, after_ret, List.range'_succ, List.flatMap_cons]

/-- Every round of a loop that returns does, from a state that satisfies `R`. -/
theorem forLt_ok {a n : Nat} {s s' : σ} {b : Nat → σ → Comp ε σ} (R : Nat → σ → Prop) (h0 : R a s)
    (hR : ∀ i s s', a ≤ i → i < n → R i s → (b i s).res = .ok s' → R (i + 1) s')
    (h : (forLt a n s b).res = .ok s') {i : Nat} (hi : a ≤ i) (hin : i < n) :
    ∃ s s', R i s ∧ (b i s).res = .ok s' := by
  induction hk : n - a generalizing a s with
  | zero => omega
  | succ k ih =>
    rw [forLt_succ_left (by omega)] at h
    obtain ⟨s₁, hb, h⟩ := bind_ok h
    rcases Nat.eq_or_lt_of_le hi with rfl | hlt
    · exact ⟨s, s₁, h0, hb⟩
    · exact ih (hR a s s₁ (Nat.le_refl _) (by omega) h0 hb) (fun i s s' hi => hR i s s' (by omega)) h hlt
        (by omega)

theorem forLt_zero_ret {n : Nat} {s : σ} {b : Nat → σ → Comp ε σ} (f : Nat → σ)
    (l : Nat → List Bytes) (hs : s = f 0) (h : ∀ i < n, b i (f i) = ret (f (i + 1)) (l i)) :
    forLt 0 n s b = ret (f n) ((List.range n).flatMap l) := by
  rw [hs, forLt_ret f l (Nat.zero_le _) fun i _ hi => h i hi, List.range_eq_range', Nat.sub_zero]

/-- A loop whose states satisfy `R`, whose round `i` hashes `l i`, and what follows it. -/
theorem forLt_bind {β : Type} {a n : Nat} {s : σ} {b : Nat → σ → Comp ε σ} {g : σ → Comp ε β}
    {c : Comp ε β} (R : Nat → σ → Prop) (l : Nat → List Bytes) (hab : a ≤ n) (h0 : R a s)
    (h : ∀ i s, a ≤ i → i < n → R i s → ∃ s', R (i + 1) s' ∧ b i s = ret s' (l i))
    (hg : ∀ s, R n s → after ((List.range' a (n - a)).flatMap l) (g s) = c) :
    forLt a n s b >>= g = c := by
  obtain ⟨s', hs', hl⟩ := forLt_inv R l hab h0 h
  rw [hl, ret_bind, hg s' hs']

theorem forLt_zero_bind {β : Type} {n : Nat} {s : σ} {b : Nat → σ → Comp ε σ} {g : σ → Comp ε β}
    {c : Comp ε β} (R : Nat → σ → Prop) (l : Nat → List Bytes) (h0 : R 0 s)
    (h : ∀ i s, i < n → R i s → ∃ s', R (i + 1) s' ∧ b i s = ret s' (l i))
    (hg : ∀ s, R n s → after ((List.range n).flatMap l) (g s) = c) : forLt 0 n s b >>= g = c :=
  forLt_bind R l (Nat.zero_le _) h0 (fun i s _ hi => h i s hi) fun s hs => by
    rw [Nat.sub_zero, ← List.range_eq_range', hg s hs]

/-- A loop from 1, with its rounds numbered from 0. -/
theorem forLt_one_bind {β : Type} {n : Nat} {s : σ} {b : Nat → σ → Comp ε σ} {g : σ → Comp ε β}
    {c : Comp ε β} (R : Nat → σ → Prop) (l : Nat → List Bytes) (h0 : R 0 s)
    (h : ∀ i s, i < n → R i s → ∃ s', R (i + 1) s' ∧ b (i + 1) s = ret s' (l i))
    (hg : ∀ s, R n s → after ((List.range n).flatMap l) (g s) = c) : forLt 1 (n + 1) s b >>= g = c :=
  forLt_bind (fun i => R (i - 1)) (fun i => l (i - 1)) (Nat.le_add_left _ _) h0
    (fun i s hi hin hs => by
      obtain ⟨k, rfl⟩ : ∃ k, i = k + 1 := ⟨i - 1, by omega⟩
      exact h k s (by omega) hs)
    fun s hs => by
      rw [Nat.add_sub_cancel, List.range'_eq_map_range, List.flatMap_map, ← hg s hs]
      simp only [Nat.add_sub_cancel_left]

theorem forLt_bind_pure {β : Type} {n : Nat} {s : σ} {b : Nat → σ → Comp ε σ} {g : σ → Comp ε β}
    {c : Comp ε β} (R : Nat → σ → Prop) (h0 : R 0 s)
    (h : ∀ i s, i < n → R i s → ∃ s', R (i + 1) s' ∧ b i s = pure s') (hg : ∀ s, R n s → g s = c) :
    forLt 0 n s b >>= g = c :=
  forLt_zero_bind R (fun _ => []) h0 h fun s hs => by
    rw [List.flatMap_eq_nil_iff.mpr fun _ _ => rfl, after_nil, hg s hs]

/-- `while (c) { s = body }`, for `n` rounds at most: it stops with `e` if it needs more. -/
def whileFuel (e : ε) (c : σ → Bool) (body : σ → Comp ε σ) : Nat → σ → Comp ε σ
  | 0, s => if c s then stop e else pure s
  | n + 1, s => if c s then do whileFuel e c body n (← body s) else pure s

/-- A loop whose states have the closed form `f`, and which stops after `n` rounds. -/
theorem whileFuel_ret {e : ε} {n fuel : Nat} {s : σ} {c : σ → Bool} {b : σ → Comp ε σ} (f : Nat → σ)
    (l : Nat → List Bytes) (hs : s = f 0) (hfuel : n ≤ fuel) (hc : ∀ k < n, c (f k) = true)
    (hn : c (f n) = false) (h : ∀ k < n, b (f k) = ret (f (k + 1)) (l k)) :
    whileFuel e c b fuel s = ret (f n) ((List.range n).flatMap l) := by
  subst hs
  induction n generalizing f l fuel with
  | zero => cases fuel <;> simp [whileFuel, hn]
  | succ n ih =>
    obtain ⟨fuel, rfl⟩ : ∃ g, fuel = g + 1 := ⟨fuel - 1, by omega⟩
    rw [whileFuel, if_pos (hc 0 (by omega)), h 0 (by omega), ret_bind,
      ih (fun k => f (k + 1)) (fun k => l (k + 1)) (by omega) (fun k hk => hc _ (by omega)) hn
        fun k hk => h _ (by omega),
      after_ret, List.range_succ_eq_map, List.flatMap_cons, List.flatMap_map]

/-- A loop whose states have the closed form `f`, and whose round `n` stops. -/
theorem whileFuel_error {e e' : ε} {n fuel : Nat} {s : σ} {c : σ → Bool} {b : σ → Comp ε σ} (f : Nat → σ)
    (l : Nat → List Bytes) (hs : s = f 0) (hfuel : n < fuel) (hc : ∀ k ≤ n, c (f k) = true)
    (h : ∀ k < n, b (f k) = ret (f (k + 1)) (l k)) (hn : (b (f n)).res = .error e') :
    (whileFuel e c b fuel s).res = .error e' := by
  subst hs
  induction n generalizing f l fuel with
  | zero =>
    obtain ⟨fuel, rfl⟩ : ∃ g, fuel = g + 1 := ⟨fuel - 1, by omega⟩
    rw [whileFuel, if_pos (hc 0 (Nat.le_refl _))]
    exact bind_error hn _
  | succ n ih =>
    obtain ⟨fuel, rfl⟩ : ∃ g, fuel = g + 1 := ⟨fuel - 1, by omega⟩
    rw [whileFuel, if_pos (hc 0 (by omega)), h 0 (by omega), ret_bind]
    exact ih (fun k => f (k + 1)) (fun k => l (k + 1)) (by omega) (fun k hk => hc _ (by omega))
      (fun k hk => h _ (by omega)) hn

/-- More rounds make no difference where a measure grows with every round that returns, up to `n`. -/
theorem whileFuel_enough {e : ε} {n fuel : Nat} {s : σ} {c : σ → Bool} {b : σ → Comp ε σ} (R : σ → Prop)
    (m : σ → Nat) (h0 : R s) (hn : ∀ s, R s → m s ≤ n)
    (hR : ∀ s s', R s → c s = true → (b s).res = .ok s' → R s' ∧ m s < m s') (hfuel : n < m s + fuel)
    (k : Nat) : whileFuel e c b (fuel + k) s = whileFuel e c b fuel s := by
  induction fuel generalizing s with
  | zero => exact absurd (hn s h0) (by omega)
  | succ fuel ih =>
    rw [Nat.add_right_comm, whileFuel, whileFuel]
    refine if_ctx_congr Iff.rfl (fun hc => bind_congr_ok fun s' hs' => ?_) fun _ => rfl
    obtain ⟨h1, hlt⟩ := hR s s' h0 hc hs'
    exact ih h1 (by omega)

/-- A search in which the rounds that do not satisfy `p` return `r`. -/
theorem searchLt_res {ρ : Type} {a n : Nat} {b : Nat → Comp ε (Option ρ)} {r : ρ}
    {p : Nat → Prop} [DecidablePred p] {q : Prop} [Decidable q] (hq : q ↔ ∀ i, a ≤ i → i < n → p i)
    (h : ∀ i, a ≤ i → i < n → (b i).res = .ok (if p i then none else some r)) :
    (searchLt a n b).res = .ok (if q then none else some r) := by
  classical
  induction hk : n - a generalizing a q with
  | zero =>
    rw [searchLt, forLt_ge (by omega), if_pos (hq.mpr fun i hi hin => by omega)]
    rfl
  | succ k ih =>
    have ha := eq_ret (h a (Nat.le_refl _) (by omega))
    rw [searchLt, forLt_succ_left (by omega), Option.isSome_none, if_neg Bool.false_ne_true, ha, ret_bind]
    by_cases hp : p a
    · rw [if_pos hp]
      refine (ih Iff.rfl (fun i hi => h i (by omega)) (by omega)).trans (congrArg _ (if_congr ?_ rfl rfl))
      rw [hq]
      refine ⟨fun hall i hi hin => ?_, fun hall i hi => hall i (by omega)⟩
      rcases Nat.eq_or_lt_of_le hi with rfl | hlt
      · exact hp
      · exact hall i hlt hin
    · have hnq : ¬ q := fun hall => hp (hq.mp hall a (Nat.le_refl _) (by omega))
      rw [if_neg hp, if_neg hnq, forLt_pure (fun _ => some r) (by omega) fun i _ _ => if_pos rfl]
      rfl

/-- A search for a round that does not satisfy `p`. -/
theorem allLoop {n : Nat} {b : Nat → Comp ε (Option Bool)} {p : Nat → Prop} [DecidablePred p]
    {q : Prop} [Decidable q]
    (hq : q ↔ ∀ i < n, p i) (h : ∀ i < n, (b i).res = .ok (if p i then none else some false)) :
    (do return (← searchLt 0 n b).getD true : Comp ε Bool).res = .ok (decide q) := by
  have hq' : q ↔ ∀ i, 0 ≤ i → i < n → p i := by simpa using hq
  rw [eq_ret (searchLt_res hq' fun i _ hi => h i hi), ret_bind]
  by_cases hc : q
  · rw [if_pos hc, decide_eq_true hc]
    rfl
  · rw [if_neg hc, decide_eq_false hc]
    rfl

/-- A search for a place in which two lists of one length differ. -/
theorem searchEq {α ρ : Type} [DecidableEq α] {u v : List α} {r : ρ} (hl : u.length = v.length)
    {b : Nat → Comp ε (Option ρ)}
      (h : ∀ k (hk : k < u.length), b k = pure (if u[k] ≠ v[k] then some r else none)) :
    searchLt 0 u.length b = pure (if u = v then none else some r) := by
  have hf := forLt_zero_pure (m := Comp ε) (n := u.length)
    (b := fun i r => if r.isSome then pure r else b i)
    (fun k => if u.take k = v.take k then none else some r) rfl fun k hk => ?_
  · simp only [List.take_zero, if_true, List.take_length, List.take_of_length_le (Nat.le_of_eq hl.symm)]
      at hf
    exact hf
  · have hu : u.take (k + 1) = u.take k ++ [u[k]] := List.take_succ_eq_append_getElem hk
    have hv : v.take (k + 1) = v.take k ++ [v[k]] := List.take_succ_eq_append_getElem (by omega)
    by_cases ht : u.take k = v.take k
    · rw [if_pos ht, if_neg (by simp), h k hk, hu, hv, ht]
      simp only [List.append_cancel_left_eq, List.singleton_inj, ne_eq, ite_not]
    · have hne : u.take (k + 1) ≠ v.take (k + 1) := fun e => by
        rw [hu, hv] at e
        exact ht (List.append_inj_left' e rfl)
      rw [if_neg ht, if_neg hne, if_pos (by simp)]

/-- Comparing two lists of one length, element by element. -/
theorem eqLoop {α : Type} [DecidableEq α] {u v : List α} (hl : u.length = v.length)
    {b : Nat → Comp ε (Option Bool)}
    (h : ∀ k (hk : k < u.length), b k = pure (if u[k] ≠ v[k] then some false else none)) :
    (do return (← searchLt 0 u.length b).getD true : Comp ε Bool) = pure (decide (u = v)) := by
  rw [searchEq hl h, pure_bind]
  by_cases he : u = v <;> simp [he]

end Comp

end SuiPq
