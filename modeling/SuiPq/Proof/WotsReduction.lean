import SuiPq.Proof.Sha2128s.Binding
import SuiPq.Proof.WotsPlus

/-!
# The one-time signatures of both verifiers

Two WOTS+ signatures of two messages that lead to one public key have
collided, or on some chain the second message's digit is lower than the
first's and the second signature walks up to the first: `wotsPlus_reduction`
for `wots_plus`, `sha2128s_reduction` for `sha2_128s`, and `wots_reduction`
for both.
-/

namespace SuiPq.Proof.WotsReduction

open SuiPq.Impl SuiPq.Impl.MoveBytes SuiPq.Move SuiPq.HashSig
open SuiPq.Proof.Sha2128s (TruncCollision)

/-- The digits of two messages: `n` of base 16 for each, and neither message
has at every position at least the other's. -/
structure Incomparable (n : Nat) (D D' : List Nat) : Prop where
  length_left : D.length = n
  length_right : D'.length = n
  le_left : ∀ d ∈ D, d ≤ 15
  le_right : ∀ d ∈ D', d ≤ 15
  exists_lt : ∃ i < n, D'[i]! < D[i]!
  exists_gt : ∃ i < n, D[i]! < D'[i]!

theorem getElem!_map_range {n i : Nat} (hi : i < n) (f : Nat → Nat) : ((List.range n).map f)[i]! = f i := by
  rw [getElem!_pos _ _ (by simpa using hi), List.getElem_map, List.getElem_range]

theorem Incomparable.of_digits {n : Nat} {d d' : Nat → Nat} (hd : ∀ i, d i < 16) (hd' : ∀ i, d' i < 16)
    (hlt : ∃ i < n, d' i < d i) (hgt : ∃ i < n, d i < d' i) :
    Incomparable n ((List.range n).map d) ((List.range n).map d') := by
  have hle : ∀ f : Nat → Nat, (∀ i, f i < 16) → ∀ x ∈ (List.range n).map f, x ≤ 15 := by
    rintro f hf x hx
    obtain ⟨i, -, rfl⟩ := List.mem_map.mp hx
    exact Nat.le_of_lt_succ (hf i)
  obtain ⟨i, hi, hlt⟩ := hlt
  obtain ⟨j, hj, hgt⟩ := hgt
  exact ⟨by simp, by simp, hle d hd, hle d' hd',
    ⟨i, hi, by rwa [getElem!_map_range hi, getElem!_map_range hi]⟩,
    ⟨j, hj, by rwa [getElem!_map_range hj, getElem!_map_range hj]⟩⟩

/-! ## `wots_plus` -/

section WotsPlus

open SuiPq.Impl.WotsPlus
open SuiPq.Spec.WotsPlus (digits digits_lt chains step input)

/-- Among what two calls hash, two different inputs of one length, under one
seed and one address, with the same hash. -/
def Collision (H : Hash) (seed : Bytes) (L L' : List Bytes) : Prop :=
  ∃ a u v : Bytes, a.length = 32 ∧ u ≠ v ∧ u.length = v.length ∧ seed ++ a ++ u ∈ L ∧ seed ++ a ++ v ∈ L' ∧
    H (seed ++ a ++ u) = H (seed ++ a ++ v)

/-- `steps` steps up chain `i` of a signature from position `d`, at the chain's address. -/
def walk (H : Hash) (seed adrs s : Bytes) (i d steps : Nat) : MoveFn (Bytes × Bytes) := do
  let a ← writeU32 adrs 16 TYPE_WOTS_HASH
  let a ← writeU32 a 24 i
  climbChain H seed a (window s (i * 32) 32) d steps

variable {H : Hash} {seed adrs m m' s s' pk : Bytes}

theorem walk_eq {i d steps : Nat} (hi : i < 67) (hseed : seed.length = 32) (ha : adrs.length = 32)
    (hs : s.length = 2144) (hd : d + steps < 2 ^ 8) :
    ∃ a, (walk H seed adrs s i d steps).res =
      .ok (a, chain (step H seed adrs i) d (chains s i) steps) := by
  obtain ⟨a, h⟩ := WotsPlus.climbChain_eq (H := H) i hseed ha (x := chains s i)
    (length_window (by omega)) hd
  refine ⟨a, ?_⟩
  rw [walk, TYPE_WOTS_HASH, writeU32_eq (by omega) (by decide), pure_bind,
    writeU32_eq (by simp [ha]) (by decide), pure_bind]
  exact congrArg Comp.res h

/-- A call that returns was given a seed and an address of 32 bytes. -/
theorem pkFromSig_ok (h : (pkFromSig H seed adrs m s).res = .ok pk) :
    seed.length = 32 ∧ adrs.length = 32 := by
  rw [pkFromSig] at h
  obtain ⟨_, h1, h⟩ := Comp.bind_ok h
  obtain ⟨_, h2, -⟩ := Comp.bind_ok h
  exact ⟨require_ok h1, require_ok h2⟩

theorem Collision.of_collides (ha : adrs.length = 32) (hs : s.length = 2144) (hs' : s'.length = 2144)
    (h : Collides (fun k x => step H seed adrs k.1 k.2 x)
      (topsEvals (step H seed adrs) 16 67 (digits m) (chains s))
      (topsEvals (step H seed adrs) 16 67 (digits m') (chains s'))) :
    Collision H seed (Spec.WotsPlus.hashed H seed adrs m s) (Spec.WotsPlus.hashed H seed adrs m' s') := by
  obtain ⟨⟨i, j⟩, x, y, hx, hy, hne, he⟩ := h
  have hlen : ∀ {m s x : Bytes}, s.length = 2144 →
      ((i, j), x) ∈ topsEvals (step H seed adrs) 16 67 (digits m) (chains s) → x.length = 32 := by
    intro m s x hs hx
    obtain ⟨k, hk, e, he, h⟩ := (mem_topsEvals _ _).mp hx
    obtain ⟨n, -, rfl⟩ := (mem_chainEvals _).mp he
    obtain rfl : x = _ := congrArg Prod.snd h
    exact chain_values (P := fun x : Bytes => x.length = 32) (fun _ _ => H.length_apply _)
      (length_window (by omega)) _ _
  refine ⟨Spec.WotsPlus.chainAdrs adrs i j, x, y, ?_, hne, (hlen hs hx).trans (hlen hs' hy).symm,
    List.mem_map.mpr ⟨_, hx, rfl⟩, List.mem_map.mpr ⟨_, hy, rfl⟩, he⟩
  exact WotsPlus.length_chainAdrs ha i j

theorem wotsPlus_reduction {i : Nat} (hi : i < 67) (hm : m.length = 32) (hm' : m'.length = 32)
    (hs : s.length = 2144) (hs' : s'.length = 2144) (hlt : digits m' i < digits m i)
    (h : (pkFromSig H seed adrs m s).res = .ok pk) (h' : (pkFromSig H seed adrs m' s').res = .ok pk) :
    Collision H seed (pkFromSig H seed adrs m s).log (pkFromSig H seed adrs m' s').log ∨
      ∃ a, (walk H seed adrs s' i (digits m' i) (digits m i - digits m' i)).res =
        .ok (a, window s (i * 32) 32) := by
  obtain ⟨hseed, ha⟩ := pkFromSig_ok h
  rw [WotsPlus.pkFromSig_eq hseed ha hm hs] at h ⊢
  rw [WotsPlus.pkFromSig_eq hseed ha hm' hs'] at h' ⊢
  have hd := digits_lt m i
  have htops : ∀ k < 67, top (step H seed adrs) 16 k (digits m k) (chains s k) =
      top (step H seed adrs) 16 k (digits m' k) (chains s' k) := by
    have hw : ∀ {m s : Bytes}, s.length = 2144 → ∀ x ∈ (List.range 67).map fun i =>
        top (step H seed adrs) 16 i (digits m i) (chains s i), x.length = 32 := by
      intro m s hs x hx
      obtain ⟨k, hk, rfl⟩ := List.mem_map.mp hx
      have hk : k < 67 := List.mem_range.mp hk
      exact Spec.WotsPlus.length_top (length_window (by omega)) _ _
    exact map_range_inj (flatten_inj (by simp) (hw hs) (hw hs')
      ((Except.ok.inj h).trans (Except.ok.inj h').symm))
  rcases tops_reduction (n := 67) _ _ hi hlt hd (htops i hi) with h | h
  · obtain ⟨a, hwalk⟩ := walk_eq (H := H) hi hseed ha hs'
      (show digits m' i + (digits m i - digits m' i) < 2 ^ 8 by omega)
    exact .inr ⟨a, by rw [hwalk, h]; rfl⟩
  · exact .inl (Collision.of_collides ha hs hs' h)

end WotsPlus

/-! ## `sha2_128s` -/

section Sha2128s

open SuiPq.Impl.Sha2128s
open SuiPq.Proof.Sha2128s (T input_eq)
open SuiPq.Spec.Slh128s (Adrs params digits digits_lt input length_thash)

/-- `steps` steps up chain `i` of a signature from position `d`, at the chain's address. -/
def walkTrunc (H : Hash) (pre adrs s : Bytes) (i d steps : Nat) : MoveFn (Bytes × Bytes) := do
  let a ← adrsSetType adrs ADRS_WOTS_HASH
  let a ← adrsSetTreeHeight a i
  Sha2128s.chain H s (i * 16) d steps pre a

variable {H : Hash} {pre adrs m m' s s' pk : Bytes}

theorem wotsSig_shaped (hs : s.length = 560) (l t kp : Nat) (dig : Nat → Nat) :
    ∀ e ∈ wotsEvals params (T H pre) l t kp dig (fun i => window s (i * 16) 16),
      Shaped params (·.length = 16) e :=
  wotsEvals_shaped length_thash fun i hi => length_window (by have : i < 35 := hi; omega)

theorem sha2128s_reduction {i : Nat} (hi : i < 35) (ha : adrs.length = 22) (hm : m.length = 16)
    (hm' : m'.length = 16) (hs : s.length = 560) (hs' : s'.length = 560) (hlt : digits m' i < digits m i)
    (h : (Sha2128s.wotsPkFromSig H s m pre adrs).res = .ok pk)
    (h' : (Sha2128s.wotsPkFromSig H s' m' pre adrs).res = .ok pk) :
    TruncCollision H pre (Sha2128s.wotsPkFromSig H s m pre adrs).log
        (Sha2128s.wotsPkFromSig H s' m' pre adrs).log ∨
      ∃ a, (walkTrunc H pre adrs s' i (digits m' i) (digits m i - digits m' i)).res =
        .ok (window s (i * 16) 16, a) := by
  obtain ⟨⟨l, t, ty, kp, th, ti⟩, rfl⟩ := Spec.Slh128s.exists_adrs ha
  rw [Sha2128s.wotsPkFromSig_eq hm (Nat.le_of_eq hs.symm) (s := fun i => window s (i * 16) 16)
    fun _ _ => rfl] at h ⊢
  rw [Sha2128s.wotsPkFromSig_eq hm' (Nat.le_of_eq hs'.symm) (s := fun i => window s' (i * 16) 16)
    fun _ _ => rfl] at h' ⊢
  have hd := digits_lt m i
  have he := (Except.ok.inj h).trans (Except.ok.inj h').symm
  rcases HashSig.wots_walk_or_collides (p := params) hi hlt hd he with h | h
  · refine .inr ⟨Adrs.bytes ⟨l, t, 0, kp, i, Sha2128s.lastIndex ti (digits m' i)
      (digits m i - digits m' i)⟩, ?_⟩
    rw [walkTrunc, Sha2128s.adrsSetType_eq, pure_bind, Sha2128s.adrsSetTreeHeight_eq, pure_bind]
    refine (congrArg Comp.res (Sha2128s.chain_eq (by omega) (by omega) (by omega) _ _)).trans ?_
    rw [Comp.res_ret, h]
  · exact .inl (.of_collides h (wotsSig_shaped hs _ _ _ _) (wotsSig_shaped hs' _ _ _ _))

end Sha2128s

/-! ## Both -/

/-- The digits of two messages are incomparable, and two signatures of them
with one public key have collided, or on some chain where the second message's
digit is lower the second signature walks up to the first. -/
theorem wots_reduction (H : Hash) :
    (∀ m m' : Bytes, m.length = 32 → m'.length = 32 → m ≠ m' → ∃ D D' : List Nat,
      (WotsPlus.msgToChains m).res = .ok D ∧ (WotsPlus.msgToChains m').res = .ok D' ∧
      Incomparable 67 D D' ∧ ∀ seed adrs s s' pk : Bytes, s.length = 2144 → s'.length = 2144 →
        (WotsPlus.pkFromSig H seed adrs m s).res = .ok pk →
        (WotsPlus.pkFromSig H seed adrs m' s').res = .ok pk →
        Collision H seed (WotsPlus.pkFromSig H seed adrs m s).log
            (WotsPlus.pkFromSig H seed adrs m' s').log ∨
          ∃ i < 67, D'[i]! < D[i]! ∧ ∃ a, (walk H seed adrs s' i D'[i]! (D[i]! - D'[i]!)).res =
            .ok (a, window s (i * 32) 32)) ∧
    (∀ m m' : Bytes, m.length = 16 → m'.length = 16 → m ≠ m' → ∃ D D' : List Nat,
      (Sha2128s.msgToChainDigits m).res = .ok D ∧ (Sha2128s.msgToChainDigits m').res = .ok D' ∧
      Incomparable 35 D D' ∧ ∀ pre adrs s s' pk : Bytes, adrs.length = 22 → s.length = 560 →
        s'.length = 560 → (Sha2128s.wotsPkFromSig H s m pre adrs).res = .ok pk →
        (Sha2128s.wotsPkFromSig H s' m' pre adrs).res = .ok pk →
        TruncCollision H pre (Sha2128s.wotsPkFromSig H s m pre adrs).log
            (Sha2128s.wotsPkFromSig H s' m' pre adrs).log ∨
          ∃ i < 35, D'[i]! < D[i]! ∧ ∃ a, (walkTrunc H pre adrs s' i D'[i]! (D[i]! - D'[i]!)).res =
            .ok (window s (i * 16) 16, a)) := by
  constructor
  · intro m m' hm hm' hne
    have hlt := Spec.WotsPlus.exists_digits_lt hm hm' hne
    have hgt := Spec.WotsPlus.exists_digits_lt hm' hm (Ne.symm hne)
    refine ⟨_, _, by rw [WotsPlus.msgToChains_eq hm]; rfl, by rw [WotsPlus.msgToChains_eq hm']; rfl,
      .of_digits (Spec.WotsPlus.digits_lt m) (Spec.WotsPlus.digits_lt m') hlt hgt, ?_⟩
    intro seed adrs s s' pk hs hs' h h'
    obtain ⟨i, hi, hlt⟩ := hlt
    refine (wotsPlus_reduction hi hm hm' hs hs' hlt h h').imp_right fun hwalk => ⟨i, hi, ?_⟩
    rw [getElem!_map_range hi, getElem!_map_range hi]
    exact ⟨hlt, hwalk⟩
  · intro m m' hm hm' hne
    have hlt := Spec.Slh128s.exists_digits_lt hm hm' hne
    have hgt := Spec.Slh128s.exists_digits_lt hm' hm (Ne.symm hne)
    refine ⟨_, _, by rw [Sha2128s.msgToChainDigits_eq hm]; rfl,
      by rw [Sha2128s.msgToChainDigits_eq hm']; rfl,
      .of_digits (Spec.Slh128s.digits_lt m) (Spec.Slh128s.digits_lt m') hlt hgt, ?_⟩
    intro pre adrs s s' pk ha hs hs' h h'
    obtain ⟨i, hi, hlt⟩ := hlt
    refine (sha2128s_reduction hi ha hm hm' hs hs' hlt h h').imp_right fun hwalk => ⟨i, hi, ?_⟩
    rw [getElem!_map_range hi, getElem!_map_range hi]
    exact ⟨hlt, hwalk⟩

/-- Two messages that differ in their first byte, and the zero signature for both,
under the hash that is zero everywhere. -/
theorem wots_reduction_zero :
    (∃ D D' : List Nat, Incomparable 67 D D' ∧
      let seed : Bytes := List.replicate 32 0
      let s : Bytes := List.replicate 2144 0
      (Collision Hash.zero seed (WotsPlus.pkFromSig Hash.zero seed seed (List.replicate 32 0) s).log
          (WotsPlus.pkFromSig Hash.zero seed seed (1 :: List.replicate 31 0) s).log ∨
        ∃ i < 67, D'[i]! < D[i]! ∧ ∃ a, (walk Hash.zero seed seed s i D'[i]! (D[i]! - D'[i]!)).res =
          .ok (a, window s (i * 32) 32))) ∧
    (∃ D D' : List Nat, Incomparable 35 D D' ∧
      let a : Bytes := List.replicate 22 0
      let s : Bytes := List.replicate 560 0
      (TruncCollision Hash.zero [] (Sha2128s.wotsPkFromSig Hash.zero s (List.replicate 16 0) [] a).log
          (Sha2128s.wotsPkFromSig Hash.zero s (1 :: List.replicate 15 0) [] a).log ∨
        ∃ i < 35, D'[i]! < D[i]! ∧ ∃ b, (walkTrunc Hash.zero [] a s i D'[i]! (D[i]! - D'[i]!)).res =
          .ok (window s (i * 16) 16, b))) := by
  have hz : ∀ n : Nat, (List.replicate n (0 : UInt8)).length = n := fun _ => List.length_replicate
  have hpk : ∀ m : Bytes, m.length = 32 → (WotsPlus.pkFromSig Hash.zero (List.replicate 32 0)
      (List.replicate 32 0) m (List.replicate 2144 0)).res = .ok (List.replicate 2144 0) := by
    intro m hm
    rw [WotsPlus.pkFromSig_eq (hz 32) (hz 32) hm (hz 2144), Comp.res_ret, Spec.WotsPlus.pkFromSig]
    refine congrArg _ (List.eq_replicate_iff.mpr ⟨Spec.WotsPlus.length_pkFromSig (hz 2144), ?_⟩)
    intro x hx
    obtain ⟨i, -, hx⟩ := List.mem_flatMap.mp hx
    rw [top] at hx
    generalize 16 - 1 - Spec.WotsPlus.digits m i = k at hx
    cases k with
    | zero => exact List.eq_of_mem_replicate (List.mem_of_mem_drop (List.mem_of_mem_take hx))
    | succ k => exact List.eq_of_mem_replicate (n := 32) hx
  have htrunc : ∀ m : Bytes, m.length = 16 → (Sha2128s.wotsPkFromSig Hash.zero (List.replicate 560 0) m []
      (List.replicate 22 0)).res = .ok (List.replicate 16 0) := by
    intro m hm
    obtain ⟨a, ha⟩ := Spec.Slh128s.exists_adrs (hz 22)
    rw [← ha, Sha2128s.wotsPkFromSig_eq hm (Nat.le_of_eq (hz 560).symm) fun _ _ => rfl]
    rfl
  obtain ⟨hw, ht⟩ := wots_reduction Hash.zero
  obtain ⟨D, D', -, -, hi, hw⟩ := hw (List.replicate 32 0) (1 :: List.replicate 31 0) (by decide)
    (by decide) (by decide)
  obtain ⟨E, E', -, -, hj, ht⟩ := ht (List.replicate 16 0) (1 :: List.replicate 15 0) (by decide)
    (by decide) (by decide)
  exact ⟨⟨D, D', hi, hw _ _ _ _ _ (hz 2144) (hz 2144) (hpk _ (by decide)) (hpk _ (by decide))⟩,
    E, E', hj, ht _ _ _ _ _ (hz 22) (hz 560) (hz 560) (htrunc _ (by decide)) (htrunc _ (by decide))⟩

end SuiPq.Proof.WotsReduction
