import Mathlib.Algebra.BigOperators.Group.Finset.Piecewise
import Mathlib.Algebra.Order.BigOperators.Group.Finset
import SuiPq.Proof.Ptb.Coins

/-!
# The supply

Commands move value but do not make any: `step_within` keeps a bound on the
value of all coins, results and pools, whichever objects are counted.
-/

namespace SuiPq.Impl.Ptb

open PqGuard (Verifiers PqAuthorized)
open PqVault (Vault)

/-! ## Value -/

def Value.worth : Value → Nat
  | .coin c => c.value
  | _ => 0

def World.coinValue (w : World) (id : ID) : Nat := (w.coins id).elim 0 StoredCoin.value

def World.poolValue (w : World) (id : ID) : Nat := (w.vaults id).elim 0 Vault.pool

/-- The value in the objects of `F`, and in what is not an object. -/
def World.value (w : World) (F : Finset ID) : Nat :=
  ∑ id ∈ F, w.coinValue id + ∑ id ∈ F, w.poolValue id + w.elsewhere

namespace TxState

def heldValue (s : TxState) : Nat := (s.results.flatten.map Value.worth).sum

theorem heldValue_push (s : TxState) (vs : List Value) :
    (s.push vs).heldValue = s.heldValue + (vs.map Value.worth).sum := by
  simp [heldValue, push]

theorem heldValue_setSlot {s : TxState} {i j : Nat} {v : Value} (h : s.slot i j = some v) (v' : Value) :
    (s.setSlot i j v').heldValue + v.worth = s.heldValue + v'.worth := by
  obtain ⟨l, r, hl, hm⟩ := flatten_modify h
  rw [heldValue, heldValue, setSlot, hm, hl]
  simp only [List.map_append, List.map_cons, List.sum_append, List.sum_cons]
  omega

end TxState

/-- Whichever objects are counted, the value of them, the results and `n` that
the running command has taken is at most `B`. -/
def Within (B n : Nat) (s : TxState) : Prop := ∀ F, s.world.value F + s.heldValue + n ≤ B

theorem sum_update_le {α : Type} [DecidableEq α] (f : α → Nat) (k : α) (b : Nat) (F : Finset α) :
    ∑ i ∈ F, Function.update f k b i + f k ≤ ∑ i ∈ insert k F, f i + b := by
  have hle : ∑ i ∈ F, Function.update f k b i ≤ ∑ i ∈ insert k F, Function.update f k b i :=
    Finset.sum_le_sum_of_subset (Finset.subset_insert k F)
  have hk := Finset.mem_insert_self k F
  rw [Finset.sum_update_of_mem hk] at hle
  rw [← Finset.add_sum_erase _ f hk]
  rw [Finset.sdiff_singleton_eq_erase] at hle
  omega

namespace Within

variable {B n m : Nat} {s t : TxState}

theorem congr (h : Within B n s) (hw : ∀ F, t.world.value F = s.world.value F)
    (hr : t.results = s.results) : Within B n t := fun F => by
  have := h F
  rwa [hw, show t.heldValue = s.heldValue by rw [TxState.heldValue, TxState.heldValue, hr]]

theorem mono (h : Within B n s) (hm : m ≤ n) : Within B m s := fun F => (Nat.add_le_add_left hm _).trans (h F)

theorem push {vs : List Value} (h : Within B ((vs.map Value.worth).sum + n) s) : Within B n (s.push vs) :=
  fun F => by
    have := h F
    rw [TxState.heldValue_push]
    show s.world.value F + _ + n ≤ B
    omega

theorem setSlot {i j : Nat} {v v' : Value} (hv : s.slot i j = some v) (h : Within B n s)
    (hm : v'.worth + m = v.worth + n) : Within B m (s.setSlot i j v') := fun F => by
  have := h F
  have hheld := TxState.heldValue_setSlot hv v'
  show s.world.value F + _ + m ≤ B
  omega

theorem setCoin (id : ID) (x : Option StoredCoin) (h : Within B n s)
    (hm : x.elim 0 StoredCoin.value + m = s.world.coinValue id + n) :
      Within B m (s.setCoin id x) := fun F => by
  have := h (insert id F)
  have hsum := sum_update_le s.world.coinValue id (x.elim 0 StoredCoin.value) F
  have hcoin : (s.setCoin id x).world.coinValue =
      Function.update s.world.coinValue id (x.elim 0 StoredCoin.value) := by
    funext i
    rcases eq_or_ne i id with rfl | hne
    · simp [World.coinValue, TxState.setCoin]
    · simp [World.coinValue, TxState.setCoin, Function.update_of_ne hne]
  have hpool : ∑ i ∈ F, s.world.poolValue i ≤ ∑ i ∈ insert id F, s.world.poolValue i :=
    Finset.sum_le_sum_of_subset (Finset.subset_insert id F)
  simp only [World.value] at this ⊢
  rw [hcoin]
  show _ + ∑ i ∈ F, s.world.poolValue i + s.world.elsewhere + s.heldValue + m ≤ B
  omega

theorem setVault (id : ID) (v : Vault) (h : Within B n s) (hm : v.pool + m = s.world.poolValue id + n) :
    Within B m (s.setVault id v) := fun F => by
  have := h (insert id F)
  have hsum := sum_update_le s.world.poolValue id v.pool F
  have hpool : (s.setVault id v).world.poolValue = Function.update s.world.poolValue id v.pool := by
    funext i
    rcases eq_or_ne i id with rfl | hne
    · simp [World.poolValue, TxState.setVault]
    · simp [World.poolValue, TxState.setVault, Function.update_of_ne hne]
  have hcoin : ∑ i ∈ F, s.world.coinValue i ≤ ∑ i ∈ insert id F, s.world.coinValue i :=
    Finset.sum_le_sum_of_subset (Finset.subset_insert id F)
  simp only [World.value] at this ⊢
  rw [hpool]
  show ∑ i ∈ F, s.world.coinValue i + _ + s.world.elsewhere + s.heldValue + m ≤ B
  omega

theorem setElsewhere (e : Nat) (h : Within B n s) (hm : e + m = s.world.elsewhere + n) :
    Within B m (s.setElsewhere e) := fun F => by
  have := h F
  simp only [World.value] at this ⊢
  show ∑ i ∈ F, s.world.coinValue i + ∑ i ∈ F, s.world.poolValue i + e + s.heldValue + m ≤ B
  omega

theorem vacate {a : Arg} {c : Coin} (hc : s.coinAt a = some c) (h : Within B n s) :
    Within B (c.value + n) (s.vacate a) := by
  obtain ⟨i, j, rfl, hs⟩ | ⟨rfl, -, o, ho⟩ := TxState.coinAt_some hc
  · exact setSlot hs h (by simp [Value.worth])
  · exact (setCoin c.id none h (by simp [World.coinValue, ho])).congr (fun _ => rfl) rfl

theorem setValue {a : Arg} {c : Coin} {value : Nat} (hc : s.coinAt a = some c) (h : Within B n s)
    (hm : value + m = c.value + n) : Within B m (s.setValue a c value) := by
  obtain ⟨i, j, rfl, hs⟩ | ⟨rfl, -, o, ho⟩ := TxState.coinAt_some hc
  · exact setSlot hs h hm
  · exact setCoin c.id _ h (by simpa [World.coinValue, ho] using hm)

theorem takeCoin {a : Arg} {c : Coin} (ht : s.takeCoin a = some (c, t)) (h : Within B n s) :
    Within B (c.value + n) t := by
  obtain ⟨hc, rfl⟩ := TxState.takeCoin_some.mp ht
  exact vacate hc h

theorem takeForCall {a : Arg} {c : Coin} (ht : s.takeForCall a = some (c, t)) (h : Within B n s) :
    Within B (c.value + n) t := takeCoin (TxState.takeForCall_some ht) h

theorem takeCoins : ∀ {as : List Arg} {s t : TxState} {cs : List Coin} {n : Nat},
    Ptb.takeCoins as s = some (cs, t) → Within B n s → Within B ((cs.map Coin.value).sum + n) t
  | [], s, t, cs, n, ht, h => by
    cases (ht : some ([], s) = some (cs, t))
    exact h.mono (by simp)
  | a :: as, s, t, cs, n, ht, h => by
    obtain ⟨⟨c, s₁⟩, h₁, ht⟩ := Option.bind_eq_some_iff.mp ht
    obtain ⟨⟨cs', s₂⟩, h₂, ht⟩ := Option.bind_eq_some_iff.mp ht
    cases ht
    exact (takeCoins h₂ (h.takeCoin h₁)).mono (by simp only [List.map_cons, List.sum_cons]; omega)

theorem create {id : ID} {ctx : TxContext} (ht : s.create id ctx = some t) (h : Within B n s) :
    Within B n t := by
  obtain ⟨-, rfl⟩ := TxState.create_some ht
  exact h

theorem newCoins : ∀ {values : List Nat} {s t : TxState} {cs : List Coin},
    Ptb.newCoins values s = some (cs, t) → Within B n s → Within B n t ∧ cs.map Coin.value = values
  | [], s, t, cs, ht, h => by
    cases (ht : some ([], s) = some (cs, t))
    exact ⟨h, rfl⟩
  | v :: vs, s, t, cs, ht, h => by
    obtain ⟨s₁, h₁, ht⟩ := Option.bind_eq_some_iff.mp ht
    obtain ⟨⟨cs', s₂⟩, h₂, ht⟩ := Option.bind_eq_some_iff.mp ht
    cases ht
    obtain ⟨hw, hvs⟩ := newCoins h₂ (h.create h₁)
    exact ⟨hw, by rw [List.map_cons, hvs]⟩

theorem store (o : Owner) (c : Coin) (h : Within B (c.value + n) s) : Within B n (s.store o c) :=
  (setCoin (m := s.world.coinValue c.id + n) c.id (some ⟨c.value, o⟩) h
    (by simp only [Option.elim_some]; omega)).mono (Nat.le_add_left ..)

theorem foldl_store (o : Owner) : ∀ {cs : List Coin} {s : TxState},
    Within B ((cs.map Coin.value).sum + n) s → Within B n (cs.foldl (TxState.store · o) s)
  | [], s, h => h.mono (by simp)
  | c :: cs, s, h => by
    rw [List.map_cons, List.sum_cons, Nat.add_assoc] at h
    show Within B n (cs.foldl (TxState.store · o) (s.store o c))
    exact foldl_store o (store o c h)

theorem takeAuth {a : Arg} {auth : PqAuthorized} (ht : s.takeAuth a = some (auth, t)) (h : Within B n s) :
    Within B n t := by
  obtain ⟨i, j, -, hs, rfl⟩ := TxState.takeAuth_some ht
  exact setSlot hs h rfl

end Within

theorem newCoins_elsewhere : ∀ {values : List Nat} {s t : TxState} {cs : List Coin},
    newCoins values s = some (cs, t) → t.world.elsewhere = s.world.elsewhere
  | [], s, t, cs, ht => by
    cases (ht : some ([], s) = some (cs, t))
    rfl
  | v :: vs, s, t, cs, ht => by
    obtain ⟨s₁, h₁, ht⟩ := Option.bind_eq_some_iff.mp ht
    obtain ⟨⟨cs', s₂⟩, h₂, ht⟩ := Option.bind_eq_some_iff.mp ht
    cases ht
    have := newCoins_elsewhere h₂
    obtain ⟨-, rfl⟩ := TxState.create_some h₁
    exact this

theorem worth_coins (cs : List Coin) : ((cs.map Value.coin).map Value.worth).sum =
    (cs.map Coin.value).sum := by
  rw [List.map_map]
  rfl

theorem step_within {H : Hash} {V : Verifiers} {s s' : TxState} {cmd : Command} {B : Nat}
    (h : step H V s cmd = some s') (hs : Within B 0 s) : Within B 0 s' := by
  have hnil {t : TxState} (ht : Within B 0 t) : Within B 0 (t.push []) := .push ht
  cases step_effect h with
  | register len new => exact hnil ((hs.create new).congr (fun _ => rfl) rfl)
  | rotate input owner len => exact hnil (hs.congr (fun _ => rfl) rfl)
  | unlock input accepts nonce => exact .push (hs.congr (fun _ => rfl) rfl)
  | consume witness => exact hnil (hs.takeAuth witness)
  | @openVault seed c t u take new =>
    have hfree := (TxState.create_some new).1.2.2.2.1
    refine hnil (.congr (s := u.setVault _ _) (.setVault _ _ ((hs.takeForCall take).create new) ?_)
      (fun _ => rfl) rfl)
    rw [World.poolValue, (MovesCoins.create new).vaults, hfree]
    simp
  | @deposit id topUp v c t input take pool balance =>
    refine hnil (.congr (s := t.setVault _ _) (.setVault _ _ (hs.takeForCall take) ?_) (fun _ => rfl) rfl)
    rw [World.poolValue, (MovesCoins.takeForCall take).vaults, (TxState.vaultAt_some input).1]
    simp
  | @withdraw id a recipient amount v auth t u input witness owner sender digest balance pool new =>
    have hv : u.world.vaults id = some v := by
      obtain ⟨i, j, -, -, rfl⟩ := TxState.takeAuth_some witness
      rw [(MovesCoins.create new).vaults]
      exact (TxState.vaultAt_some input).1
    refine .push (.congr (s := u.setVault _ _) (.setVault _ _ ((hs.takeAuth witness).create new) ?_)
      (fun _ => rfl) rfl)
    simp only [World.poolValue, hv, List.map_cons, List.map_nil, Value.worth, List.sum_cons, List.sum_nil,
      Option.elim_some]
    omega
  | coins coins =>
    cases coins with
    | @splitCoins a amounts c cs t coin le new =>
      have hset : Within B (amounts.map UInt64.toNat).sum
          (s.setValue a c (c.value - (amounts.map UInt64.toNat).sum)) := hs.setValue coin (by omega)
      obtain ⟨hw, hvalues⟩ := hset.newCoins new
      exact .push (by rwa [worth_coins, hvalues])
    | mergeCoins take coin lt =>
      exact hnil ((hs.takeCoins take).setValue coin (by omega))
    | transferObjects take => exact hnil (.foldl_store _ (hs.takeCoins take))
    | wrap take => exact hnil (.store _ _ (hs.takeForCall take))
    | @unwrap id d coin =>
      obtain ⟨-, hc⟩ := wrappedAt_some coin
      have hset : Within B d.value (s.setCoin id none) := hs.setCoin id none (by simp [World.coinValue, hc])
      refine .push (.congr (s := s.setCoin id none) ?_ (fun _ => rfl) rfl)
      simpa [Value.worth] using hset
    | absorb take => exact hnil ((hs.takeForCall take).setElsewhere _ (by omega))
    | @release amount cs t le new =>
      obtain ⟨hw, hvalues⟩ := hs.newCoins new
      have helse : t.world.elsewhere = s.world.elsewhere := newCoins_elsewhere new
      refine .push (hw.setElsewhere _ ?_)
      rw [worth_coins, hvalues, helse]
      simp only [List.sum_cons, List.sum_nil]
      omega

end SuiPq.Impl.Ptb
