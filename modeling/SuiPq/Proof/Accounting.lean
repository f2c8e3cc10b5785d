import SuiPq.Proof.Ptb.Supply

/-!
# The vaults' accounts

A vault's `balance` is the value of its pool, and what its `Deposited` events
put in less what its `Withdrew` events took out (`Books`). So a withdrawal
stops at one of its own checks or not at all, and a deposit never does as long
as the supply of SUI is a u64 (`vault_accounting`).
-/

namespace SuiPq.Proof.Accounting

open SuiPq.Impl SuiPq.Impl.Ptb
open SuiPq.Impl.PqGuard (Verifiers PqAuthorized)
open SuiPq.Impl.PqVault (Vault)
open SuiPq.Move (require_bind_error)

/-! ## The functions' aborts -/

theorem split_eq {self value : Nat} (h : value ≤ self) :
    Balance.split self value = pure (self - value, value) := by
  rw [Balance.split, Move.require_pos h, pure_bind, Move.sub_eq h, pure_bind]

/-- From a vault whose balance is its pool, a withdrawal aborts at one of its own checks only. -/
theorem withdraw_error {H : Hash} {v : Vault} (hv : v.balance = v.pool) {auth : PqAuthorized}
    {recipient : Address} {amount : Nat} {ctx : TxContext} {e : Abort Code}
    (h : (PqVault.withdraw H v auth recipient amount ctx).res = .error e) :
    e = .code PqVault.ENotOwner ∨ e = .code PqVault.EWrongSender ∨ e = .code PqVault.EWrongAction ∨
      e = .code PqVault.EInsufficient ∧ v.balance < amount := by
  obtain rfl | ⟨-, h⟩ := require_bind_error h
  · exact .inl rfl
  obtain rfl | ⟨-, h⟩ := require_bind_error h
  · exact .inr (.inl rfl)
  rw [PqVault.withdrawActionDigest_eq, Comp.hash, Comp.ret_bind] at h
  obtain rfl | ⟨-, h⟩ := require_bind_error h
  · exact .inr (.inr (.inl rfl))
  by_cases hb : amount ≤ v.balance
  · rw [Move.require_pos hb, pure_bind, Move.sub_eq hb, pure_bind] at h
    change (Balance.split v.pool amount >>= _).res = _ at h
    rw [split_eq (by omega), pure_bind] at h
    cases h
  · rw [Move.require, if_neg hb, Comp.stop_bind] at h
    cases h
    exact .inr (.inr (.inr ⟨rfl, by omega⟩))

theorem deposit_eq {v : Vault} {c : Coin} (hp : v.pool + c.value < 2 ^ 64)
    (hb : v.balance + c.value < 2 ^ 64) : (PqVault.deposit v c).res =
      .ok ({ v with balance := v.balance + c.value, pool := v.pool + c.value }, ⟨v.id, c.value⟩) := by
  rw [PqVault.deposit, Balance.join, Move.add_eq hp, pure_bind]
  show (Move.add 64 v.balance c.value >>= _).res = _
  rw [Move.add_eq hb, pure_bind]
  rfl

/-! ## The invariant -/

/-- What an event puts into the vault `id`. -/
def deposits (id : ID) : Event → Nat
  | .deposited e => if e.vault = id then e.amount else 0
  | _ => 0

/-- What an event takes out of the vault `id`. -/
def withdraws (id : ID) : Event → Nat
  | .withdrew e => if e.vault = id then e.amount else 0
  | _ => 0

def depositedTo (id : ID) (h : List Record) : Nat := ((h.flatMap (·.events)).map (deposits id)).sum

def withdrawnFrom (id : ID) (h : List Record) : Nat := ((h.flatMap (·.events)).map (withdraws id)).sum

def balanceOf (vaults : ID → Option Vault) (id : ID) : Nat := (vaults id).elim 0 Vault.balance

/-- The vaults' accounts agree with their pools and the events. -/
structure Books (vaults : ID → Option Vault) (h : List Record) : Prop where
  keys : ∀ {id v}, vaults id = some v → v.id = id
  pool : ∀ {id v}, vaults id = some v → v.balance = v.pool
  events : ∀ id, depositedTo id h = balanceOf vaults id + withdrawnFrom id h

variable {H : Hash} {V : Verifiers} {s s' : TxState} {cmd : Command}

/-- The invariant reads the vaults and the events only. -/
theorem Books.congr {t : TxState} (h : Books s.world.vaults s.history)
    (hv : t.world.vaults = s.world.vaults) (hl : t.world.log = s.world.log)
    (he : t.record.events = s.record.events) : Books t.world.vaults t.history := by
  rw [hv]
  refine ⟨h.keys, h.pool, fun id => ?_⟩
  have := h.events id
  simp only [depositedTo, withdrawnFrom, TxState.history, List.flatMap_append, List.flatMap_singleton,
    hl, he] at this ⊢
  exact this

/-- An event that is about no vault. -/
theorem Books.emit {e : Event} (h : Books s.world.vaults s.history)
    (he : ∀ id, deposits id e = 0 ∧ withdraws id e = 0) : Books (s.emit e).world.vaults
      (s.emit e).history := by
  refine ⟨h.keys, h.pool, fun id => ?_⟩
  have := h.events id
  obtain ⟨hd, hw⟩ := he id
  simp only [depositedTo, withdrawnFrom, TxState.history, TxState.emit, List.flatMap_append,
    List.flatMap_singleton, List.map_append, List.sum_append, List.map_cons, List.map_nil,
    List.sum_cons, List.sum_nil, hd, hw] at this ⊢
  omega

theorem Books.coins {t : TxState} (h : Books s.world.vaults s.history) (hc : MovesCoins s t) :
    Books t.world.vaults t.history :=
  h.congr hc.vaults hc.log (by rw [hc.record])

/-- Changing the vault `id` with an event about the difference. -/
theorem Books.setVault {id : ID} {v : Vault} {e : Event} (h : Books s.world.vaults s.history)
    (hid : v.id = id) (hp : v.balance = v.pool)
    (he : deposits id e + balanceOf s.world.vaults id = v.balance + withdraws id e)
    (hne : ∀ i ≠ id, deposits i e = 0 ∧ withdraws i e = 0) :
    Books ((s.setVault id v).emit e).world.vaults ((s.setVault id v).emit e).history := by
  have hd (i : ID) : depositedTo i ((s.setVault id v).emit e).history =
      depositedTo i s.history + deposits i e := by
    simp [depositedTo, TxState.history, TxState.setVault, TxState.emit, Nat.add_assoc]
  have hw (i : ID) : withdrawnFrom i ((s.setVault id v).emit e).history =
      withdrawnFrom i s.history + withdraws i e := by
    simp [withdrawnFrom, TxState.history, TxState.setVault, TxState.emit, Nat.add_assoc]
  have hvaults : ((s.setVault id v).emit e).world.vaults =
      Function.update s.world.vaults id (some v) := rfl
  rw [hvaults]
  refine ⟨fun {i u} hu => ?_, fun {i u} hu => ?_, fun i => ?_⟩
  · rcases eq_or_ne i id with hi | hi
    · rw [hi, Function.update_self, Option.some.injEq] at hu
      rw [← hu, hid, hi]
    · exact h.keys (by rwa [Function.update_of_ne hi] at hu)
  · rcases eq_or_ne i id with hi | hi
    · rw [hi, Function.update_self, Option.some.injEq] at hu
      rw [← hu, hp]
    · exact h.pool (show s.world.vaults i = some u by rwa [Function.update_of_ne hi] at hu)
  · have := h.events i
    rw [hd, hw]
    rcases eq_or_ne i id with rfl | hi
    · rw [show balanceOf (Function.update s.world.vaults i (some v)) i = v.balance by simp [balanceOf]]
      omega
    · rw [show balanceOf (Function.update s.world.vaults id (some v)) i = balanceOf s.world.vaults i by
        simp [balanceOf, Function.update_of_ne hi], (hne i hi).1, (hne i hi).2]
      omega

theorem step_books (h : step H V s cmd = some s') (hs : Books s.world.vaults s.history) :
    Books s'.world.vaults s'.history := by
  cases step_effect h with
  | register len new =>
    exact ((hs.coins (.create new)).congr (t := TxState.install (.setIdentity _ _ _) _) rfl rfl rfl).emit
      fun _ => ⟨rfl, rfl⟩
  | rotate input owner len =>
    exact (hs.congr (t := TxState.install (.setIdentity _ _ _) _) rfl rfl rfl).emit fun _ => ⟨rfl, rfl⟩
  | unlock input accepts nonce =>
    exact (hs.congr (t := TxState.accept (.setIdentity _ _ _) _) rfl rfl rfl).emit fun _ => ⟨rfl, rfl⟩
  | consume witness =>
    obtain ⟨i, j, -, -, rfl⟩ := TxState.takeAuth_some witness
    exact hs.congr rfl rfl rfl
  | @openVault seed c t u take new =>
    have hu := (hs.coins (.takeForCall take)).coins (.create new)
    have hfree := (TxState.create_some new).1.2.2.2.1
    refine hu.setVault rfl rfl ?_ fun i hi => ⟨if_neg hi.symm, rfl⟩
    rw [balanceOf, (MovesCoins.create new).vaults, hfree, deposits, if_pos rfl]
    rfl
  | @deposit id topUp v c t input take pool balance =>
    have hv := (TxState.vaultAt_some input).1
    have hm := MovesCoins.takeForCall take
    have hid := hs.keys hv
    refine (hs.coins hm).setVault hid (by rw [hs.pool hv]) ?_
      fun i hi => ⟨if_neg (by rw [hid]; exact hi.symm), rfl⟩
    rw [balanceOf, hm.vaults, hv, deposits, if_pos hid]
    exact Nat.add_comm ..
  | @withdraw id a recipient amount v auth t u input witness owner sender digest balance pool new =>
    have hv := (TxState.vaultAt_some input).1
    have hid := hs.keys hv
    have ht : Books t.world.vaults t.history ∧ t.world.vaults = s.world.vaults := by
      obtain ⟨i, j, -, -, rfl⟩ := TxState.takeAuth_some witness
      exact ⟨hs.congr rfl rfl rfl, rfl⟩
    refine (ht.1.coins (.create new)).setVault hid (by rw [hs.pool hv]) ?_
      fun i hi => ⟨rfl, if_neg (by rw [hid]; exact hi.symm)⟩
    rw [balanceOf, (MovesCoins.create new).vaults, ht.2, hv, withdraws, if_pos hid]
    show 0 + v.balance = v.balance - amount.toNat + amount.toNat
    omega
  | coins coins => exact hs.coins coins.movesCoins

/-! ## Runs -/

theorem books_unused {w : World} (hw : w.Unused) : Books w.vaults w.log := by
  refine ⟨fun h => ?_, fun h => ?_, fun id => ?_⟩
  · simp [hw.vaults] at h
  · simp [hw.vaults] at h
  · simp [depositedTo, withdrawnFrom, balanceOf, hw.vaults, hw.log]

theorem start_books {w : World} (hw : Books w.vaults w.log) (tx : Tx) :
    Books (start w tx).world.vaults (start w tx).history := by
  refine ⟨hw.keys, hw.pool, fun id => ?_⟩
  have := hw.events id
  simpa [depositedTo, withdrawnFrom, TxState.history, start] using this

theorem run_books {w : World} (hw : w.Unused) (txs : List Tx) :
    Books ((chain H V).run w txs).vaults ((chain H V).run w txs).log := by
  refine (chain H V).run_keeps_all (I := fun w => Books w.vaults w.log)
    (J := fun s => Books s.world.vaults s.history) (fun _ tx hb => start_books hb tx)
      (fun _ _ _ => step_books)
    (fun s w hs hf => ?_) (books_unused hw)
  obtain ⟨-, rfl⟩ := finish_some hf
  exact hs

/-- The books are right, and the supply is a u64. -/
structure Sound (s : TxState) : Prop where
  books : Books s.world.vaults s.history
  supply : Within (2 ^ 64 - 1) 0 s

theorem step_sound (h : step H V s cmd = some s') (hs : Sound s) : Sound s' :=
  ⟨step_books h hs.books, step_within h hs.supply⟩

theorem start_sound {w : World} (hb : Books w.vaults w.log) (hs : ∀ F, w.value F < 2 ^ 64) (tx : Tx) :
    Sound (start w tx) := by
  refine ⟨start_books hb tx, fun F => ?_⟩
  have := hs F
  show w.value F + 0 + 0 ≤ 2 ^ 64 - 1
  omega

theorem finish_sound {w : World} (hs : Sound s) (h : finish s = some w) :
    Books w.vaults w.log ∧ ∀ F, w.value F < 2 ^ 64 := by
  obtain ⟨-, rfl⟩ := finish_some h
  refine ⟨hs.books, fun F => ?_⟩
  have := hs.supply F
  show s.world.value F < 2 ^ 64
  omega

theorem run_sound {w : World} (hw : w.Unused) (hsupply : ∀ F, w.value F < 2 ^ 64) (txs : List Tx) :
    Books ((chain H V).run w txs).vaults ((chain H V).run w txs).log ∧
      ∀ F, ((chain H V).run w txs).value F < 2 ^ 64 :=
  (chain H V).run_keeps_all (I := fun w => Books w.vaults w.log ∧ ∀ F, w.value F < 2 ^ 64)
    (J := Sound) (fun _ tx hw => start_sound hw.1 hw.2 tx) (fun _ _ _ => step_sound)
    (fun _ _ => finish_sound) ⟨books_unused hw, hsupply⟩

/-- The coin of an argument and a vault's pool are part of the supply. -/
theorem deposit_fits {id : ID} {v : Vault} {a : Arg} {c : Coin} {t : TxState} (hs : Sound s)
    (hv : s.world.vaults id = some v) (ht : s.takeForCall a = some (c, t)) :
    v.pool + c.value < 2 ^ 64 := by
  have := hs.supply.takeForCall ht {id}
  simp only [World.value, Finset.sum_singleton, World.poolValue, (MovesCoins.takeForCall ht).vaults, hv,
    Option.elim_some] at this
  omega

/-- In every run from a world in which the packages are unused and the supply
of SUI is a u64: the books are right, in and between transactions; a
withdrawal of at most the balance aborts at one of the first three checks or
not at all; a deposit does not abort; and a transaction with a call that
aborts changes nothing. -/
theorem vault_accounting (H : Hash) (V : Verifiers) {w w' : World} {txs : List Tx} (hw : w.Unused)
    (hsupply : ∀ F, w.value F < 2 ^ 64) (hrun : (chain H V).run w txs = w') :
    (∀ id v, w'.vaults id = some v →
      v.balance = v.pool ∧ v.balance + withdrawnFrom id w'.log = depositedTo id w'.log) ∧
    ∀ (tx : Tx) (pre post : List Command) (cmd : Command) (s : TxState), tx.commands = pre ++ cmd :: post →
      pre.foldlM (step H V) (start w' tx) = some s →
      (∀ id v, s.world.vaults id = some v →
        v.balance = v.pool ∧ v.balance + withdrawnFrom id s.history = depositedTo id s.history ∧
        (∀ auth recipient amount ctx e,
          (PqVault.withdraw H v auth recipient amount ctx).res = .error e → amount ≤ v.balance →
          e = .code PqVault.ENotOwner ∨ e = .code PqVault.EWrongSender ∨ e = .code PqVault.EWrongAction) ∧
        ∀ a c t, s.takeForCall a = some (c, t) → ∃ r, (PqVault.deposit v c).res = .ok r) ∧
      (step H V s cmd = none → (chain H V).next w' tx = w') := by
  subst hrun
  obtain ⟨hb, hs⟩ := run_sound (H := H) (V := V) hw hsupply txs
  have haccount {vaults : ID → Option Vault} {h : List Record} (hb : Books vaults h) {id : ID} {v : Vault}
      (hv : vaults id = some v) : v.balance + withdrawnFrom id h = depositedTo id h := by
    rw [hb.events, balanceOf, hv, Option.elim_some]
  refine ⟨fun id v hv => ⟨hb.pool hv, haccount hb hv⟩, fun tx pre post cmd s hcmds hpre => ⟨?_, ?_⟩⟩
  · have hsound : Sound s := foldlM_keeps_all (fun _ _ _ => step_sound) hpre (start_sound hb hs tx)
    intro id v hv
    have hpool := hsound.books.pool hv
    refine ⟨hpool, haccount hsound.books hv, fun auth recipient amount ctx e he hle => ?_,
      fun a c t ht => ?_⟩
    · rcases withdraw_error hpool he with h | h | h | ⟨-, h⟩
      · exact .inl h
      · exact .inr (.inl h)
      · exact .inr (.inr h)
      · omega
    · have := deposit_fits hsound hv ht
      exact ⟨_, deposit_eq this (by rwa [hpool])⟩
  · intro hnone
    exact (chain H V).next_of_step_none hcmds hpre hnone

/-- The address `1` has opened a vault with the coin. -/
def sampleOpened : World :=
  (chain .zero PqGuard.echo).run (.ofCoins sampleCoins) [sampleTx 20 [.openVault (.object (.fill 7))]]

theorem sampleOpened_vault : sampleOpened.vaults (.fill 20) = some ⟨.fill 20, .fill 1, 10, 10⟩ := rfl

theorem sampleCoins_supply (F : Finset ID) : (World.ofCoins sampleCoins).value F < 2 ^ 64 := by
  have hle : ∑ id ∈ F, (World.ofCoins sampleCoins).coinValue id ≤ 10 := by
    have hval (id : ID) : (World.ofCoins sampleCoins).coinValue id = if id = .fill 7 then 10 else 0 := by
      simp only [World.coinValue, World.ofCoins, sampleCoins]
      split <;> rfl
    simp only [hval, Finset.sum_ite_eq']
    split <;> omega
  have hpool : ∑ id ∈ F, (World.ofCoins sampleCoins).poolValue id = 0 := Finset.sum_eq_zero fun _ _ => rfl
  show _ + _ + 0 < 2 ^ 64
  omega

theorem vault_accounting_sample : sampleOpened.vaults (.fill 20) = some ⟨.fill 20, .fill 1, 10, 10⟩ ∧
    10 + withdrawnFrom (.fill 20) sampleOpened.log = depositedTo (.fill 20) sampleOpened.log :=
  ⟨sampleOpened_vault, ((vault_accounting .zero PqGuard.echo (World.unused_ofCoins sampleCoins)
    sampleCoins_supply rfl).1 _ _ sampleOpened_vault).2⟩

end SuiPq.Proof.Accounting
