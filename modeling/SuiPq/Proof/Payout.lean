import SuiPq.Proof.Ptb.Coins

/-!
# Where a withdrawal's coin goes

`withdraw` returns its coin to the transaction, and who gets it is up to the
commands that follow: any address can (`payout_redirected`). The coin ends
with the address that was signed for exactly when one of these commands
transfers it there (`payout_iff`).
-/

namespace SuiPq.Proof.Payout

open SuiPq.Impl SuiPq.Impl.Ptb
open SuiPq.Impl.PqGuard (Verifiers)

variable {H : Hash} {V : Verifiers} {c : ID} {v : Nat} {r : Address}

/-- `transferObjects` gives a coin that it takes to its recipient. -/
theorem delivers_step {s s' : TxState} {cmd : Command} (h : step H V s cmd = some s')
    (hs : Once c 0 s) (hd : Delivers s c v r cmd) : s'.world.coins c = some ⟨v, .address r⟩ := by
  cases cmd with
  | transferObjects objects recipient =>
    obtain ⟨rfl, a, ha, had⟩ := hd
    cases step_effect h with
    | coins coins =>
      cases coins with
      | @transferObjects _ _ cs t take =>
        obtain ⟨d, hd, hda⟩ := takeCoins_get take ha
        obtain rfl := Option.some.inj (had.symm.trans hda)
        have honce := (hs.takeCoins take).once
        obtain ⟨e, he, hec, hstore⟩ | ⟨hne, -⟩ := foldl_store_coin (c := c) (.address recipient) cs t
        · rw [eq_of_countId (by omega) he hd hec rfl] at hstore
          exact hstore
        · exact absurd rfl (hne _ hd)
  | _ => exact hd.elim

/-- A coin that the transaction has given to an address stays there. -/
theorem step_delivered {s s' : TxState} {cmd : Command} (h : step H V s cmd = some s')
    (hs : (c ∈ s.unavailable ∧ Once c 0 s) ∧ s.world.coins c = some ⟨v, .address r⟩) :
    (c ∈ s'.unavailable ∧ Once c 0 s') ∧ s'.world.coins c = some ⟨v, .address r⟩ := by
  obtain ⟨⟨hc, honce⟩, hcoin⟩ := hs
  have hheld := honce.once
  rw [hcoin, Option.isSome_some, if_pos rfl] at hheld
  obtain ⟨hu, hcoin' | ⟨-, w, hw⟩ | ⟨hpos, -⟩⟩ := step_coin h hc
  · exact ⟨⟨hu, step_once h honce⟩, hcoin'.trans hcoin⟩
  · rw [hcoin] at hw
    cases hw
  · omega

/-- The coin `c` is with `r` after some commands exactly when one of them took it there. -/
theorem delivered_iff : ∀ {cs : List Command} {s s' : TxState}, cs.foldlM (step H V) s = some s' →
    c ∈ s.unavailable → Once c 0 s → s.world.coins c ≠ some ⟨v, .address r⟩ →
    (s'.world.coins c = some ⟨v, .address r⟩ ↔ ∃ a cmd b t, cs = a ++ cmd :: b ∧
      a.foldlM (step H V) s = some t ∧ Delivers t c v r cmd)
  | [], s, s', h, _, _, hne => by
    cases (h : some s = some s')
    exact ⟨fun h => absurd h hne, fun ⟨a, cmd, b, t, h, _⟩ => by simp at h⟩
  | cmd :: cs, s, s', h, hc, honce, hne => by
    obtain ⟨t, ht, h⟩ := foldlM_cons_some.mp h
    have hu := (step_coin ht hc).1
    have honce' := step_once ht honce
    by_cases hcoin : t.world.coins c = some ⟨v, .address r⟩
    · have hd : Delivers s c v r cmd := by
        obtain ⟨-, hcoin' | ⟨hnone, -⟩ | ⟨-, ⟨w, hw⟩ | ⟨w, r', hw, hd⟩⟩⟩ := step_coin ht hc
        · exact absurd (hcoin'.symm.trans hcoin) hne
        · rw [hcoin] at hnone
          cases hnone
        · rw [hcoin] at hw
          cases hw
        · rw [hcoin] at hw
          cases hw
          exact hd
      exact ⟨fun _ => ⟨[], cmd, cs, s, rfl, rfl, hd⟩, fun _ => (foldlM_keeps_all
        (J := fun s => (c ∈ s.unavailable ∧ Once c 0 s) ∧ s.world.coins c = some ⟨v, .address r⟩)
        (fun _ _ _ => step_delivered) h ⟨⟨hu, honce'⟩, hcoin⟩).2⟩
    · rw [delivered_iff h hu honce' hcoin]
      constructor
      · rintro ⟨a, cmd', b, u, rfl, hu, hd⟩
        exact ⟨cmd :: a, cmd', b, u, rfl, foldlM_cons_some.mpr ⟨t, ht, hu⟩, hd⟩
      · rintro ⟨_ | ⟨cmd₀, a⟩, cmd', b, u, hcs, hu, hd⟩
        · cases hcs
          cases (hu : some s = some u)
          exact absurd (delivers_step ht honce hd) hcoin
        · cases hcs
          obtain ⟨t', ht', hu⟩ := foldlM_cons_some.mp hu
          obtain rfl := Option.some.inj (ht.symm.trans ht')
          exact ⟨a, cmd', b, u, rfl, hu, hd⟩

theorem once_start (c : ID) (w : World) (tx : Tx) : Once c 0 (start w tx) := by
  refine ⟨fun _ => ⟨rfl, rfl⟩, ?_⟩
  show 0 + (if (w.coins c).isSome then 1 else 0) + 0 ≤ 1
  split <;> omega

/-- In a transaction that goes through, the coin of a withdrawal of `amount`
for `recipient` ends with `recipient`, with that value, if and only if a later
command transfers it there when it has that value. -/
theorem payout_iff (H : Hash) (V : Verifiers) {w w' : World} {tx : Tx} {pre post : List Command}
    {vault : ID} {auth : Arg} {recipient : Address} {amount : UInt64} {s s' : TxState}
    (hcmds : tx.commands = pre ++ .withdraw vault auth recipient amount :: post)
    (hpre : pre.foldlM (step H V) (start w tx) = some s)
    (hstep : step H V s (.withdraw vault auth recipient amount) = some s')
    (hexec : (chain H V).exec w tx = some w') :
    w'.coins s.ctx.nextId = some ⟨amount.toNat, .address recipient⟩ ↔
      ∃ a cmd b t, post = a ++ cmd :: b ∧ a.foldlM (step H V) s' = some t ∧
        Delivers t s.ctx.nextId amount.toNat recipient cmd := by
  obtain ⟨u, hu, hf⟩ := (chain H V).exec_some hexec
  obtain ⟨-, rfl⟩ := finish_some hf
  replace hu : tx.commands.foldlM (step H V) (start w tx) = some u := hu
  rw [hcmds] at hu
  obtain ⟨s₁, h₁, hu⟩ := foldlM_append_some.mp hu
  obtain rfl := Option.some.inj (hpre.symm.trans h₁)
  obtain ⟨s₂, h₂, hu⟩ := foldlM_cons_some.mp hu
  obtain rfl := Option.some.inj (hstep.symm.trans h₂)
  have honce := step_once hstep (foldlM_keeps_all (J := Once s.ctx.nextId 0) (fun _ _ _ => step_once) hpre
    (once_start _ w tx))
  cases step_effect hstep with
  | withdraw input witness owner sender digest balance pool new =>
    rw [← TxState.takeAuth_ctx witness] at honce ⊢
    obtain ⟨⟨-, -, -, -, hfree⟩, rfl⟩ := TxState.create_some new
    refine delivered_iff hu List.mem_cons_self honce fun h => ?_
    have := hfree.symm.trans h
    cases this
  | coins coins => cases coins

/-! ## A coin that goes elsewhere -/

def sampleDigest : Bytes := Hash.zero (PqVault.withdrawMessage (.fill 11) (.fill 2) 3)

def sampleUnlock : Command :=
  .unlock (.fill 10) sampleDigest (sampleKey ++ PqGuard.unlockMessage (.fill 1) 0 sampleDigest)

def sampleWithdraw : Command := .withdraw (.fill 11) (.result 0 0) (.fill 2) 3

/-- Withdrawing 3 for the address `2`, and transferring the coin to `r`. -/
def samplePayout (r : Address) : Tx :=
  sampleTx 20 [sampleUnlock, sampleWithdraw, .transferObjects [.result 1 0] r]

/-- The state in which the withdrawal runs, and the one after it. -/
def sampleBefore (r : Address) : TxState :=
  (step .zero PqGuard.echo (start sampleWorld (samplePayout r)) sampleUnlock).getD
    (start sampleWorld (samplePayout r))

def sampleAfter (r : Address) : TxState :=
  (step .zero PqGuard.echo (sampleBefore r) sampleWithdraw).getD (sampleBefore r)

theorem payout_iff_sample :
    ((chain .zero PqGuard.echo).next sampleWorld (samplePayout (.fill 2))).coins
      (sampleBefore (.fill 2)).ctx.nextId = some ⟨(3 : UInt64).toNat, .address (.fill 2)⟩ := by
  have hbefore : [sampleUnlock].foldlM (step .zero PqGuard.echo)
      (start sampleWorld (samplePayout (.fill 2))) = some (sampleBefore (.fill 2)) :=
    foldlM_cons_some.mpr ⟨_, eq_some_getD (by decide +kernel) _, rfl⟩
  have hafter : step .zero PqGuard.echo (sampleBefore (.fill 2)) sampleWithdraw =
    some (sampleAfter (.fill 2)) := eq_some_getD (by decide +kernel) _
  have hexec : (chain .zero PqGuard.echo).exec sampleWorld (samplePayout (.fill 2)) =
    some ((chain .zero PqGuard.echo).next sampleWorld (samplePayout (.fill 2))) :=
    eq_some_getD (by decide +kernel) _
  have hcmds : (samplePayout (.fill 2)).commands =
    [sampleUnlock] ++ sampleWithdraw :: [.transferObjects [.result 1 0] (.fill 2)] := rfl
  refine (payout_iff .zero PqGuard.echo hcmds hbefore hafter hexec).mpr
    ⟨[], _, [], sampleAfter (.fill 2), rfl, rfl, rfl, _, List.mem_cons_self, ?_⟩
  decide +kernel

/-- The signature for paying the address `2` pays the address `3`. -/
theorem payout_redirected : ¬ ∀ (H : Hash) (V : Verifiers) (w w' : World) (tx : Tx)
    (pre post : List Command) (vault : ID) (auth : Arg) (recipient : Address) (amount : UInt64)
    (s s' : TxState), tx.commands = pre ++ .withdraw vault auth recipient amount :: post →
    pre.foldlM (step H V) (start w tx) = some s →
    step H V s (.withdraw vault auth recipient amount) = some s' → (chain H V).exec w tx = some w' →
    w'.coins s.ctx.nextId = some ⟨amount.toNat, .address recipient⟩ := by
  intro h
  have := h .zero PqGuard.echo sampleWorld
    ((chain .zero PqGuard.echo).next sampleWorld (samplePayout (.fill 3))) (samplePayout (.fill 3))
    [sampleUnlock] [.transferObjects [.result 1 0] (.fill 3)] _ _ _ _ (sampleBefore (.fill 3))
    (sampleAfter (.fill 3)) rfl (foldlM_cons_some.mpr ⟨_, eq_some_getD (by decide +kernel) _, rfl⟩)
    (eq_some_getD (by decide +kernel) _) (eq_some_getD (by decide +kernel) _)
  revert this
  decide +kernel

end SuiPq.Proof.Payout
