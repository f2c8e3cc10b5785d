import SuiPq.Proof.Ptb.Coins

/-!
# What others cannot do

In a run of transactions that an address sends none of, the identities it
holds stay as they are, the vaults it owns lose nothing, and the coins it has
stay with their values, those that others' transactions name for their gas
apart (`others_run`). What a command does to one coin of somebody else's is
`Kept`.
-/

namespace SuiPq.Proof.Isolation

open SuiPq.Impl SuiPq.Impl.Ptb
open SuiPq.Impl.PqGuard (Verifiers PqAuthorized)
open SuiPq.Impl.PqVault (Vault)

variable {H : Hash} {V : Verifiers} {s s' t : TxState} {cmd : Command} {a : Address} {c : ID} {value : Nat}

/-! ## A coin of somebody else's -/

/-- The coin `c` of `a`, in a transaction of somebody else that does not pay with it. -/
structure Kept (a : Address) (c : ID) (value : Nat) (s : TxState) : Prop where
  sender : s.ctx.sender ≠ a
  gas : s.gas ≠ c
  coin : s.world.coins c = some ⟨value, .address a⟩
  held : s.heldCount c = 0

namespace Kept

theorem congr (h : Kept a c value s) (hs : t.ctx.sender = s.ctx.sender) (hg : t.gas = s.gas)
    (hc : t.world.coins c = s.world.coins c) (hr : t.results = s.results) : Kept a c value t := by
  refine ⟨by rw [hs]; exact h.sender, by rw [hg]; exact h.gas, hc.trans h.coin, ?_⟩
  rw [TxState.heldCount, hr]
  exact h.held

theorem push {vs : List Value} (h : Kept a c value s) (hvs : vs.countP (Value.isCoin c) = 0) :
    Kept a c value (s.push vs) := by
  refine ⟨h.sender, h.gas, h.coin, ?_⟩
  rw [TxState.heldCount_push, h.held, hvs]

theorem setSlot {i j : Nat} {v v' : Value} (h : Kept a c value s) (hv : s.slot i j = some v)
    (hv' : v'.isCoin c = false) : Kept a c value (s.setSlot i j v') := by
  have hcount := TxState.heldCount_setSlot hv v' c
  rw [h.held, hv'] at hcount
  exact ⟨h.sender, h.gas, h.coin, by simp at hcount; omega⟩

theorem setCoin {d : ID} (h : Kept a c value s) (hd : d ≠ c) (x : Option StoredCoin) :
    Kept a c value (s.setCoin d x) :=
  h.congr rfl rfl (Function.update_of_ne hd.symm ..) rfl

/-- The coin is no argument of the transaction's commands. -/
theorem coinAt_ne {arg : Arg} {d : Coin} (h : Kept a c value s) (hd : s.coinAt arg = some d) : d.id ≠ c := by
  rintro rfl
  cases arg with
  | object id =>
    obtain ⟨rfl, -, o, ho, hpay⟩ := TxState.coinAt_object.mp hd
    rw [h.coin] at ho
    cases ho
    rcases hpay with hpay | hpay
    · exact h.sender hpay.symm
    · exact h.gas hpay.symm
  | result i j =>
    have hcount := TxState.heldCount_setSlot (TxState.coinAt_result.mp hd) .gone d.id
    simp [h.held, Value.isCoin] at hcount

theorem isCoin_coin {d : Coin} (hd : d.id ≠ c) : (Value.coin d).isCoin c = false := decide_eq_false hd

theorem vacate {arg : Arg} {d : Coin} (h : Kept a c value s) (hd : s.coinAt arg = some d) :
    Kept a c value (s.vacate arg) := by
  have hne := h.coinAt_ne hd
  obtain ⟨i, j, rfl, hs⟩ | ⟨rfl, -, -⟩ := TxState.coinAt_some hd
  · exact h.setSlot hs rfl
  · exact (h.setCoin hne none).congr rfl rfl rfl rfl

theorem setValue {arg : Arg} {d : Coin} (h : Kept a c value s) (hd : s.coinAt arg = some d) (value' : Nat) :
    Kept a c value (s.setValue arg d value') := by
  have hne := h.coinAt_ne hd
  obtain ⟨i, j, rfl, hs⟩ | ⟨rfl, -, -⟩ := TxState.coinAt_some hd
  · exact h.setSlot hs (isCoin_coin hne)
  · exact h.setCoin hne _

theorem takeCoin {arg : Arg} {d : Coin} (h : Kept a c value s) (ht : s.takeCoin arg = some (d, t)) :
    Kept a c value t ∧ d.id ≠ c := by
  obtain ⟨hd, rfl⟩ := TxState.takeCoin_some.mp ht
  exact ⟨h.vacate hd, h.coinAt_ne hd⟩

theorem takeCoins {args : List Arg} {cs : List Coin} (h : Kept a c value s)
    (ht : Ptb.takeCoins args s = some (cs, t)) : Kept a c value t ∧ ∀ d ∈ cs, d.id ≠ c := by
  induction args generalizing s cs with
  | nil =>
    cases (ht : some ([], s) = some (cs, t))
    exact ⟨h, by simp⟩
  | cons arg args ih =>
    obtain ⟨⟨d, s₁⟩, h₁, ht⟩ := Option.bind_eq_some_iff.mp ht
    obtain ⟨⟨cs', s₂⟩, h₂, ht⟩ := Option.bind_eq_some_iff.mp ht
    cases ht
    obtain ⟨hk, hd⟩ := h.takeCoin h₁
    obtain ⟨hk, hds⟩ := ih hk h₂
    exact ⟨hk, List.forall_mem_cons.mpr ⟨hd, hds⟩⟩

theorem create {id : ID} (h : Kept a c value s) (ht : s.create id s.ctx.new.2 = some t) :
    Kept a c value t ∧ id ≠ c := by
  obtain ⟨⟨-, -, -, -, hfree⟩, rfl⟩ := TxState.create_some ht
  refine ⟨h.congr rfl rfl rfl rfl, ?_⟩
  rintro rfl
  rw [h.coin] at hfree
  cases hfree

theorem newCoins {values : List Nat} {cs : List Coin} (h : Kept a c value s)
    (ht : Ptb.newCoins values s = some (cs, t)) : Kept a c value t ∧ ∀ d ∈ cs, d.id ≠ c := by
  induction values generalizing s cs with
  | nil =>
    cases (ht : some ([], s) = some (cs, t))
    exact ⟨h, by simp⟩
  | cons v vs ih =>
    obtain ⟨s₁, h₁, ht⟩ := Option.bind_eq_some_iff.mp ht
    obtain ⟨⟨cs', s₂⟩, h₂, ht⟩ := Option.bind_eq_some_iff.mp ht
    cases ht
    obtain ⟨hk, hd⟩ := h.create h₁
    obtain ⟨hk, hds⟩ := ih hk h₂
    exact ⟨hk, List.forall_mem_cons.mpr ⟨hd, hds⟩⟩

theorem foldl_store (o : Owner) {cs : List Coin} (h : Kept a c value s) (hcs : ∀ d ∈ cs, d.id ≠ c) :
    Kept a c value (cs.foldl (TxState.store · o) s) := by
  induction cs generalizing s with
  | nil => exact h
  | cons d cs ih =>
    obtain ⟨hd, hcs⟩ := List.forall_mem_cons.mp hcs
    exact ih (h.setCoin hd _) hcs

theorem push_coins {cs : List Coin} (h : Kept a c value s) (hcs : ∀ d ∈ cs, d.id ≠ c) :
    Kept a c value (s.push (cs.map .coin)) := by
  refine h.push ?_
  rw [countP_isCoin, countId, List.countP_eq_zero]
  intro d hd
  simpa using hcs d hd

theorem takeAuth {arg : Arg} {auth : PqAuthorized} (h : Kept a c value s)
    (ht : s.takeAuth arg = some (auth, t)) :
    Kept a c value t := by
  obtain ⟨i, j, -, hs, rfl⟩ := TxState.takeAuth_some ht
  exact h.setSlot hs rfl

end Kept

theorem step_kept (h : step H V s cmd = some s') (hs : Kept a c value s) : Kept a c value s' := by
  have hnil {t : TxState} (ht : Kept a c value t) : Kept a c value (t.push []) := ht.push rfl
  cases step_effect h with
  | register len new => exact hnil ((hs.create new).1.congr rfl rfl rfl rfl)
  | rotate input owner len => exact hnil (hs.congr rfl rfl rfl rfl)
  | unlock input accepts nonce => exact .push (hs.congr rfl rfl rfl rfl) rfl
  | consume witness => exact hnil (hs.takeAuth witness)
  | openVault take new =>
    have ht := (hs.takeCoin (TxState.takeForCall_some take)).1
    exact hnil ((ht.create new).1.congr rfl rfl rfl rfl)
  | deposit input take pool balance =>
    exact hnil ((hs.takeCoin (TxState.takeForCall_some take)).1.congr rfl rfl rfl rfl)
  | withdraw input witness owner sender digest balance pool new =>
    obtain ⟨hu, hne⟩ := (hs.takeAuth witness).create new
    exact .push (hu.congr rfl rfl rfl rfl) (by simp [Value.isCoin, hne])
  | coins coins =>
    cases coins with
    | splitCoins coin le new =>
      obtain ⟨ht, hcs⟩ := (hs.setValue coin _).newCoins new
      exact ht.push_coins hcs
    | mergeCoins take coin lt => exact hnil ((hs.takeCoins take).1.setValue coin _)
    | transferObjects take =>
      obtain ⟨ht, hcs⟩ := hs.takeCoins take
      exact hnil (ht.foldl_store _ hcs)
    | wrap take =>
      obtain ⟨ht, hne⟩ := hs.takeCoin (TxState.takeForCall_some take)
      exact hnil (ht.setCoin hne _)
    | unwrap coin =>
      obtain ⟨rfl, hc⟩ := wrappedAt_some coin
      rename_i d
      have hne : d.id ≠ c := by
        rintro rfl
        rw [hs.coin] at hc
        cases hc
      exact .push ((hs.setCoin hne none).congr rfl rfl rfl rfl) (by simp [Value.isCoin, hne])
    | absorb take => exact hnil ((hs.takeCoin (TxState.takeForCall_some take)).1.congr rfl rfl rfl rfl)
    | release le new =>
      obtain ⟨ht, hcs⟩ := hs.newCoins new
      exact .push_coins (ht.congr rfl rfl rfl rfl) hcs

/-! ## Identities and vaults -/

/-- An identity of `a` is no argument of somebody else's commands. -/
theorem step_identity {id : ID} {x : HeldIdentity} (h : step H V s cmd = some s')
    (hs : s.ctx.sender ≠ x.holder ∧ s.world.identities id = some x) :
    s'.ctx.sender ≠ x.holder ∧ s'.world.identities id = some x := by
  obtain ⟨hsender, hx⟩ := hs
  have hinput {i : ID} {y : HeldIdentity} (hy : s.identityAt i = some y) : id ≠ i := by
    rintro rfl
    obtain ⟨hy, hholder, -⟩ := TxState.identityAt_some hy
    cases hx.symm.trans hy
    exact hsender hholder.symm
  cases step_effect h with
  | @register scheme pk t len new =>
    have hm := MovesCoins.create new
    have hne : id ≠ s.ctx.nextId := by
      rintro rfl
      have := (TxState.create_some new).1.2.2.1.symm.trans hx
      cases this
    refine ⟨hm.sender ▸ hsender, ?_⟩
    show Function.update t.world.identities _ _ id = _
    rw [Function.update_of_ne hne, hm.identities, hx]
  | rotate input owner len => exact ⟨hsender, (Function.update_of_ne (hinput input) ..).trans hx⟩
  | unlock input accepts nonce => exact ⟨hsender, (Function.update_of_ne (hinput input) ..).trans hx⟩
  | consume witness =>
    obtain ⟨i, j, -, -, rfl⟩ := TxState.takeAuth_some witness
    exact ⟨hsender, hx⟩
  | openVault take new =>
    have hm := (MovesCoins.takeForCall take).trans (.create new)
    exact ⟨hm.sender ▸ hsender, (congrFun hm.identities id).trans hx⟩
  | deposit input take pool balance =>
    have hm := MovesCoins.takeForCall take
    exact ⟨hm.sender ▸ hsender, (congrFun hm.identities id).trans hx⟩
  | withdraw input witness owner sender digest balance pool new =>
    obtain ⟨i, j, -, -, rfl⟩ := TxState.takeAuth_some witness
    have hm := MovesCoins.create new
    exact ⟨hm.sender ▸ hsender, (congrFun hm.identities id).trans hx⟩
  | coins coins =>
    have hm := coins.movesCoins
    exact ⟨hm.sender ▸ hsender, (congrFun hm.identities id).trans hx⟩

/-- The vault is the same one with as much in it, or more. -/
structure Grown (v v' : Vault) : Prop where
  id : v'.id = v.id
  owner : v'.owner = v.owner
  balance : v.balance ≤ v'.balance
  pool : v.pool ≤ v'.pool

/-- Somebody else's commands take nothing out of a vault. -/
theorem step_vault {id : ID} {v : Vault} (h : step H V s cmd = some s')
    (hs : s.ctx.sender ≠ v.owner ∧ ∃ v', s.world.vaults id = some v' ∧ Grown v v') :
    s'.ctx.sender ≠ v.owner ∧ ∃ v', s'.world.vaults id = some v' ∧ Grown v v' := by
  obtain ⟨hsender, v', hv, hgrown⟩ := hs
  have hsame {t : TxState} (hm : MovesCoins s t) :
      t.ctx.sender ≠ v.owner ∧ ∃ v', t.world.vaults id = some v' ∧ Grown v v' :=
    ⟨hm.sender ▸ hsender, v', (congrFun hm.vaults id).trans hv, hgrown⟩
  cases step_effect h with
  | register len new =>
    obtain ⟨hsender, hv⟩ := hsame (.create new)
    exact ⟨hsender, hv⟩
  | rotate input owner len => exact ⟨hsender, v', hv, hgrown⟩
  | unlock input accepts nonce => exact ⟨hsender, v', hv, hgrown⟩
  | consume witness =>
    obtain ⟨i, j, -, -, rfl⟩ := TxState.takeAuth_some witness
    exact ⟨hsender, v', hv, hgrown⟩
  | @openVault seed d t u take new =>
    have hm := MovesCoins.takeForCall take
    have hne : id ≠ t.ctx.nextId := by
      rintro rfl
      have := (TxState.create_some new).1.2.2.2.1.symm.trans ((congrFun hm.vaults _).trans hv)
      cases this
    obtain ⟨hsender, v', hv, hgrown⟩ := hsame (hm.trans (.create new))
    exact ⟨hsender, v', (Function.update_of_ne hne ..).trans hv, hgrown⟩
  | @deposit i topUp u d t input take pool balance =>
    have hm := MovesCoins.takeForCall take
    obtain ⟨hsender, -⟩ := hsame hm
    rcases eq_or_ne id i with rfl | hne
    · cases hv.symm.trans (TxState.vaultAt_some input).1
      exact ⟨hsender, _, Function.update_self .., hgrown.id, hgrown.owner,
        hgrown.balance.trans (Nat.le_add_right ..), hgrown.pool.trans (Nat.le_add_right ..)⟩
    · exact ⟨hsender, v', (Function.update_of_ne hne ..).trans ((congrFun hm.vaults id).trans hv), hgrown⟩
  | @withdraw i arg recipient amount u auth t t' input witness owner sender digest balance pool new =>
    have hne : id ≠ i := by
      rintro rfl
      cases hv.symm.trans (TxState.vaultAt_some input).1
      exact hsender (owner.symm.trans hgrown.owner)
    obtain ⟨j, k, -, -, rfl⟩ := TxState.takeAuth_some witness
    have hm := MovesCoins.create new
    exact ⟨hm.sender ▸ hsender, v', (Function.update_of_ne hne ..).trans
      ((congrFun hm.vaults id).trans hv), hgrown⟩
  | coins coins => exact hsame coins.movesCoins

/-! ## Runs -/

/-- In a run of transactions that `a` sends none of: the identities that `a` holds stay as they are; the vaults of
`a` stay `a`'s and lose nothing; and the coins of `a` that pay for none of the transactions stay with their values. -/
theorem others_run (H : Hash) (V : Verifiers) {w w' : World} {txs : List Tx} {a : Address}
    (hrun : (chain H V).run w txs = w') (hothers : ∀ tx ∈ txs, tx.sender ≠ a) :
    (∀ id x, w.identities id = some x → x.holder = a → w'.identities id = some x) ∧
    (∀ id v, w.vaults id = some v → v.owner = a → ∃ v', w'.vaults id = some v' ∧ Grown v v') ∧
    ∀ id value, w.coins id = some ⟨value, .address a⟩ → (∀ tx ∈ txs, tx.gas ≠ id) →
      w'.coins id = some ⟨value, .address a⟩ := by
  subst hrun
  refine ⟨fun id x hx hholder => ?_, fun id v hv howner => ?_, fun id value hc hgas => ?_⟩
  · refine (chain H V).run_keeps_mem (I := fun w => w.identities id = some x)
      (J := fun s => s.ctx.sender ≠ x.holder ∧ s.world.identities id = some x)
      (fun tx htx w hx => ⟨hholder ▸ hothers tx htx, hx⟩) (fun s c s' => step_identity)
      (fun s w' hs hf => ?_) hx
    obtain ⟨-, rfl⟩ := finish_some hf
    exact hs.2
  · refine (chain H V).run_keeps_mem (I := fun w => ∃ v', w.vaults id = some v' ∧ Grown v v')
      (J := fun s => s.ctx.sender ≠ v.owner ∧ ∃ v', s.world.vaults id = some v' ∧ Grown v v')
      (fun tx htx w hv => ⟨howner ▸ hothers tx htx, hv⟩) (fun s c s' => step_vault) (fun s w' hs hf => ?_)
      ⟨v, hv, rfl, rfl, le_rfl, le_rfl⟩
    obtain ⟨-, rfl⟩ := finish_some hf
    exact hs.2
  · refine (chain H V).run_keeps_mem (I := fun w => w.coins id = some ⟨value, .address a⟩)
      (J := Kept a id value)
      (fun tx htx w hc => ⟨hothers tx htx, hgas tx htx, hc, rfl⟩) (fun s c s' => step_kept)
      (fun s w' hs hf => ?_) hc
    obtain ⟨-, rfl⟩ := finish_some hf
    exact hs.coin

/-! ## A deposit by somebody else -/

/-- The address `2` has a coin of 4 next to the identity and the vault of the address `1`. -/
def sampleShared : World :=
  { sampleWorld with coins := fun id => if id = .fill 7 then some ⟨4, .address (.fill 2)⟩ else none }

def sampleDeposit : Tx := { sampleTx 20 [.deposit (.fill 11) (.object (.fill 7))] with sender := .fill 2 }

theorem others_run_sample : ∃ v',
    ((chain .zero PqGuard.echo).run sampleShared [sampleDeposit]).vaults (.fill 11) =
    some v' ∧ Grown sampleVault v' := by
  refine (others_run .zero PqGuard.echo (a := .fill 1) rfl fun tx htx => ?_).2.1
    (.fill 11) sampleVault rfl rfl
  rw [List.mem_singleton.mp htx]
  decide

end SuiPq.Proof.Isolation
