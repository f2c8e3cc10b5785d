import SuiPq.Proof.Accounting
import SuiPq.Proof.Identities
import SuiPq.Proof.OneSignature

/-!
# Paying out of a vault

The transaction that unlocks an identity, withdraws with the witness and
transfers the coin. After any run it goes through exactly when the sender
holds the identity and owns the vault, the key accepts the signature, the
nonce is not the last one, the balance is enough and the new coin's id is
fresh (`Payable`); and then it does what `paid` says and nothing else
(`payment_iff`). So no run leaves a vault from which its owner cannot be paid.
-/

namespace SuiPq.Proof.Payment

open SuiPq.Impl SuiPq.Impl.Ptb
open PqGuard (Verifiers PqIdentity PqAuthorized Accepts)
open PqVault (Vault withdrawMessage)

variable {H : Hash} {V : Verifiers}

/-! ## The withdrawal -/

theorem withdraw_eq {v : Vault} {auth : PqAuthorized} {recipient : Address} {amount : Nat} {ctx : TxContext}
    (ho : v.owner = ctx.sender) (hs : auth.sender = ctx.sender)
    (hd : auth.actionDigest = H (withdrawMessage v.id recipient amount)) (hb : amount ≤ v.balance)
    (hp : amount ≤ v.pool) :
    (PqVault.withdraw H v auth recipient amount ctx).res = .ok (ctx.new.2,
      { v with balance := v.balance - amount, pool := v.pool - amount },
      ⟨v.id, recipient, amount, auth.nonce⟩, ⟨ctx.nextId, amount⟩) := by
  rw [PqVault.withdraw, Move.require_pos ho, pure_bind, Move.require_pos hs, pure_bind,
    PqVault.withdrawActionDigest_eq, Comp.hash, Comp.ret_bind, Move.require_pos hd, pure_bind,
    Move.require_pos hb, pure_bind, Move.sub_eq hb, pure_bind]
  show (Balance.split v.pool amount >>= _).res = _
  rw [Accounting.split_eq hp, pure_bind]
  rfl

/-! ## The three commands -/

/-- The state after an unlock of the identity `x`. -/
def unlocked (s : TxState) (id : ID) (x : HeldIdentity) (digest signature : Bytes) : TxState :=
  (((s.setIdentity id { x with identity := { x.identity with nonce := x.identity.nonce + 1 } }).accept
    ⟨x.identity.pk, signature, s.ctx.sender, digest⟩).emit
    (.unlocked ⟨x.identity.id, s.ctx.sender, x.identity.nonce, digest⟩)).push
    [.auth ⟨x.identity.id, s.ctx.sender, x.identity.nonce, digest⟩]

/-- The state after a withdrawal from the vault `v` that spends the witness `auth`, in the state without it. -/
def withdrawn (s : TxState) (id : ID) (v : Vault) (auth : PqAuthorized) (recipient : Address) (amount : Nat) :
    TxState :=
  let s' : TxState := { s with
    world.used := s.ctx.nextId :: s.world.used, unavailable := s.ctx.nextId :: s.unavailable,
    ctx := s.ctx.new.2 }
  ((s'.setVault id { v with balance := v.balance - amount, pool := v.pool - amount }).emit
    (.withdrew ⟨v.id, recipient, amount, auth.nonce⟩)).push [.coin ⟨s.ctx.nextId, amount⟩]

variable {s s' t : TxState} {id : ID}

theorem unlock_iff {digest signature : Bytes} :
    step H V s (.unlock id digest signature) = some s' ↔ ∃ x, s.identityAt id = some x ∧
      Accepts V x.identity s.ctx.sender digest signature ∧ x.identity.nonce + 1 < 2 ^ 64 ∧
      s' = unlocked s id x digest signature := by
  constructor
  · intro h
    cases step_effect h with
    | @unlock _ _ _ x input accepts nonce => exact ⟨x, input, accepts, nonce, rfl⟩
    | coins coins => cases coins
  · rintro ⟨x, input, accepts, nonce, rfl⟩
    exact Option.bind_eq_some_iff.mpr ⟨x, input,
      Option.bind_eq_some_iff.mpr ⟨_, called_some.mpr (PqGuard.unlock_eq accepts nonce), rfl⟩⟩

theorem withdraw_iff {a : Arg} {recipient : Address} {amount : UInt64} {auth : PqAuthorized}
    (witness : s.takeAuth a = some (auth, t)) :
    step H V s (.withdraw id a recipient amount) = some s' ↔ ∃ v, s.vaultAt id = some v ∧
      v.owner = s.ctx.sender ∧ auth.sender = s.ctx.sender ∧
      auth.actionDigest = H (withdrawMessage v.id recipient amount.toNat) ∧ amount.toNat ≤ v.balance ∧
      amount.toNat ≤ v.pool ∧ t.Fresh t.ctx.nextId ∧ s' = withdrawn t id v auth recipient amount.toNat := by
  constructor
  · intro h
    cases step_effect h with
    | @withdraw _ _ _ _ v auth' t' u input witness' owner sender digest balance pool new =>
      obtain ⟨rfl, rfl⟩ := Prod.mk.inj (Option.some.inj (witness.symm.trans witness'))
      obtain ⟨fresh, rfl⟩ := TxState.create_some new
      exact ⟨v, input, owner, sender, digest, balance, pool, fresh, rfl⟩
    | coins coins => cases coins
  · rintro ⟨v, input, owner, sender, digest, balance, pool, fresh, rfl⟩
    rw [← TxState.takeAuth_ctx witness] at owner sender
    exact Option.bind_eq_some_iff.mpr ⟨v, input, Option.bind_eq_some_iff.mpr ⟨(auth, t), witness,
      Option.bind_eq_some_iff.mpr ⟨_, called_some.mpr (withdraw_eq owner sender digest balance pool),
        Option.bind_eq_some_iff.mpr ⟨_, guard_bind_some.mpr ⟨fresh, rfl⟩, rfl⟩⟩⟩⟩

theorem transfer_eq {a : Arg} {recipient : Address} {c : Coin} (hc : s.coinAt a = some c) :
    step H V s (.transferObjects [a] recipient) =
      some (((s.vacate a).store (.address recipient) c).push []) := by
  have htake : takeCoins [a] s = some ([c], s.vacate a) :=
    Option.bind_eq_some_iff.mpr ⟨(c, s.vacate a), TxState.takeCoin_some.mpr ⟨hc, rfl⟩, rfl⟩
  exact Option.bind_eq_some_iff.mpr ⟨_, htake, rfl⟩

/-! ## The transaction -/

/-- Unlocking for the withdrawal, withdrawing with the witness, and transferring the coin. -/
def paymentCommands (H : Hash) (identity vault : ID) (recipient : Address) (amount : UInt64)
    (signature : Bytes) :
    List Command :=
  [.unlock identity (H (withdrawMessage vault recipient amount.toNat)) signature,
    .withdraw vault (.result 0 0) recipient amount, .transferObjects [.result 1 0] recipient]

/-- The world after `sender` has paid `amount` out of the vault to `recipient`, in a coin with id `coin`. -/
def paid (H : Hash) (w : World) (sender : Address) (coin identity : ID) (x : HeldIdentity)
    (vault : ID) (v : Vault) (recipient : Address) (amount : Nat) (signature : Bytes) : World where
  identities := Function.update w.identities identity
    (some { x with identity := { x.identity with nonce := x.identity.nonce + 1 } })
  vaults := Function.update w.vaults vault
    (some { v with balance := v.balance - amount, pool := v.pool - amount })
  coins := Function.update w.coins coin (some ⟨amount, .address recipient⟩)
  elsewhere := w.elsewhere
  used := coin :: w.used
  log := w.log ++ [{
    sender
    events := [.unlocked ⟨identity, sender, x.identity.nonce, H (withdrawMessage vault recipient amount)⟩,
      .withdrew ⟨vault, recipient, amount, x.identity.nonce⟩]
    accepted := [⟨x.identity.pk, signature, sender, H (withdrawMessage vault recipient amount)⟩]
    installed := [] }]

/-- What the two packages keep between transactions. -/
structure Kept (w : World) : Prop where
  identities : ∀ {id x}, w.identities id = some x → x.identity.id = id
  vaults : ∀ {id v}, w.vaults id = some v → v.id = id
  pool : ∀ {id v}, w.vaults id = some v → v.balance = v.pool

theorem run_kept {w : World} (hw : w.Unused) (txs : List Tx) : Kept ((chain H V).run w txs) := by
  have hbooks := Accounting.run_books (H := H) (V := V) hw txs
  exact ⟨(Identities.run_counted hw txs).keys, hbooks.keys, hbooks.pool⟩

/-- Changing an identity that exists makes no id fresh or used. -/
theorem fresh_setIdentity {id new : ID} {x x' : HeldIdentity} (hx : s.world.identities id = some x) :
    (s.setIdentity id x').Fresh new ↔ s.Fresh new := by
  have hnone : Function.update s.world.identities id (some x') new = none ↔ s.world.identities new =
    none := by
    rcases eq_or_ne new id with rfl | hne
    · simp [hx]
    · rw [Function.update_of_ne hne]
  show _ ∧ _ ∧ Function.update s.world.identities id (some x') new = none ∧ _ ↔ _
  rw [hnone]
  rfl

/-- What the transaction needs. -/
structure Payable (H : Hash) (V : Verifiers) (w : World) (tx : Tx) (x : HeldIdentity) (vault : ID) (v : Vault)
    (recipient : Address) (amount : UInt64) (signature : Bytes) : Prop where
  holder : x.holder = tx.sender
  owner : v.owner = tx.sender
  accepts : Accepts V x.identity tx.sender (H (withdrawMessage vault recipient amount.toNat)) signature
  nonce : x.identity.nonce + 1 < 2 ^ 64
  balance : amount.toNat ≤ v.balance
  fresh : (start w tx).Fresh (tx.ids 0)

variable {w w' : World} {tx : Tx} {identity vault : ID} {recipient : Address} {amount : UInt64}
  {signature : Bytes} {x : HeldIdentity} {v : Vault}

theorem exec_paid (hw : Kept w)
    (htx : tx.commands = paymentCommands H identity vault recipient amount signature)
    (hx : w.identities identity = some x) (hv : w.vaults vault = some v)
    (hp : Payable H V w tx x vault v recipient amount signature) :
    (chain H V).exec w tx =
      some (paid H w tx.sender (tx.ids 0) identity x vault v recipient amount.toNat signature) := by
  obtain rfl := hw.identities hx
  obtain rfl := hw.vaults hv
  let digest := H (withdrawMessage v.id recipient amount.toNat)
  let s₁ := unlocked (start w tx) x.identity.id x digest signature
  let auth : PqAuthorized := ⟨x.identity.id, tx.sender, x.identity.nonce, digest⟩
  let s₂ := withdrawn (s₁.setSlot 0 0 .gone) v.id v auth recipient amount.toNat
  have hunlock : step H V (start w tx) (.unlock x.identity.id digest signature) = some s₁ :=
    unlock_iff.mpr ⟨x, Option.bind_eq_some_iff.mpr
      ⟨x, hx, guard_bind_some.mpr ⟨⟨hp.holder, List.not_mem_nil⟩, rfl⟩⟩, hp.accepts, hp.nonce, rfl⟩
  have hwitness : s₁.takeAuth (.result 0 0) = some (auth, s₁.setSlot 0 0 .gone) := rfl
  have hwithdraw : step H V s₁ (.withdraw v.id (.result 0 0) recipient amount) = some s₂ :=
    (withdraw_iff hwitness).mpr ⟨v,
      Option.bind_eq_some_iff.mpr ⟨v, hv, guard_bind_some.mpr ⟨List.not_mem_nil, rfl⟩⟩, hp.owner, rfl, rfl,
      hp.balance, hw.pool hv ▸ hp.balance, (fresh_setIdentity hx).mpr hp.fresh, rfl⟩
  let s₃ := ((s₂.vacate (.result 1 0)).store (.address recipient) ⟨tx.ids 0, amount.toNat⟩).push []
  have htransfer : step H V s₂ (.transferObjects [.result 1 0] recipient) = some s₃ := transfer_eq rfl
  have hcommands : tx.commands.foldlM (step H V) (start w tx) = some s₃ := by
    rw [htx]
    exact foldlM_cons_some.mpr ⟨s₁, hunlock, foldlM_cons_some.mpr ⟨s₂, hwithdraw,
      foldlM_cons_some.mpr ⟨s₃, htransfer, rfl⟩⟩⟩
  have hleft : ∀ y ∈ s₃.results.flatten, y = .gone := by
    show ∀ y ∈ [Value.gone, .gone], y = .gone
    simp
  exact Option.bind_eq_some_iff.mpr ⟨s₃, hcommands, guard_bind_some.mpr ⟨hleft, rfl⟩⟩

theorem payable_of_exec (htx : tx.commands = paymentCommands H identity vault recipient amount signature)
    (h : (chain H V).exec w tx = some w') : ∃ x v, w.identities identity = some x ∧ w.vaults vault = some v ∧
      Payable H V w tx x vault v recipient amount signature := by
  obtain ⟨s, hs, -⟩ := (chain H V).exec_some h
  replace hs : tx.commands.foldlM (step H V) (start w tx) = some s := hs
  rw [htx] at hs
  obtain ⟨s₁, h₁, hs⟩ := foldlM_cons_some.mp hs
  obtain ⟨s₂, h₂, -⟩ := foldlM_cons_some.mp hs
  obtain ⟨x, hx, haccepts, hnonce, rfl⟩ := unlock_iff.mp h₁
  obtain ⟨hx, hholder, -⟩ := TxState.identityAt_some hx
  obtain ⟨v, hv, howner, -, -, hbalance, -, hfresh, -⟩ := (withdraw_iff rfl).mp h₂
  exact ⟨x, v, hx, (TxState.vaultAt_some hv).1, hholder, howner, haccepts, hnonce, hbalance,
    (fresh_setIdentity hx).mp hfresh⟩

/-- After any run from a world in which the packages are unused, the transaction goes through exactly when it is
payable, and then does what `paid` says. -/
theorem payment_iff (H : Hash) (V : Verifiers) {w w' w'' : World} {txs : List Tx} {tx : Tx}
    {identity vault : ID}
    {recipient : Address} {amount : UInt64} {signature : Bytes} (hw : w.Unused)
    (hrun : (chain H V).run w txs = w')
    (htx : tx.commands = paymentCommands H identity vault recipient amount signature) :
    (chain H V).exec w' tx = some w'' ↔ ∃ x v, w'.identities identity = some x ∧ w'.vaults vault = some v ∧
      Payable H V w' tx x vault v recipient amount signature ∧
      w'' = paid H w' tx.sender (tx.ids 0) identity x vault v recipient amount.toNat signature := by
  have hkept : Kept w' := hrun ▸ run_kept hw txs
  constructor
  · intro h
    obtain ⟨x, v, hx, hv, hp⟩ := payable_of_exec htx h
    exact ⟨x, v, hx, hv, hp, Option.some.inj (h.symm.trans (exec_paid hkept htx hx hv hp))⟩
  · rintro ⟨x, v, hx, hv, hp, rfl⟩
    exact exec_paid hkept htx hx hv hp

open OneSignature (sampleSetup samplePayment sampleBefore sampleAfter)

def sampleSignature : Bytes :=
  sampleKey ++ PqGuard.unlockMessage (.fill 1) 0 (Hash.zero (withdrawMessage (.fill 21) (.fill 2) 3))

theorem payment_iff_sample : ∃ x v, sampleBefore.identities (.fill 20) = some x ∧
    sampleBefore.vaults (.fill 21) = some v ∧ sampleAfter = paid .zero sampleBefore (.fill 1)
    (.fill 30) (.fill 20) x
      (.fill 21) v (.fill 2) (3 : UInt64).toNat sampleSignature := by
  have hrun : (chain .zero PqGuard.echo).run (.ofCoins sampleCoins) [sampleSetup] = sampleBefore := rfl
  have htx : samplePayment.commands =
    paymentCommands .zero (.fill 20) (.fill 21) (.fill 2) 3 sampleSignature := rfl
  have hexec : (chain .zero PqGuard.echo).exec sampleBefore samplePayment = some sampleAfter :=
    eq_some_getD (by decide +kernel) sampleBefore
  obtain ⟨x, v, hx, hv, -, hpaid⟩ :=
    (payment_iff .zero PqGuard.echo (World.unused_ofCoins sampleCoins) hrun htx).mp hexec
  exact ⟨x, v, hx, hv, hpaid⟩

end SuiPq.Proof.Payment
