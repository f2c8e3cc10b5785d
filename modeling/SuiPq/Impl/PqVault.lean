import SuiPq.Impl.PqGuard

/-!
# `pq_vault::vault`

The vault whose withdrawals need a witness of `pq_guard`
(`move/pq_vault/sources/vault.move`), over SHA-256 as the hash `H`. A `&mut`
argument is returned as a value, before what a function emits and returns;
an argument `to` is named `recipient`.
-/

namespace SuiPq.Impl.PqVault

open SuiPq.Move SuiPq.Impl.MoveBytes
open SuiPq.Impl.PqGuard (PqAuthorized)

/-- A shared vault; `pool` is the value of its `Balance<SUI>`. -/
structure Vault where
  id : ID
  owner : Address
  balance : Nat
  pool : Nat

structure Deposited where
  vault : ID
  amount : Nat
deriving DecidableEq

structure Withdrew where
  vault : ID
  recipient : Address
  amount : Nat
  pqNonce : Nat
deriving DecidableEq

def ENotOwner : Code := ⟨.vault, 1⟩
def EWrongAction : Code := ⟨.vault, 2⟩
def EWrongSender : Code := ⟨.vault, 3⟩
def EInsufficient : Code := ⟨.vault, 4⟩

/-- `open`: the vault is shared. -/
def openVault (seed : Coin) (ctx : TxContext) : MoveFn (TxContext × Vault × Deposited) := do
  let amount := seed.value
  let (id, ctx) := ctx.new
  let v : Vault := ⟨id, ctx.sender, amount, seed.value⟩
  let vid := v.id
  pure (ctx, v, ⟨vid, amount⟩)

def deposit (vault : Vault) (topUp : Coin) : MoveFn (Vault × Deposited) := do
  let amount := topUp.value
  let vault := { vault with pool := ← Balance.join vault.pool topUp.value }
  let vault := { vault with balance := ← add 64 vault.balance amount }
  pure (vault, ⟨vault.id, amount⟩)

def withdrawActionDigest (H : Hash) (vault : Vault) (recipient : Address) (amount : Nat) : MoveFn Bytes := do
  let buf := []
  let buf ← concat buf (ascii "PQ_VAULT:WITHDRAW:v1")
  let buf ← concat buf vault.id.bytes
  let buf ← concat buf recipient.bytes
  let buf ← concat buf (← u64Be amount)
  Comp.hash H buf

/-- The coin goes to the caller. -/
def withdraw (H : Hash) (vault : Vault) (auth : PqAuthorized) (recipient : Address) (amount : Nat)
    (ctx : TxContext) : MoveFn (TxContext × Vault × Withdrew × Coin) := do
  require (vault.owner = ctx.sender) ENotOwner
  require (auth.sender = ctx.sender) EWrongSender
  let expected ← withdrawActionDigest H vault recipient amount
  require (auth.actionDigest = expected) EWrongAction
  require (vault.balance ≥ amount) EInsufficient
  let vault := { vault with balance := ← sub vault.balance amount }
  let pqNonce := auth.nonce
  let event : Withdrew := ⟨vault.id, recipient, amount, pqNonce⟩
  let (pool, coin) ← Balance.split vault.pool amount
  let (id, ctx) := ctx.new
  pure (ctx, { vault with pool }, event, ⟨id, coin⟩)

end SuiPq.Impl.PqVault
