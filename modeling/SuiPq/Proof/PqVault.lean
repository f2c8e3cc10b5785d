import SuiPq.Impl.PqVault
import SuiPq.Proof.PqGuard

/-!
# `pq_vault`

What its functions do when they return: `openVault_ok`, `deposit_ok` and
`withdraw_ok`. `withdrawActionDigest_eq` is the digest that authorizes a
withdrawal.
-/

namespace SuiPq.Impl.PqVault

open SuiPq.Move SuiPq.Impl.MoveBytes
open SuiPq.Impl.PqGuard (PqAuthorized)

/-- The bytes whose hash authorizes a withdrawal. -/
def withdrawMessage (vault : ID) (recipient : Address) (amount : Nat) : Bytes :=
  ascii "PQ_VAULT:WITHDRAW:v1" ++ vault.bytes ++ recipient.bytes ++ be 8 amount

theorem withdrawActionDigest_eq (H : Hash) (v : Vault) (recipient : Address) (amount : Nat) :
    withdrawActionDigest H v recipient amount = Comp.hash H (withdrawMessage v.id recipient amount) := by
  have hlen (a : Address) : a.bytes.length < 2 ^ 64 := by rw [a.length_bytes]; decide
  simp only [withdrawActionDigest, pure_bind, List.nil_append, u64Be_eq, concat_eq (hlen v.id),
    concat_eq (show (ascii "PQ_VAULT:WITHDRAW:v1").length < 2 ^ 64 by decide),
    concat_eq (hlen recipient), concat_eq (show (be 8 amount).length < 2 ^ 64 by rw [length_be]; decide)]
  rfl

theorem openVault_ok {seed : Coin} {ctx ctx' : TxContext} {v : Vault} {e : Deposited}
    (h : (openVault seed ctx).res = .ok (ctx', v, e)) :
    ctx' = ctx.new.2 ∧ v = ⟨ctx.nextId, ctx.sender, seed.value, seed.value⟩ ∧
      e = ⟨ctx.nextId, seed.value⟩ := by
  cases h
  exact ⟨rfl, rfl, rfl⟩

theorem deposit_ok {v v' : Vault} {topUp : Coin} {e : Deposited}
    (h : (deposit v topUp).res = .ok (v', e)) :
    v.pool + topUp.value < 2 ^ 64 ∧ v.balance + topUp.value < 2 ^ 64 ∧
      v' = { v with balance := v.balance + topUp.value, pool := v.pool + topUp.value } ∧
      e = ⟨v.id, topUp.value⟩ := by
  obtain ⟨_, hp, h⟩ := Comp.bind_ok h
  obtain ⟨_, hb, h⟩ := Comp.bind_ok h
  obtain ⟨hpool, rfl⟩ := add_ok.mp hp
  obtain ⟨hbal, rfl⟩ := add_ok.mp hb
  cases h
  exact ⟨hpool, hbal, rfl, rfl⟩

theorem withdraw_ok {H : Hash} {v v' : Vault} {auth : PqAuthorized} {recipient : Address} {amount : Nat}
    {ctx ctx' : TxContext} {e : Withdrew} {coin : Coin}
    (h : (withdraw H v auth recipient amount ctx).res = .ok (ctx', v', e, coin)) :
    v.owner = ctx.sender ∧ auth.sender = ctx.sender ∧
      auth.actionDigest = H (withdrawMessage v.id recipient amount) ∧ amount ≤ v.balance ∧
      amount ≤ v.pool ∧ ctx' = ctx.new.2 ∧
      v' = { v with balance := v.balance - amount, pool := v.pool - amount } ∧
      e = ⟨v.id, recipient, amount, auth.nonce⟩ ∧ coin = ⟨ctx.nextId, amount⟩ := by
  obtain ⟨ho, h⟩ := require_bind_ok h
  obtain ⟨hs, h⟩ := require_bind_ok h
  rw [withdrawActionDigest_eq, Comp.hash, Comp.ret_bind] at h
  obtain ⟨hdig, h⟩ := require_bind_ok h
  obtain ⟨hb, h⟩ := require_bind_ok h
  rw [sub_eq hb, pure_bind] at h
  obtain ⟨_, hp, h⟩ := Comp.bind_ok h
  obtain ⟨hpool, hsplit⟩ := require_bind_ok hp
  rw [sub_eq hpool, pure_bind] at hsplit
  cases hsplit
  cases h
  exact ⟨ho, hs, hdig, hb, hpool, rfl, rfl, rfl, rfl⟩

end SuiPq.Impl.PqVault
