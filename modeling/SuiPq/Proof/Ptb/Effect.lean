import SuiPq.Impl.Ptb
import SuiPq.Proof.PqVault

/-!
# What a command does

`step_effect` inverts a step once: what each call of the two packages reads
and changes (`Effect`), and what the other commands do with coins
(`CoinEffect`), which leaves everything else alone (`MovesCoins`). The
invariants of runs are derived from it.
-/

namespace SuiPq.Impl.Ptb

open PqGuard (Verifiers PqIdentity PqAuthorized Accepts expectedPkLen)
open PqVault (Vault withdrawMessage)

theorem called_some {α : Type} {m : MoveFn α} {a : α} : called m = some a ↔ m.res = .ok a :=
  Comp.toOption_some

/-! ## Results -/

/-- The list behind a table, around one of its entries. -/
theorem flatten_modify {α : Type} {v : α} : ∀ {xss : List (List α)} {i j : Nat},
    xss[i]?.bind (·[j]?) = some v → ∃ l r, xss.flatten = l ++ v :: r ∧
      ∀ v', (xss.modify i (·.set j v')).flatten = l ++ v' :: r
  | [], _, _, h => by simp at h
  | xs :: xss, 0, j, h => by
    obtain ⟨hj, rfl⟩ := List.getElem?_eq_some_iff.mp h
    refine ⟨xs.take j, xs.drop (j + 1) ++ xss.flatten, ?_, fun v' => ?_⟩
    · rw [List.flatten_cons, ← List.cons_append, ← List.append_assoc, List.getElem_cons_drop,
        List.take_append_drop]
    · rw [List.modify_zero_cons, List.flatten_cons, List.set_eq_take_append_cons_drop, if_pos hj,
        List.append_assoc, List.cons_append]
  | xs :: xss, i + 1, j, h => by
    obtain ⟨l, r, hf, hm⟩ := flatten_modify (show xss[i]?.bind (·[j]?) = some v from h)
    refine ⟨xs ++ l, r, ?_, fun v' => ?_⟩
    · rw [List.flatten_cons, hf, List.append_assoc]
    · rw [List.modify_succ_cons, List.flatten_cons, hm, List.append_assoc]

def Value.auth? : Value → Option PqAuthorized
  | .auth a => some a
  | _ => none

namespace TxState

/-- The witnesses that no command has taken yet. -/
def auths (s : TxState) : List PqAuthorized := s.results.flatten.filterMap Value.auth?

theorem auths_push (s : TxState) (vs : List Value) :
    (s.push vs).auths = s.auths ++ vs.filterMap Value.auth? := by
  simp [auths, push]

theorem slot_split {s : TxState} {i j : Nat} {v : Value} (h : s.slot i j = some v) :
    ∃ l r, s.auths = l ++ v.auth?.toList ++ r ∧
      ∀ v', (s.setSlot i j v').auths = l ++ v'.auth?.toList ++ r := by
  obtain ⟨l, r, hf, hm⟩ := flatten_modify h
  refine ⟨l.filterMap Value.auth?, r.filterMap Value.auth?, ?_, fun v' => ?_⟩
  · rw [auths, hf]
    cases h : v.auth? <;> simp [h]
  · rw [auths, setSlot, hm]
    cases h : v'.auth? <;> simp [h]

theorem takeAuth_some {s t : TxState} {a : Arg} {auth : PqAuthorized}
    (h : s.takeAuth a = some (auth, t)) :
    ∃ i j, a = .result i j ∧ s.slot i j = some (.auth auth) ∧ t = s.setSlot i j .gone := by
  unfold takeAuth at h
  split at h
  · cases h
  · split at h
    · rename_i hs
      cases h
      exact ⟨_, _, rfl, hs, rfl⟩
    · cases h

theorem takeAuth_ctx {s t : TxState} {a : Arg} {auth : PqAuthorized}
    (h : s.takeAuth a = some (auth, t)) : t.ctx = s.ctx := by
  obtain ⟨i, j, -, -, rfl⟩ := takeAuth_some h
  rfl

theorem takeAuth_auths {s t : TxState} {a : Arg} {auth : PqAuthorized}
    (h : s.takeAuth a = some (auth, t)) : ∃ l r, s.auths = l ++ auth :: r ∧ t.auths = l ++ r := by
  obtain ⟨i, j, rfl, hs, rfl⟩ := takeAuth_some h
  obtain ⟨l, r, hl, hm⟩ := slot_split hs
  exact ⟨l, r, by simpa [Value.auth?] using hl, by simpa [Value.auth?] using hm .gone⟩

theorem identityAt_some {s : TxState} {id : ID} {x : HeldIdentity} (h : s.identityAt id = some x) :
    s.world.identities id = some x ∧ x.holder = s.ctx.sender ∧ id ∉ s.unavailable := by
  simpa [identityAt, Option.bind_eq_some_iff, guard] using h

theorem vaultAt_some {s : TxState} {id : ID} {v : Vault} (h : s.vaultAt id = some v) :
    s.world.vaults id = some v ∧ id ∉ s.unavailable := by
  simpa [vaultAt, Option.bind_eq_some_iff, guard] using h

end TxState

/-! ## Commands that only move coins -/

/-- `t` is `s` after moving coins and naming new objects. -/
structure MovesCoins (s t : TxState) : Prop where
  identities : t.world.identities = s.world.identities
  vaults : t.world.vaults = s.world.vaults
  log : t.world.log = s.world.log
  sender : t.ctx.sender = s.ctx.sender
  record : t.record = s.record
  auths : t.auths = s.auths

namespace MovesCoins

theorem refl (s : TxState) : MovesCoins s s := ⟨rfl, rfl, rfl, rfl, rfl, rfl⟩

theorem trans {s t u : TxState} (h : MovesCoins s t) (h' : MovesCoins t u) : MovesCoins s u :=
  ⟨h'.identities.trans h.identities, h'.vaults.trans h.vaults, h'.log.trans h.log,
    h'.sender.trans h.sender, h'.record.trans h.record, h'.auths.trans h.auths⟩

theorem history {s t : TxState} (h : MovesCoins s t) : t.history = s.history := by
  rw [TxState.history, TxState.history, h.log, h.record]

theorem setCoin (s : TxState) (id : ID) (x : Option StoredCoin) : MovesCoins s (s.setCoin id x) :=
  ⟨rfl, rfl, rfl, rfl, rfl, rfl⟩

theorem setUnavailable (s : TxState) (id : ID) : MovesCoins s (s.setUnavailable id) :=
  ⟨rfl, rfl, rfl, rfl, rfl, rfl⟩

theorem setElsewhere (s : TxState) (value : Nat) : MovesCoins s (s.setElsewhere value) :=
  ⟨rfl, rfl, rfl, rfl, rfl, rfl⟩

theorem push {s : TxState} {vs : List Value} (h : vs.filterMap Value.auth? = []) :
    MovesCoins s (s.push vs) :=
  ⟨rfl, rfl, rfl, rfl, rfl, by rw [TxState.auths_push, h, List.append_nil]⟩

theorem push_coins (s : TxState) (cs : List Coin) : MovesCoins s (s.push (cs.map .coin)) :=
  push (List.filterMap_eq_nil_iff.mpr fun _ hv => by
    obtain ⟨c, -, rfl⟩ := List.mem_map.mp hv
    rfl)

theorem setSlot {s : TxState} {i j : Nat} {v v' : Value} (h : s.slot i j = some v)
    (hv : v.auth? = none) (hv' : v'.auth? = none) : MovesCoins s (s.setSlot i j v') := by
  obtain ⟨l, r, hl, hm⟩ := TxState.slot_split h
  exact ⟨rfl, rfl, rfl, rfl, rfl, by rw [hm, hl, hv, hv']⟩

end MovesCoins

namespace TxState

theorem coinAt_result {s : TxState} {i j : Nat} {c : Coin} :
    s.coinAt (.result i j) = some c ↔ s.slot i j = some (.coin c) := by
  cases h : s.slot i j with
  | none => simp [coinAt, h]
  | some v => cases v <;> simp [coinAt, h]

theorem coinAt_object {s : TxState} {id : ID} {c : Coin} :
    s.coinAt (.object id) = some c ↔ c.id = id ∧ id ∉ s.unavailable ∧
      ∃ o, s.world.coins id = some ⟨c.value, .address o⟩ ∧ (o = s.ctx.sender ∨ id = s.gas) := by
  rcases h : s.world.coins id with _ | ⟨value, a | _⟩
  · simp [coinAt, h]
  · cases c
    simp only [coinAt, h, Option.ite_none_right_eq_some, Option.some.injEq, Coin.mk.injEq,
      StoredCoin.mk.injEq, Owner.address.injEq]
    constructor
    · rintro ⟨⟨ho, hu⟩, rfl, rfl⟩
      exact ⟨rfl, hu, _, ⟨rfl, rfl⟩, ho⟩
    · rintro ⟨rfl, hu, _, ⟨rfl, rfl⟩, ho⟩
      exact ⟨⟨ho, hu⟩, rfl, rfl⟩
  · simp [coinAt, h]

/-- A coin of an argument is in the slot, or on chain. -/
theorem coinAt_some {s : TxState} {a : Arg} {c : Coin} (h : s.coinAt a = some c) :
    (∃ i j, a = .result i j ∧ s.slot i j = some (.coin c)) ∨
      (a = .object c.id ∧ c.id ∉ s.unavailable ∧
        ∃ o, s.world.coins c.id = some ⟨c.value, .address o⟩) := by
  cases a with
  | object id =>
    obtain ⟨rfl, hu, o, ho, -⟩ := coinAt_object.mp h
    exact .inr ⟨rfl, hu, o, ho⟩
  | result i j => exact .inl ⟨i, j, rfl, coinAt_result.mp h⟩

theorem takeCoin_some {s t : TxState} {a : Arg} {c : Coin} :
    s.takeCoin a = some (c, t) ↔ s.coinAt a = some c ∧ t = s.vacate a := by
  rw [takeCoin]
  cases s.coinAt a <;> simp [eq_comm]

theorem takeForCall_some {s t : TxState} {a : Arg} {c : Coin} (h : s.takeForCall a = some (c, t)) :
    s.takeCoin a = some (c, t) := (guard_bind_some.mp h).2

theorem create_some {s t : TxState} {id : ID} {ctx : TxContext} (h : s.create id ctx = some t) :
    s.Fresh id ∧ t = { s with
      world.used := id :: s.world.used, unavailable := id :: s.unavailable, ctx } := by
  obtain ⟨hf, h⟩ := guard_bind_some.mp h
  cases h
  exact ⟨hf, rfl⟩

end TxState

namespace MovesCoins

theorem vacate {s : TxState} {a : Arg} {c : Coin} (h : s.coinAt a = some c) :
    MovesCoins s (s.vacate a) := by
  obtain ⟨i, j, rfl, hs⟩ | ⟨rfl, -, -⟩ := TxState.coinAt_some h
  · exact setSlot hs rfl rfl
  · exact (setCoin s _ none).trans (setUnavailable _ _)

theorem setValue {s : TxState} {a : Arg} {c : Coin} (h : s.coinAt a = some c) (value : Nat) :
    MovesCoins s (s.setValue a c value) := by
  obtain ⟨i, j, rfl, hs⟩ | ⟨rfl, -, -⟩ := TxState.coinAt_some h
  · exact setSlot hs rfl rfl
  · exact setCoin s _ _

theorem takeCoin {s t : TxState} {a : Arg} {c : Coin} (h : s.takeCoin a = some (c, t)) :
    MovesCoins s t := by
  obtain ⟨hc, rfl⟩ := TxState.takeCoin_some.mp h
  exact vacate hc

theorem takeForCall {s t : TxState} {a : Arg} {c : Coin} (h : s.takeForCall a = some (c, t)) :
    MovesCoins s t := takeCoin (TxState.takeForCall_some h)

theorem takeCoins : ∀ {as : List Arg} {s t : TxState} {cs : List Coin},
    Ptb.takeCoins as s = some (cs, t) → MovesCoins s t
  | [], s, t, cs, h => by
    cases (h : some ([], s) = some (cs, t))
    exact refl s
  | a :: as, s, t, cs, h => by
    obtain ⟨⟨c, s₁⟩, h₁, h⟩ := Option.bind_eq_some_iff.mp h
    obtain ⟨⟨cs', s₂⟩, h₂, h⟩ := Option.bind_eq_some_iff.mp h
    cases h
    exact (takeCoin h₁).trans (takeCoins h₂)

theorem create {s t : TxState} {id : ID} (h : s.create id s.ctx.new.2 = some t) : MovesCoins s t := by
  obtain ⟨-, rfl⟩ := TxState.create_some h
  exact ⟨rfl, rfl, rfl, rfl, rfl, rfl⟩

theorem newCoins : ∀ {values : List Nat} {s t : TxState} {cs : List Coin},
    Ptb.newCoins values s = some (cs, t) → MovesCoins s t
  | [], s, t, cs, h => by
    cases (h : some ([], s) = some (cs, t))
    exact refl s
  | v :: vs, s, t, cs, h => by
    obtain ⟨s₁, h₁, h⟩ := Option.bind_eq_some_iff.mp h
    obtain ⟨⟨cs', s₂⟩, h₂, h⟩ := Option.bind_eq_some_iff.mp h
    cases h
    exact (create h₁).trans (newCoins h₂)

theorem foldl_store (o : Owner) : ∀ (cs : List Coin) (s : TxState),
    MovesCoins s (cs.foldl (TxState.store · o) s)
  | [], s => refl s
  | c :: cs, s => (setCoin s c.id _).trans (foldl_store o cs (s.store o c))

end MovesCoins

/-! ## All commands -/

/-- What the commands that call neither of the two packages do. -/
inductive CoinEffect (s : TxState) : Command → TxState → Prop
  | splitCoins {a : Arg} {amounts : List UInt64} {c : Coin} {cs : List Coin} {t : TxState}
      (coin : s.coinAt a = some c) (le : (amounts.map UInt64.toNat).sum ≤ c.value)
      (new : newCoins (amounts.map UInt64.toNat)
        (s.setValue a c (c.value - (amounts.map UInt64.toNat).sum)) = some (cs, t)) :
      CoinEffect s (.splitCoins a amounts) (t.push (cs.map .coin))
  | mergeCoins {a : Arg} {sources : List Arg} {c : Coin} {cs : List Coin} {t : TxState}
      (take : takeCoins sources s = some (cs, t)) (coin : t.coinAt a = some c)
      (lt : c.value + (cs.map Coin.value).sum < 2 ^ 64) :
      CoinEffect s (.mergeCoins a sources) ((t.setValue a c (c.value + (cs.map Coin.value).sum)).push [])
  | transferObjects {objects : List Arg} {recipient : Address} {cs : List Coin} {t : TxState}
      (take : takeCoins objects s = some (cs, t)) :
      CoinEffect s (.transferObjects objects recipient)
        ((cs.foldl (TxState.store · (.address recipient)) t).push [])
  | wrap {a : Arg} {c : Coin} {t : TxState} (take : s.takeForCall a = some (c, t)) :
      CoinEffect s (.wrap a) ((t.store .object c).push [])
  | unwrap {id : ID} {c : Coin} (coin : s.wrappedAt id = some c) :
      CoinEffect s (.unwrap id) (((s.setCoin id none).setUnavailable id).push [.coin c])
  | absorb {a : Arg} {c : Coin} {t : TxState} (take : s.takeForCall a = some (c, t)) :
      CoinEffect s (.absorb a) ((t.setElsewhere (t.world.elsewhere + c.value)).push [])
  | release {amount : UInt64} {cs : List Coin} {t : TxState} (le : amount.toNat ≤ s.world.elsewhere)
      (new : newCoins [amount.toNat] s = some (cs, t)) :
      CoinEffect s (.release amount)
        ((t.setElsewhere (t.world.elsewhere - amount.toNat)).push (cs.map .coin))

theorem CoinEffect.movesCoins {s s' : TxState} {c : Command} (h : CoinEffect s c s') :
    MovesCoins s s' := by
  cases h with
  | splitCoins coin le new =>
      exact ((MovesCoins.setValue coin _).trans (.newCoins new)).trans (.push_coins _ _)
  | mergeCoins take coin lt => exact ((MovesCoins.takeCoins take).trans (.setValue coin _)).trans (.push rfl)
  | transferObjects take =>
    exact ((MovesCoins.takeCoins take).trans (.foldl_store _ _ _)).trans (.push rfl)
  | wrap take => exact ((MovesCoins.takeForCall take).trans (.setCoin _ _ _)).trans (.push rfl)
  | unwrap coin => exact ((MovesCoins.setCoin _ _ _).trans (.setUnavailable _ _)).trans (.push rfl)
  | absorb take => exact ((MovesCoins.takeForCall take).trans (.setElsewhere _ _)).trans (.push rfl)
  | release le new => exact ((MovesCoins.newCoins new).trans (.setElsewhere _ _)).trans (.push_coins _ _)

/-- What a command that succeeds does. -/
inductive Effect (H : Hash) (V : Verifiers) (s : TxState) : Command → TxState → Prop
  | register {scheme : UInt8} {pk : Bytes} {t : TxState}
      (len : (expectedPkLen scheme).res = .ok pk.length)
      (new : s.create s.ctx.nextId s.ctx.new.2 = some t) :
      Effect H V s (.register scheme pk)
        ((((t.setIdentity s.ctx.nextId ⟨⟨s.ctx.nextId, s.ctx.sender, scheme, pk, 0⟩, s.ctx.sender⟩).install
          pk).emit (.registered ⟨s.ctx.nextId, s.ctx.sender, scheme⟩)).push [])
  | rotate {id : ID} {newPk : Bytes} {x : HeldIdentity} (input : s.identityAt id = some x)
      (owner : x.identity.owner = s.ctx.sender)
      (len : (expectedPkLen x.identity.scheme).res = .ok newPk.length) :
      Effect H V s (.rotate id newPk)
        ((((s.setIdentity id { x with identity := { x.identity with pk := newPk, nonce := 0 } }).install
          newPk).emit (.rotated ⟨x.identity.id, x.identity.owner⟩)).push [])
  | unlock {id : ID} {digest signature : Bytes} {x : HeldIdentity} (input : s.identityAt id = some x)
      (accepts : Accepts V x.identity s.ctx.sender digest signature)
      (nonce : x.identity.nonce + 1 < 2 ^ 64) :
      Effect H V s (.unlock id digest signature)
        ((((s.setIdentity id { x with identity := { x.identity with nonce := x.identity.nonce + 1 } }).accept
          ⟨x.identity.pk, signature, s.ctx.sender, digest⟩).emit
          (.unlocked ⟨x.identity.id, s.ctx.sender, x.identity.nonce, digest⟩)).push
          [.auth ⟨x.identity.id, s.ctx.sender, x.identity.nonce, digest⟩])
  | consume {a : Arg} {auth : PqAuthorized} {t : TxState} (witness : s.takeAuth a = some (auth, t)) :
      Effect H V s (.consume a) (t.push [])
  | openVault {seed : Arg} {c : Coin} {t u : TxState} (take : s.takeForCall seed = some (c, t))
      (new : t.create t.ctx.nextId t.ctx.new.2 = some u) :
      Effect H V s (.openVault seed)
        (((u.setVault t.ctx.nextId ⟨t.ctx.nextId, t.ctx.sender, c.value, c.value⟩).emit
          (.deposited ⟨t.ctx.nextId, c.value⟩)).push [])
  | deposit {id : ID} {topUp : Arg} {v : Vault} {c : Coin} {t : TxState} (input : s.vaultAt id = some v)
      (take : s.takeForCall topUp = some (c, t)) (pool : v.pool + c.value < 2 ^ 64)
      (balance : v.balance + c.value < 2 ^ 64) :
      Effect H V s (.deposit id topUp)
        (((t.setVault id { v with balance := v.balance + c.value, pool := v.pool + c.value }).emit
          (.deposited ⟨v.id, c.value⟩)).push [])
  | withdraw {id : ID} {a : Arg} {recipient : Address} {amount : UInt64} {v : Vault} {auth : PqAuthorized}
      {t u : TxState} (input : s.vaultAt id = some v) (witness : s.takeAuth a = some (auth, t))
      (owner : v.owner = s.ctx.sender) (sender : auth.sender = s.ctx.sender)
      (digest : auth.actionDigest = H (withdrawMessage v.id recipient amount.toNat))
      (balance : amount.toNat ≤ v.balance) (pool : amount.toNat ≤ v.pool)
      (new : t.create t.ctx.nextId t.ctx.new.2 = some u) :
      Effect H V s (.withdraw id a recipient amount)
        (((u.setVault id { v with
          balance := v.balance - amount.toNat, pool := v.pool - amount.toNat }).emit
          (.withdrew ⟨v.id, recipient, amount.toNat, auth.nonce⟩)).push
          [.coin ⟨t.ctx.nextId, amount.toNat⟩])
  | coins {c : Command} {t : TxState} (coins : CoinEffect s c t) : Effect H V s c t

theorem step_effect {H : Hash} {V : Verifiers} {s s' : TxState} {c : Command}
    (h : step H V s c = some s') : Effect H V s c s' := by
  cases c with
  | register scheme pk =>
    obtain ⟨⟨ctx, x, e⟩, hc, h⟩ := Option.bind_eq_some_iff.mp h
    obtain ⟨t, ht, h⟩ := Option.bind_eq_some_iff.mp h
    obtain ⟨hlen, rfl, rfl, rfl⟩ := PqGuard.register_ok (called_some.mp hc)
    cases h
    exact .register hlen ht
  | rotate id newPk =>
    obtain ⟨x, hx, h⟩ := Option.bind_eq_some_iff.mp h
    obtain ⟨⟨x', e⟩, hc, h⟩ := Option.bind_eq_some_iff.mp h
    obtain ⟨ho, hlen, rfl, rfl⟩ := PqGuard.rotate_ok (called_some.mp hc)
    cases h
    exact .rotate hx ho hlen
  | unlock id digest signature =>
    obtain ⟨x, hx, h⟩ := Option.bind_eq_some_iff.mp h
    obtain ⟨⟨x', e, auth⟩, hc, h⟩ := Option.bind_eq_some_iff.mp h
    obtain ⟨ha, hn, rfl, rfl, rfl⟩ := PqGuard.unlock_ok (called_some.mp hc)
    cases h
    exact .unlock hx ha hn
  | consume a =>
    obtain ⟨⟨auth, t⟩, ht, h⟩ := Option.bind_eq_some_iff.mp h
    cases h
    exact .consume ht
  | openVault seed =>
    obtain ⟨⟨c, t⟩, ht, h⟩ := Option.bind_eq_some_iff.mp h
    obtain ⟨⟨ctx, v, e⟩, hc, h⟩ := Option.bind_eq_some_iff.mp h
    obtain ⟨hctx, hv, he⟩ := PqVault.openVault_ok (called_some.mp hc)
    rw [hctx, hv, he] at h
    obtain ⟨u, hu, h⟩ := Option.bind_eq_some_iff.mp h
    cases h
    exact .openVault ht hu
  | deposit id topUp =>
    obtain ⟨v, hv, h⟩ := Option.bind_eq_some_iff.mp h
    obtain ⟨⟨c, t⟩, ht, h⟩ := Option.bind_eq_some_iff.mp h
    obtain ⟨⟨v', e⟩, hc, h⟩ := Option.bind_eq_some_iff.mp h
    obtain ⟨hp, hb, rfl, rfl⟩ := PqVault.deposit_ok (called_some.mp hc)
    cases h
    exact .deposit hv ht hp hb
  | withdraw id a recipient amount =>
    obtain ⟨v, hv, h⟩ := Option.bind_eq_some_iff.mp h
    obtain ⟨⟨auth, t⟩, ht, h⟩ := Option.bind_eq_some_iff.mp h
    obtain ⟨⟨ctx, v', e, coin⟩, hc, h⟩ := Option.bind_eq_some_iff.mp h
    obtain ⟨ho, hs, hd, hb, hp, hctx, hv', he, hcoin⟩ := PqVault.withdraw_ok (called_some.mp hc)
    rw [hctx, hv', he, hcoin] at h
    obtain ⟨u, hu, h⟩ := Option.bind_eq_some_iff.mp h
    have htctx : t.ctx = s.ctx := TxState.takeAuth_ctx ht
    cases h
    rw [htctx] at ho hs
    exact .withdraw hv ht ho hs hd hb hp hu
  | splitCoins a amounts =>
    obtain ⟨c, hc, h⟩ := Option.bind_eq_some_iff.mp h
    obtain ⟨hle, h⟩ := guard_bind_some.mp h
    obtain ⟨⟨cs, t⟩, ht, h⟩ := Option.bind_eq_some_iff.mp h
    cases h
    exact .coins (.splitCoins hc hle ht)
  | mergeCoins a sources =>
    obtain ⟨-, h⟩ := guard_bind_some.mp h
    obtain ⟨⟨cs, t⟩, ht, h⟩ := Option.bind_eq_some_iff.mp h
    obtain ⟨c, hc, h⟩ := Option.bind_eq_some_iff.mp h
    obtain ⟨hlt, h⟩ := guard_bind_some.mp h
    cases h
    exact .coins (.mergeCoins ht hc hlt)
  | transferObjects objects recipient =>
    obtain ⟨⟨cs, t⟩, ht, h⟩ := Option.bind_eq_some_iff.mp h
    cases h
    exact .coins (.transferObjects ht)
  | wrap a =>
    obtain ⟨⟨c, t⟩, ht, h⟩ := Option.bind_eq_some_iff.mp h
    cases h
    exact .coins (.wrap ht)
  | unwrap id =>
    obtain ⟨c, hc, h⟩ := Option.bind_eq_some_iff.mp h
    cases h
    exact .coins (.unwrap hc)
  | absorb a =>
    obtain ⟨⟨c, t⟩, ht, h⟩ := Option.bind_eq_some_iff.mp h
    cases h
    exact .coins (.absorb ht)
  | release amount =>
    obtain ⟨hle, h⟩ := guard_bind_some.mp h
    obtain ⟨⟨cs, t⟩, ht, h⟩ := Option.bind_eq_some_iff.mp h
    cases h
    exact .coins (.release hle ht)

/-! ## The end of a transaction -/

/-- A transaction that ends has spent its witnesses, and changes the log alone. -/
theorem finish_some {s : TxState} {w : World} (h : finish s = some w) :
    s.auths = [] ∧ w = { s.world with log := s.world.log ++ [s.record] } := by
  obtain ⟨hgone, h⟩ := guard_bind_some.mp h
  cases h
  refine ⟨List.filterMap_eq_nil_iff.mpr fun v hv => ?_, rfl⟩
  rw [hgone v hv]
  rfl

end SuiPq.Impl.Ptb
