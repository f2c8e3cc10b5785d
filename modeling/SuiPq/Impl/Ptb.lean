import Mathlib.Logic.Function.Basic
import SuiPq.Framework.Runs
import SuiPq.Impl.PqVault

/-!
# Programmable transactions over `pq_guard` and `pq_vault`

The two packages on chain. A transaction calls their functions and moves
coins about, in any order and with the results of earlier commands as
arguments. It goes through when every command does and no coin or witness is
left over, neither of which Move drops; otherwise it changes nothing.

What a call of another package does with the coins it is given is one or more
of the commands below that are not calls of the two packages, and what it
calls of the two is a command of its own. Arguments that are not objects are
given by their values, computed or not.
-/

namespace SuiPq.Impl.Ptb

open PqGuard (Verifiers PqIdentity PqAuthorized Registered Unlocked Rotated)
open PqVault (Vault Deposited Withdrew)

/-! ## Objects -/

/-- What a coin belongs to: an address, or anything else that keeps coins
(`object`: it is shared, or inside an object of another package). -/
inductive Owner where
  | address (a : Address)
  | object
deriving DecidableEq

structure StoredCoin where
  value : Nat
  owner : Owner
deriving DecidableEq

/-- An identity, and the address it was transferred to. -/
structure HeldIdentity where
  identity : PqIdentity
  holder : Address

inductive Event where
  | registered (e : Registered)
  | unlocked (e : Unlocked)
  | rotated (e : Rotated)
  | deposited (e : Deposited)
  | withdrew (e : Withdrew)
deriving DecidableEq

/-- A signature that an `unlock` accepted, and what for. -/
structure Accepted where
  pk : Bytes
  signature : Bytes
  sender : Address
  actionDigest : Bytes
deriving DecidableEq

/-- What a transaction did: the events it emitted, the signatures its unlocks
accepted and the keys that it gave to identities. No command reads it. -/
structure Record where
  sender : Address
  events : List Event
  accepted : List Accepted
  installed : List Bytes

/-- The objects by their ids, the value that is kept in SUI other than coins
and vaults, the ids that objects have had, and what happened so far. -/
structure World where
  identities : ID → Option HeldIdentity
  vaults : ID → Option Vault
  coins : ID → Option StoredCoin
  elsewhere : Nat
  used : List ID
  log : List Record

/-- A world in which the two packages have not been used. -/
structure World.Unused (w : World) : Prop where
  identities : ∀ id, w.identities id = none
  vaults : ∀ id, w.vaults id = none
  log : w.log = []

/-- The world of the given coins. -/
def World.ofCoins (coins : ID → Option StoredCoin) : World := ⟨fun _ => none, fun _ => none, coins, 0, [], []⟩

theorem World.unused_ofCoins (coins : ID → Option StoredCoin) : (World.ofCoins coins).Unused :=
  ⟨fun _ => rfl, fun _ => rfl, rfl⟩

/-! ## A transaction's state -/

/-- A result of a command, until it is taken. -/
inductive Value where
  | coin (c : Coin)
  | auth (a : PqAuthorized)
  | gone
deriving DecidableEq

/-- An object on chain, or a result of an earlier command. -/
inductive Arg where
  | object (id : ID)
  | result (i j : Nat)
deriving DecidableEq

/-- The coin `gas` pays for the transaction. The objects it has created or
taken are not available as inputs. -/
structure TxState where
  world : World
  ctx : TxContext
  gas : ID
  unavailable : List ID
  results : List (List Value)
  record : Record

namespace TxState

variable (s : TxState)

def slot (i j : Nat) : Option Value := s.results[i]?.bind (·[j]?)

def setSlot (i j : Nat) (v : Value) : TxState :=
  { s with results := s.results.modify i (·.set j v) }

def push (vs : List Value) : TxState := { s with results := s.results ++ [vs] }

def emit (e : Event) : TxState := { s with record.events := s.record.events ++ [e] }

def accept (a : Accepted) : TxState := { s with record.accepted := s.record.accepted ++ [a] }

def install (pk : Bytes) : TxState := { s with record.installed := s.record.installed ++ [pk] }

/-- An identity is an input of its holder's transactions only. -/
def identityAt (id : ID) : Option HeldIdentity := do
  let x ← s.world.identities id
  guard (x.holder = s.ctx.sender ∧ id ∉ s.unavailable)
  some x

def setIdentity (id : ID) (x : HeldIdentity) : TxState :=
  { s with world.identities := Function.update s.world.identities id (some x) }

/-- A vault is an input of any transaction. -/
def vaultAt (id : ID) : Option Vault := do
  let v ← s.world.vaults id
  guard (id ∉ s.unavailable)
  some v

def setVault (id : ID) (v : Vault) : TxState :=
  { s with world.vaults := Function.update s.world.vaults id (some v) }

/-- The witness at an argument, and the state without it. -/
def takeAuth : Arg → Option (PqAuthorized × TxState)
  | .object _ => none
  | .result i j => match s.slot i j with
    | some (.auth a) => some (a, s.setSlot i j .gone)
    | _ => none

/-- The coin at an argument: one of the sender's, the one that pays, or a result. -/
def coinAt : Arg → Option Coin
  | .object id => match s.world.coins id with
    | some ⟨value, .address a⟩ =>
      if (a = s.ctx.sender ∨ id = s.gas) ∧ id ∉ s.unavailable then some ⟨id, value⟩ else none
    | _ => none
  | .result i j => match s.slot i j with
    | some (.coin c) => some c
    | _ => none

/-- A coin that is not an address's. -/
def wrappedAt (id : ID) : Option Coin := match s.world.coins id with
  | some ⟨value, .object⟩ => some ⟨id, value⟩
  | _ => none

def setCoin (id : ID) (x : Option StoredCoin) : TxState :=
  { s with world.coins := Function.update s.world.coins id x }

def setElsewhere (value : Nat) : TxState := { s with world.elsewhere := value }

def setUnavailable (id : ID) : TxState := { s with unavailable := id :: s.unavailable }

/-- The coin at an argument, with another value. -/
def setValue (a : Arg) (c : Coin) (value : Nat) : TxState :=
  match a with
  | .object id => s.setCoin id ((s.world.coins id).map fun x => { x with value })
  | .result i j => s.setSlot i j (.coin { c with value })

/-- The state without the coin at an argument. -/
def vacate : Arg → TxState
  | .object id => (s.setCoin id none).setUnavailable id
  | .result i j => s.setSlot i j .gone

def takeCoin (a : Arg) : Option (Coin × TxState) := do
  let c ← s.coinAt a
  some (c, s.vacate a)

def store (owner : Owner) (c : Coin) : TxState := s.setCoin c.id (some ⟨c.value, owner⟩)

/-- `id` has never named an object. -/
def Fresh (id : ID) : Prop :=
  id ∉ s.world.used ∧ id ∉ s.unavailable ∧ s.world.identities id = none ∧
    s.world.vaults id = none ∧ s.world.coins id = none

instance (id : ID) : Decidable (s.Fresh id) := inferInstanceAs (Decidable (_ ∧ _ ∧ _ ∧ _ ∧ _))

/-- `id` names a new object. -/
def create (id : ID) (ctx : TxContext) : Option TxState := do
  guard (s.Fresh id)
  some { s with world.used := id :: s.world.used, unavailable := id :: s.unavailable, ctx }

/-- A coin that a Move call takes by value; the one that pays is not. -/
def takeForCall (a : Arg) : Option (Coin × TxState) := do
  guard (a ≠ .object s.gas)
  s.takeCoin a

end TxState

def takeCoins : List Arg → TxState → Option (List Coin × TxState)
  | [], s => some ([], s)
  | a :: as, s => do
    let (c, s) ← s.takeCoin a
    let (cs, s) ← takeCoins as s
    some (c :: cs, s)

def newCoins : List Nat → TxState → Option (List Coin × TxState)
  | [], s => some ([], s)
  | value :: values, s => do
    let (id, ctx) := s.ctx.new
    let s ← s.create id ctx
    let (cs, s) ← newCoins values s
    some (⟨id, value⟩ :: cs, s)

/-! ## Commands -/

/-- The functions of the two packages that change something, the coin
commands of the platform, and what else other packages do with coins: put one
into an object, take it out again, keep its value, pay one out. -/
inductive Command where
  | register (scheme : UInt8) (pk : Bytes)
  | rotate (identity : ID) (newPk : Bytes)
  | unlock (identity : ID) (actionDigest signature : Bytes)
  | consume (auth : Arg)
  | openVault (seed : Arg)
  | deposit (vault : ID) (topUp : Arg)
  | withdraw (vault : ID) (auth : Arg) (recipient : Address) (amount : UInt64)
  | splitCoins (coin : Arg) (amounts : List UInt64)
  | mergeCoins (coin : Arg) (sources : List Arg)
  | transferObjects (objects : List Arg) (recipient : Address)
  | wrap (coin : Arg)
  | unwrap (id : ID)
  | absorb (coin : Arg)
  | release (amount : UInt64)

/-- What a Move function that does not abort returns. -/
def called {α : Type} (m : MoveFn α) : Option α := m.res.toOption

variable (H : Hash) (V : Verifiers)

def step (s : TxState) : Command → Option TxState
  | .register scheme pk => do
    let (ctx, identity, e) ← called (PqGuard.register scheme pk s.ctx)
    let s ← s.create identity.id ctx
    some (((s.setIdentity identity.id ⟨identity, ctx.sender⟩).install pk).emit (.registered e) |>.push [])
  | .rotate id newPk => do
    let x ← s.identityAt id
    let (identity, e) ← called (PqGuard.rotate x.identity newPk s.ctx)
    some (((s.setIdentity id { x with identity }).install newPk).emit (.rotated e) |>.push [])
  | .unlock id actionDigest signature => do
    let x ← s.identityAt id
    let (identity, e, auth) ← called (PqGuard.unlock V x.identity actionDigest signature s.ctx)
    let accepted := ⟨x.identity.pk, signature, s.ctx.sender, actionDigest⟩
    some (((s.setIdentity id { x with identity }).accept accepted).emit (.unlocked e) |>.push [.auth auth])
  | .consume auth => do
    let (_, s) ← s.takeAuth auth
    some (s.push [])
  | .openVault seed => do
    let (seed, s) ← s.takeForCall seed
    let (ctx, v, e) ← called (PqVault.openVault seed s.ctx)
    let s ← s.create v.id ctx
    some ((s.setVault v.id v).emit (.deposited e) |>.push [])
  | .deposit id topUp => do
    let v ← s.vaultAt id
    let (topUp, s) ← s.takeForCall topUp
    let (v, e) ← called (PqVault.deposit v topUp)
    some ((s.setVault id v).emit (.deposited e) |>.push [])
  | .withdraw id auth recipient amount => do
    let v ← s.vaultAt id
    let (auth, s) ← s.takeAuth auth
    let (ctx, v, e, coin) ← called (PqVault.withdraw H v auth recipient amount.toNat s.ctx)
    let s ← s.create coin.id ctx
    some ((s.setVault id v).emit (.withdrew e) |>.push [.coin coin])
  | .splitCoins coin amounts => do
    let c ← s.coinAt coin
    let values := amounts.map UInt64.toNat
    guard (values.sum ≤ c.value)
    let (cs, s) ← newCoins values (s.setValue coin c (c.value - values.sum))
    some (s.push (cs.map .coin))
  | .mergeCoins coin sources => do
    guard (.object s.gas ∉ sources)
    let (cs, s) ← takeCoins sources s
    let c ← s.coinAt coin
    let value := c.value + (cs.map Coin.value).sum
    guard (value < 2 ^ 64)
    some ((s.setValue coin c value).push [])
  | .transferObjects objects recipient => do
    let (cs, s) ← takeCoins objects s
    some ((cs.foldl (TxState.store · (.address recipient)) s).push [])
  | .wrap coin => do
    let (c, s) ← s.takeForCall coin
    some ((s.store .object c).push [])
  | .unwrap id => do
    let c ← s.wrappedAt id
    some (((s.setCoin id none).setUnavailable id).push [.coin c])
  | .absorb coin => do
    let (c, s) ← s.takeForCall coin
    some ((s.setElsewhere (s.world.elsewhere + c.value)).push [])
  | .release amount => do
    guard (amount.toNat ≤ s.world.elsewhere)
    let (cs, s) ← newCoins [amount.toNat] s
    some ((s.setElsewhere (s.world.elsewhere - amount.toNat)).push (cs.map .coin))

/-- What happened so far, with the running transaction last. -/
def TxState.history (s : TxState) : List Record := s.world.log ++ [s.record]

/-! ## Transactions -/

structure Tx where
  sender : Address
  gas : ID
  ids : Nat → ID
  commands : List Command

def start (w : World) (tx : Tx) : TxState where
  world := w
  ctx := ⟨tx.sender, tx.ids, 0⟩
  gas := tx.gas
  unavailable := []
  results := []
  record := ⟨tx.sender, [], [], []⟩

/-- Nothing may be left that Move does not drop. -/
def finish (s : TxState) : Option World := do
  guard (∀ v ∈ s.results.flatten, v = .gone)
  some { s.world with log := s.world.log ++ [s.record] }

/-- Transactions on the chain. -/
def chain : System World TxState Tx Command where
  start := start
  commands := Tx.commands
  step := step H V
  finish := finish

/-! ## A sample -/

def sampleKey : Bytes := List.replicate 64 5
def sampleIdentity : HeldIdentity := ⟨⟨.fill 10, .fill 1, PqGuard.SLH_DSA_LITE, sampleKey, 0⟩, .fill 1⟩
def sampleVault : Vault := ⟨.fill 11, .fill 1, 10, 10⟩

/-- The address `1` has an identity and a vault of 10. -/
def sampleWorld : World where
  identities id := if id = .fill 10 then some sampleIdentity else none
  vaults id := if id = .fill 11 then some sampleVault else none
  coins := fun _ => none
  elsewhere := 0
  used := [.fill 10, .fill 11]
  log := []

/-- A coin of 10. -/
def sampleCoins (id : ID) : Option StoredCoin :=
  if id = .fill 7 then some ⟨10, .address (.fill 1)⟩ else none

/-- A transaction of the address `1`, that creates objects from id `n` on. -/
def sampleTx (n : UInt8) (commands : List Command) : Tx :=
  ⟨.fill 1, .fill 0, fun k => .fill (n + UInt8.ofNat k), commands⟩

end SuiPq.Impl.Ptb
