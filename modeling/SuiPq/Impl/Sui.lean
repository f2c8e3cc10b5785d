import SuiPq.Impl.Codes

/-!
# The Sui framework

What the packages use of it: addresses and object ids, the context of a
transaction, and coins. A UID is its id, and a `&mut TxContext` argument is
returned as a value.
-/

namespace SuiPq.Impl

open SuiPq.Move

/-- A 32-byte address. -/
structure Address where
  bytes : Bytes
  length_bytes : bytes.length = 32
deriving DecidableEq

abbrev ID := Address

/-- The address whose bytes are all `x`. -/
def Address.fill (x : UInt8) : Address := ⟨List.replicate 32 x, List.length_replicate⟩

/-- The context of a transaction: its sender, the ids it gives to the objects
it creates, and how many it has given. -/
structure TxContext where
  sender : Address
  ids : Nat → ID
  idsCreated : Nat

/-- The id that `object::new(ctx)` gives. -/
def TxContext.nextId (ctx : TxContext) : ID := ctx.ids ctx.idsCreated

/-- `object::new(ctx)`. -/
def TxContext.new (ctx : TxContext) : ID × TxContext :=
  (ctx.nextId, { ctx with idsCreated := ctx.idsCreated + 1 })

/-- A `Coin<SUI>`. -/
structure Coin where
  id : ID
  value : Nat
deriving DecidableEq

namespace Balance

def ENotEnough : Code := ⟨.balance, 2⟩

def join (self balance : Nat) : MoveFn Nat := add 64 self balance

/-- What stays, and what is split off. -/
def split (self value : Nat) : MoveFn (Nat × Nat) := do
  require (self ≥ value) ENotEnough
  pure (← sub self value, value)

end Balance

end SuiPq.Impl
