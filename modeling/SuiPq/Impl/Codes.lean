import SuiPq.Framework.Move

/-!
# The abort codes of the Move packages
-/

namespace SuiPq.Impl

/-- The modules whose functions abort with codes of their own. -/
inductive Module where
  | wots_plus
  | verifier
  | sha2_128s
  | pq_guard
  | vault
  | balance
  | allowlist
  | registry
deriving DecidableEq, Repr

/-- An abort code, with the module that raises it. -/
structure Code where
  mod : Module
  code : Nat
deriving DecidableEq, Repr

/-- A function of the Move packages. -/
abbrev MoveFn := Move Code

end SuiPq.Impl
