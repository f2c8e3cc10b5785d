import SuiPq.Impl.JsBytes

/-!
# `wots-ref.ts`

What `slh-dsa-ref.ts` uses of the TypeScript WOTS+
(`packages/pqc/src/wots-ref.ts`): addresses, and the digits of a message.
-/

namespace SuiPq.Impl.WotsRef

open SuiPq.Js SuiPq.Impl.JsBytes

namespace WOTS

@[simp] def n : Nat := 32
@[simp] def w : Nat := 16
@[simp] def len_1 : Nat := 64
@[simp] def len : Nat := 67

end WOTS

/-- The fields of an address; those that are not given stay zero. -/
structure AdrsOpts where
  layer : Option Nat := none
  tree : Option Nat := none
  type : Option Nat := none
  keypair : Option Nat := none
  chain : Option Nat := none
  hash : Option Nat := none

/-- `if (v !== undefined) writeU32BE(a, off, v)`. -/
def writeOpt (a : Bytes) (off : Nat) : Option Nat → Bytes
  | some v => writeU32BE a off v
  | none => a

def buildAdrs (opts : AdrsOpts) : Js Bytes := do
  let a := zeros 32
  let a := writeOpt a 0 opts.layer
  let a ← match opts.tree with
    | some tree => do
      let lo ← number (tree &&& 0xffffffff)
      let hi ← number (tree >>> 32 &&& 0xffffffff)
      let a := writeU32BE a 8 hi
      pure (writeU32BE a 12 lo)
    | none => pure a
  let a := writeOpt a 16 opts.type
  let a := writeOpt a 20 opts.keypair
  let a := writeOpt a 24 opts.chain
  pure (writeOpt a 28 opts.hash)

def msgToChains (msg : Bytes) : Js (List Nat) := do
  if msg.length ≠ WOTS.n then Comp.stop (.error "msg must be 32 bytes")
  let out ← forLt 0 WOTS.n [] fun i out => do
    let b ← get msg i
    let hi := Js.and (← sar b.toNat 4) 0x0f
    pure (out ++ [hi] ++ [Js.and b.toNat 0x0f])
  let csum ← forLt 0 WOTS.len_1 0 fun k csum => do
    pure (csum + (WOTS.w - 1 - (← get out k)))
  let csum ← shl csum 4
  let hi := Js.and (← sar csum 8) 0xff
  let lo := Js.and csum 0xff
  pure (out ++ [Js.and (← sar hi 4) 0x0f] ++ [Js.and hi 0x0f] ++ [Js.and (← sar lo 4) 0x0f])

end SuiPq.Impl.WotsRef
