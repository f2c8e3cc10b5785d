import SuiPq.Framework.Js

/-!
# Byte helpers of the TypeScript packages

The private helpers that `slh-dsa-128s-ref.ts`, `slh-dsa-ref.ts` and
`wots-ref.ts` each have a copy of, and the comparison (`sameBytes`) that both
`verify` functions end with.
-/

namespace SuiPq.Impl.JsBytes

open SuiPq.Js

def concat (parts : List Bytes) : Js Bytes := do
  let total := parts.foldl (fun a p => a + p.length) 0
  let (out, _) ← parts.foldlM (fun (out, off) p => do
    let out ← set out p off
    pure (out, off + p.length)) (zeros total, 0)
  pure out

def writeU32BE (buf : Bytes) (off v : Nat) : Bytes :=
  let buf := put buf (off + 0) (Js.and (ushr v 24) 0xff)
  let buf := put buf (off + 1) (Js.and (ushr v 16) 0xff)
  let buf := put buf (off + 2) (Js.and (ushr v 8) 0xff)
  put buf (off + 3) (Js.and v 0xff)

def sameBytes (a b : Bytes) : Js Bool := do
  if a.length ≠ b.length then return false
  let r ← searchLt 0 a.length fun i => do
    if (← get a i) ≠ (← get b i) then return some false
    return none
  return r.getD true

end SuiPq.Impl.JsBytes
