import SuiPq.Framework.JsString

/-!
# `pq-guard.ts`: the message of an unlock

What the TypeScript package signs for `pq_guard::unlock`
(`packages/pqc/src/pq-guard.ts`). A bigint is an integer, and its bitwise
operators are those of its two's complement.
-/

namespace SuiPq.Impl.UnlockMessage

open SuiPq.Js SuiPq.JsString

def TAG : Bytes := encode (lit "PQ_GUARD:UNLOCK:v1")

structure UnlockMessageOpts where
  sender : JsString
  nonce : Int
  actionDigest : Bytes

def u64BigEndian (v : Int) : Bytes := Id.run do
  -- the state is `(n, out)`, and `n & 0xffn` is written
  let s ← forDown 8 (v, zeros 8) fun i s => return (s.1 >>> (8 : Nat), put s.2 i (s.1 % 256).toNat)
  return s.2

def addressTo32Bytes (addr : JsString) : Js Bytes := do
  let hex := if startsWith addr (lit "0x") then addr.drop 2 else addr
  if hex.length = 0 ∨ hex.length > 64 then Comp.stop (.error s!"bad address: {text addr}")
  let padded := padStart hex 64 0x30
  forLt 0 32 (zeros 32) fun i out =>
    pure (out.set i (toUint8 (parseInt16 (slice padded (i * 2) (i * 2 + 2)))))

def buildUnlockMessageBytes (opts : UnlockMessageOpts) : Js Bytes := do
  if opts.actionDigest.length ≠ 32 then
    Comp.stop (.error s!"actionDigest must be 32 bytes, got {opts.actionDigest.length}")
  let senderBytes ← addressTo32Bytes opts.sender
  let nonceBytes := u64BigEndian opts.nonce
  let total := TAG.length + senderBytes.length + nonceBytes.length + opts.actionDigest.length
  let out := zeros total
  let off := 0
  let out ← set out TAG off
  let off := off + TAG.length
  let out ← set out senderBytes off
  let off := off + senderBytes.length
  let out ← set out nonceBytes off
  let off := off + nonceBytes.length
  set out opts.actionDigest off

end SuiPq.Impl.UnlockMessage
