import SuiPq.Impl.Codes

/-!
# Byte helpers of the Move packages

The private helpers on byte vectors that the packages each have a copy of.
`concat` is also `append` of `pq_guard` and `vault`; `writeU32` is
`write_u32`, and `write_u32_be` of `sha2_128s`; `u64Be` is `u64_be` of
`vault` and `u64_be_bytes` of `pq_guard`.
-/

namespace SuiPq.Impl.MoveBytes

open SuiPq.Move

def concat (a b : Bytes) : MoveFn Bytes :=
  whileLt 64 0 b.length a fun i out => do
    let x ← borrow b i
    pure (out ++ [x])

def slice (src : Bytes) (start len : Nat) : MoveFn Bytes :=
  whileLt 64 0 len [] fun i out => do
    let x ← (do borrow src (← add 64 start i))
    pure (out ++ [x])

def bytesEq (a b : Bytes) : MoveFn Bool := do
  let n := a.length
  if n ≠ b.length then return false
  let r ← searchLt 0 n fun i => do
    if (← borrow a i) ≠ (← borrow b i) then return some false
    let _ ← add 64 i 1
    return none
  return r.getD true

def writeU32 (buf : Bytes) (off v : Nat) : MoveFn Bytes := do
  let buf ← write buf (← add 64 off 0) (← byte ((← shr 32 v 24) &&& 0xff))
  let buf ← write buf (← add 64 off 1) (← byte ((← shr 32 v 16) &&& 0xff))
  let buf ← write buf (← add 64 off 2) (← byte ((← shr 32 v 8) &&& 0xff))
  write buf (← add 64 off 3) (← byte (v &&& 0xff))

def u64Be (v : Nat) : MoveFn Bytes :=
  whileLt 64 0 8 [] fun i out => do
    let shift ← mul 64 (← sub 7 i) 8
    let x ← byte ((← shr 64 v (← cast 8 shift)) &&& 0xff)
    pure (out ++ [x])

end SuiPq.Impl.MoveBytes
