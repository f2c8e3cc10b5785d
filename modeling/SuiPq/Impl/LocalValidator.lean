import SuiPq.Impl.SlhDsaRef

/-!
# `local-validator.ts`

Transaction signatures in SLH-DSA-LITE
(`packages/pqc/src/local-validator.ts`), over SHA-256 and BLAKE2b-256 as the
hashes `H` and `B`.
-/

namespace SuiPq.Impl.LocalValidator

open SuiPq.Js SuiPq.Impl.SlhDsaRef

@[simp] def SLH_DSA_LITE_FLAG : Nat := 0x07

def INTENT_TX_DATA : Bytes := [0, 0, 0]

@[simp] def SIG_BLOB_LEN : Nat := 1 + 32 + 32 + 5056

def intentDigest (B : Hash) (txBytes : Bytes) : Js Bytes := do
  let buf := zeros (INTENT_TX_DATA.length + txBytes.length)
  let buf ← set buf INTENT_TX_DATA 0
  let buf ← set buf txBytes INTENT_TX_DATA.length
  Comp.hash B buf

def signTxWithSlhDsa (H B : Hash) (txBytes : Bytes) (pk : PublicKey) (sk : SecretKey) : Js Bytes := do
  let digest ← intentDigest B txBytes
  let sig ← sign H sk digest
  let packed ← packSignature sig
  let out := zeros SIG_BLOB_LEN
  let out := put out 0 SLH_DSA_LITE_FLAG
  let out ← set out pk.seed 1
  let out ← set out pk.root 33
  set out packed 65

def verifyTxSlhDsaSig (H B : Hash) (txBytes sigBlob : Bytes) : Js Bool := do
  if sigBlob.length ≠ SIG_BLOB_LEN then return false
  if (← get sigBlob 0).toNat ≠ SLH_DSA_LITE_FLAG then return false
  let pk := { seed := slice sigBlob 1 33, root := slice sigBlob 33 65 }
  let packed := sigBlob.drop 65
  let sig ← unpackSignature packed
  let digest ← intentDigest B txBytes
  verify H pk digest sig

end SuiPq.Impl.LocalValidator
