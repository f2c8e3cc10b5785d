import SuiPq.Framework.JsString
import SuiPq.Impl.Schemes

/-!
# `hybrid.ts`: hybrid signatures, their packed form and verification

`packHybrid` of `packages/pqc/src/hybrid.ts`: the array it fills and the bytes
it becomes. `hybridSign` and `hybridVerify`, over SHA-256 as the hash `H`: what
makes and checks the classical signature is a parameter, and may throw.
-/

namespace SuiPq.Impl.Hybrid

open SuiPq.Js SuiPq.JsString SuiPq.Impl.Schemes

structure HybridSignature where
  txBytes : Bytes
  classicalSignature : JsString
  scheme : SchemeName
  pqPublicKey : Bytes
  pqSignature : Bytes
deriving DecidableEq

def appendU32 (arr : List Nat) (n : Nat) : Js (List Nat) :=
  push arr [Js.and n 0xff, sarAnd n 8 0xff, sarAnd n 16 0xff, sarAnd n 24 0xff]

def appendU16 (arr : List Nat) (n : Nat) : Js (List Nat) := push arr [Js.and n 0xff, sarAnd n 8 0xff]

/-- `for (const b of bytes) out.push(b)`. -/
def appendBytes (out : List Nat) (bytes : Bytes) : Js (List Nat) :=
  bytes.foldlM (fun out b => push out [b.toNat]) out

def packHybrid (sig : HybridSignature) : Js Bytes := do
  let classicalBytes := JsString.encode sig.classicalSignature
  let out ← push [] [(SCHEME_META sig.scheme).byte]
  let out ← appendU32 out sig.txBytes.length
  let out ← appendBytes out sig.txBytes
  let out ← appendU16 out classicalBytes.length
  let out ← appendBytes out classicalBytes
  let out ← appendU16 out sig.pqPublicKey.length
  let out ← appendBytes out sig.pqPublicKey
  let out ← appendU32 out sig.pqSignature.length
  let out ← appendBytes out sig.pqSignature
  return uint8Array out

/-! ## Signing -/

/-- `build` is what builds the transaction, and `signTransaction` the classical signer's. -/
def hybridSign (H : Hash) (noble : Noble) (entropy : Bytes) (build : Js Bytes)
    (signTransaction : Bytes → Js JsString)
    (pqKeypair : Keypair) : Js HybridSignature := do
  let txBytes ← build
  let classicalSignature ← signTransaction txBytes
  let digest ← Comp.hash H txBytes
  let pqSignature ← sign noble entropy pqKeypair.scheme pqKeypair.secretKey digest
  return {
    txBytes, classicalSignature, scheme := pqKeypair.scheme, pqPublicKey := pqKeypair.publicKey, pqSignature }

/-! ## Verification -/

/-- The public key of a classical signature. -/
structure PublicKey where
  toSuiAddress : JsString

structure HybridVerifyOptions where
  signature : HybridSignature
  expectedSuiAddress : Option JsString := none

structure HybridVerifyResult where
  classicalOk : Bool
  pqOk : Bool
  ok : Bool
  reasons : List JsString
deriving DecidableEq

/-- The `try` statement: `classicalOk` and the reasons after it. What is thrown is given as its `String`. -/
def classicalCheck (verifyTransactionSignature : Bytes → JsString → Except JsString PublicKey)
    (opts : HybridVerifyOptions) : Bool × List JsString :=
  match verifyTransactionSignature opts.signature.txBytes opts.signature.classicalSignature with
  | .error e => (false, [lit "classical sig invalid: " ++ e.take 200])
  | .ok pub =>
    -- an empty string is falsy, as `undefined` is
    match opts.expectedSuiAddress.filter (· ≠ []) with
    | none => (true, [])
    | some expected =>
      if pub.toSuiAddress ≠ expected then
        (false, [lit "classical sig is for " ++ pub.toSuiAddress ++ lit ", expected " ++ expected])
      else (true, [])

def hybridVerify (H : Hash) (noble : Noble)
    (verifyTransactionSignature : Bytes → JsString → Except JsString PublicKey) (opts : HybridVerifyOptions) :
    Js HybridVerifyResult := do
  let sig := opts.signature
  let classical := classicalCheck verifyTransactionSignature opts
  let digest ← Comp.hash H sig.txBytes
  let pqOk ← verify noble sig.scheme sig.pqPublicKey digest sig.pqSignature
  let reasons := if pqOk then classical.2
    else classical.2 ++ [lit s!"PQ co-signature invalid (scheme={sig.scheme.text})"]
  return { classicalOk := classical.1, pqOk, ok := classical.1 && pqOk, reasons }

end SuiPq.Impl.Hybrid
