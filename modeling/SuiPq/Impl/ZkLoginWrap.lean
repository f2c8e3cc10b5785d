import SuiPq.Framework.JsString
import SuiPq.Impl.JsBytes
import SuiPq.Impl.Schemes

/-!
# Attestations and wrapped zkLogin transactions

`attestation.ts` and `zk-login-wrap.ts` (`packages/pqc/src`), over SHA-256 as
the hash `H`. The BCS encoding of a commit message, of an address, a nonce and
an app tag, is a parameter, and may throw, as building a transaction may.
-/

namespace SuiPq.Impl.ZkLoginWrap

open SuiPq.Js SuiPq.JsString SuiPq.Impl.Schemes

structure Attestation where
  scheme : SchemeName
  publicKey : Bytes
  signature : Bytes
  messageDigest : Bytes
  suiAddress : JsString
  nonce : Bytes
  appTag : Bytes

inductive AppTag where
  | string (v : JsString)
  | bytes (v : Bytes)

def asBytes : AppTag → Bytes
  | .string v => encode v
  | .bytes v => v

structure BuildOptions where
  scheme : SchemeName
  suiAddress : JsString
  appTag : AppTag
  nonce : Option Bytes := none
  /-- The public and the secret key. -/
  keypair : Option (Bytes × Bytes) := none

/-- What is drawn at random: a nonce, the seed of a key pair, and for a signature. -/
structure Random where
  nonce : Bytes
  seed : Bytes
  entropy : Bytes

/-- The attestation and the secret key. -/
def buildAttestation (H : Hash) (noble : Noble)
    (commitMessage : JsString → Bytes → Bytes → Js Bytes) (random : Random)
    (opts : BuildOptions) : Js (Attestation × Bytes) := do
  let nonce := opts.nonce.getD random.nonce
  let appTag := asBytes opts.appTag
  let commitBytes ← commitMessage opts.suiAddress nonce appTag
  let messageDigest ← Comp.hash H commitBytes
  let kp ← orElse opts.keypair do
    let kp ← keygen noble opts.scheme random.seed
    return (kp.publicKey, kp.secretKey)
  let signature ← sign noble random.entropy opts.scheme kp.2 messageDigest
  let attestation := {
    scheme := opts.scheme, publicKey := kp.1, signature, messageDigest,
    suiAddress := opts.suiAddress, nonce, appTag }
  return (attestation, kp.2)

structure VerifyResult where
  ok : Bool
  reason : Option JsString := none
deriving DecidableEq

def verifyAttestation (H : Hash) (noble : Noble) (commitMessage : JsString → Bytes → Bytes → Js Bytes)
    (a : Attestation) : Js VerifyResult := do
  -- there is an entry for every scheme, so that none is unknown
  let entry := SCHEME_META a.scheme
  if a.publicKey.length ≠ entry.publicKeyBytes then
    return {
      ok := false
      reason := some (lit s!"publicKey length {a.publicKey.length} != {entry.publicKeyBytes}") }
  if a.signature.length ≠ entry.signatureBytes then
    return {
      ok := false
      reason := some (lit s!"signature length {a.signature.length} != {entry.signatureBytes}") }
  let expected ← Comp.hash H (← commitMessage a.suiAddress a.nonce a.appTag)
  if toHex expected ≠ toHex a.messageDigest then
    return { ok := false, reason := some (lit "message digest mismatch (commit fields tampered with)") }
  return { ok := ← verify noble a.scheme a.publicKey a.messageDigest a.signature }

structure ZkLoginPqBinding where
  zkLoginAddress : JsString
  scheme : SchemeName
  pqPublicKey : Bytes
  attestation : Attestation

structure CreateZkLoginPqBindingOptions where
  zkLoginAddress : JsString
  scheme : Option SchemeName := none
  appTag : Option JsString := none
  keypair : Option Keypair := none

/-- The binding and the secret key. -/
def createZkLoginPqBinding (H : Hash) (noble : Noble) (commitMessage : JsString → Bytes → Bytes → Js Bytes)
    (random : Random) (opts : CreateZkLoginPqBindingOptions) : Js (ZkLoginPqBinding × Bytes) := do
  let scheme := opts.scheme.getD .ML_DSA_65
  let kp ← orElse opts.keypair (keygen noble scheme random.seed)
  let built ← buildAttestation H noble commitMessage random {
    scheme, suiAddress := opts.zkLoginAddress, appTag := .string (opts.appTag.getD (lit "zk-login-binding"))
    keypair := some (kp.publicKey, kp.secretKey) }
  let binding := {
    zkLoginAddress := opts.zkLoginAddress, scheme, pqPublicKey := kp.publicKey, attestation := built.1 }
  return (binding, built.2)

structure PqWrappedZkLoginTx where
  txBytes : Bytes
  txDigest : Bytes
  pqSignature : Bytes
  pqPublicKey : Bytes
  scheme : SchemeName
  zkLoginAddress : JsString

structure WrapZkLoginTxOptions where
  /-- The key pair of a binding. -/
  pqKeypair : Keypair
  zkLoginAddress : JsString

/-- The transaction, built and signed; `build` is what builds it. -/
def pqWrapZkLoginTx (H : Hash) (noble : Noble) (entropy : Bytes) (build : Js Bytes)
    (opts : WrapZkLoginTxOptions) :
    Js PqWrappedZkLoginTx := do
  let txBytes ← build
  let txDigest ← Comp.hash H txBytes
  let pqSignature ← sign noble entropy opts.pqKeypair.scheme opts.pqKeypair.secretKey txDigest
  return {
    txBytes, txDigest, pqSignature, pqPublicKey := opts.pqKeypair.publicKey, scheme := opts.pqKeypair.scheme
    zkLoginAddress := opts.zkLoginAddress }

structure PqWrappedVerifyResult where
  ok : Bool
  reason : Option JsString
  digestMatches : Bool
  pqSignatureOk : Bool
deriving DecidableEq

def bytesEq (a b : Bytes) : Js Bool := JsBytes.sameBytes a b

def verifyPqWrappedZkLoginTx (H : Hash) (noble : Noble) (wrapped : PqWrappedZkLoginTx)
    (binding : ZkLoginPqBinding) :
    Js PqWrappedVerifyResult := do
  let refused (reason : JsString) : PqWrappedVerifyResult :=
    { ok := false, pqSignatureOk := false, digestMatches := false, reason := some reason }
  if binding.zkLoginAddress ≠ wrapped.zkLoginAddress then
    return refused (lit "binding is for " ++ binding.zkLoginAddress ++ lit ", wrapped tx claims " ++
      wrapped.zkLoginAddress)
  if binding.scheme ≠ wrapped.scheme then
    return refused (lit s!"binding scheme {binding.scheme.text} != wrapped scheme {wrapped.scheme.text}")
  if binding.pqPublicKey.length ≠ wrapped.pqPublicKey.length then
    return refused
      (lit s!"pubkey length mismatch: binding {binding.pqPublicKey.length} vs wrapped {wrapped.pqPublicKey.length}")
  let mismatch ← searchLt 0 binding.pqPublicKey.length fun i => do
    if (← get binding.pqPublicKey i) ≠ (← get wrapped.pqPublicKey i) then
      return some (refused (lit "pqPublicKey bytes mismatch — possible binding-replay attempt"))
    return none
  if let some result := mismatch then
    return result
  let expectedDigest ← Comp.hash H wrapped.txBytes
  let digestMatches ← bytesEq expectedDigest wrapped.txDigest
  let pqSignatureOk ← verify noble wrapped.scheme wrapped.pqPublicKey expectedDigest wrapped.pqSignature
  return {
    ok := digestMatches && pqSignatureOk, pqSignatureOk, digestMatches
    reason := if digestMatches && pqSignatureOk then none
      else some (lit s!"digestMatches={digestMatches}, pqSignatureOk={pqSignatureOk}") }

end SuiPq.Impl.ZkLoginWrap
