import SuiPq.Framework.Js

/-!
# The schemes of the package

`schemes.ts` and `signing.ts` (`packages/pqc/src`). The algorithms of the
library are parameters, and what they draw at random is an argument.
-/

namespace SuiPq.Impl.Schemes

inductive SchemeName where
  | ML_DSA_44
  | ML_DSA_65
  | ML_DSA_87
  | SLH_DSA_SHA2_128S
  | SLH_DSA_SHA2_128F
  | SLH_DSA_SHA2_192S
  | SLH_DSA_SHA2_192F
  | SLH_DSA_SHA2_256S
  | SLH_DSA_SHA2_256F
  | SLH_DSA_SHAKE_128S
  | SLH_DSA_SHAKE_128F
  | SLH_DSA_SHAKE_192S
  | SLH_DSA_SHAKE_192F
  | SLH_DSA_SHAKE_256S
  | SLH_DSA_SHAKE_256F
  | FALCON_512
  | FALCON_1024
deriving DecidableEq

namespace SchemeName

/-- The keys of `SCHEME`, in its order. -/
def all : List SchemeName :=
    [ML_DSA_44, ML_DSA_65, ML_DSA_87, SLH_DSA_SHA2_128S, SLH_DSA_SHA2_128F, SLH_DSA_SHA2_192S,
  SLH_DSA_SHA2_192F, SLH_DSA_SHA2_256S, SLH_DSA_SHA2_256F, SLH_DSA_SHAKE_128S, SLH_DSA_SHAKE_128F,
    SLH_DSA_SHAKE_192S,
  SLH_DSA_SHAKE_192F, SLH_DSA_SHAKE_256S, SLH_DSA_SHAKE_256F, FALCON_512, FALCON_1024]

/-- The name as the string it is. -/
def text : SchemeName → String
  | ML_DSA_44 => "ML_DSA_44"
  | ML_DSA_65 => "ML_DSA_65"
  | ML_DSA_87 => "ML_DSA_87"
  | SLH_DSA_SHA2_128S => "SLH_DSA_SHA2_128S"
  | SLH_DSA_SHA2_128F => "SLH_DSA_SHA2_128F"
  | SLH_DSA_SHA2_192S => "SLH_DSA_SHA2_192S"
  | SLH_DSA_SHA2_192F => "SLH_DSA_SHA2_192F"
  | SLH_DSA_SHA2_256S => "SLH_DSA_SHA2_256S"
  | SLH_DSA_SHA2_256F => "SLH_DSA_SHA2_256F"
  | SLH_DSA_SHAKE_128S => "SLH_DSA_SHAKE_128S"
  | SLH_DSA_SHAKE_128F => "SLH_DSA_SHAKE_128F"
  | SLH_DSA_SHAKE_192S => "SLH_DSA_SHAKE_192S"
  | SLH_DSA_SHAKE_192F => "SLH_DSA_SHAKE_192F"
  | SLH_DSA_SHAKE_256S => "SLH_DSA_SHAKE_256S"
  | SLH_DSA_SHAKE_256F => "SLH_DSA_SHAKE_256F"
  | FALCON_512 => "FALCON_512"
  | FALCON_1024 => "FALCON_1024"

end SchemeName

def SCHEME : SchemeName → Nat
  | .ML_DSA_44 => 0x10
  | .ML_DSA_65 => 0x11
  | .ML_DSA_87 => 0x12
  | .SLH_DSA_SHA2_128S => 0x20
  | .SLH_DSA_SHA2_128F => 0x21
  | .SLH_DSA_SHA2_192S => 0x22
  | .SLH_DSA_SHA2_192F => 0x23
  | .SLH_DSA_SHA2_256S => 0x24
  | .SLH_DSA_SHA2_256F => 0x25
  | .SLH_DSA_SHAKE_128S => 0x28
  | .SLH_DSA_SHAKE_128F => 0x29
  | .SLH_DSA_SHAKE_192S => 0x2a
  | .SLH_DSA_SHAKE_192F => 0x2b
  | .SLH_DSA_SHAKE_256S => 0x2c
  | .SLH_DSA_SHAKE_256F => 0x2d
  | .FALCON_512 => 0x30
  | .FALCON_1024 => 0x31

/-- The name of a byte (`NAME_BY_BYTE`), or `none` for `'UNKNOWN'`. -/
def schemeName (byte : Nat) : Option SchemeName := SchemeName.all.find? fun s => SCHEME s = byte

structure SchemeMeta where
  byte : Nat
  publicKeyBytes : Nat
  signatureBytes : Nat

/-- FIPS-defined sizes. -/
def SCHEME_META (scheme : SchemeName) : SchemeMeta :=
  let (publicKeyBytes, signatureBytes) := match scheme with
    | .ML_DSA_44 => (1312, 2420)
    | .ML_DSA_65 => (1952, 3309)
    | .ML_DSA_87 => (2592, 4627)
    | .SLH_DSA_SHA2_128S => (32, 7856)
    | .SLH_DSA_SHA2_128F => (32, 17088)
    | .SLH_DSA_SHA2_192S => (48, 16224)
    | .SLH_DSA_SHA2_192F => (48, 35664)
    | .SLH_DSA_SHA2_256S => (64, 29792)
    | .SLH_DSA_SHA2_256F => (64, 49856)
    | .SLH_DSA_SHAKE_128S => (32, 7856)
    | .SLH_DSA_SHAKE_128F => (32, 17088)
    | .SLH_DSA_SHAKE_192S => (48, 16224)
    | .SLH_DSA_SHAKE_192F => (48, 35664)
    | .SLH_DSA_SHAKE_256S => (64, 29792)
    | .SLH_DSA_SHAKE_256F => (64, 49856)
    | .FALCON_512 => (897, 666)
    | .FALCON_1024 => (1793, 1280)
  { byte := SCHEME scheme, publicKeyBytes, signatureBytes }

/-! ## Signatures -/

structure NobleSignatureAlgorithm where
  /-- The public and the secret key of a seed. -/
  keygen : Bytes → Js (Bytes × Bytes)
  /-- `sign(message, secretKey)`, with random bytes before them. -/
  sign : Bytes → Bytes → Bytes → Js Bytes
  /-- `verify(signature, message, publicKey)`, which is `none` where it throws. -/
  verify : Bytes → Bytes → Bytes → Option Bool

/-- What is imported of the library. -/
structure Noble where
  ml_dsa44 : NobleSignatureAlgorithm
  ml_dsa65 : NobleSignatureAlgorithm
  ml_dsa87 : NobleSignatureAlgorithm
  slh_dsa_sha2_128f : NobleSignatureAlgorithm
  slh_dsa_sha2_128s : NobleSignatureAlgorithm
  slh_dsa_sha2_192f : NobleSignatureAlgorithm
  slh_dsa_sha2_192s : NobleSignatureAlgorithm
  slh_dsa_sha2_256f : NobleSignatureAlgorithm
  slh_dsa_sha2_256s : NobleSignatureAlgorithm

def ALG (noble : Noble) : SchemeName → Option NobleSignatureAlgorithm
  | .ML_DSA_44 => some noble.ml_dsa44
  | .ML_DSA_65 => some noble.ml_dsa65
  | .ML_DSA_87 => some noble.ml_dsa87
  | .SLH_DSA_SHA2_128S => some noble.slh_dsa_sha2_128s
  | .SLH_DSA_SHA2_128F => some noble.slh_dsa_sha2_128f
  | .SLH_DSA_SHA2_192S => some noble.slh_dsa_sha2_192s
  | .SLH_DSA_SHA2_192F => some noble.slh_dsa_sha2_192f
  | .SLH_DSA_SHA2_256S => some noble.slh_dsa_sha2_256s
  | .SLH_DSA_SHA2_256F => some noble.slh_dsa_sha2_256f
  | _ => none

def getAlg (noble : Noble) (scheme : SchemeName) : Js NobleSignatureAlgorithm :=
  match ALG noble scheme with
  | some a => pure a
  | none => Comp.stop (.error s!"scheme {scheme.text} is not currently exposed by @sui-gen/pqc")

structure Keypair where
  scheme : SchemeName
  publicKey : Bytes
  secretKey : Bytes

def keygen (noble : Noble) (scheme : SchemeName) (seed : Bytes) : Js Keypair := do
  let alg ← getAlg noble scheme
  let keys ← alg.keygen seed
  return { scheme, publicKey := keys.1, secretKey := keys.2 }

def sign (noble : Noble) (entropy : Bytes) (scheme : SchemeName) (secretKey message : Bytes) : Js Bytes := do
  let alg ← getAlg noble scheme
  alg.sign entropy message secretKey

def verify (noble : Noble) (scheme : SchemeName) (publicKey message signature : Bytes) : Js Bool := do
  let alg ← getAlg noble scheme
  let «meta» := SCHEME_META scheme
  if publicKey.length ≠ «meta».publicKeyBytes then
    return false
  if signature.length ≠ «meta».signatureBytes then
    return false
  return (alg.verify signature message publicKey).getD false

end SuiPq.Impl.Schemes
