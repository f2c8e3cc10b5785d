import SuiPq.Framework.Bytes

/-!
# SLH-DSA signatures of users

The patches add them to the node (`patches/sui-1.72.2-native-slh-dsa.patch`,
`slh_dsa_authenticator.rs` and `crypto.rs`) and to the SDK
(`patches/sui-rust-sdk-slh-dsa.patch`, `signature.rs` and `hash.rs`). What the
patched programs have of their own is a parameter: how the node turns a key
into an address (`addressFrom`), the library's verifier (`vkVerify`), how the
SDK reads the scheme of a signature (`scheme`), and its signatures of the
other schemes.
-/

namespace SuiPq.Impl

/-! ## The node -/

namespace SuiTypes

inductive FastCryptoError where
  | InvalidInput
  | InputLengthWrong (n : Nat)
deriving DecidableEq

inductive SuiErrorKind where
  | InvalidSignature (error : String)
deriving DecidableEq

/-- `SignatureScheme::SlhDsa.flag()`. -/
def SlhDsa.flag : UInt8 := 0x07

/-- The keys of this scheme in `PublicKey`. -/
inductive PublicKey where
  | SlhDsa (bytes : Bytes)
deriving DecidableEq

namespace PublicKey

def flag : PublicKey → UInt8
  | SlhDsa _ => SlhDsa.flag

def asRef : PublicKey → Bytes
  | SlhDsa b => b

end PublicKey

def SLH_DSA_PK_BYTES : Nat := 32
def SLH_DSA_SIG_BYTES : Nat := 7856

/-- The flagged blob. -/
def encoding (pk sig : Bytes) : Bytes := SlhDsa.flag :: (pk ++ sig)

/-- `bytes` is a cell that `as_ref` fills when it is first called. -/
structure SlhDsaAuthenticator where
  pk : Bytes
  sig : Bytes
  bytes : Option Bytes
  bytes_eq (b : Bytes) : bytes = some b → b = encoding pk sig

namespace SlhDsaAuthenticator

def getPk (self : SlhDsaAuthenticator) : PublicKey := .SlhDsa self.pk

def fromPkSig (pk sig : Bytes) : SlhDsaAuthenticator := ⟨pk, sig, none, nofun⟩

/-- What `==` compares. -/
def Eqv (self other : SlhDsaAuthenticator) : Prop := self.pk = other.pk ∧ self.sig = other.sig

instance (self other : SlhDsaAuthenticator) : Decidable (Eqv self other) :=
  inferInstanceAs (Decidable (_ ∧ _))

/-- The blob, and the authenticator with its cell filled. -/
def asRef (self : SlhDsaAuthenticator) : Bytes × SlhDsaAuthenticator :=
  match self.bytes with
  | some b => (b, self)
  | none =>
    let bytes := SlhDsa.flag :: (self.pk ++ self.sig)
    (bytes, { self with bytes := some bytes, bytes_eq := fun _ h => (Option.some.inj h).symm })

def fromBytes (bytes : Bytes) : Except FastCryptoError SlhDsaAuthenticator := do
  if bytes = [] ∨ bytes[0]? ≠ some SlhDsa.flag then throw .InvalidInput
  let body := bytes.drop 1
  if body.length ≠ SLH_DSA_PK_BYTES + SLH_DSA_SIG_BYTES then
    throw (.InputLengthWrong (1 + SLH_DSA_PK_BYTES + SLH_DSA_SIG_BYTES))
  let (pk, sig) := body.splitAt SLH_DSA_PK_BYTES
  return fromPkSig pk sig

def slhDsaVerify (vkVerify : Bytes → Bytes → Bytes → Bool) (pk message sig : Bytes) : Bool :=
  if pk.length ≠ SLH_DSA_PK_BYTES ∨ sig.length ≠ SLH_DSA_SIG_BYTES then false else vkVerify pk message sig

/-- The signature is of the intent message that `intentMsg` serializes. -/
def verifyClaims (B : Hash) (addressFrom : PublicKey → Bytes) (vkVerify : Bytes → Bytes → Bytes → Bool)
    (self : SlhDsaAuthenticator) (intentMsg author : Bytes) : Except SuiErrorKind Unit := do
  if author ≠ addressFrom self.getPk then throw (.InvalidSignature "Invalid author for SLH-DSA")
  let message := B intentMsg
  if slhDsaVerify vkVerify self.pk message self.sig then
    return ()
  else
    throw (.InvalidSignature "SLH-DSA signature verification failed")

end SlhDsaAuthenticator

end SuiTypes

/-! ## The SDK -/

namespace SuiSdkTypes

inductive SignatureScheme where
  | Ed25519
  | Secp256k1
  | Secp256r1
  | Multisig
  | Bls12381
  | ZkLogin
  | Passkey
  | SlhDsa
deriving DecidableEq

/-- `SignatureScheme::SlhDsa as u8`. -/
def SlhDsa.toU8 : UInt8 := 0x07

def SLH_DSA_PUBLIC_KEY_LENGTH : Nat := 32
def SLH_DSA_SIGNATURE_LENGTH : Nat := 7856

@[ext] structure SlhDsaAuthenticator where
  publicKey : Bytes
  signature : Bytes
  length_publicKey : publicKey.length = SLH_DSA_PUBLIC_KEY_LENGTH
  length_signature : signature.length = SLH_DSA_SIGNATURE_LENGTH
deriving DecidableEq

/-- A signature of a user; `Other` are those of the other schemes. -/
inductive UserSignature (Other : Type) where
  | SlhDsa (s : SlhDsaAuthenticator)
  | other (o : Other)

namespace UserSignature

variable {Other : Type}

def toBytes (others : Other → Bytes) : UserSignature Other → Bytes
  | SlhDsa s => SlhDsa.toU8 :: (s.publicKey ++ s.signature)
  | other o => others o

def fromSerializedBytes (scheme : Bytes → Except String SignatureScheme)
    (others : SignatureScheme → Bytes → Except String Other) (bytes : Bytes) :
    Except String (UserSignature Other) := do
  match ← scheme bytes with
  | .SlhDsa =>
    let expected := 1 + SLH_DSA_PUBLIC_KEY_LENGTH + SLH_DSA_SIGNATURE_LENGTH
    if h : bytes.length ≠ expected then throw "invalid slh-dsa signature"
    else
      let publicKey := window bytes 1 SLH_DSA_PUBLIC_KEY_LENGTH
      let signature := bytes.drop (1 + SLH_DSA_PUBLIC_KEY_LENGTH)
      return SlhDsa
        { publicKey, signature
          length_publicKey := length_window (by rw [not_not.mp h]; decide)
          length_signature := by rw [List.length_drop, not_not.mp h]; rfl }
  | s => return other (← others s bytes)

def derivedAddresses (B : Hash) (others : Other → List Bytes) : UserSignature Other → List Bytes
  | SlhDsa s => [B (SlhDsa.toU8 :: s.publicKey)]
  | other o => others o

end UserSignature

end SuiSdkTypes

end SuiPq.Impl
