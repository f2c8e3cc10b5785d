import SuiPq.Impl.SlhDsaAuthenticator

/-!
# SLH-DSA signatures of the node and of the SDK

Both sides read and write one format: the flag, a key of 32 bytes and a
signature of 7856. `fromBytes_ok` and `fromSerializedBytes_ok` say so of the
decoders, `asRef_eq` and `toBytes_eq` of the encoders, and `codecs_coincide`
puts them together.
-/

namespace SuiPq.Proof.SlhDsaAuthenticator

open SuiPq.Impl
open SuiPq.Impl.SuiTypes (FastCryptoError PublicKey encoding)
open SuiPq.Impl.SuiTypes.SlhDsaAuthenticator (asRef fromBytes fromPkSig getPk verifyClaims slhDsaVerify Eqv)
open SuiPq.Impl.SuiSdkTypes (SignatureScheme UserSignature)

/-- The signatures of a key and a signature of the right lengths. -/
structure Format (pk sig b : Bytes) : Prop where
  length_pk : pk.length = 32
  length_sig : sig.length = 7856
  eq : b = encoding pk sig

/-- A signature of the format has one key and one signature in it. -/
theorem Format.inj {pk sig pk' sig' b : Bytes} (h : Format pk sig b) (h' : Format pk' sig' b) :
    pk = pk' ∧ sig = sig' := by
  have heq : encoding pk sig = encoding pk' sig' := h.eq.symm.trans h'.eq
  exact List.append_inj (List.cons.inj heq).2 (h.length_pk.trans h'.length_pk.symm)

theorem cons_of_flag {b : Bytes} (h : b[0]? = some 0x07) : ∃ body, b = 0x07 :: body := by
  cases b with
  | nil => cases h
  | cons x body => exact ⟨body, by rw [Option.some.inj h]⟩

/-- A string of the format's length with its flag is of the format. -/
theorem format_of_length {b : Bytes} (hf : b[0]? = some 0x07) (hl : b.length = 7889) :
    Format (window b 1 32) (b.drop 33) b := by
  obtain ⟨body, rfl⟩ := cons_of_flag hf
  refine ⟨length_window (by omega), by rw [List.length_drop, hl], ?_⟩
  show 0x07 :: body = 0x07 :: (body.take 32 ++ body.drop 32)
  rw [List.take_append_drop]

theorem Format.length {pk sig b : Bytes} (h : Format pk sig b) : b.length = 7889 := by
  rw [h.eq, encoding, List.length_cons, List.length_append, h.length_pk, h.length_sig]

theorem Format.flag {pk sig b : Bytes} (h : Format pk sig b) : b[0]? = some 0x07 := by
  rw [h.eq]
  rfl

/-! ## The node -/

section Node

variable {b : Bytes} {a : SuiTypes.SlhDsaAuthenticator}

/-- The encoding is of the key and the signature, whether it is in the cell or not. -/
theorem asRef_eq (a : SuiTypes.SlhDsaAuthenticator) : (asRef a).1 = encoding a.pk a.sig := by
  rw [asRef]
  split
  · exact a.bytes_eq _ ‹_›
  · rfl

theorem asRef_eqv (a : SuiTypes.SlhDsaAuthenticator) : Eqv (asRef a).2 a := by
  rw [asRef]
  split <;> exact ⟨rfl, rfl⟩

theorem fromBytes_flag (h : b[0]? ≠ some 0x07) : fromBytes b = .error .InvalidInput := by
  rw [fromBytes]
  exact if_pos (Or.inr h)

theorem fromBytes_cons (body : Bytes) :
    fromBytes (0x07 :: body) = if body.length ≠ 7888 then .error (.InputLengthWrong 7889)
      else .ok (fromPkSig (body.take 32) (body.drop 32)) := by
  rw [fromBytes, if_neg (by simp [SuiTypes.SlhDsa.flag])]
  simp only [List.drop_one, List.tail_cons, List.splitAt_eq]
  rfl

theorem fromBytes_length {body : Bytes} (h : body.length ≠ 7888) :
    fromBytes (0x07 :: body) = .error (.InputLengthWrong 7889) := by
  rw [fromBytes_cons, if_pos h]

theorem fromBytes_eq (hf : b[0]? = some 0x07) (hl : b.length = 7889) :
    fromBytes b = .ok (fromPkSig (window b 1 32) (b.drop 33)) := by
  obtain ⟨body, rfl⟩ := cons_of_flag hf
  rw [fromBytes_cons, if_neg (not_not.mpr (Nat.succ.inj hl))]
  rfl

/-- What the node decodes, with nothing in the cell. -/
theorem fromBytes_ok : fromBytes b = .ok a ↔ Format a.pk a.sig b ∧ a.bytes = none := by
  constructor
  · intro h
    by_cases hf : b[0]? = some 0x07
    · by_cases hl : b.length = 7889
      · rw [fromBytes_eq hf hl] at h
        obtain rfl := Except.ok.inj h
        exact ⟨format_of_length hf hl, rfl⟩
      · obtain ⟨body, rfl⟩ := cons_of_flag hf
        rw [fromBytes_length fun h => hl (congrArg Nat.succ h)] at h
        cases h
    · rw [fromBytes_flag hf] at h
      cases h
  · rintro ⟨h, hbytes⟩
    obtain ⟨hpk, hsig⟩ := (format_of_length h.flag h.length).inj h
    rw [fromBytes_eq h.flag h.length, hpk, hsig]
    obtain ⟨pk, sig, bytes, hb⟩ := a
    obtain rfl : bytes = none := hbytes
    rfl

/-- Claims of a signature are made by the address of its key. -/
theorem verifyClaims_author {B : Hash} {addressFrom : PublicKey → Bytes}
    {vkVerify : Bytes → Bytes → Bytes → Bool}
    {intentMsg author : Bytes} (h : verifyClaims B addressFrom vkVerify a intentMsg author = .ok ()) :
    author = addressFrom (getPk a) := by
  by_contra hne
  rw [verifyClaims, if_pos hne] at h
  cases h

end Node

/-! ## The SDK -/

section Sdk

variable {Other : Type} {scheme : Bytes → Except String SignatureScheme}
  {others : SignatureScheme → Bytes → Except String Other} {b : Bytes} {s : SuiSdkTypes.SlhDsaAuthenticator}

theorem toBytes_eq (enc : Other → Bytes) (s : SuiSdkTypes.SlhDsaAuthenticator) :
    (UserSignature.SlhDsa s).toBytes enc = encoding s.publicKey s.signature := rfl

theorem fromSerializedBytes_other (h : scheme b ≠ .ok .SlhDsa) :
    UserSignature.fromSerializedBytes scheme others b ≠ .ok (.SlhDsa s) := by
  rw [UserSignature.fromSerializedBytes]
  cases hs : scheme b with
  | error e => exact nofun
  | ok t =>
    have hmap : ∀ r : Except String Other,
        (do return UserSignature.other (← r) : Except String (UserSignature Other)) ≠ .ok (.SlhDsa s) := by
      rintro (e | o) <;> exact nofun
    cases t with
    | SlhDsa => exact absurd hs h
    | _ => exact hmap _

theorem fromSerializedBytes_length (h : scheme b = .ok .SlhDsa) (hl : b.length ≠ 7889) :
    UserSignature.fromSerializedBytes scheme others b = .error "invalid slh-dsa signature" := by
  rw [UserSignature.fromSerializedBytes, h]
  exact dif_pos hl

theorem fromSerializedBytes_eq (h : scheme b = .ok .SlhDsa) (hl : b.length = 7889) :
    UserSignature.fromSerializedBytes scheme others b = .ok (.SlhDsa
      ⟨window b 1 32, b.drop 33, length_window (by omega), by rw [List.length_drop, hl]; rfl⟩) := by
  rw [UserSignature.fromSerializedBytes, h]
  exact dif_neg (not_not.mpr hl)

/-- What the arm of the scheme decodes. -/
theorem fromSerializedBytes_ok (h : scheme b = .ok .SlhDsa ↔ b[0]? = some 0x07) :
    UserSignature.fromSerializedBytes scheme others b = .ok (.SlhDsa s) ↔ Format s.publicKey
      s.signature b := by
  constructor
  · intro hok
    have hs : scheme b = .ok .SlhDsa := by_contra fun hne => fromSerializedBytes_other hne hok
    by_cases hl : b.length = 7889
    · rw [fromSerializedBytes_eq hs hl] at hok
      obtain rfl := UserSignature.SlhDsa.inj (Except.ok.inj hok)
      exact format_of_length (h.mp hs) hl
    · rw [fromSerializedBytes_length hs hl] at hok
      cases hok
  · intro hf
    obtain ⟨hpk, hsig⟩ := (format_of_length hf.flag hf.length).inj hf
    rw [fromSerializedBytes_eq (h.mpr hf.flag) hf.length]
    exact congrArg (fun s => Except.ok (UserSignature.SlhDsa s))
      (SuiSdkTypes.SlhDsaAuthenticator.ext (x := ⟨_, _, _, _⟩) hpk hsig)

end Sdk

/-! ## Both -/

/-- The node decodes what the SDK decodes as a signature of the scheme. Both then hold the same key and
signature, encode them to what they decoded, and hash the same bytes for the address; what either encodes
it decodes. -/
theorem codecs_coincide {Other : Type} {scheme : Bytes → Except String SignatureScheme}
    (hscheme : ∀ b, scheme b = .ok .SlhDsa ↔ b[0]? = some 0x07)
    (others : SignatureScheme → Bytes → Except String Other) (otherBytes : Other → Bytes)
    (otherAddresses : Other → List Bytes) (B : Hash) (addressFrom : PublicKey → Bytes)
    (haddr : ∀ pk, addressFrom pk = B (pk.flag :: pk.asRef)) (vkVerify : Bytes → Bytes → Bytes → Bool) :
    (∀ b, (∃ a, fromBytes b = .ok a) ↔
      scheme b = .ok .SlhDsa ∧ ∃ s, UserSignature.fromSerializedBytes scheme others b = .ok (.SlhDsa s)) ∧
    (∀ b a s, fromBytes b = .ok a → UserSignature.fromSerializedBytes scheme others b = .ok (.SlhDsa s) →
      a.pk = s.publicKey ∧ a.sig = s.signature ∧
      (∀ a', Eqv a' a → (asRef a').1 = b) ∧ (UserSignature.SlhDsa s).toBytes otherBytes = b ∧
      addressFrom (getPk a) = B (0x07 :: a.pk) ∧
      (UserSignature.SlhDsa s).derivedAddresses B otherAddresses = [B (0x07 :: a.pk)] ∧
      ∀ intentMsg author, verifyClaims B addressFrom vkVerify a intentMsg author = .ok () →
        author = B (0x07 :: a.pk)) ∧
    (∀ pk sig : Bytes, pk.length = 32 → sig.length = 7856 →
      ∃ a, fromBytes (asRef (fromPkSig pk sig)).1 = .ok a ∧ a.pk = pk ∧ a.sig = sig) ∧
    ∀ s, UserSignature.fromSerializedBytes scheme others ((UserSignature.SlhDsa s).toBytes otherBytes) =
      .ok (.SlhDsa s) := by
  refine ⟨fun b => ⟨?_, ?_⟩, fun b a s ha hs => ?_, fun pk sig hpk hsig => ?_, fun s => ?_⟩
  · rintro ⟨a, ha⟩
    have hf := (fromBytes_ok.mp ha).1
    exact ⟨(hscheme b).mpr hf.flag, ⟨a.pk, a.sig, hf.length_pk, hf.length_sig⟩,
      (fromSerializedBytes_ok (hscheme b)).mpr hf⟩
  · rintro ⟨-, s, hs⟩
    exact ⟨fromPkSig s.publicKey s.signature,
      fromBytes_ok.mpr ⟨(fromSerializedBytes_ok (hscheme b)).mp hs, rfl⟩⟩
  · have hf := (fromBytes_ok.mp ha).1
    have hf' := (fromSerializedBytes_ok (hscheme b)).mp hs
    obtain ⟨hpk, hsig⟩ := hf.inj hf'
    refine ⟨hpk, hsig, fun a' heq => ?_, ?_, haddr _, ?_, fun intentMsg author h => ?_⟩
    · rw [asRef_eq, heq.1, heq.2, hf.eq]
    · rw [toBytes_eq, hf'.eq]
    · rw [hpk]
      rfl
    · rw [verifyClaims_author h]
      exact haddr _
  · refine ⟨fromPkSig pk sig, fromBytes_ok.mpr ⟨⟨hpk, hsig, ?_⟩, rfl⟩, rfl, rfl⟩
    exact asRef_eq _
  · exact (fromSerializedBytes_ok (hscheme _)).mpr ⟨s.length_publicKey, s.length_signature, rfl⟩

/-- The scheme of a signature, by its first byte. -/
def firstScheme : Bytes → Except String SignatureScheme
  | 0x00 :: _ => .ok .Ed25519
  | 0x01 :: _ => .ok .Secp256k1
  | 0x02 :: _ => .ok .Secp256r1
  | 0x03 :: _ => .ok .Multisig
  | 0x04 :: _ => .ok .Bls12381
  | 0x05 :: _ => .ok .ZkLogin
  | 0x06 :: _ => .ok .Passkey
  | 0x07 :: _ => .ok .SlhDsa
  | _ => .error "invalid signature scheme"

theorem firstScheme_eq (b : Bytes) : firstScheme b = .ok .SlhDsa ↔ b[0]? = some 0x07 := by
  constructor
  · intro h
    unfold firstScheme at h
    split at h <;> first | rfl | cases h
  · intro h
    obtain ⟨body, rfl⟩ := cons_of_flag h
    rfl

/-- Where no signature of another scheme is decoded. -/
theorem codecs_coincide_sample :
    (∀ b, (∃ a, fromBytes b = .ok a) ↔ firstScheme b = .ok .SlhDsa ∧
      ∃ s, UserSignature.fromSerializedBytes firstScheme (fun _ _ => (.error "" : Except String Empty)) b =
        .ok (.SlhDsa s)) ∧
    ∃ a, fromBytes (0x07 :: (List.replicate 32 1 ++ List.replicate 7856 2)) = .ok a ∧
      a.pk = List.replicate 32 1 ∧ a.sig = List.replicate 7856 2 := by
  have h := codecs_coincide firstScheme_eq (fun _ _ => (.error "" : Except String Empty)) Empty.elim
    (fun _ => []) Hash.zero (fun pk => Hash.zero (pk.flag :: pk.asRef)) (fun _ => rfl) (fun _ _ _ => false)
  exact ⟨h.1, h.2.2.1 (List.replicate 32 1) (List.replicate 7856 2) List.length_replicate
    List.length_replicate⟩

end SuiPq.Proof.SlhDsaAuthenticator
