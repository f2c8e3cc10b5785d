import SuiPq.Proof.LocalValidator
import SuiPq.Proof.SlhDsaAuthenticator

/-!
# TypeScript transaction signatures in the node

The TypeScript package signs transactions in SLH-DSA-LITE, in blobs of 5121
bytes (`length_blob`). The node's signatures have the same flag, but a key of
32 bytes and a signature of 7856: it accepts no such blob (`never_accepted`).
-/

namespace SuiPq.Proof.NativeWire

open SuiPq.Js SuiPq.Impl SuiPq.Impl.SlhDsaRef SuiPq.Impl.LocalValidator
open SuiPq.Impl.SuiTypes.SlhDsaAuthenticator (fromBytes)
open SuiPq.Proof.SlhDsaAuthenticator (fromBytes_flag fromBytes_length cons_of_flag)

variable {H B : Hash} {tx : Bytes} {pk : SlhDsaRef.PublicKey} {sk : SecretKey}

/-- The blob that is signed for a transaction is accepted, with the key and the signature in it. -/
def Accepted (H B : Hash) (tx : Bytes) (pk : SlhDsaRef.PublicKey) (sk : SecretKey) : Prop :=
  ∃ b a, (signTxWithSlhDsa H B tx pk sk).res = .ok b ∧ fromBytes b = .ok a ∧
    a.pk = pk.seed ++ pk.root ∧ a.sig = b.drop 65

theorem length_set {buf src out : Bytes} {off : Nat} (h : (Js.set buf src off).res = .ok out) :
    out.length = buf.length := by
  by_cases hfit : off + src.length ≤ buf.length
  · rw [set_eq hfit] at h
    rw [← Except.ok.inj h, length_patch hfit]
  · rw [Js.set, if_neg hfit] at h
    cases h

theorem set_flag {buf src out : Bytes} {off : Nat} (hoff : 0 < off) (h : (Js.set buf src off).res = .ok out) :
    out[0]? = buf[0]? := by
  by_cases hfit : off + src.length ≤ buf.length
  · rw [set_eq hfit] at h
    rw [← Except.ok.inj h, patch, List.append_assoc, List.getElem?_append_left (by
      rw [List.length_take]
      omega), List.getElem?_take_of_lt hoff]
  · rw [Js.set, if_neg hfit] at h
    cases h

/-- Whatever the key: the length and the flag of a blob that is signed. -/
theorem blob_shape {b : Bytes} (h : (signTxWithSlhDsa H B tx pk sk).res = .ok b) :
    b.length = 5121 ∧ b[0]? = some 0x07 := by
  rw [signTxWithSlhDsa] at h
  obtain ⟨_, -, h⟩ := Comp.bind_ok h
  obtain ⟨_, -, h⟩ := Comp.bind_ok h
  obtain ⟨_, -, h⟩ := Comp.bind_ok h
  obtain ⟨_, h1, h⟩ := Comp.bind_ok h
  obtain ⟨_, h2, h⟩ := Comp.bind_ok h
  refine ⟨?_, ?_⟩
  · rw [length_set h, length_set h2, length_set h1, length_put, length_zeros]
    rfl
  · rw [set_flag (by decide) h, set_flag (by decide) h2, set_flag (by decide) h1]
    rfl

/-- A blob that is signed has the flag of the node's signatures, and not their length. -/
theorem blob_rejected {b : Bytes} (h : (signTxWithSlhDsa H B tx pk sk).res = .ok b) :
    fromBytes b = .error (.InputLengthWrong 7889) := by
  obtain ⟨hlen, hflag⟩ := blob_shape h
  obtain ⟨body, rfl⟩ := cons_of_flag hflag
  exact fromBytes_length (by rw [Nat.succ.inj hlen]; decide)

/-- No blob is accepted, for any key and transaction. -/
theorem never_accepted (H B : Hash) (tx : Bytes) (pk : SlhDsaRef.PublicKey) (sk : SecretKey) :
    ¬ Accepted H B tx pk sk := by
  rintro ⟨b, a, hb, ha, -⟩
  rw [blob_rejected hb] at ha
  cases ha

/-- The key from seeds of zeros, under the hash that is zero everywhere, signs a transaction without
bytes; the node stops at the length. -/
theorem zero_key_rejected :
    ∃ pk sk b, (keygen Hash.zero (List.replicate 32 0) (List.replicate 32 0)).res = .ok (pk, sk) ∧
      (signTxWithSlhDsa Hash.zero Hash.zero [] pk sk).res = .ok b ∧
      fromBytes b = .error (.InputLengthWrong 7889) ∧ ¬ Accepted Hash.zero Hash.zero [] pk sk := by
  let z : Bytes := List.replicate 32 0
  have hsign : (signTxWithSlhDsa Hash.zero Hash.zero [] ⟨z, SlhDsaRef.rootOf Hash.zero z z⟩
    ⟨z, z⟩).res = .ok _ :=
    LocalValidator.signTx_eq List.length_replicate rfl []
  refine ⟨_, _, _, ?_, hsign, blob_rejected hsign, ?_⟩
  · rw [SlhDsaRef.keygen_eq, Comp.res_ret]
  · rintro ⟨b, a, hb, ha, -⟩
    rw [blob_rejected hb] at ha
    cases ha

end SuiPq.Proof.NativeWire
