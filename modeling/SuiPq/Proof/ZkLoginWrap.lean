import SuiPq.Impl.UnlockMessage
import SuiPq.Impl.ZkLoginWrap
import SuiPq.Proof.JsBytes

/-!
# Co-signatures of zkLogin transactions

`verifyPqWrappedZkLoginTx` compares a wrapped transaction with the fields of a
binding, and not with its attestation (`accepted_iff`,
`verifyPqWrappedZkLoginTx_attestation`). What it accepts is for the address,
scheme and key of the attestation where the binding's own are
(`wrapped_sound_iff`), as they are in the bindings of the package
(`createZkLoginPqBinding_attested`). What an attestation that passes says is
`passes_iff`.
-/

namespace SuiPq.Proof.ZkLoginWrap

open SuiPq.Impl SuiPq.Impl.Schemes SuiPq.Impl.ZkLoginWrap SuiPq.JsString

/-! ## Signatures -/

theorem verify_lengths {noble : Noble} {scheme : SchemeName} {publicKey message signature : Bytes}
    (h : (verify noble scheme publicKey message signature).res = .ok true) :
    publicKey.length = (SCHEME_META scheme).publicKeyBytes ∧ signature.length =
    (SCHEME_META scheme).signatureBytes := by
  obtain ⟨alg, -, h⟩ := Comp.bind_ok h
  by_cases hp : publicKey.length = (SCHEME_META scheme).publicKeyBytes
  · by_cases hs : signature.length = (SCHEME_META scheme).signatureBytes
    · exact ⟨hp, hs⟩
    · rw [if_neg (not_not.mpr hp), if_pos hs] at h
      cases h
  · rw [if_pos hp] at h
    cases h

theorem getAlg_eq {noble : Noble} {scheme : SchemeName} {alg : NobleSignatureAlgorithm}
    (ha : ALG noble scheme = some alg) : getAlg noble scheme = pure alg := by
  rw [getAlg, ha]

theorem verify_eq {noble : Noble} {scheme : SchemeName} {alg : NobleSignatureAlgorithm}
    {publicKey message signature : Bytes}
    (ha : ALG noble scheme = some alg) (hp : publicKey.length = (SCHEME_META scheme).publicKeyBytes)
    (hs : signature.length = (SCHEME_META scheme).signatureBytes) :
    verify noble scheme publicKey message signature =
    pure ((alg.verify signature message publicKey).getD false) := by
  rw [verify, getAlg_eq ha, pure_bind]
  dsimp only
  rw [if_neg (not_not.mpr hp), if_neg (not_not.mpr hs)]

section

variable (H : Hash) (noble : Noble) (commitMessage : JsString → Bytes → Bytes → Js Bytes)

/-! ## Attestations -/

/-- `verifyAttestation` returns with `ok`. -/
def Passes (a : Attestation) : Prop :=
  ∃ r, (verifyAttestation H noble commitMessage a).res = .ok r ∧ r.ok = true

variable {H noble commitMessage}

theorem Passes.lengths {a : Attestation} (h : Passes H noble commitMessage a) :
    a.publicKey.length = (SCHEME_META a.scheme).publicKeyBytes ∧
      a.signature.length = (SCHEME_META a.scheme).signatureBytes := by
  obtain ⟨r, h, hr⟩ := h
  unfold verifyAttestation at h
  by_cases hp : a.publicKey.length = (SCHEME_META a.scheme).publicKeyBytes
  · by_cases hs : a.signature.length = (SCHEME_META a.scheme).signatureBytes
    · exact ⟨hp, hs⟩
    · rw [if_neg (not_not.mpr hp), if_pos hs] at h
      cases h
      cases hr
  · rw [if_pos hp] at h
    cases h
    cases hr

/-- The digest is of the message that commits to the attestation's address, nonce and app tag, and signed with its
key. -/
theorem passes_iff {a : Attestation} : Passes H noble commitMessage a ↔
    ∃ commit, (commitMessage a.suiAddress a.nonce a.appTag).res = .ok commit ∧ a.messageDigest = H commit ∧
      (verify noble a.scheme a.publicKey a.messageDigest a.signature).res = .ok true := by
  constructor
  · intro h
    obtain ⟨hp, hs⟩ := h.lengths
    obtain ⟨r, h, hr⟩ := h
    rw [verifyAttestation, if_neg (not_not.mpr hp), if_neg (not_not.mpr hs)] at h
    obtain ⟨commit, hcommit, h⟩ := Comp.bind_ok h
    obtain ⟨expected, he, h⟩ := Comp.bind_ok h
    cases he
    by_cases hd : toHex (H commit) = toHex a.messageDigest
    · rw [if_neg (not_not.mpr hd)] at h
      obtain ⟨ok, hok, h⟩ := Comp.bind_ok h
      cases h
      obtain rfl : ok = true := hr
      exact ⟨commit, hcommit, (toHex_inj hd).symm, hok⟩
    · rw [if_pos hd] at h
      cases h
      cases hr
  · rintro ⟨commit, hcommit, hd, h⟩
    obtain ⟨hp, hs⟩ := verify_lengths h
    refine ⟨{ ok := true }, ?_, rfl⟩
    rw [verifyAttestation, if_neg (not_not.mpr hp), if_neg (not_not.mpr hs), Comp.eq_ret hcommit,
      Comp.ret_bind, Comp.hash, Comp.ret_bind, if_neg (not_not.mpr (congrArg _ hd.symm)),
      Comp.eq_ret h, Comp.ret_bind]
    rfl

variable (H noble commitMessage)

/-! ## Wrapped transactions -/

/-- `verifyPqWrappedZkLoginTx` returns with `ok`. -/
def Accepted (w : PqWrappedZkLoginTx) (b : ZkLoginPqBinding) : Prop :=
  ∃ r, (verifyPqWrappedZkLoginTx H noble w b).res = .ok r ∧ r.ok = true

/-- The transaction is for the address, scheme and key of the binding, and signed with this key. -/
structure Cosigned (w : PqWrappedZkLoginTx) (b : ZkLoginPqBinding) : Prop where
  address : b.zkLoginAddress = w.zkLoginAddress
  scheme : b.scheme = w.scheme
  publicKey : b.pqPublicKey = w.pqPublicKey
  digest : H w.txBytes = w.txDigest
  signature : (verify noble w.scheme w.pqPublicKey (H w.txBytes) w.pqSignature).res = .ok true

variable {H noble} {w : PqWrappedZkLoginTx} {b : ZkLoginPqBinding}

/-- What is for another address, scheme or key than the binding's is refused before its signature is looked at. -/
theorem verifyPqWrappedZkLoginTx_refused (H : Hash) (noble : Noble)
    (h : ¬ (b.zkLoginAddress = w.zkLoginAddress ∧ b.scheme = w.scheme ∧ b.pqPublicKey = w.pqPublicKey)) :
    ∃ r, (verifyPqWrappedZkLoginTx H noble w b).res = .ok r ∧ r.ok = false := by
  unfold verifyPqWrappedZkLoginTx
  by_cases ha : b.zkLoginAddress = w.zkLoginAddress
  · by_cases hs : b.scheme = w.scheme
    · have hk : ¬ b.pqPublicKey = w.pqPublicKey := fun hk => h ⟨ha, hs, hk⟩
      rw [if_neg (not_not.mpr ha), if_neg (not_not.mpr hs)]
      by_cases hl : b.pqPublicKey.length = w.pqPublicKey.length
      · rw [if_neg (not_not.mpr hl)]
        simp only [JsBytes.mismatch_eq hl, if_neg hk, pure_bind]
        exact ⟨_, rfl, rfl⟩
      · rw [if_pos hl]
        exact ⟨_, rfl, rfl⟩
    · rw [if_neg (not_not.mpr ha), if_pos hs]
      exact ⟨_, rfl, rfl⟩
  · rw [if_pos ha]
    exact ⟨_, rfl, rfl⟩

theorem Accepted.bound (h : Accepted H noble w b) :
    b.zkLoginAddress = w.zkLoginAddress ∧ b.scheme = w.scheme ∧ b.pqPublicKey = w.pqPublicKey := by
  obtain ⟨r, h, hr⟩ := h
  by_contra hbound
  obtain ⟨r', h', hr'⟩ := verifyPqWrappedZkLoginTx_refused H noble hbound
  rw [h] at h'
  cases h'
  rw [hr] at hr'
  cases hr'

theorem verifyPqWrappedZkLoginTx_eq (ha : b.zkLoginAddress = w.zkLoginAddress) (hs : b.scheme = w.scheme)
    (hk : b.pqPublicKey = w.pqPublicKey) :
    verifyPqWrappedZkLoginTx H noble w b = Comp.after [w.txBytes] do
      let ok ← verify noble w.scheme w.pqPublicKey (H w.txBytes) w.pqSignature
      let digestMatches := decide (H w.txBytes = w.txDigest)
      return {
        ok := digestMatches && ok, pqSignatureOk := ok, digestMatches
        reason := if digestMatches && ok then none
          else some (lit s!"digestMatches={digestMatches}, pqSignatureOk={ok}") } := by
  have hl := congrArg List.length hk
  rw [verifyPqWrappedZkLoginTx, if_neg (not_not.mpr ha), if_neg (not_not.mpr hs), if_neg (not_not.mpr hl)]
  simp only [JsBytes.mismatch_eq hl, if_pos hk, pure_bind, Comp.hash, Comp.ret_bind, bytesEq,
    JsBytes.sameBytes_eq]

theorem accepted_iff : Accepted H noble w b ↔ Cosigned H noble w b := by
  constructor
  · intro h
    obtain ⟨ha, hs, hk⟩ := h.bound
    obtain ⟨r, h, hr⟩ := h
    rw [verifyPqWrappedZkLoginTx_eq ha hs hk] at h
    obtain ⟨ok, hok, h⟩ := Comp.bind_ok h
    cases h
    obtain ⟨hd, rfl⟩ := Bool.and_eq_true_iff.mp hr
    exact ⟨ha, hs, hk, of_decide_eq_true hd, hok⟩
  · intro h
    refine ⟨⟨true, none, true, true⟩, ?_, rfl⟩
    rw [verifyPqWrappedZkLoginTx_eq h.address h.scheme h.publicKey, Comp.eq_ret h.signature, Comp.ret_bind,
      decide_eq_true h.digest]
    rfl

variable (H noble)

/-- The attestation is not looked at. -/
theorem verifyPqWrappedZkLoginTx_attestation (w : PqWrappedZkLoginTx) (b : ZkLoginPqBinding)
    (a : Attestation) :
    verifyPqWrappedZkLoginTx H noble w { b with attestation := a } =
    verifyPqWrappedZkLoginTx H noble w b := rfl

/-- The binding's attestation passes, and names the transaction's address and the scheme and key of its signature. -/
structure Sound (w : PqWrappedZkLoginTx) (b : ZkLoginPqBinding) : Prop where
  passes : Passes H noble commitMessage b.attestation
  address : b.attestation.suiAddress = w.zkLoginAddress
  scheme : b.attestation.scheme = w.scheme
  publicKey : b.attestation.publicKey = w.pqPublicKey

/-- The binding's attestation passes, and names the binding's address, scheme and key. -/
structure Attested (b : ZkLoginPqBinding) : Prop where
  passes : Passes H noble commitMessage b.attestation
  address : b.attestation.suiAddress = b.zkLoginAddress
  scheme : b.attestation.scheme = b.scheme
  publicKey : b.attestation.publicKey = b.pqPublicKey

/-- Some transaction has a signature with the binding's key. -/
def Usable (b : ZkLoginPqBinding) : Prop :=
  ∃ txBytes signature, (verify noble b.scheme b.pqPublicKey (H txBytes) signature).res = .ok true

/-- A transaction is accepted that agrees with the binding and is signed with its key, whatever the attestation. What
is accepted is sound, for a binding whose key signs at all, exactly where the binding is attested. -/
theorem wrapped_sound_iff (b : ZkLoginPqBinding) : (∀ w, Accepted H noble w b ↔ Cosigned H noble w b) ∧
    (∀ w a, verifyPqWrappedZkLoginTx H noble w { b with attestation := a } =
      verifyPqWrappedZkLoginTx H noble w b) ∧
    ((∀ w, Accepted H noble w b → Sound H noble commitMessage w b) ↔
      (Usable H noble b → Attested H noble commitMessage b)) := by
  refine ⟨fun w => accepted_iff, fun w a => verifyPqWrappedZkLoginTx_attestation H noble w b a, ?_, ?_⟩
  · rintro h ⟨txBytes, signature, hv⟩
    have hs := h ⟨txBytes, H txBytes, signature, b.pqPublicKey, b.scheme, b.zkLoginAddress⟩
      (accepted_iff.mpr ⟨rfl, rfl, rfl, rfl, hv⟩)
    exact ⟨hs.passes, hs.address, hs.scheme, hs.publicKey⟩
  · intro h w hw
    have hc := accepted_iff.mp hw
    have hv : (verify noble b.scheme b.pqPublicKey (H w.txBytes) w.pqSignature).res = .ok true := by
      rw [hc.scheme, hc.publicKey]
      exact hc.signature
    have ha := h ⟨w.txBytes, w.pqSignature, hv⟩
    exact ⟨ha.passes, ha.address.trans hc.address, ha.scheme.trans hc.scheme, ha.publicKey.trans hc.publicKey⟩

end

/-! ## Bindings that are created -/

section

variable {H : Hash} {noble : Noble} {commitMessage : JsString → Bytes → Bytes → Js Bytes} {random : Random}

theorem buildAttestation_ok {opts : BuildOptions} {kp : Bytes × Bytes} {r : Attestation × Bytes}
    (hk : opts.keypair = some kp) (h : (buildAttestation H noble commitMessage random opts).res = .ok r) :
    r.1.scheme = opts.scheme ∧ r.1.suiAddress = opts.suiAddress ∧ r.1.publicKey = kp.1 := by
  obtain ⟨commit, -, h⟩ := Comp.bind_ok h
  obtain ⟨digest, -, h⟩ := Comp.bind_ok h
  obtain ⟨kp', hkp, h⟩ := Comp.bind_ok h
  obtain ⟨signature, -, h⟩ := Comp.bind_ok h
  rw [hk] at hkp
  cases hkp
  cases h
  exact ⟨rfl, rfl, rfl⟩

/-- The attestation that is built passes, where what is signed with its key verifies. -/
theorem buildAttestation_passes {opts : BuildOptions} {r : Attestation × Bytes}
    (h : (buildAttestation H noble commitMessage random opts).res = .ok r)
    (hv : ∀ m s, (sign noble random.entropy r.1.scheme r.2 m).res = .ok s →
      (verify noble r.1.scheme r.1.publicKey m s).res = .ok true) : Passes H noble commitMessage r.1 := by
  obtain ⟨commit, hcommit, h⟩ := Comp.bind_ok h
  obtain ⟨digest, hd, h⟩ := Comp.bind_ok h
  cases hd
  obtain ⟨kp, -, h⟩ := Comp.bind_ok h
  obtain ⟨signature, hs, h⟩ := Comp.bind_ok h
  cases h
  exact passes_iff.mpr ⟨commit, hcommit, rfl, hv _ _ hs⟩

/-- The bindings that the package creates are attested. -/
theorem createZkLoginPqBinding_attested {opts : CreateZkLoginPqBindingOptions} {r : ZkLoginPqBinding × Bytes}
    (h : (createZkLoginPqBinding H noble commitMessage random opts).res = .ok r)
    (hv : ∀ m s, (sign noble random.entropy r.1.scheme r.2 m).res = .ok s →
      (verify noble r.1.scheme r.1.pqPublicKey m s).res = .ok true) : Attested H noble commitMessage r.1 := by
  obtain ⟨kp, -, h⟩ := Comp.bind_ok h
  obtain ⟨built, hb, h⟩ := Comp.bind_ok h
  cases h
  obtain ⟨hscheme, haddress, hkey⟩ := buildAttestation_ok rfl hb
  refine ⟨buildAttestation_passes hb fun m s hs => ?_, haddress, hscheme, hkey⟩
  rw [hscheme] at hs ⊢
  rw [hkey]
  exact hv m s hs

end

/-! ## An attestation for another address -/

/-- An algorithm that accepts one signature. -/
def oneSignature : NobleSignatureAlgorithm where
  keygen _ := pure (List.replicate 32 7, [])
  sign _ _ _ := pure (List.replicate 7856 1)
  verify signature _ _ := some (signature = List.replicate 7856 1)

theorem oneSignature_verify (message publicKey : Bytes) :
    oneSignature.verify (List.replicate 7856 1) message publicKey = some true := by
  simp only [oneSignature, decide_true]

def sampleNoble : Noble :=
    ⟨oneSignature, oneSignature, oneSignature, oneSignature, oneSignature, oneSignature,
  oneSignature, oneSignature, oneSignature⟩

/-- The encoding of a message whose nonce and app tag have fewer than 128 bytes. -/
def sampleCommit (suiAddress : JsString) (nonce appTag : Bytes) : Js Bytes := do
  let address ← UnlockMessage.addressTo32Bytes suiAddress
  return address ++ UInt8.ofNat nonce.length :: nonce ++ UInt8.ofNat appTag.length :: appTag

def sampleWrapped : PqWrappedZkLoginTx :=
  ⟨[1, 2, 3, 4, 5], List.replicate 32 0, List.replicate 7856 1, List.replicate 32 7,
    .SLH_DSA_SHA2_128S, lit "0xa"⟩

/-- Its attestation is for another address and key. -/
def sampleBinding : ZkLoginPqBinding :=
  ⟨lit "0xa", .SLH_DSA_SHA2_128S, List.replicate 32 7,
    ⟨.SLH_DSA_SHA2_128S, List.replicate 32 9, List.replicate 7856 0, List.replicate 32 0, lit "0xb", [], []⟩⟩

theorem accepted_not_sound : Accepted Hash.zero sampleNoble sampleWrapped sampleBinding ∧
    ¬ Sound Hash.zero sampleNoble sampleCommit sampleWrapped sampleBinding := by
  constructor
  · refine accepted_iff.mpr ⟨rfl, rfl, rfl, rfl, ?_⟩
    have hk : sampleWrapped.pqPublicKey.length = 32 := List.length_replicate
    have hs : sampleWrapped.pqSignature.length = 7856 := List.length_replicate
    rw [verify_eq (show ALG sampleNoble sampleWrapped.scheme = some oneSignature from rfl) hk hs]
    exact congrArg (fun r : Option Bool => Except.ok (r.getD false)) (oneSignature_verify _ _)
  · intro h
    exact absurd h.address (by decide)

end SuiPq.Proof.ZkLoginWrap
