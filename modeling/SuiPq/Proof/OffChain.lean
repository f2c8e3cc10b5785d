import SuiPq.Impl.Hybrid
import SuiPq.Proof.ZkLoginWrap

/-!
# Off-chain verifiers

`verifyAttestation`, `hybridVerify` and `verifyPqWrappedZkLoginTx` are to
return a result whatever they are given. `verify` throws on a scheme that the
library does not have (`verify_reports`), and what encodes the commit message
of an attestation throws on an invalid address. `reports_iff` says which inputs
do not come to these; there the `ok` of the result is that every check holds.
-/

namespace SuiPq.Proof.OffChain

open SuiPq.Js SuiPq.JsString SuiPq.Impl SuiPq.Impl.Schemes SuiPq.Impl.Hybrid SuiPq.Impl.ZkLoginWrap

/-- The computation returns a result whose `ok` is that the checks hold. -/
def Reports {ρ : Type} (c : Js ρ) (ok : ρ → Bool) (checks : Prop) : Prop :=
  ∃ r, c.res = .ok r ∧ (ok r = true ↔ checks)

theorem reports_false {ρ : Type} {c : Js ρ} {r : ρ} {ok : ρ → Bool} {checks : Prop} (hc : c.res = .ok r)
    (hok : ok r = false) (hchecks : ¬ checks) : Reports c ok checks :=
  ⟨r, hc, by rw [hok]; simp only [Bool.false_eq_true, hchecks]⟩

section

variable (H : Hash) (noble : Noble)

/-! ## Signatures -/

/-- The library has an algorithm for the scheme. -/
def Exposed (scheme : SchemeName) : Prop := (ALG noble scheme).isSome

/-- The lengths are the scheme's, and its algorithm returns true. -/
structure Signed (scheme : SchemeName) (publicKey message signature : Bytes) : Prop where
  keyLength : publicKey.length = (SCHEME_META scheme).publicKeyBytes
  signatureLength : signature.length = (SCHEME_META scheme).signatureBytes
  verifies : ∃ alg, ALG noble scheme = some alg ∧ alg.verify signature message publicKey = some true

variable {H noble}
variable {scheme : SchemeName} {publicKey message signature : Bytes} {ρ : Type} {f : Bool → Js ρ}

theorem verify_exposed (publicKey message signature : Bytes) (h : Exposed noble scheme) :
    ∃ b, verify noble scheme publicKey message signature = pure b ∧
      (b = true ↔ Signed noble scheme publicKey message signature) := by
  obtain ⟨alg, ha⟩ := Option.isSome_iff_exists.mp h
  by_cases hp : publicKey.length = (SCHEME_META scheme).publicKeyBytes
  · by_cases hs : signature.length = (SCHEME_META scheme).signatureBytes
    · refine ⟨_, ZkLoginWrap.verify_eq ha hp hs, ?_⟩
      constructor
      · intro hv
        cases hres : alg.verify signature message publicKey with
        | none =>
          rw [hres] at hv
          cases hv
        | some b =>
          rw [hres] at hv
          exact ⟨hp, hs, alg, ha, hres.trans (congrArg some hv)⟩
      · rintro ⟨-, -, alg', ha', hv⟩
        rw [ha] at ha'
        cases ha'
        rw [hv, Option.getD_some]
    · refine ⟨false, ?_, ?_⟩
      · rw [verify, ZkLoginWrap.getAlg_eq ha, pure_bind]
        dsimp only
        rw [if_neg (not_not.mpr hp), if_pos hs]
      · simp only [Bool.false_eq_true, false_iff]
        intro hsigned
        exact hs hsigned.signatureLength
  · refine ⟨false, ?_, ?_⟩
    · rw [verify, ZkLoginWrap.getAlg_eq ha, pure_bind]
      dsimp only
      rw [if_pos hp]
    · simp only [Bool.false_eq_true, false_iff]
      intro hsigned
      exact hp hsigned.keyLength

/-- A scheme without an algorithm throws, and so does what calls `verify` on it. -/
theorem verify_hidden (h : ¬ Exposed noble scheme) (r : ρ) :
    (verify noble scheme publicKey message signature >>= f).res ≠ .ok r := by
  intro hr
  obtain ⟨b, hb, -⟩ := Comp.bind_ok hr
  obtain ⟨alg, halg, -⟩ := Comp.bind_ok hb
  have ha : ALG noble scheme = none := by simpa [Exposed] using h
  rw [getAlg, ha] at halg
  cases halg

/-- What calls `verify` reports where the library has the algorithm. -/
theorem verify_reports {ok : ρ → Bool} {checks : Prop}
    (h : ∀ b, (b = true ↔ Signed noble scheme publicKey message signature) → Reports (f b) ok checks) :
    Reports (verify noble scheme publicKey message signature >>= f) ok checks ↔ Exposed noble scheme := by
  constructor
  · rintro ⟨r, hr, -⟩
    by_contra hhidden
    exact verify_hidden hhidden r hr
  · intro hexposed
    obtain ⟨b, hb, hsigned⟩ := verify_exposed publicKey message signature hexposed
    rw [hb, pure_bind]
    exact h b hsigned

/-! ## Attestations -/

section

variable (H noble)
variable (commitMessage : JsString → Bytes → Bytes → Js Bytes)

/-- What `verifyAttestation` checks. -/
structure Valid (a : Attestation) : Prop where
  digest : ∃ commit, (commitMessage a.suiAddress a.nonce a.appTag).res = .ok commit ∧
    H commit = a.messageDigest
  signed : Signed noble a.scheme a.publicKey a.messageDigest a.signature

/-- The lengths are the scheme's. -/
def Sized (a : Attestation) : Prop :=
  a.publicKey.length = (SCHEME_META a.scheme).publicKeyBytes ∧
    a.signature.length = (SCHEME_META a.scheme).signatureBytes

/-- The commit message has an encoding, and where the digest is its hash, the library has the scheme. -/
def Encodes (a : Attestation) : Prop :=
  ∃ commit, (commitMessage a.suiAddress a.nonce a.appTag).res = .ok commit ∧
    (H commit = a.messageDigest → Exposed noble a.scheme)

variable {H noble commitMessage}

theorem verifyAttestation_reports (a : Attestation) :
    Reports (verifyAttestation H noble commitMessage a) (·.ok) (Valid H noble commitMessage a) ↔
      (Sized a → Encodes H noble commitMessage a) := by
  unfold verifyAttestation
  dsimp only
  by_cases hp : a.publicKey.length = (SCHEME_META a.scheme).publicKeyBytes
  · by_cases hs : a.signature.length = (SCHEME_META a.scheme).signatureBytes
    · rw [if_neg (not_not.mpr hp), if_neg (not_not.mpr hs)]
      have hsized : Sized a := ⟨hp, hs⟩
      simp only [hsized, true_implies]
      constructor
      · rintro ⟨r, hr, hok⟩
        obtain ⟨commit, hcommit, hr⟩ := Comp.bind_ok hr
        refine ⟨commit, hcommit, fun hd => ?_⟩
        by_contra hhidden
        rw [Comp.hash, Comp.ret_bind, if_neg (not_not.mpr (congrArg _ hd))] at hr
        exact verify_hidden hhidden r hr
      · rintro ⟨commit, hcommit, hexposed⟩
        rw [Comp.eq_ret hcommit, Comp.ret_bind, Comp.hash, Comp.ret_bind]
        by_cases hd : H commit = a.messageDigest
        · rw [if_neg (not_not.mpr (congrArg _ hd))]
          refine (verify_reports fun b hb => ⟨_, rfl, ?_⟩).mpr (hexposed hd)
          rw [hb]
          exact ⟨fun h => ⟨⟨commit, hcommit, hd⟩, h⟩, fun h => h.signed⟩
        · rw [if_pos fun h => hd (toHex_inj h)]
          refine reports_false rfl rfl fun hvalid => ?_
          obtain ⟨commit', hcommit', hd'⟩ := hvalid.digest
          rw [hcommit] at hcommit'
          cases hcommit'
          exact hd hd'
    · rw [if_neg (not_not.mpr hp), if_pos hs]
      exact iff_of_true (reports_false rfl rfl fun h => hs h.signed.signatureLength) fun h => absurd h.2 hs
  · rw [if_pos hp]
    exact iff_of_true (reports_false rfl rfl fun h => hp h.signed.keyLength) fun h => absurd h.1 hp

end

/-! ## Hybrid signatures -/

section

variable (H noble)
variable (verifyTransactionSignature : Bytes → JsString → Except JsString PublicKey)

/-- The classical signature is valid, for the address that is expected if there is one. -/
def Classical (opts : HybridVerifyOptions) : Prop :=
  ∃ pub, verifyTransactionSignature opts.signature.txBytes opts.signature.classicalSignature = .ok pub ∧
    ∀ expected, opts.expectedSuiAddress = some expected → expected ≠ [] → pub.toSuiAddress = expected

/-- What `hybridVerify` checks. -/
structure Hybrid (opts : HybridVerifyOptions) : Prop where
  classical : Classical verifyTransactionSignature opts
  signed : Signed noble opts.signature.scheme opts.signature.pqPublicKey (H opts.signature.txBytes)
    opts.signature.pqSignature

variable {H noble verifyTransactionSignature}

theorem classicalCheck_iff (opts : HybridVerifyOptions) :
    (classicalCheck verifyTransactionSignature opts).1 =
      true ↔ Classical verifyTransactionSignature opts := by
  unfold classicalCheck Classical
  cases verifyTransactionSignature opts.signature.txBytes opts.signature.classicalSignature with
  | error e => simp
  | ok pub =>
    cases opts.expectedSuiAddress with
    | none => simp
    | some expected =>
      by_cases hempty : expected = []
      · simp [hempty, Option.filter]
      · by_cases haddr : pub.toSuiAddress = expected
        · simp [hempty, haddr, Option.filter]
        · simp [hempty, haddr, Option.filter]

theorem classicalCheck_reasons (opts : HybridVerifyOptions) :
    (classicalCheck verifyTransactionSignature opts).1 = true ↔
      (classicalCheck verifyTransactionSignature opts).2 = [] := by
  unfold classicalCheck
  split
  · simp
  · split
    · simp
    · split
      · simp
      · simp

/-- The result is `ok` where there is no reason against it. -/
theorem hybridVerify_reasons {opts : HybridVerifyOptions} {r : HybridVerifyResult}
    (h : (hybridVerify H noble verifyTransactionSignature opts).res = .ok r) :
      r.ok = true ↔ r.reasons = [] := by
  obtain ⟨digest, -, h⟩ := Comp.bind_ok h
  obtain ⟨pqOk, -, h⟩ := Comp.bind_ok h
  cases h
  show (_ && pqOk) = true ↔ (if pqOk = true then _ else _) = []
  by_cases hpq : pqOk = true
  · rw [if_pos hpq, hpq, Bool.and_true, classicalCheck_reasons]
  · rw [if_neg hpq]
    simp [hpq]

theorem hybridVerify_reports (opts : HybridVerifyOptions) :
    Reports (hybridVerify H noble verifyTransactionSignature opts) (·.ok)
      (Hybrid H noble verifyTransactionSignature opts) ↔ Exposed noble opts.signature.scheme := by
  unfold hybridVerify
  simp only [Comp.hash, Comp.ret_bind]
  refine verify_reports fun b hb => ⟨_, rfl, ?_⟩
  show (_ && b) = true ↔ _
  rw [Bool.and_eq_true, classicalCheck_iff, hb]
  exact ⟨fun h => ⟨h.1, h.2⟩, fun h => ⟨h.classical, h.signed⟩⟩

end

/-! ## Wrapped transactions -/

/-- The address, the scheme and the key of the transaction are the binding's. -/
def Bound (w : PqWrappedZkLoginTx) (b : ZkLoginPqBinding) : Prop :=
  b.zkLoginAddress = w.zkLoginAddress ∧ b.scheme = w.scheme ∧ b.pqPublicKey = w.pqPublicKey

/-- What `verifyPqWrappedZkLoginTx` checks. -/
structure Wrapped (H : Hash) (noble : Noble) (w : PqWrappedZkLoginTx) (b : ZkLoginPqBinding) : Prop where
  bound : Bound w b
  digest : H w.txBytes = w.txDigest
  signed : Signed noble w.scheme w.pqPublicKey (H w.txBytes) w.pqSignature

theorem verifyPqWrappedZkLoginTx_reports (w : PqWrappedZkLoginTx) (b : ZkLoginPqBinding) :
    Reports (verifyPqWrappedZkLoginTx H noble w b) (·.ok) (Wrapped H noble w b) ↔
      (Bound w b → Exposed noble w.scheme) := by
  by_cases hb : Bound w b
  · obtain ⟨ha, hs, hk⟩ := hb
    have hbound : Bound w b := ⟨ha, hs, hk⟩
    simp only [hbound, true_implies]
    rw [ZkLoginWrap.verifyPqWrappedZkLoginTx_eq ha hs hk]
    refine verify_reports fun ok hok => ⟨_, rfl, ?_⟩
    show (_ && ok) = true ↔ _
    rw [Bool.and_eq_true, decide_eq_true_eq, hok]
    exact ⟨fun h => ⟨hbound, h.1, h.2⟩, fun h => ⟨h.digest, h.signed⟩⟩
  · obtain ⟨r, hr, hok⟩ := ZkLoginWrap.verifyPqWrappedZkLoginTx_refused H noble hb
    exact iff_of_true (reports_false hr hok fun h => hb h.bound) fun h => absurd h hb

variable (H noble)

/-- Where each verifier returns a result whose `ok` is that its checks hold. -/
theorem reports_iff (commitMessage : JsString → Bytes → Bytes → Js Bytes)
    (verifyTransactionSignature : Bytes → JsString → Except JsString PublicKey) :
    (∀ a, Reports (verifyAttestation H noble commitMessage a) (·.ok) (Valid H noble commitMessage a) ↔
      (Sized a → Encodes H noble commitMessage a)) ∧
    (∀ opts, Reports (hybridVerify H noble verifyTransactionSignature opts) (·.ok)
      (Hybrid H noble verifyTransactionSignature opts) ↔ Exposed noble opts.signature.scheme) ∧
    (∀ w b, Reports (verifyPqWrappedZkLoginTx H noble w b) (·.ok) (Wrapped H noble w b) ↔
      (Bound w b → Exposed noble w.scheme)) :=
  ⟨verifyAttestation_reports, hybridVerify_reports, verifyPqWrappedZkLoginTx_reports⟩

end

/-! ## Inputs that throw -/

/-- Every length is right, and the address has 65 digits. -/
def unencodable : Attestation :=
  ⟨.ML_DSA_44, List.replicate 1312 0, List.replicate 2420 0, [], lit "0x" ++ List.replicate 65 0x30, [], []⟩

def falconHybrid : HybridVerifyOptions := { signature := ⟨[], [], .FALCON_512, [], []⟩ }

def falconWrapped : PqWrappedZkLoginTx := ⟨[], [], [], [], .FALCON_512, lit "0xa"⟩

def falconBinding : ZkLoginPqBinding := ⟨lit "0xa", .FALCON_512, [], unencodable⟩

/-- No classical signature is valid. -/
def noClassical (_ : Bytes) (_ : JsString) : Except JsString PublicKey := .error (lit "Error: no signature")

open ZkLoginWrap (sampleNoble sampleCommit) in
theorem verifiers_throw :
    (∀ r, (verifyAttestation Hash.zero sampleNoble sampleCommit unencodable).res ≠ .ok r) ∧
    (∀ r, (hybridVerify Hash.zero sampleNoble noClassical falconHybrid).res ≠ .ok r) ∧
    (∀ r, (verifyPqWrappedZkLoginTx Hash.zero sampleNoble falconWrapped falconBinding).res ≠ .ok r) := by
  refine ⟨fun r hr => ?_, fun r hr => ?_, fun r hr => ?_⟩
  · have hp : unencodable.publicKey.length =
      (SCHEME_META unencodable.scheme).publicKeyBytes := List.length_replicate
    have hs : unencodable.signature.length = (SCHEME_META unencodable.scheme).signatureBytes :=
      List.length_replicate
    rw [verifyAttestation, if_neg (not_not.mpr hp), if_neg (not_not.mpr hs)] at hr
    obtain ⟨commit, hcommit, -⟩ := Comp.bind_ok hr
    cases hcommit
  · cases hr
  · cases hr

end SuiPq.Proof.OffChain
