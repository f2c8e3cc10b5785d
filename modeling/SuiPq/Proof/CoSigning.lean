import SuiPq.Proof.OffChain

/-!
# What is signed is accepted

A transaction wrapped with the key pair of a binding that the package created
is accepted for this binding exactly where the scheme and the address are its
own, and is then sound (`created_wrapped_iff`). A hybrid signature verifies for
the address of its classical signer, and for no other (`signed_verified_iff`).
Both rest on the library: what is signed with the key pair verifies
(`Verifies`).
-/

namespace SuiPq.Proof.CoSigning

open SuiPq.Js SuiPq.JsString SuiPq.Impl SuiPq.Impl.Schemes SuiPq.Impl.Hybrid SuiPq.Impl.ZkLoginWrap
open ZkLoginWrap (Accepted Sound Attested accepted_iff createZkLoginPqBinding_attested)
open OffChain (Bound Classical)

variable {H : Hash} {noble : Noble} {commitMessage : JsString → Bytes → Bytes → Js Bytes} {random : Random}
variable {entropy : Bytes} {build : Js Bytes}

/-- What is signed with the key pair verifies. -/
def Verifies (noble : Noble) (kp : Keypair) : Prop :=
  ∀ entropy m s, (sign noble entropy kp.scheme kp.secretKey m).res = .ok s →
    (verify noble kp.scheme kp.publicKey m s).res = .ok true

/-! ## Wrapped transactions -/

theorem pqWrapZkLoginTx_ok {opts : WrapZkLoginTxOptions} {w : PqWrappedZkLoginTx}
    (h : (pqWrapZkLoginTx H noble entropy build opts).res = .ok w) :
    w.txDigest = H w.txBytes ∧ w.scheme = opts.pqKeypair.scheme ∧ w.pqPublicKey = opts.pqKeypair.publicKey ∧
      w.zkLoginAddress = opts.zkLoginAddress ∧
      (sign noble entropy opts.pqKeypair.scheme opts.pqKeypair.secretKey (H w.txBytes)).res =
      .ok w.pqSignature := by
  obtain ⟨txBytes, -, h⟩ := Comp.bind_ok h
  rw [Comp.hash, Comp.ret_bind] at h
  obtain ⟨signature, hs, h⟩ := Comp.bind_ok h
  cases h
  exact ⟨rfl, rfl, rfl, rfl, hs⟩

/-- A wrapped transaction is accepted for the bindings of its address, scheme and key. -/
theorem wrapped_accepted_iff {opts : WrapZkLoginTxOptions} {w : PqWrappedZkLoginTx}
    (h : (pqWrapZkLoginTx H noble entropy build opts).res = .ok w) (hkp : Verifies noble opts.pqKeypair)
    (b : ZkLoginPqBinding) : Accepted H noble w b ↔ Bound w b := by
  obtain ⟨hdigest, hscheme, hkey, -, hs⟩ := pqWrapZkLoginTx_ok h
  rw [accepted_iff]
  constructor
  · intro hc
    exact ⟨hc.address, hc.scheme, hc.publicKey⟩
  · rintro ⟨ha, hsch, hk⟩
    refine ⟨ha, hsch, hk, hdigest.symm, ?_⟩
    rw [hscheme, hkey]
    exact hkp entropy _ _ hs

theorem createZkLoginPqBinding_address {opts : CreateZkLoginPqBindingOptions} {r : ZkLoginPqBinding × Bytes}
    (h : (createZkLoginPqBinding H noble commitMessage random opts).res = .ok r) :
    r.1.zkLoginAddress = opts.zkLoginAddress ∧ r.1.scheme = opts.scheme.getD .ML_DSA_65 := by
  obtain ⟨kp, -, h⟩ := Comp.bind_ok h
  obtain ⟨built, -, h⟩ := Comp.bind_ok h
  cases h
  exact ⟨rfl, rfl⟩

/-- A signature of the digest `m` that the key accepts for another digest too. -/
def Transfers (noble : Noble) (scheme : SchemeName) (publicKey m signature : Bytes) : Prop :=
  ∃ m', m' ≠ m ∧ (verify noble scheme publicKey m' signature).res = .ok true

/-- A transaction that is wrapped with the key pair of a binding that the package created, under the name of any scheme
and for any address: the binding is attested; the transaction is accepted for it exactly where the scheme and the
address are the binding's, and is then sound; and what else is accepted for it with this signature has the same hash,
unless the signature is one of another digest too. -/
theorem created_wrapped_iff {opts : CreateZkLoginPqBindingOptions} {r : ZkLoginPqBinding × Bytes}
    {scheme : SchemeName} {address : JsString} {w : PqWrappedZkLoginTx}
    (hcreate : (createZkLoginPqBinding H noble commitMessage random opts).res = .ok r)
    (hwrap : (pqWrapZkLoginTx H noble entropy build ⟨⟨scheme, r.1.pqPublicKey, r.2⟩, address⟩).res = .ok w)
    (hkp : Verifies noble ⟨r.1.scheme, r.1.pqPublicKey, r.2⟩) :
    Attested H noble commitMessage r.1 ∧
    (Accepted H noble w r.1 ↔ scheme = opts.scheme.getD .ML_DSA_65 ∧ address = opts.zkLoginAddress) ∧
    (Accepted H noble w r.1 → Sound H noble commitMessage w r.1) ∧
    ∀ w', Accepted H noble w' r.1 → w'.pqSignature = w.pqSignature → H w'.txBytes = H w.txBytes ∨
      Transfers noble r.1.scheme r.1.pqPublicKey (H w.txBytes) w.pqSignature := by
  have hattested := createZkLoginPqBinding_attested hcreate (hkp random.entropy)
  obtain ⟨-, hscheme, hkey, haddress, -⟩ := pqWrapZkLoginTx_ok hwrap
  obtain ⟨hopts, hoptsScheme⟩ := createZkLoginPqBinding_address hcreate
  refine ⟨hattested, ⟨fun h => ?_, fun ⟨hs, ha⟩ => ?_⟩, fun h => ?_, fun w' h hsig => ?_⟩
  · obtain ⟨ha, hs, -⟩ := h.bound
    exact ⟨hscheme.symm.trans (hs.symm.trans hoptsScheme), haddress.symm.trans (ha.symm.trans hopts)⟩
  · subst hs ha
    refine (wrapped_accepted_iff hwrap ?_ r.1).mpr
      ⟨hopts.trans haddress.symm, hoptsScheme.trans hscheme.symm, hkey.symm⟩
    rw [hoptsScheme] at hkp
    exact hkp
  · obtain ⟨ha, hs, hk⟩ := h.bound
    exact ⟨hattested.passes, hattested.address.trans ha, hattested.scheme.trans hs,
      hattested.publicKey.trans hk⟩
  · have hc := accepted_iff.mp h
    refine or_iff_not_imp_left.mpr fun hne => ⟨H w'.txBytes, hne, ?_⟩
    rw [hc.scheme, hc.publicKey, ← hsig]
    exact hc.signature

open ZkLoginWrap (sampleNoble sampleCommit oneSignature oneSignature_verify)

def sampleOptions : CreateZkLoginPqBindingOptions :=
    { zkLoginAddress := lit "0xa", scheme := some .SLH_DSA_SHA2_128S }

def samplePair : Keypair := ⟨.SLH_DSA_SHA2_128S, List.replicate 32 7, []⟩

theorem samplePair_verifies : Verifies sampleNoble samplePair := by
  intro entropy m s hs
  obtain rfl : List.replicate 7856 1 = s := Except.ok.inj hs
  have hk : samplePair.publicKey.length = 32 := List.length_replicate
  have hs : (List.replicate 7856 1 : Bytes).length = 7856 := List.length_replicate
  rw [ZkLoginWrap.verify_eq (show ALG sampleNoble samplePair.scheme = some oneSignature from rfl) hk hs]
  exact congrArg (fun r : Option Bool => Except.ok (r.getD false)) (oneSignature_verify _ _)

def sampleCreated : ZkLoginPqBinding × Bytes :=
  (⟨lit "0xa", .SLH_DSA_SHA2_128S, List.replicate 32 7, ⟨.SLH_DSA_SHA2_128S, List.replicate 32 7,
    List.replicate 7856 1, List.replicate 32 0, lit "0xa", [1], encode (lit "zk-login-binding")⟩⟩, [])

theorem created_wrapped_iff_sample : ∃ w, Accepted Hash.zero sampleNoble w sampleCreated.1 ∧
    Sound Hash.zero sampleNoble sampleCommit w sampleCreated.1 := by
  have hcreate : (createZkLoginPqBinding Hash.zero sampleNoble sampleCommit ⟨[1], [2],
    [3]⟩ sampleOptions).res =
    .ok sampleCreated := rfl
  let w : PqWrappedZkLoginTx :=
    ⟨[5], List.replicate 32 0, List.replicate 7856 1, List.replicate 32 7, .SLH_DSA_SHA2_128S, lit "0xa"⟩
  have hwrap : (pqWrapZkLoginTx Hash.zero sampleNoble [4] (pure [5])
    ⟨⟨.SLH_DSA_SHA2_128S, sampleCreated.1.pqPublicKey, sampleCreated.2⟩, lit "0xa"⟩).res = .ok w := rfl
  obtain ⟨-, haccepted, hsound, -⟩ := created_wrapped_iff hcreate hwrap samplePair_verifies
  have h := haccepted.mpr ⟨rfl, rfl⟩
  exact ⟨w, h, hsound h⟩

/-! ## Hybrid signatures -/

variable {signTransaction : Bytes → Js JsString} {kp : Keypair} {sig : HybridSignature}

theorem hybridSign_ok (h : (hybridSign H noble entropy build signTransaction kp).res = .ok sig) :
    (signTransaction sig.txBytes).res = .ok sig.classicalSignature ∧ sig.scheme = kp.scheme ∧
      sig.pqPublicKey = kp.publicKey ∧
      (sign noble entropy kp.scheme kp.secretKey (H sig.txBytes)).res = .ok sig.pqSignature := by
  obtain ⟨txBytes, -, h⟩ := Comp.bind_ok h
  obtain ⟨classical, hc, h⟩ := Comp.bind_ok h
  rw [Comp.hash, Comp.ret_bind] at h
  obtain ⟨signature, hs, h⟩ := Comp.bind_ok h
  cases h
  exact ⟨hc, rfl, rfl, hs⟩

/-- A hybrid signature, of a signer whose signatures verify as its public key's: `hybridVerify` returns, with the
signature of the library accepted, and with `ok` and no reason against it exactly where no address is expected, or
the signer's. -/
theorem signed_verified_iff (verifyTransactionSignature : Bytes → JsString → Except JsString PublicKey)
    {pub : PublicKey} (h : (hybridSign H noble entropy build signTransaction kp).res = .ok sig)
    (hkp : Verifies noble kp)
    (hclassical : ∀ txBytes s, (signTransaction txBytes).res = .ok s →
      verifyTransactionSignature txBytes s = .ok pub)
    (expected : Option JsString) :
    ∃ r, (hybridVerify H noble verifyTransactionSignature ⟨sig, expected⟩).res = .ok r ∧ r.pqOk = true ∧
      (r.ok = true ↔ r.reasons = []) ∧
      (r.ok = true ↔ expected = none ∨ expected = some [] ∨ expected = some pub.toSuiAddress) := by
  obtain ⟨hc, hscheme, hkey, hs⟩ := hybridSign_ok h
  have hv : (verify noble sig.scheme sig.pqPublicKey (H sig.txBytes) sig.pqSignature).res = .ok true := by
    rw [hscheme, hkey]
    exact hkp entropy _ _ hs
  let classical := classicalCheck verifyTransactionSignature ⟨sig, expected⟩
  have hres : (hybridVerify H noble verifyTransactionSignature ⟨sig, expected⟩).res =
      .ok ⟨classical.1, true, classical.1 && true, classical.2⟩ := by
    rw [hybridVerify, Comp.hash, Comp.ret_bind, Comp.eq_ret hv, Comp.ret_bind]
    rfl
  refine ⟨_, hres, rfl, OffChain.hybridVerify_reasons hres, ?_⟩
  show (classical.1 && true) = true ↔ _
  rw [Bool.and_true, OffChain.classicalCheck_iff]
  constructor
  · rintro ⟨pub', hpub, haddr⟩
    cases (hclassical _ _ hc).symm.trans hpub
    cases expected with
    | none => exact .inl rfl
    | some e =>
      by_cases he : e = []
      · exact .inr (.inl (congrArg some he))
      · exact .inr (.inr (congrArg some (haddr e rfl he).symm))
  · intro hexp
    refine ⟨pub, hclassical _ _ hc, fun e he hne => ?_⟩
    rcases hexp with hexp | hexp | hexp
    · rw [hexp] at he
      cases he
    · rw [hexp] at he
      exact absurd (Option.some.inj he).symm hne
    · rw [hexp] at he
      exact Option.some.inj he

/-- The signer of the address `0xa`, whose signatures are all the same. -/
def sampleVerify (_ : Bytes) (s : JsString) : Except JsString PublicKey :=
  if s = lit "sig" then .ok ⟨lit "0xa"⟩ else .error (lit "Error: no signature")

theorem signed_verified_iff_sample : ∃ r, (hybridVerify Hash.zero sampleNoble sampleVerify
    ⟨⟨[5], lit "sig", .SLH_DSA_SHA2_128S, List.replicate 32 7, List.replicate 7856 1⟩,
      some (lit "0xa")⟩).res = .ok r ∧
    r.ok = true := by
  have hsign : (hybridSign Hash.zero sampleNoble [4] (pure [5]) (fun _ => pure (lit "sig")) samplePair).res =
    .ok ⟨[5], lit "sig", .SLH_DSA_SHA2_128S, List.replicate 32 7, List.replicate 7856 1⟩ := rfl
  have hclassical (txBytes : Bytes) (s : JsString) (hs : (pure (lit "sig") : Js JsString).res = .ok s) :
      sampleVerify txBytes s = .ok ⟨lit "0xa"⟩ := by
    rw [sampleVerify, if_pos (Except.ok.inj hs).symm]
  obtain ⟨r, hr, -, -, hok⟩ := signed_verified_iff sampleVerify hsign samplePair_verifies hclassical
    (some (lit "0xa"))
  exact ⟨r, hr, hok.mpr (.inr (.inr rfl))⟩

end SuiPq.Proof.CoSigning
