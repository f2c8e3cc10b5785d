import SuiPq.Proof.Ptb.Effect

/-!
# What the classical key of a vault's owner can do

A vault asks for a witness of its owner's address, of any identity. With the
classical key alone that is one of a key registered on the spot
(`vault_emptied`). In a run in which the owner's transactions give identities
no key but those the owner's identities had (`KeysKept`), nothing is
withdrawn without a signature of one of these (`no_withdrawal`).
-/

namespace SuiPq.Proof.ClassicalKey

open SuiPq.Impl SuiPq.Impl.Ptb
open SuiPq.Impl.PqGuard (Verifiers PqIdentity Accepts unlockMessageBytes verifyPq)
open SuiPq.Impl.PqVault (Vault)

/-- The schemes and keys of the identities that `o` holds. -/
def keysOf (w : World) (o : Address) : Set (UInt8 × Bytes) :=
  {k | ∃ id x, w.identities id = some x ∧ x.holder = o ∧ k = (x.identity.scheme, x.identity.pk)}

/-- The transactions of `o` give identities only keys of `P`. -/
def KeysKept (o : Address) (P : Set (UInt8 × Bytes)) (s : TxState) : Command → Prop
  | .register scheme pk => s.ctx.sender = o → (scheme, pk) ∈ P
  | .rotate id newPk => s.ctx.sender = o →
      ∀ x, s.identityAt id = some x → (x.identity.scheme, newPk) ∈ P
  | _ => True

/-- The signature of an unlock is not one under a key of `P` of any unlock message. -/
def NotSigned (V : Verifiers) (P : Set (UInt8 × Bytes)) : Command → Prop
  | .unlock _ _ signature => ∀ k ∈ P, ∀ x sender digest msg,
      (unlockMessageBytes x sender digest).res = .ok msg → (verifyPq V k.1 k.2 msg signature).res ≠ .ok true
  | _ => True

def NoWithdrawal (vault : ID) (_ : TxState) : Command → Prop
  | .withdraw id _ _ _ => id ≠ vault
  | _ => True

/-- The keys that `o` holds are in `P`, no witness is of `o`, and the vault is `o`'s. -/
structure Locked (o : Address) (P : Set (UInt8 × Bytes)) (vault : ID) (w : World) : Prop where
  keys : keysOf w o ⊆ P
  owner : ∃ v, w.vaults vault = some v ∧ v.owner = o

structure Inv (o : Address) (P : Set (UInt8 × Bytes)) (vault : ID) (s : TxState) : Prop where
  locked : Locked o P vault s.world
  auths : ∀ a ∈ s.auths, a.sender ≠ o

variable {H : Hash} {V : Verifiers} {o : Address} {P : Set (UInt8 × Bytes)} {vault : ID}

theorem Locked.congr {w w' : World} (h : Locked o P vault w) (hi : w'.identities = w.identities)
    (hv : w'.vaults = w.vaults) : Locked o P vault w' := by
  refine ⟨?_, by rw [hv]; exact h.owner⟩
  rintro k ⟨id, x, hx, hk⟩
  exact h.keys ⟨id, x, hi ▸ hx, hk⟩

theorem Locked.setIdentity {w w' : World} {id : ID} {x : HeldIdentity} (h : Locked o P vault w)
    (hi : w'.identities = Function.update w.identities id (some x)) (hv : w'.vaults = w.vaults)
    (hx : x.holder = o → (x.identity.scheme, x.identity.pk) ∈ P) : Locked o P vault w' := by
  refine ⟨?_, by rw [hv]; exact h.owner⟩
  rintro k ⟨i, y, hy, hh, rfl⟩
  rw [hi] at hy
  rcases eq_or_ne i id with rfl | hne
  · rw [Function.update_self, Option.some.injEq] at hy
    subst hy
    exact hx hh
  · rw [Function.update_of_ne hne] at hy
    exact h.keys ⟨i, y, hy, hh, rfl⟩

/-- Changing a vault without changing its owner, or adding one. -/
theorem Locked.setVault {w w' : World} {id : ID} {v : Vault} (h : Locked o P vault w)
    (hi : w'.identities = w.identities) (hv : w'.vaults = Function.update w.vaults id (some v))
    (ho : ∀ u, w.vaults id = some u → v.owner = u.owner) : Locked o P vault w' := by
  obtain ⟨u, hu, hown⟩ := h.owner
  have h' : Locked o P vault { w with identities := w'.identities } := h.congr hi rfl
  refine ⟨h'.keys, ?_⟩
  rw [hv]
  rcases eq_or_ne vault id with rfl | hne
  · exact ⟨v, Function.update_self .., by rw [ho u hu, hown]⟩
  · exact ⟨u, by rw [Function.update_of_ne hne, hu], hown⟩

theorem Inv.coins {s t : TxState} (h : Inv o P vault s) (hc : MovesCoins s t) : Inv o P vault t :=
  ⟨h.locked.congr hc.identities hc.vaults, by rw [hc.auths]; exact h.auths⟩

theorem Inv.takeAuth {s t : TxState} {a : Arg} {auth : PqGuard.PqAuthorized} (h : Inv o P vault s)
    (ht : s.takeAuth a = some (auth, t)) : Inv o P vault t ∧ auth.sender ≠ o := by
  obtain ⟨l, r, hs, htr⟩ := TxState.takeAuth_auths ht
  obtain ⟨i, j, -, -, rfl⟩ := TxState.takeAuth_some ht
  refine ⟨⟨h.locked.congr rfl rfl, fun b hb => h.auths b ?_⟩, h.auths auth (by simp [hs])⟩
  rw [htr] at hb
  rw [hs]
  rcases List.mem_append.mp hb with hb | hb
  · exact List.mem_append_left _ hb
  · exact List.mem_append_right _ (List.mem_cons_of_mem _ hb)

theorem Inv.push {s : TxState} {vs : List Value} (h : Inv o P vault s)
    (hv : ∀ a ∈ vs.filterMap Value.auth?, a.sender ≠ o) : Inv o P vault (s.push vs) := by
  refine ⟨h.locked.congr rfl rfl, fun a ha => ?_⟩
  rw [TxState.auths_push] at ha
  rcases List.mem_append.mp ha with ha | ha
  · exact h.auths a ha
  · exact hv a ha

/-! ## Runs -/

theorem step_inv {s s' : TxState} {c : Command} (hP : KeysKept o P s c ∧ NotSigned V P c)
    (h : step H V s c = some s') (hs : Inv o P vault s) : Inv o P vault s' := by
  cases step_effect h with
  | register len new =>
    have ht := hs.coins (.create new)
    exact .push ⟨ht.locked.setIdentity rfl rfl hP.1, ht.auths⟩ (by simp)
  | @rotate id newPk x input owner len =>
    obtain ⟨-, hx, -⟩ := TxState.identityAt_some input
    exact .push ⟨hs.locked.setIdentity rfl rfl fun hh => hP.1 (hx ▸ hh) x input, hs.auths⟩ (by simp)
  | @unlock id digest signature x input accepts nonce =>
    obtain ⟨hid, hx, -⟩ := TxState.identityAt_some input
    have hne : s.ctx.sender ≠ o := by
      rintro rfl
      obtain ⟨msg, hm, hv⟩ := Comp.bind_ok accepts
      exact hP.2 _ (hs.locked.keys ⟨id, x, hid, hx, rfl⟩) _ _ _ msg hm hv
    refine .push ⟨hs.locked.setIdentity rfl rfl fun hh => absurd (hx ▸ hh) hne, hs.auths⟩ ?_
    simpa [Value.auth?] using hne
  | consume witness => exact (hs.takeAuth witness).1.push (by simp)
  | openVault take new =>
    have ht := (hs.coins (.takeForCall take)).coins (.create new)
    obtain ⟨⟨-, -, -, hfree, -⟩, rfl⟩ := TxState.create_some new
    exact .push ⟨ht.locked.setVault rfl rfl fun u hu => by simp [hfree] at hu, ht.auths⟩ (by simp)
  | @deposit id topUp v c t input take pool balance =>
    have hm := MovesCoins.takeForCall take
    have ht := hs.coins hm
    refine .push ⟨ht.locked.setVault rfl rfl fun u hu => ?_, ht.auths⟩ (by simp)
    rw [hm.vaults, (TxState.vaultAt_some input).1] at hu
    rw [← Option.some.inj hu]
  | @withdraw id a recipient amount v auth t u input witness owner sender digest balance pool new =>
    have hm := MovesCoins.create new
    have hu := (hs.takeAuth witness).1.coins hm
    refine .push ⟨hu.locked.setVault rfl rfl fun y hy => ?_, hu.auths⟩ (by simp [Value.auth?])
    obtain ⟨i, j, -, -, rfl⟩ := TxState.takeAuth_some witness
    rw [hm.vaults] at hy
    rw [← Option.some.inj ((TxState.vaultAt_some input).1.symm.trans hy)]
  | coins coins => exact hs.coins coins.movesCoins

/-- A withdrawal from the vault takes a witness of its owner. -/
theorem step_noWithdrawal {s s' : TxState} {c : Command} (h : step H V s c = some s')
    (hs : Inv o P vault s) : NoWithdrawal vault s c := by
  cases c with
  | withdraw id a recipient amount =>
    rintro rfl
    cases step_effect h with
    | withdraw input witness owner sender =>
      obtain ⟨v, hv, ho⟩ := hs.locked.owner
      rw [(TxState.vaultAt_some input).1, Option.some.injEq] at hv
      exact (hs.takeAuth witness).2 (by rw [sender, ← owner, hv, ho])
    | coins coins => cases coins
  | _ => trivial

/-- From a world in which `o` opened the vault, in a run in which the
transactions of `o` give identities only keys that `o` held, and in which no
signature is one under these keys, nothing is withdrawn from the vault. -/
theorem no_withdrawal (H : Hash) (V : Verifiers) {w : World} {txs : List Tx} {o : Address} {vault : ID}
    {v : Vault} (hv : w.vaults vault = some v) (ho : v.owner = o)
    (hkeys : (chain H V).Meets (KeysKept o (keysOf w o)) txs w)
    (hsig : ∀ tx ∈ txs, ∀ c ∈ tx.commands, NotSigned V (keysOf w o) c) :
    (chain H V).Meets (NoWithdrawal vault) txs w :=
  (chain H V).meets_of (I := Locked o (keysOf w o) vault) (J := Inv o (keysOf w o) vault)
    (fun w tx hw => ⟨hw.congr rfl rfl, fun a ha => by simp [TxState.auths, chain, start] at ha⟩)
    (fun s c s' => step_inv)
    (fun s w hs hf => by
      obtain ⟨-, rfl⟩ := finish_some hf
      exact hs.locked.congr rfl rfl)
    (fun s c s' _ h hs => step_noWithdrawal h hs) ((chain H V).meets_and hkeys hsig) ⟨subset_rfl, v, hv, ho⟩

/-! ## A key that is registered on the spot -/

instance (vault : ID) (s : TxState) : ∀ c, Decidable (NoWithdrawal vault s c)
  | .withdraw id _ _ _ => inferInstanceAs (Decidable (id ≠ vault))
  | .register _ _ | .rotate _ _ | .unlock _ _ _ | .consume _ | .openVault _ | .deposit _ _
  | .splitCoins _ _ | .mergeCoins _ _ | .transferObjects _ _ | .wrap _ | .unwrap _ | .absorb _
  | .release _ => .isTrue trivial

def otherKey : Bytes := List.replicate 64 6

theorem keysOf_sampleWorld : keysOf sampleWorld (.fill 1) = {(PqGuard.SLH_DSA_LITE, sampleKey)} := by
  ext k
  constructor
  · rintro ⟨id, x, hx, -, rfl⟩
    obtain ⟨-, hx⟩ := Option.ite_none_right_eq_some.mp hx
    cases hx
    rfl
  · rintro rfl
    exact ⟨.fill 10, sampleIdentity, by simp [sampleWorld], rfl, rfl⟩

/-- Registering another key and withdrawing with it. -/
def emptyVault : List Tx :=
  let digest := Hash.zero (PqVault.withdrawMessage (.fill 11) (.fill 1) 10)
  [sampleTx 20 [.register PqGuard.SLH_DSA_LITE otherKey],
    sampleTx 30 [
      .unlock (.fill 20) digest (otherKey ++ PqGuard.unlockMessage (.fill 1) 0 digest),
      .withdraw (.fill 11) (.result 0 0) (.fill 1) 10,
      .transferObjects [.result 1 0] (.fill 1)]]

theorem notSigned_emptyVault : ∀ tx ∈ emptyVault, ∀ c ∈ tx.commands,
    NotSigned PqGuard.echo (keysOf sampleWorld (.fill 1)) c := by
  have hsig (m m' : Bytes) : otherKey ++ m ≠ sampleKey ++ m' := by
    intro h
    have := congrArg List.head? h
    revert this
    simp [otherKey, sampleKey]
  rw [keysOf_sampleWorld]
  intro tx htx c hc
  simp only [emptyVault, List.mem_cons, List.not_mem_nil, or_false] at htx
  rcases htx with rfl | rfl
  · simp only [sampleTx, List.mem_cons, List.not_mem_nil, or_false] at hc
    subst hc
    trivial
  · simp only [sampleTx, List.mem_cons, List.not_mem_nil, or_false] at hc
    rcases hc with rfl | rfl | rfl
    · rintro k rfl x sender digest msg - hv
      exact hsig _ msg (of_decide_eq_true (Except.ok.inj hv))
    · trivial
    · trivial

/-- A key that the owner's identities did not have empties the vault. -/
theorem vault_emptied : ¬ ∀ (H : Hash) (V : Verifiers) (w : World) (txs : List Tx) (o : Address)
    (vault : ID) (v : Vault), w.vaults vault = some v → v.owner = o → (∀ tx ∈ txs, tx.sender = o) →
    (∀ tx ∈ txs, ∀ c ∈ tx.commands, NotSigned V (keysOf w o) c) →
    (chain H V).Meets (NoWithdrawal vault) txs w := by
  intro h
  have := h .zero PqGuard.echo sampleWorld emptyVault (.fill 1) (.fill 11) sampleVault (by simp [sampleWorld])
    rfl (by decide) notSigned_emptyVault
  revert this
  decide +kernel

/-- The owner registers the key once more, and a signature of nothing is refused. -/
theorem no_withdrawal_sameKey : (chain .zero PqGuard.echo).Meets (NoWithdrawal (.fill 11))
    [sampleTx 20 [.register PqGuard.SLH_DSA_LITE sampleKey], sampleTx 30 [.unlock (.fill 10) [] []]]
    sampleWorld := by
  refine no_withdrawal .zero PqGuard.echo (o := .fill 1) (v := sampleVault) (by simp [sampleWorld]) rfl
    ⟨fun _ => ⟨fun _ => ?_, fun _ _ => trivial⟩, fun _ => ⟨trivial, fun _ _ => trivial⟩, trivial⟩ ?_
  · exact keysOf_sampleWorld ▸ rfl
  · rw [keysOf_sampleWorld]
    intro tx htx c hc
    simp only [List.mem_cons, List.not_mem_nil, or_false] at htx
    rcases htx with rfl | rfl
    · simp only [sampleTx, List.mem_cons, List.not_mem_nil, or_false] at hc
      subst hc
      trivial
    · simp only [sampleTx, List.mem_cons, List.not_mem_nil, or_false] at hc
      subst hc
      rintro k rfl x sender digest msg - hv
      exact absurd (of_decide_eq_true (Except.ok.inj hv)) (by simp [sampleKey])

end SuiPq.Proof.ClassicalKey
