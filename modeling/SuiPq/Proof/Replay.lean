import Mathlib.Data.List.Nodup
import SuiPq.Proof.Ptb.Effect

/-!
# Replays of unlock signatures

A signature that an unlock accepted can be accepted again: by the identity it
was made for once its key is rotated to itself, since the nonce starts over
(`signature_replayed`), or by another identity with the same key. In a run
that gives no key of a sender to an identity twice, and whose signatures are
valid under no other key of the sender and for no earlier nonce, no signature
of a sender is accepted twice (`accepted_once`).
-/

namespace SuiPq.Proof.Replay

open SuiPq.Impl SuiPq.Impl.Ptb
open SuiPq.Impl.PqGuard (Verifiers PqIdentity Accepts)

/-- The keys that identities were given, with their senders. -/
def installedIn (h : List Record) : List (Address × Bytes) := h.flatMap fun r => r.installed.map (r.sender, ·)

def acceptedIn (h : List Record) : List Accepted := h.flatMap (·.accepted)

/-- A key that an identity is given is new to its sender, and a signature is
valid under no other of the sender's keys, and for no earlier nonce of the
identity, whatever the action. -/
def FreshKeys (V : Verifiers) (s : TxState) : Command → Prop
  | .register _ pk => (s.ctx.sender, pk) ∉ installedIn s.history
  | .rotate _ newPk => (s.ctx.sender, newPk) ∉ installedIn s.history
  | .unlock id _ signature => ∀ x, s.identityAt id = some x → ∀ y digest,
      (s.ctx.sender, y.pk) ∈ installedIn s.history → Accepts V y s.ctx.sender digest signature →
        y.pk = x.identity.pk ∧ x.identity.nonce ≤ y.nonce
  | _ => True

/-! ## The invariant -/

/-- The accepted signatures with their senders. -/
def signedBy (accepted : List Accepted) : List (Address × Bytes) :=
  accepted.map fun a => (a.sender, a.signature)

/-- A sender's key is at one identity at most, and a signature accepted under
it was accepted at a nonce that the identity has passed. -/
structure Spent (V : Verifiers) (ids : ID → Option HeldIdentity) (installed : List (Address × Bytes))
    (accepted : List Accepted) : Prop where
  nodup : (signedBy accepted).Nodup
  mem_installed : ∀ {id x}, ids id = some x → (x.holder, x.identity.pk) ∈ installed
  unique : ∀ {id id' x y}, ids id = some x → ids id' = some y → x.holder = y.holder →
    x.identity.pk = y.identity.pk → id = id'
  accepted_installed : ∀ a ∈ accepted, (a.sender, a.pk) ∈ installed
  passed : ∀ a ∈ accepted, ∃ y, y.pk = a.pk ∧ Accepts V y a.sender a.actionDigest a.signature ∧
    ∀ {id x}, ids id = some x → x.holder = a.sender → x.identity.pk = a.pk → y.nonce < x.identity.nonce

variable {V : Verifiers} {ids : ID → Option HeldIdentity} {installed : List (Address × Bytes)}
  {accepted : List Accepted} {id : ID} {x : HeldIdentity}

/-- Giving an identity a key that is new to its holder. -/
theorem Spent.install (h : Spent V ids installed accepted) (hnew : (x.holder, x.identity.pk) ∉ installed) :
    Spent V (Function.update ids id (some x)) (installed ++ [(x.holder, x.identity.pk)]) accepted where
  nodup := h.nodup
  mem_installed {id' y} hy := by
    rcases eq_or_ne id' id with rfl | hne
    · rw [Function.update_self, Option.some.injEq] at hy
      rw [← hy]
      exact List.mem_append_right _ (List.mem_singleton_self _)
    · rw [Function.update_of_ne hne] at hy
      exact List.mem_append_left _ (h.mem_installed hy)
  unique {id₁ id₂ y z} hy hz hholder hpk := by
    have hother {i : ID} {y : HeldIdentity} (hi : i ≠ id) (hy : Function.update ids id (some x) i = some y)
        (hh : y.holder = x.holder) (hp : y.identity.pk = x.identity.pk) : False := by
      rw [Function.update_of_ne hi] at hy
      exact hnew (hh ▸ hp ▸ h.mem_installed hy)
    rcases eq_or_ne id₁ id with h₁ | h₁ <;> rcases eq_or_ne id₂ id with h₂ | h₂
    · rw [h₁, h₂]
    · rw [h₁, Function.update_self, Option.some.injEq] at hy
      exact (hother h₂ hz (by rw [hy, hholder]) (by rw [hy, hpk])).elim
    · rw [h₂, Function.update_self, Option.some.injEq] at hz
      exact (hother h₁ hy (by rw [hz, hholder]) (by rw [hz, hpk])).elim
    · rw [Function.update_of_ne h₁] at hy
      rw [Function.update_of_ne h₂] at hz
      exact h.unique hy hz hholder hpk
  accepted_installed a ha := List.mem_append_left _ (h.accepted_installed a ha)
  passed a ha := by
    obtain ⟨z, hz, hacc, hpassed⟩ := h.passed a ha
    refine ⟨z, hz, hacc, fun {id' y} hy hholder hpk => ?_⟩
    rcases eq_or_ne id' id with rfl | hne
    · rw [Function.update_self, Option.some.injEq] at hy
      subst hy
      exact absurd (h.accepted_installed a ha) (hholder ▸ hpk ▸ hnew)
    · rw [Function.update_of_ne hne] at hy
      exact hpassed hy hholder hpk

/-- Accepting a signature at the identity's nonce, that is valid under none of the holder's other keys and for no
earlier nonce. -/
theorem Spent.accept (h : Spent V ids installed accepted) (hx : ids id = some x)
    {digest signature : Bytes} (ha : Accepts V x.identity x.holder digest signature)
    (hfresh : ∀ y d, (x.holder, y.pk) ∈ installed → Accepts V y x.holder d signature →
      y.pk = x.identity.pk ∧ x.identity.nonce ≤ y.nonce) :
    Spent V
      (Function.update ids id (some { x with identity := { x.identity with nonce := x.identity.nonce + 1 } }))
      installed (accepted ++ [⟨x.identity.pk, signature, x.holder, digest⟩]) := by
  -- every identity of the new state was there, under the same key
  have hback {i : ID} {y : HeldIdentity} (hy : Function.update ids id
      (some { x with identity := { x.identity with nonce := x.identity.nonce + 1 } }) i = some y) :
      ∃ z, ids i = some z ∧ y.holder = z.holder ∧ y.identity.pk = z.identity.pk ∧
        z.identity.nonce ≤ y.identity.nonce := by
    rcases eq_or_ne i id with rfl | hne
    · rw [Function.update_self, Option.some.injEq] at hy
      subst hy
      exact ⟨x, hx, rfl, rfl, Nat.le_succ _⟩
    · rw [Function.update_of_ne hne] at hy
      exact ⟨y, hy, rfl, rfl, le_rfl⟩
  refine ⟨?_, fun hy => ?_, fun hy hz hholder hpk => ?_, fun a hmem => ?_, fun a hmem => ?_⟩
  · rw [signedBy, List.map_append]
    refine List.nodup_append.mpr ⟨h.nodup, List.pairwise_singleton _ _, fun b hb c hc hbc => ?_⟩
    obtain ⟨a, hmem, rfl⟩ := List.mem_map.mp hb
    rw [List.map_singleton, List.mem_singleton] at hc
    obtain ⟨hsender, hsignature⟩ := Prod.mk.inj (hbc.trans hc)
    obtain ⟨y, hy, hacc, hpassed⟩ := h.passed a hmem
    rw [hsender, hsignature] at hacc
    have hinstalled := h.accepted_installed a hmem
    rw [hsender, ← hy] at hinstalled
    obtain ⟨hpk, hle⟩ := hfresh y _ hinstalled hacc
    have hlt := hpassed hx hsender.symm (hpk.symm.trans hy)
    exact absurd hlt (Nat.not_lt.mpr hle)
  · obtain ⟨z, hz, hh, hp, -⟩ := hback hy
    rw [hh, hp]
    exact h.mem_installed hz
  · obtain ⟨y', hy', hh, hp, -⟩ := hback hy
    obtain ⟨z', hz', hh', hp', -⟩ := hback hz
    exact h.unique hy' hz' (by rw [← hh, ← hh', hholder]) (by rw [← hp, ← hp', hpk])
  · rcases List.mem_append.mp hmem with hmem | hmem
    · exact h.accepted_installed a hmem
    · obtain rfl := List.mem_singleton.mp hmem
      exact h.mem_installed hx
  · rcases List.mem_append.mp hmem with hmem | hmem
    · obtain ⟨z, hz, hacc, hpassed⟩ := h.passed a hmem
      refine ⟨z, hz, hacc, fun {i y} hy hholder hpk => ?_⟩
      obtain ⟨y', hy', hh, hp, hn⟩ := hback hy
      exact Nat.lt_of_lt_of_le (hpassed hy' (hh ▸ hholder) (hp ▸ hpk)) hn
    · obtain rfl := List.mem_singleton.mp hmem
      refine ⟨x.identity, rfl, ha, fun {i y} hy hholder hpk => ?_⟩
      obtain ⟨y', hy', hh, hp, -⟩ := hback hy
      obtain rfl := h.unique hx hy' (by rw [← hh, hholder]) (by rw [← hp, hpk])
      rw [Function.update_self, Option.some.injEq] at hy
      subst hy
      exact Nat.lt_succ_self _

/-! ## Runs -/

/-- `Spent`, of the state of a transaction. -/
structure Inv (V : Verifiers) (s : TxState) : Prop where
  sender : s.record.sender = s.ctx.sender
  spent : Spent V s.world.identities (installedIn s.history) (acceptedIn s.history)

variable {H : Hash}

/-- The invariant reads the identities and two lists of the record only. -/
theorem Inv.congr {s t : TxState} (h : Inv V s) (hi : t.world.identities = s.world.identities)
    (hl : t.world.log = s.world.log) (hs : t.ctx.sender = s.ctx.sender)
    (hr : t.record.sender = s.record.sender) (hin : t.record.installed = s.record.installed)
    (ha : t.record.accepted = s.record.accepted) : Inv V t where
  sender := by rw [hr, hs, h.sender]
  spent := by
    have := h.spent
    simp only [installedIn, acceptedIn, TxState.history, List.flatMap_append,
      List.flatMap_singleton] at this ⊢
    rwa [hi, hl, hr, hin, ha]

theorem Inv.coins {s t : TxState} (h : Inv V s) (hc : MovesCoins s t) : Inv V t :=
  h.congr hc.identities hc.log hc.sender (by rw [hc.record]) (by rw [hc.record]) (by rw [hc.record])

theorem Inv.takeAuth {s t : TxState} {a : Arg} {auth : PqGuard.PqAuthorized} (h : Inv V s)
    (ht : s.takeAuth a = some (auth, t)) : Inv V t := by
  obtain ⟨i, j, -, -, rfl⟩ := TxState.takeAuth_some ht
  exact h.congr rfl rfl rfl rfl rfl rfl

/-- Giving an identity of the sender a new key, after moving coins. -/
theorem Inv.install {s t : TxState} (h : Inv V s) (hc : MovesCoins s t) {x : HeldIdentity}
    (hx : x.holder = s.ctx.sender) (hnew : (s.ctx.sender, x.identity.pk) ∉ installedIn s.history) (id : ID)
    (e : Event) : Inv V ((((t.setIdentity id x).install x.identity.pk).emit e).push []) := by
  have ht := h.coins hc
  have : Spent V (Function.update t.world.identities id (some x)) _ _ :=
    ht.spent.install (by rwa [hc.history, hx])
  rw [show x.holder = t.record.sender by rw [ht.sender, hc.sender, hx]] at this
  refine ⟨ht.sender, ?_⟩
  simpa [installedIn, acceptedIn, TxState.history, TxState.setIdentity, TxState.install, TxState.emit,
    TxState.push] using this

theorem step_inv {s s' : TxState} {c : Command} (hP : FreshKeys V s c) (h : step H V s c = some s')
    (hs : Inv V s) : Inv V s' := by
  cases step_effect h with
  | @register scheme pk t len new =>
    exact hs.install (.create new) (x := ⟨⟨_, _, scheme, pk, 0⟩, s.ctx.sender⟩) rfl hP _ _
  | @rotate id newPk x input owner len =>
    exact hs.install (.refl s)
      (x := { x with identity := { x.identity with pk := newPk, nonce := 0 } })
      (TxState.identityAt_some input).2.1 hP id _
  | @unlock id digest signature x input accepts nonce =>
    obtain ⟨hid, hx, -⟩ := TxState.identityAt_some input
    have := hs.spent.accept hid (hx ▸ accepts) (hx ▸ fun y d => hP x input y d)
    refine ⟨hs.sender, ?_⟩
    simpa [installedIn, acceptedIn, TxState.history, TxState.setIdentity, TxState.accept, TxState.emit,
      TxState.push, hx] using this
  | consume witness => exact (hs.takeAuth witness).congr rfl rfl rfl rfl rfl rfl
  | openVault take new =>
    exact ((hs.coins (.takeForCall take)).coins (.create new)).congr rfl rfl rfl rfl rfl rfl
  | deposit input take pool balance =>
    exact (hs.coins (.takeForCall take)).congr rfl rfl rfl rfl rfl rfl
  | withdraw input witness owner sender digest balance pool new =>
    exact ((hs.takeAuth witness).coins (.create new)).congr rfl rfl rfl rfl rfl rfl
  | coins coins => exact hs.coins coins.movesCoins

/-- In a run that meets `FreshKeys`, every signature is accepted once for its
key, sender and action; and once at all for its sender, whichever identity the
unlocks are of. -/
theorem accepted_once (H : Hash) (V : Verifiers) {w : World} {txs : List Tx} (hw : w.Unused)
    (h : (chain H V).Meets (FreshKeys V) txs w) : (acceptedIn ((chain H V).run w txs).log).Nodup ∧
      (signedBy (acceptedIn ((chain H V).run w txs).log)).Nodup := by
  have hrun := (chain H V).run_keeps (P := FreshKeys V)
    (I := fun w => Spent V w.identities (installedIn w.log) (acceptedIn w.log)) (J := Inv V)
    (fun w tx hw => ⟨rfl, ?_⟩) (fun s c s' => step_inv) (fun s w hs hf => ?_) h ?_
  · exact ⟨List.Nodup.of_map _ hrun.nodup, hrun.nodup⟩
  · simpa [installedIn, acceptedIn, TxState.history, chain, start] using hw
  · obtain ⟨-, rfl⟩ := finish_some hf
    exact hs.spent
  · rw [hw.log]
    exact ⟨List.nodup_nil, fun hx => by simp [hw.identities] at hx,
      fun hx => by simp [hw.identities] at hx, fun a ha => by simp [acceptedIn] at ha,
      fun a ha => by simp [acceptedIn] at ha⟩

/-! ## Keys that are installed once -/

/-- `FreshKeys` for the verifiers `echo`, where all keys have 64 bytes. -/
def EchoKeys (s : TxState) : Command → Prop
  | .register _ pk => (s.ctx.sender, pk) ∉ installedIn s.history
  | .rotate _ newPk => (s.ctx.sender, newPk) ∉ installedIn s.history
  | .unlock id _ _ => (∀ k ∈ installedIn s.history, k.2.length = 64) ∧
      ∀ x ∈ s.identityAt id, x.identity.pk.length = 64
  | _ => True

instance (s : TxState) : ∀ c, Decidable (EchoKeys s c)
  | .register _ pk | .rotate _ pk => inferInstanceAs (Decidable ((s.ctx.sender, pk) ∉ installedIn s.history))
  | .unlock _ _ _ => inferInstanceAs (Decidable (_ ∧ _))
  | .consume _ | .openVault _ | .deposit _ _ | .withdraw _ _ _ _ | .splitCoins _ _ | .mergeCoins _ _
  | .transferObjects _ _ | .wrap _ | .unwrap _ | .absorb _ | .release _ => .isTrue trivial

theorem signature_of_echo {x : PqIdentity} {sender : Address} {digest signature : Bytes}
    (h : Accepts PqGuard.echo x sender digest signature) :
    signature = x.pk ++ PqGuard.unlockMessage sender x.nonce digest := by
  have hv := (PqGuard.accepts_iff.mp h).2
  unfold PqGuard.verifyPq at hv
  split at hv
  · exact of_decide_eq_true (Except.ok.inj hv)
  · split at hv
    · exact of_decide_eq_true (Except.ok.inj hv)
    · cases hv

theorem freshKeys_of_echoKeys {s s' : TxState} {c : Command} (hc : EchoKeys s c)
    (h : step H PqGuard.echo s c = some s') : FreshKeys PqGuard.echo s c := by
  cases step_effect h with
  | register len new => exact hc
  | rotate input owner len => exact hc
  | @unlock id digest signature x input accepts nonce =>
    intro x' hx' y d hy hacc
    cases input.symm.trans hx'
    have hsig := (signature_of_echo accepts).symm.trans (signature_of_echo hacc)
    obtain ⟨hpk, hmsg⟩ := List.append_inj hsig ((hc.2 x input).trans (hc.1 _ hy).symm)
    refine ⟨hpk.symm, ?_⟩
    by_cases hlt : y.nonce < 2 ^ 64
    · exact Nat.le_of_eq (PqGuard.unlockMessage_inj (by omega) hlt hmsg).2.1
    · omega
  | coins coins => cases coins <;> trivial
  | _ => trivial

/-- Unlocking the identity `id` with the signature of `key` for a nonce. -/
def sampleUnlock (n : UInt8) (id : ID) (key : Bytes) (nonce : Nat) : Tx :=
  sampleTx n [.unlock id (Address.fill 9).bytes
    (key ++ PqGuard.unlockMessage (.fill 1) nonce (Address.fill 9).bytes), .consume (.result 0 0)]

def sampleRegister : Tx := sampleTx 10 [.register PqGuard.SLH_DSA_LITE sampleKey]

/-- Two identities, the first of which is unlocked twice, rotated and unlocked with its new key. -/
def freshRun : List Tx :=
  [sampleRegister, sampleTx 11 [.register PqGuard.SLH_DSA_LITE (List.replicate 64 6)],
    sampleUnlock 20 (.fill 10) sampleKey 0, sampleUnlock 21 (.fill 11) (List.replicate 64 6) 0,
    sampleUnlock 22 (.fill 10) sampleKey 1, sampleTx 30 [.rotate (.fill 10) (List.replicate 64 7)],
    sampleUnlock 40 (.fill 10) (List.replicate 64 7) 0]

theorem accepted_once_freshRun : ∃ accepted : List Accepted, accepted.length = 4 ∧
    acceptedIn ((chain .zero PqGuard.echo).run (.ofCoins fun _ => none) freshRun).log = accepted ∧
    accepted.Nodup ∧ (signedBy accepted).Nodup := by
  refine ⟨_, by decide +kernel, rfl, accepted_once .zero PqGuard.echo (World.unused_ofCoins _) ?_⟩
  exact (chain .zero PqGuard.echo).meets_imp (P := EchoKeys) (fun _ _ _ => freshKeys_of_echoKeys)
    (by decide +kernel)

/-! ## A key that is installed twice -/

/-- Rotating an identity to the key it has makes its signatures valid again. -/
theorem signature_replayed : ¬ ∀ (H : Hash) (V : Verifiers) (w : World) (txs : List Tx), w.Unused →
    (acceptedIn ((chain H V).run w txs).log).Nodup := by
  intro h
  have := h .zero PqGuard.echo (.ofCoins fun _ => none)
    [sampleRegister, sampleUnlock 20 (.fill 10) sampleKey 0, sampleTx 30 [.rotate (.fill 10) sampleKey],
      sampleUnlock 40 (.fill 10) sampleKey 0] (World.unused_ofCoins _)
  revert this
  decide +kernel

end SuiPq.Proof.Replay
