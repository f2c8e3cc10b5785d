import SuiPq.Framework.Tokens
import SuiPq.Proof.Ptb.Effect

/-!
# One signature per withdrawal

The witnesses of `pq_guard` are issued by `unlock`, spent by `withdraw` and
dropped by `consume`: `Signed` is that reading of a running transaction, with
the owners of the vaults it took from. A transaction goes through when no
witness is left, so each of its withdrawals has an unlock of its own
(`one_signature`).
-/

namespace SuiPq.Proof.OneSignature

open SuiPq.Impl SuiPq.Impl.Ptb SuiPq.Impl.MoveBytes
open SuiPq.Impl.PqGuard (Verifiers PqAuthorized Unlocked)
open SuiPq.Impl.PqVault (Vault Withdrew withdrawMessage)

/-! ## The encoding -/

/-- A withdrawal's bytes say what it withdraws, from which vault and to whom. -/
theorem withdrawMessage_inj {vault vault' : ID} {recipient recipient' : Address} {amount amount' : Nat}
    (ha : amount < 2 ^ 64) (ha' : amount' < 2 ^ 64)
    (h : withdrawMessage vault recipient amount = withdrawMessage vault' recipient' amount') :
    vault = vault' ∧ recipient = recipient' ∧ amount = amount' := by
  have hlen (a b : Address) : a.bytes.length = b.bytes.length := by rw [a.length_bytes, b.length_bytes]
  have hext {a b : Address} (h : a.bytes = b.bytes) : a = b := by
    cases a
    cases b
    cases h
    rfl
  unfold withdrawMessage at h
  obtain ⟨h, hamount⟩ := List.append_inj' h (by simp)
  obtain ⟨h, hrecipient⟩ := List.append_inj' h (hlen _ _)
  exact ⟨hext (List.append_cancel_left h), hext hrecipient, be_inj ha ha' hamount⟩

/-! ## The invariant -/

/-- The event of the unlock that returned a witness. -/
def Issues (e : Event) (a : PqAuthorized) : Prop :=
  e = .unlocked ⟨a.identityId, a.sender, a.nonce, a.actionDigest⟩

def IsWithdrawal (e : Event) : Prop := ∃ x, e = .withdrew x

/-- The event of a withdrawal that takes a witness, in a transaction of `sender`. -/
def Spends (H : Hash) (sender : Address) (e : Event) (a : PqAuthorized) : Prop :=
  ∃ x, e = .withdrew x ∧ x.amount < 2 ^ 64 ∧ a.sender = sender ∧ a.nonce = x.pqNonce ∧
    a.actionDigest = H (withdrawMessage x.vault x.recipient x.amount)

/-- Where a running transaction's witnesses are, and whose vaults it took from. -/
structure Signed (H : Hash) (s : TxState) : Prop where
  keys : ∀ {id v}, s.world.vaults id = some v → v.id = id
  sender : s.record.sender = s.ctx.sender
  tokens : Tokens Issues (Spends H s.ctx.sender) IsWithdrawal s.record.events s.auths
  owner : ∀ {x}, .withdrew x ∈ s.record.events →
    ∃ v, s.world.vaults x.vault = some v ∧ v.owner = s.ctx.sender

variable {H : Hash} {V : Verifiers} {s s' : TxState} {cmd : Command}

/-- What the invariant reads. -/
theorem Signed.congr {t : TxState} (h : Signed H s) (hv : t.world.vaults = s.world.vaults)
    (hs : t.ctx.sender = s.ctx.sender) (hr : t.record.sender = s.record.sender)
    (he : t.record.events = s.record.events) (ha : t.auths = s.auths) : Signed H t where
  keys := by rw [hv]; exact h.keys
  sender := by rw [hr, hs, h.sender]
  tokens := by rw [he, hs, ha]; exact h.tokens
  owner := by rw [he, hv, hs]; exact h.owner

theorem Signed.coins {t : TxState} (h : Signed H s) (hm : MovesCoins s t) : Signed H t :=
  h.congr hm.vaults hm.sender (by rw [hm.record]) (by rw [hm.record]) hm.auths

/-- An event that is no withdrawal. -/
theorem Signed.emit {e : Event} (h : Signed H s) (he : ¬ IsWithdrawal e) : Signed H (s.emit e) where
  keys := h.keys
  sender := h.sender
  tokens := h.tokens.event he
  owner {x} hx := by
    obtain hx | hx := List.mem_append.mp hx
    · exact h.owner hx
    · exact absurd ⟨x, (List.mem_singleton.mp hx).symm⟩ he

/-- A call that returns nothing, with an event that is no withdrawal. -/
theorem Signed.call {e : Event} (h : Signed H s) (he : ¬ IsWithdrawal e) :
    Signed H ((s.emit e).push []) := (h.emit he).coins (.push rfl)

theorem vaults_setVault (s : TxState) (id : ID) (v : Vault) :
    (s.setVault id v).world.vaults = Function.update s.world.vaults id (some v) := rfl

/-- A vault stays its owner's. -/
theorem Signed.setVault {id : ID} {v : Vault} (h : Signed H s) (hid : v.id = id)
    (howner : ∀ u, s.world.vaults id = some u → v.owner = u.owner) : Signed H (s.setVault id v) where
  keys {i u} hu := by
    rcases eq_or_ne i id with hi | hi
    · rw [hi, vaults_setVault, Function.update_self, Option.some.injEq] at hu
      rw [← hu, hid, hi]
    · exact h.keys (by rwa [vaults_setVault, Function.update_of_ne hi] at hu)
  sender := h.sender
  tokens := h.tokens
  owner {x} hx := by
    obtain ⟨u, hu, ho⟩ := h.owner hx
    rcases eq_or_ne x.vault id with hi | hi
    · exact ⟨v, by rw [hi, vaults_setVault, Function.update_self],
        (howner u (by rw [← hi, hu])).trans ho⟩
    · exact ⟨u, by rw [vaults_setVault, Function.update_of_ne hi, hu], ho⟩

/-- A witness is dropped. -/
theorem Signed.takeAuth {t : TxState} {a : Arg} {auth : PqAuthorized} (h : Signed H s)
    (ha : s.takeAuth a = some (auth, t)) : Signed H t := by
  obtain ⟨l, r, hs, ht⟩ := TxState.takeAuth_auths ha
  have htokens := h.tokens
  rw [hs] at htokens
  obtain ⟨i, j, -, -, rfl⟩ := TxState.takeAuth_some ha
  exact ⟨h.keys, h.sender, by rw [ht]; exact htokens.drop, h.owner⟩

theorem step_signed (h : step H V s cmd = some s') (hs : Signed H s) : Signed H s' := by
  cases step_effect h with
  | register len new =>
    exact Signed.call ((hs.coins (.create new)).congr rfl rfl rfl rfl rfl) nofun
  | rotate input owner len =>
    exact Signed.call (hs.congr rfl rfl rfl rfl rfl) nofun
  | @unlock id digest signature x input accepts nonce =>
    have he : ¬ IsWithdrawal (.unlocked ⟨x.identity.id, s.ctx.sender, x.identity.nonce, digest⟩) := nofun
    refine ⟨hs.keys, hs.sender, ?_, (hs.emit he).owner⟩
    rw [TxState.auths_push]
    exact hs.tokens.issue he rfl
  | consume witness => exact (hs.takeAuth witness).coins (.push rfl)
  | @openVault seed c t u take new =>
    have hfree := (TxState.create_some new).1.2.2.2.1
    have hu := (hs.coins (.takeForCall take)).coins (.create new)
    refine Signed.call (hu.setVault rfl fun w hw => ?_) nofun
    rw [(MovesCoins.create new).vaults, hfree] at hw
    cases hw
  | @deposit id topUp v c t input take pool balance =>
    have hv := (TxState.vaultAt_some input).1
    have hm := MovesCoins.takeForCall take
    have hid := hs.keys hv
    refine Signed.call ((hs.coins hm).setVault hid fun w hw => ?_) nofun
    rw [hm.vaults, hv] at hw
    cases hw
    rfl
  | @withdraw id a recipient amount v auth t u input witness owner sender digest balance pool new =>
    have hv := (TxState.vaultAt_some input).1
    have hid := hs.keys hv
    have hm := MovesCoins.create new
    obtain ⟨l, r, hauths, hrest⟩ := TxState.takeAuth_auths witness
    obtain ⟨i, j, -, -, ht⟩ := TxState.takeAuth_some witness
    have hvaults : u.world.vaults = s.world.vaults := by rw [hm.vaults, ht]; rfl
    have hsender : u.ctx.sender = s.ctx.sender := by rw [hm.sender, ht]; rfl
    have hu : Signed H (u.setVault id
        { v with balance := v.balance - amount.toNat, pool := v.pool - amount.toNat }) :=
      ((hs.takeAuth witness).coins hm).setVault hid fun w hw => by
        rw [hvaults, hv] at hw
        cases hw
        rfl
    refine Signed.coins (s := ((u.setVault id _).emit _)) ⟨hu.keys, hu.sender, ?_, fun {x} hx => ?_⟩
      (.push rfl)
    · have hspend := hs.tokens
      rw [hauths] at hspend
      have := hspend.spend (e := .withdrew ⟨v.id, recipient, amount.toNat, auth.nonce⟩)
        ⟨_, rfl, amount.toNat_lt, sender, rfl, digest⟩
      show Tokens Issues (Spends H u.ctx.sender) IsWithdrawal (u.record.events ++ [_]) u.auths
      rw [hm.record, hm.auths, hsender, hrest, ht]
      exact this
    · obtain hx | hx := List.mem_append.mp hx
      · exact hu.owner hx
      · obtain rfl := Event.withdrew.inj (List.mem_singleton.mp hx)
        refine ⟨{ v with balance := v.balance - amount.toNat, pool := v.pool - amount.toNat }, ?_,
          owner.trans hsender.symm⟩
        show Function.update u.world.vaults id _ v.id = _
        rw [hid, Function.update_self]
  | coins coins => exact hs.coins coins.movesCoins

/-- A command changes neither the sender nor the earlier transactions' records. -/
theorem step_frame (h : step H V s cmd = some s') :
    s'.world.log = s.world.log ∧ s'.ctx.sender = s.ctx.sender := by
  cases step_effect h with
  | register len new => exact ⟨(MovesCoins.create new).log, (MovesCoins.create new).sender⟩
  | rotate input owner len => exact ⟨rfl, rfl⟩
  | unlock input accepts nonce => exact ⟨rfl, rfl⟩
  | consume witness =>
    obtain ⟨i, j, -, -, rfl⟩ := TxState.takeAuth_some witness
    exact ⟨rfl, rfl⟩
  | openVault take new =>
    have hm := (MovesCoins.takeForCall take).trans (.create new)
    exact ⟨hm.log, hm.sender⟩
  | deposit input take pool balance =>
    exact ⟨(MovesCoins.takeForCall take).log, (MovesCoins.takeForCall take).sender⟩
  | withdraw input witness owner sender digest balance pool new =>
    obtain ⟨i, j, -, -, rfl⟩ := TxState.takeAuth_some witness
    exact ⟨(MovesCoins.create new).log, (MovesCoins.create new).sender⟩
  | coins coins => exact ⟨coins.movesCoins.log, coins.movesCoins.sender⟩

/-! ## Runs -/

theorem start_signed {w : World} (hw : ∀ {id v}, w.vaults id = some v → v.id = id) (tx : Tx) :
    Signed H (start w tx) :=
  ⟨hw, rfl, Tokens.nil, fun hx => by cases hx⟩

theorem run_keys {w : World} (hw : w.Unused) (txs : List Tx) {id : ID} {v : Vault}
    (hv : ((chain H V).run w txs).vaults id = some v) : v.id = id := by
  refine (chain H V).run_keeps_all (I := fun w => ∀ {id v}, w.vaults id = some v → v.id = id)
    (J := Signed H) (fun w tx hw => start_signed hw tx) (fun _ _ _ => step_signed) (fun s w hs hf => ?_)
    (fun {id v} h => ?_) hv
  · obtain ⟨-, rfl⟩ := finish_some hf
    exact hs.keys
  · rw [hw.vaults] at h
    cases h

/-- In a transaction after any run from a world in which the packages are
unused, each withdrawal has an unlock of its own before it: with the sender
of the transaction, who owns the vault, the nonce of the withdrawal's event
and the digest of what it withdraws. No witness outlives the transaction, and
the digest's bytes determine the withdrawal. -/
theorem one_signature (H : Hash) (V : Verifiers) {w w' w'' : World} {txs : List Tx} {tx : Tx} (hw : w.Unused)
    (hrun : (chain H V).run w txs = w') (hexec : (chain H V).exec w' tx = some w'') :
    (∃ r s, tx.commands.foldlM (step H V) (start w' tx) = some s ∧ s.auths = [] ∧
      w''.log = w'.log ++ [r] ∧ r.sender = tx.sender ∧
      ∃ f : Nat → Nat, Set.InjOn f {i | ∃ x, r.events[i]? = some (.withdrew x)} ∧
        ∀ i x, r.events[i]? = some (.withdrew x) → f i < i ∧ ∃ u v, r.events[f i]? = some (.unlocked u) ∧
          w''.vaults x.vault = some v ∧ u.sender = r.sender ∧ v.owner = r.sender ∧ u.nonce = x.pqNonce ∧
          u.actionDigest = H (withdrawMessage x.vault x.recipient x.amount) ∧ x.amount < 2 ^ 64) ∧
    ∀ vault recipient amount vault' recipient' amount', amount < 2 ^ 64 → amount' < 2 ^ 64 →
      withdrawMessage vault recipient amount = withdrawMessage vault' recipient' amount' →
      vault = vault' ∧ recipient = recipient' ∧ amount = amount' := by
  subst hrun
  refine ⟨?_, fun _ _ _ _ _ _ => withdrawMessage_inj⟩
  obtain ⟨s, hs, hf⟩ := (chain H V).exec_some hexec
  have hkeep : Signed H s ∧ s.world.log = ((chain H V).run w txs).log ∧ s.ctx.sender = tx.sender := by
    refine foldlM_keeps_all (J := fun s => Signed H s ∧ s.world.log = ((chain H V).run w txs).log ∧
      s.ctx.sender = tx.sender) (fun s c t ht hs => ?_) hs ⟨start_signed (run_keys hw txs) tx, rfl, rfl⟩
    obtain ⟨hlog, hsender⟩ := step_frame ht
    exact ⟨step_signed ht hs.1, hlog.trans hs.2.1, hsender.trans hs.2.2⟩
  obtain ⟨hsigned, hlog, hsender⟩ := hkeep
  obtain ⟨hauths, rfl⟩ := finish_some hf
  obtain ⟨f, hinj, hspend⟩ := hsigned.tokens.injection
  refine ⟨s.record, s, hs, hauths, congrArg (· ++ [s.record]) hlog, hsigned.sender.trans hsender, f,
    fun i ⟨x, hx⟩ j ⟨y, hy⟩ => hinj ⟨_, hx, x, rfl⟩ ⟨_, hy, y, rfl⟩, fun i x hx => ?_⟩
  obtain ⟨hlt, u, a, hu, rfl, y, hxy, hamount, hs, hn, hd⟩ := hspend i _ hx ⟨x, rfl⟩
  cases hxy
  obtain ⟨v, hv, ho⟩ := hsigned.owner (List.mem_of_getElem? hx)
  exact ⟨hlt, _, v, hu, hv, hs.trans hsigned.sender.symm, ho.trans hsigned.sender.symm, hn, hd, hamount⟩

/-! ## A withdrawal -/

def sampleSetup : Tx :=
  sampleTx 20 [.register PqGuard.SLH_DSA_LITE sampleKey, .openVault (.object (.fill 7))]

def sampleDigest : Bytes := Hash.zero (withdrawMessage (.fill 21) (.fill 2) 3)

def samplePayment : Tx :=
  sampleTx 30 [.unlock (.fill 20) sampleDigest (sampleKey ++ PqGuard.unlockMessage (.fill 1) 0 sampleDigest),
    .withdraw (.fill 21) (.result 0 0) (.fill 2) 3, .transferObjects [.result 1 0] (.fill 2)]

/-- The world after setting up the vault, and after the withdrawal. -/
def sampleBefore : World := (chain .zero PqGuard.echo).run (.ofCoins sampleCoins) [sampleSetup]

def sampleAfter : World := ((chain .zero PqGuard.echo).exec sampleBefore samplePayment).getD sampleBefore

theorem one_signature_sample : ∃ j < 1, ∃ u, sampleAfter.log[1]?.bind (·.events[j]?) = some (.unlocked u) ∧
    u.actionDigest = sampleDigest := by
  have hrun : (chain .zero PqGuard.echo).run (.ofCoins sampleCoins) [sampleSetup] = sampleBefore := rfl
  have hexec : (chain .zero PqGuard.echo).exec sampleBefore samplePayment = some sampleAfter :=
    eq_some_getD (by decide +kernel) sampleBefore
  obtain ⟨⟨r, s, -, -, hlog, -, f, -, hf⟩, -⟩ :=
    one_signature .zero PqGuard.echo (World.unused_ofCoins sampleCoins) hrun hexec
  have hr : sampleAfter.log[1]? = some r := by
    have hlen : sampleBefore.log.length = 1 := by decide +kernel
    rw [hlog, ← hlen, List.getElem?_concat_length]
  have hx : r.events[1]? = some (.withdrew ⟨.fill 21, .fill 2, 3, 0⟩) := by
    have : sampleAfter.log[1]?.bind (·.events[1]?) = some (.withdrew ⟨.fill 21, .fill 2, 3, 0⟩) := by
      decide +kernel
    rwa [hr] at this
  obtain ⟨hlt, u, v, hu, -, -, -, -, hd, -⟩ := hf 1 _ hx
  exact ⟨f 1, hlt, u, by rw [hr]; exact hu, hd⟩

end SuiPq.Proof.OneSignature
