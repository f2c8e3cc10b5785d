import SuiPq.Proof.Ptb.Effect
import SuiPq.Proof.Sha2128s.Verify
import SuiPq.Proof.Verifier

/-!
# The identities

An identity's key has the length of its scheme, and its nonce is the number of
unlocks since its registration or last rotation, whose events count them
(`Counted`). On a key of the right length either verifier returns, so `unlock`
stops at its own checks only (`unlock_returns`, `reachable_identities`).
-/

namespace SuiPq.Proof.Identities

open SuiPq.Impl SuiPq.Impl.Ptb SuiPq.Impl.PqGuard SuiPq.Impl.MoveBytes

/-! ## Verifying returns -/

theorem expectedPkLen_ok {scheme : UInt8} {n : Nat} (h : (expectedPkLen scheme).res = .ok n) :
    scheme = SLH_DSA_LITE ∧ n = 64 ∨ scheme = SLH_DSA_SHA2_128S ∧ n = 32 := by
  unfold expectedPkLen at h
  split at h
  · cases h
    exact .inl ⟨‹_›, rfl⟩
  · split at h
    · cases h
      exact .inr ⟨‹_›, rfl⟩
    · cases h

theorem length_unlockMessage {actionDigest : Bytes} (h : actionDigest.length = 32) (sender : Address)
    (nonce : Nat) : (unlockMessage sender nonce actionDigest).length = 90 := by
  have htag : (Move.ascii "PQ_GUARD:UNLOCK:v1").length = 18 := by decide
  simp only [unlockMessage, List.length_append, htag, sender.length_bytes, length_be, h]

/-- On a key of its scheme's length, the verifier returns. -/
theorem verifyPq_returns (H : Hash) {scheme : UInt8} {pk msg : Bytes}
    (hpk : (expectedPkLen scheme).res = .ok pk.length) (hmsg : msg.length + 257 < 2 ^ 64) (sig : Bytes) :
    ∃ ok, (verifyPq (onChain H) scheme pk msg sig).res = .ok ok := by
  rcases expectedPkLen_ok hpk with ⟨rfl, hlen⟩ | ⟨rfl, hlen⟩
  · show ∃ ok, (Verifier.verify H pk msg sig).res = .ok ok
    rw [Verifier.verify_eq hlen (by omega)]
    exact ⟨_, rfl⟩
  · show ∃ ok, (Sha2128s.verifyWithContext H pk msg sig []).res = .ok ok
    rw [Sha2128s.verifyWithContext_eq hlen hmsg]
    exact ⟨_, rfl⟩

/-- An unlock for a digest of 32 bytes succeeds, or refuses the signature. -/
theorem unlock_returns (H : Hash) {x : PqIdentity} {actionDigest : Bytes}
    (hpk : (expectedPkLen x.scheme).res = .ok x.pk.length) (hd : actionDigest.length = 32)
    (hn : x.nonce < 2 ^ 64 - 1) (signature : Bytes) (ctx : TxContext) :
    (∃ r, (unlock (onChain H) x actionDigest signature ctx).res = .ok r) ∨
      (unlock (onChain H) x actionDigest signature ctx).res = .error (.code EInvalidPqSig) := by
  have hlen := length_unlockMessage hd ctx.sender x.nonce
  obtain ⟨ok, hok⟩ := verifyPq_returns H hpk
    (show (unlockMessage ctx.sender x.nonce actionDigest).length + 257 < 2 ^ 64 by omega) signature
  cases ok with
  | true => exact .inl ⟨_, unlock_eq (accepts_iff.mpr ⟨hd, hok⟩) (by omega)⟩
  | false =>
    rw [unlock, Move.require_pos hd, pure_bind, unlockMessageBytes_eq hd, pure_bind,
      Comp.eq_ret hok, Comp.ret_bind]
    exact .inr rfl

/-! ## The invariant -/

/-- The unlocks of the identity `id` since its registration or last rotation. -/
def unlocks (id : ID) (es : List Unlocked) : Event → List Unlocked
  | .registered e => if e.identity = id then [] else es
  | .rotated e => if e.identity = id then [] else es
  | .unlocked e => if e.identity = id then es ++ [e] else es
  | _ => es

def unlocksSince (id : ID) (h : List Record) : List Unlocked :=
  (h.flatMap (·.events)).foldl (unlocks id) []

/-- The identities' keys have the lengths of their schemes, and their nonces
count the unlocks. -/
structure Counted (identities : ID → Option HeldIdentity) (h : List Record) : Prop where
  keys : ∀ {id x}, identities id = some x → x.identity.id = id
  len : ∀ {id x}, identities id = some x → (expectedPkLen x.identity.scheme).res = .ok x.identity.pk.length
  nonces : ∀ {id x}, identities id = some x →
    (unlocksSince id h).map (·.nonce) = List.range x.identity.nonce

variable {H : Hash} {V : Verifiers} {s s' : TxState} {cmd : Command}

theorem unlocksSince_append {t : TxState} {e : Event} (hl : t.world.log = s.world.log)
    (he : t.record.events = s.record.events ++ [e]) (id : ID) :
    unlocksSince id t.history = unlocks id (unlocksSince id s.history) e := by
  simp [unlocksSince, TxState.history, hl, he]

/-- The invariant reads the identities and the events only. -/
theorem Counted.congr {t : TxState} (h : Counted s.world.identities s.history)
    (hi : t.world.identities = s.world.identities) (hl : t.world.log = s.world.log)
    (he : t.record.events = s.record.events) : Counted t.world.identities t.history := by
  have (id : ID) : unlocksSince id t.history = unlocksSince id s.history := by
    simp only [unlocksSince, TxState.history, List.flatMap_append, List.flatMap_singleton, hl, he]
  rw [hi]
  exact ⟨h.keys, h.len, fun hx => by rw [this]; exact h.nonces hx⟩

theorem Counted.coins {t : TxState} (h : Counted s.world.identities s.history) (hc : MovesCoins s t) :
    Counted t.world.identities t.history :=
  h.congr hc.identities hc.log (by rw [hc.record])

/-- An event that is about no identity. -/
theorem Counted.emit {e : Event} (h : Counted s.world.identities s.history)
    (he : ∀ id es, unlocks id es e = es) : Counted (s.emit e).world.identities (s.emit e).history :=
  ⟨h.keys, h.len, fun hx => by
    rw [unlocksSince_append (show (s.emit e).world.log = s.world.log from rfl) rfl, he]
    exact h.nonces hx⟩

/-- A new value of the identity `id`, with an event about it. -/
theorem Counted.update {t : TxState} {id : ID} {x : HeldIdentity} {e : Event}
    (h : Counted s.world.identities s.history) (hid : x.identity.id = id)
    (hlen : (expectedPkLen x.identity.scheme).res = .ok x.identity.pk.length)
    (hn : (unlocks id (unlocksSince id s.history) e).map (·.nonce) = List.range x.identity.nonce)
    (hne : ∀ i ≠ id, ∀ es, unlocks i es e = es)
    (hi : t.world.identities = Function.update s.world.identities id (some x))
    (hl : t.world.log = s.world.log) (he : t.record.events = s.record.events ++ [e]) :
    Counted t.world.identities t.history := by
  have hsince := unlocksSince_append hl he
  rw [hi]
  refine ⟨fun {i y} hy => ?_, fun {i y} hy => ?_, fun {i y} hy => ?_⟩
  all_goals rcases eq_or_ne i id with hi | hi
  · rw [hi, Function.update_self, Option.some.injEq] at hy
    rw [← hy, hid, hi]
  · rw [Function.update_of_ne hi] at hy
    exact h.keys hy
  · rw [hi, Function.update_self, Option.some.injEq] at hy
    rw [← hy, hlen]
  · rw [Function.update_of_ne hi] at hy
    exact h.len hy
  · rw [hi, Function.update_self, Option.some.injEq] at hy
    rw [hsince, hi, ← hy, hn]
  · rw [Function.update_of_ne hi] at hy
    rw [hsince, hne i hi]
    exact h.nonces hy

theorem step_counted (h : step H V s cmd = some s') (hs : Counted s.world.identities s.history) :
    Counted s'.world.identities s'.history := by
  cases step_effect h with
  | @register scheme pk t len new =>
    refine (hs.coins (.create new)).update (x := ⟨⟨s.ctx.nextId, s.ctx.sender, scheme, pk, 0⟩, s.ctx.sender⟩)
      rfl len ?_ ?_ rfl rfl rfl
    · rw [unlocks, if_pos rfl]
      rfl
    · exact fun i hi es => if_neg hi.symm
  | @rotate id newPk x input owner len =>
    have hid := hs.keys (TxState.identityAt_some input).1
    refine hs.update (x := { x with identity := { x.identity with pk := newPk, nonce := 0 } }) hid len
      ?_ ?_ rfl rfl rfl
    · rw [unlocks, if_pos hid]
      rfl
    · exact fun i hi es => if_neg (by rw [hid]; exact hi.symm)
  | @unlock id digest signature x input accepts nonce =>
    have hx := (TxState.identityAt_some input).1
    have hid := hs.keys hx
    have hlen := hs.len hx
    refine hs.update (x := { x with identity := { x.identity with nonce := x.identity.nonce + 1 } }) hid
      hlen ?_ ?_ rfl rfl rfl
    · rw [unlocks, if_pos hid, List.map_append, hs.nonces hx, List.range_succ]
      rfl
    · exact fun i hi es => if_neg (by rw [hid]; exact hi.symm)
  | consume witness =>
    obtain ⟨i, j, -, -, rfl⟩ := TxState.takeAuth_some witness
    exact hs.congr rfl rfl rfl
  | openVault take new =>
    exact ((hs.coins (.takeForCall take)).coins (.create new)).emit fun _ _ => rfl
  | deposit input take pool balance => exact (hs.coins (.takeForCall take)).emit fun _ _ => rfl
  | withdraw input witness owner sender digest balance pool new =>
    obtain ⟨i, j, -, -, rfl⟩ := TxState.takeAuth_some witness
    have ht := hs.congr (t := s.setSlot i j .gone) rfl rfl rfl
    exact (ht.coins (.create new)).emit fun _ _ => rfl
  | coins coins => exact hs.coins coins.movesCoins

/-! ## Runs -/

theorem start_counted {w : World} (hw : Counted w.identities w.log) (tx : Tx) :
    Counted (start w tx).world.identities (start w tx).history := by
  refine ⟨hw.keys, hw.len, fun {id x} hx => ?_⟩
  have := hw.nonces hx
  simpa [unlocksSince, TxState.history, start] using this

theorem run_counted {w : World} (hw : w.Unused) (txs : List Tx) :
    Counted ((chain H V).run w txs).identities ((chain H V).run w txs).log := by
  refine (chain H V).run_keeps_all (I := fun w => Counted w.identities w.log)
    (J := fun s => Counted s.world.identities s.history) (fun w tx hw => start_counted hw tx)
    (fun _ _ _ => step_counted) (fun s w hs hf => ?_) ⟨fun hx => ?_, fun hx => ?_, fun hx => ?_⟩
  · obtain ⟨-, rfl⟩ := finish_some hf
    exact hs
  all_goals simp [hw.identities] at hx

/-- In a state that commands reach, after any run from a world in which the
packages are unused, every identity has a key of its scheme's length and the
number of its unlocks as its nonce, whose events carry the nonces from 0 on.
Below the last nonce, an unlock for a digest of 32 bytes succeeds or aborts
with `EInvalidPqSig`. -/
theorem reachable_identities (H : Hash) {w w' : World} {txs : List Tx} {tx : Tx} {cmds : List Command}
    {s : TxState} (hw : w.Unused) (hrun : (chain H (onChain H)).run w txs = w')
    (hcmds : cmds.foldlM (step H (onChain H)) (start w' tx) = some s) {id : ID} {x : HeldIdentity}
    (hx : s.world.identities id = some x) :
    (x.identity.scheme = SLH_DSA_LITE ∧ x.identity.pk.length = 64 ∨
      x.identity.scheme = SLH_DSA_SHA2_128S ∧ x.identity.pk.length = 32) ∧
    (unlocksSince id s.history).length = x.identity.nonce ∧
    (unlocksSince id s.history).map (·.nonce) = List.range x.identity.nonce ∧
    ∀ (actionDigest signature : Bytes) (ctx : TxContext), actionDigest.length = 32 →
      x.identity.nonce < 2 ^ 64 - 1 →
      (∃ r, (unlock (onChain H) x.identity actionDigest signature ctx).res = .ok r) ∨
        (unlock (onChain H) x.identity actionDigest signature ctx).res = .error (.code EInvalidPqSig) := by
  subst hrun
  have hs : Counted s.world.identities s.history :=
    foldlM_keeps_all (J := fun s => Counted s.world.identities s.history) (fun _ _ _ => step_counted)
      hcmds (start_counted (run_counted hw txs) tx)
  have hnonces := hs.nonces hx
  refine ⟨expectedPkLen_ok (hs.len hx), ?_, hnonces, fun actionDigest signature ctx hd hn =>
    unlock_returns H (hs.len hx) hd hn signature ctx⟩
  rw [← List.length_map, hnonces, List.length_range]

/-- The world after registering a key. -/
def sampleRegistered : World :=
  (chain .zero (onChain .zero)).run (.ofCoins fun _ => none) [sampleTx 20 [.register SLH_DSA_LITE sampleKey]]

theorem reachable_identities_sample : ∃ x, sampleRegistered.identities (.fill 20) = some x ∧
    ∀ signature ctx, (∃ r, (unlock (onChain .zero) x.identity (List.replicate 32 0) signature
      ctx).res = .ok r) ∨
      (unlock (onChain .zero) x.identity (List.replicate 32 0) signature ctx).res =
        .error (.code EInvalidPqSig) := by
  have hnonce : (sampleRegistered.identities (.fill 20)).map (·.identity.nonce) = some 0 := by decide +kernel
  obtain ⟨x, hx, hn⟩ := Option.map_eq_some_iff.mp hnonce
  have hrun : (chain .zero (onChain .zero)).run (.ofCoins fun _ => none)
    [sampleTx 20 [.register SLH_DSA_LITE sampleKey]] = sampleRegistered := rfl
  have hcmds : [].foldlM (step .zero (onChain .zero)) (start sampleRegistered (sampleTx 30 [])) =
    some (start sampleRegistered (sampleTx 30 [])) := rfl
  refine ⟨x, hx, fun signature ctx =>
    (reachable_identities .zero (World.unused_ofCoins _) hrun hcmds hx).2.2.2
    _ signature ctx (List.length_replicate ..) ?_⟩
  rw [hn]
  decide

end SuiPq.Proof.Identities
