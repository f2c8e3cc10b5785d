import SuiPq.Impl.PqGuard
import SuiPq.Proof.MoveBytes

/-!
# `pq_guard`

What its functions do when they return: `register_ok`, `rotate_ok` and
`unlock_ok`, the last by whether the identity's key accepts the signature
(`Accepts`), where it does return (`unlock_eq`). `unlockMessageBytes_eq` is
the message that is signed.
-/

namespace SuiPq.Impl.PqGuard

open SuiPq.Move SuiPq.Impl.MoveBytes

/-- The bytes that are signed for an unlock. -/
def unlockMessage (sender : Address) (nonce : Nat) (actionDigest : Bytes) : Bytes :=
  ascii "PQ_GUARD:UNLOCK:v1" ++ sender.bytes ++ be 8 nonce ++ actionDigest

theorem unlockMessageBytes_eq {actionDigest : Bytes} (h : actionDigest.length = 32) (x : PqIdentity)
    (sender : Address) :
    unlockMessageBytes x sender actionDigest = pure (unlockMessage sender x.nonce actionDigest) := by
  simp only [unlockMessageBytes, require_pos h, pure_bind,
    concat_eq (show (ascii "PQ_GUARD:UNLOCK:v1").length < 2 ^ 64 by decide), List.nil_append,
    concat_eq (show sender.bytes.length < 2 ^ 64 by rw [sender.length_bytes]; decide), u64Be_eq,
    concat_eq (show (be 8 x.nonce).length < 2 ^ 64 by rw [length_be]; decide),
    concat_eq (show actionDigest.length < 2 ^ 64 by rw [h]; decide)]
  rfl

theorem unlockMessageBytes_ok {x : PqIdentity} {sender : Address} {actionDigest msg : Bytes}
    (h : (unlockMessageBytes x sender actionDigest).res = .ok msg) :
    actionDigest.length = 32 ∧ msg = unlockMessage sender x.nonce actionDigest := by
  have hd := (require_bind_ok h).1
  rw [unlockMessageBytes_eq hd] at h
  cases h
  exact ⟨hd, rfl⟩

/-- The message tells the sender, the nonce and the action. -/
theorem unlockMessage_inj {sender sender' : Address} {nonce nonce' : Nat} {d d' : Bytes} (hn : nonce < 2 ^ 64)
    (hn' : nonce' < 2 ^ 64) (h : unlockMessage sender nonce d = unlockMessage sender' nonce' d') :
    sender = sender' ∧ nonce = nonce' ∧ d = d' := by
  obtain ⟨h, hd⟩ := List.append_inj h (by simp only [List.length_append, Address.length_bytes, length_be])
  obtain ⟨h, hnonce⟩ := List.append_inj' h (by rw [length_be, length_be])
  have hsender := List.append_cancel_left h
  cases sender
  cases sender'
  cases hsender
  exact ⟨rfl, be_inj hn hn' hnonce, hd⟩

/-- The identity's key accepts a signature for the sender and the action, at
the identity's nonce. -/
def Accepts (V : Verifiers) (x : PqIdentity) (sender : Address) (actionDigest signature : Bytes) : Prop :=
  (do
    let msg ← unlockMessageBytes x sender actionDigest
    verifyPq V x.scheme x.pk msg signature).res = .ok true

instance (V : Verifiers) (x : PqIdentity) (sender : Address) (actionDigest signature : Bytes) :
    Decidable (Accepts V x sender actionDigest signature) :=
  inferInstanceAs (Decidable ((_ : Except (Abort Code) Bool) = .ok true))

/-- The verifiers for which the signature of a message is the key and the message. -/
def echo : Verifiers where
  slhLite pk msg sig := pure (decide (sig = pk ++ msg))
  slh128s pk msg sig := pure (decide (sig = pk ++ msg))

theorem accepts_iff {V : Verifiers} {x : PqIdentity} {sender : Address}
    {actionDigest signature : Bytes} :
    Accepts V x sender actionDigest signature ↔ actionDigest.length = 32 ∧
      (verifyPq V x.scheme x.pk (unlockMessage sender x.nonce actionDigest) signature).res = .ok true := by
  constructor
  · intro h
    obtain ⟨msg, hm, hv⟩ := Comp.bind_ok h
    obtain ⟨hd, rfl⟩ := unlockMessageBytes_ok hm
    exact ⟨hd, hv⟩
  · rintro ⟨hd, hv⟩
    rwa [Accepts, unlockMessageBytes_eq hd, pure_bind]

theorem register_ok {scheme : UInt8} {pk : Bytes} {ctx ctx' : TxContext} {x : PqIdentity} {e : Registered}
    (h : (register scheme pk ctx).res = .ok (ctx', x, e)) :
    (expectedPkLen scheme).res = .ok pk.length ∧ ctx' = ctx.new.2 ∧
      x = ⟨ctx.nextId, ctx.sender, scheme, pk, 0⟩ ∧ e = ⟨ctx.nextId, ctx.sender, scheme⟩ := by
  obtain ⟨n, hn, h⟩ := Comp.bind_ok h
  obtain ⟨hl, h⟩ := require_bind_ok h
  cases h
  exact ⟨hl ▸ hn, rfl, rfl, rfl⟩

theorem rotate_ok {x x' : PqIdentity} {newPk : Bytes} {ctx : TxContext} {e : Rotated}
    (h : (rotate x newPk ctx).res = .ok (x', e)) :
    x.owner = ctx.sender ∧ (expectedPkLen x.scheme).res = .ok newPk.length ∧
      x' = { x with pk := newPk, nonce := 0 } ∧ e = ⟨x.id, x.owner⟩ := by
  obtain ⟨ho, h⟩ := require_bind_ok h
  obtain ⟨n, hn, h⟩ := Comp.bind_ok h
  obtain ⟨hl, h⟩ := require_bind_ok h
  cases h
  exact ⟨ho, hl ▸ hn, rfl, rfl⟩

theorem unlock_ok {V : Verifiers} {x x' : PqIdentity} {actionDigest signature : Bytes} {ctx : TxContext}
    {e : Unlocked} {auth : PqAuthorized}
    (h : (unlock V x actionDigest signature ctx).res = .ok (x', e, auth)) :
    Accepts V x ctx.sender actionDigest signature ∧ x.nonce + 1 < 2 ^ 64 ∧
      x' = { x with nonce := x.nonce + 1 } ∧ e = ⟨x.id, ctx.sender, x.nonce, actionDigest⟩ ∧
      auth = ⟨x.id, ctx.sender, x.nonce, actionDigest⟩ := by
  obtain ⟨hd, h⟩ := require_bind_ok h
  obtain ⟨msg, hm, h⟩ := Comp.bind_ok h
  obtain ⟨ok, hv, h⟩ := Comp.bind_ok h
  obtain ⟨hok, h⟩ := require_bind_ok h
  obtain ⟨n, hn, h⟩ := Comp.bind_ok h
  obtain ⟨-, rfl⟩ := unlockMessageBytes_ok hm
  obtain ⟨hlt, rfl⟩ := add_ok.mp hn
  cases h
  exact ⟨accepts_iff.mpr ⟨hd, by rw [hv, hok]⟩, hlt, rfl, rfl, rfl⟩

/-- Where the key accepts the signature, and the nonce is not the last one, `unlock` returns. -/
theorem unlock_eq {V : Verifiers} {x : PqIdentity} {actionDigest signature : Bytes} {ctx : TxContext}
    (ha : Accepts V x ctx.sender actionDigest signature) (hn : x.nonce + 1 < 2 ^ 64) :
    (unlock V x actionDigest signature ctx).res = .ok ({ x with nonce := x.nonce + 1 },
      ⟨x.id, ctx.sender, x.nonce, actionDigest⟩, ⟨x.id, ctx.sender, x.nonce, actionDigest⟩) := by
  obtain ⟨hd, hv⟩ := accepts_iff.mp ha
  rw [unlock, require_pos hd, pure_bind, unlockMessageBytes_eq hd, pure_bind]
  refine Comp.bind_iff.mpr ⟨true, hv, ?_⟩
  rw [require_pos rfl, pure_bind]
  show (add 64 x.nonce 1 >>= _).res = _
  rw [add_eq hn, pure_bind]
  rfl

end SuiPq.Impl.PqGuard
