import SuiPq.Impl.PqAttestation

/-!
# Custody of attestations

An attestation is revoked by the address that holds it and that it records as
its owner (`revoke_iff`). It can be transferred to any address, and no one can
revoke it where that is another one (`stranded`). `custody_iff`: attestations
are held by their owners in every state of a run exactly when the transfers of
the run are to the owners.
-/

namespace SuiPq.Proof.PqAttestation

open SuiPq.Impl SuiPq.Impl.PqAttestation

/-! ## Commands -/

theorem input_some {s : TxState} {id : ID} {att : Attestation} : s.input id = some att ↔
    s.world.attestations id = some ⟨att, s.ctx.sender⟩ ∧ id ∉ s.unavailable := by
  constructor
  · intro h
    obtain ⟨x, hx, h⟩ := Option.bind_eq_some_iff.mp h
    obtain ⟨⟨hholder, hid⟩, h⟩ := guard_bind_some.mp h
    cases h
    rw [← hholder]
    exact ⟨hx, hid⟩
  · rintro ⟨hx, hid⟩
    exact Option.bind_eq_some_iff.mpr ⟨_, hx, guard_bind_some.mpr ⟨⟨rfl, hid⟩, rfl⟩⟩

theorem revoke_eq {att : Attestation} {ctx : TxContext} (h : att.owner = ctx.sender) :
    revoke att ctx = pure ⟨att.id, att.owner⟩ := by
  rw [revoke, Move.require_pos h, pure_bind]

/-- What a command does. -/
inductive Effect (s : TxState) : Command → TxState → Prop where
  | registered {scheme : UInt8} {publicKey signature messageDigest nonce appTag : Bytes} (att : Attestation)
    (ctx : EpochContext) (hid : att.id ∉ s.world.used) :
    Effect s (.register scheme publicKey signature messageDigest nonce appTag)
      (TxState.put ⟨{ s.world with used := att.id :: s.world.used }, ctx, s.unavailable⟩ att.id
        (some ⟨att, att.owner⟩))
  | revoked {id : ID} {att : Attestation} (hin : s.input id = some att) (howner : att.owner = s.ctx.sender) :
    Effect s (.revoke id) (s.put id none)
  | transferred {id : ID} {att : Attestation} (recipient : Address) (hin : s.input id = some att) :
    Effect s (.transfer id recipient) (s.put id (some ⟨att, recipient⟩))

theorem step_effect {s s' : TxState} {c : Command} (h : step s c = some s') : Effect s c s' := by
  cases c with
  | register scheme publicKey signature messageDigest nonce appTag =>
    obtain ⟨r, hr, h⟩ := Option.bind_eq_some_iff.mp h
    obtain ⟨hid, h⟩ := guard_bind_some.mp h
    cases h
    obtain ⟨u, -, hr⟩ := Comp.bind_ok (Comp.toOption_some.mp hr)
    cases hr
    exact .registered _ _ hid
  | revoke id =>
    obtain ⟨att, hin, h⟩ := Option.bind_eq_some_iff.mp h
    obtain ⟨r, hr, h⟩ := Option.bind_eq_some_iff.mp h
    cases h
    obtain ⟨u, hu, -⟩ := Comp.bind_ok (Comp.toOption_some.mp hr)
    exact .revoked hin (Move.require_ok hu)
  | transfer id recipient =>
    obtain ⟨att, hin, h⟩ := Option.bind_eq_some_iff.mp h
    cases h
    exact .transferred recipient hin

/-- Who can revoke an attestation. -/
theorem revoke_iff {w : World} {id : ID} {user : Address} {ids : Nat → ID} {ms : Nat} :
    (chain.exec w ⟨user, ids, ms, [.revoke id]⟩).isSome ↔
      ∃ x, w.attestations id = some x ∧ x.holder = user ∧ x.att.owner = user := by
  constructor
  · intro h
    obtain ⟨w', hw⟩ := Option.isSome_iff_exists.mp h
    obtain ⟨s, hs, -⟩ := chain.exec_some hw
    obtain ⟨t, ht, -⟩ := foldlM_cons_some.mp hs
    have heffect := step_effect (show step _ (.revoke id) = some t from ht)
    cases heffect with
    | revoked hin howner => exact ⟨_, (input_some.mp hin).1, rfl, howner⟩
  · rintro ⟨⟨att, holder⟩, hx, rfl, howner⟩
    have hin : (chain.start w ⟨holder, ids, ms, [.revoke id]⟩).input id = some att :=
      input_some.mpr ⟨hx, List.not_mem_nil⟩
    have hreturn : revoke att (chain.start w ⟨holder, ids, ms, [.revoke id]⟩).ctx.toTxContext =
        pure ⟨att.id, att.owner⟩ := revoke_eq howner
    have hrevoke : step (chain.start w ⟨holder, ids, ms, [.revoke id]⟩) (.revoke id) =
        some ((chain.start w ⟨holder, ids, ms, [.revoke id]⟩).put id none) := by
      refine Option.bind_eq_some_iff.mpr ⟨att, hin, ?_⟩
      rw [hreturn]
      rfl
    rw [chain.exec_single (t := ⟨holder, ids, ms, [.revoke id]⟩) rfl hrevoke]
    rfl

/-! ## Custody -/

/-- A live attestation has an id that no other object can have. -/
def Placed (w : World) : Prop := ∀ {id x}, w.attestations id = some x → id ∈ w.used

/-- Every attestation is held by the owner that it records. -/
def HeldByOwner (w : World) : Prop := ∀ {id x}, w.attestations id = some x → x.holder = x.att.owner

/-- A transfer is to the owner that the attestation records. -/
def ToOwner (s : TxState) (c : Command) : Prop :=
  ∀ id recipient x, c = .transfer id recipient → s.world.attestations id = some x → recipient = x.att.owner

theorem update_some {w : World} {id i : ID} {o : Option Live} {x : Live}
    (h : Function.update w.attestations i o id = some x) : id = i ∧ o = some x ∨
      w.attestations id = some x := by
  by_cases hi : id = i
  · rw [hi, Function.update_self] at h
    exact .inl ⟨hi, h⟩
  · rw [Function.update_of_ne hi] at h
    exact .inr h

theorem Effect.placed {s s' : TxState} {c : Command} (h : Effect s c s') (hs : Placed s.world) :
    Placed s'.world := by
  intro id x hx
  cases h with
  | registered att ctx hid =>
    rcases update_some hx with ⟨rfl, -⟩ | hx
    · exact List.mem_cons_self
    · exact List.mem_cons_of_mem _ (hs hx)
  | revoked hin howner =>
    rcases update_some hx with ⟨-, hx⟩ | hx
    · cases hx
    · exact hs hx
  | transferred recipient hin =>
    rcases update_some hx with ⟨rfl, -⟩ | hx
    · exact hs (input_some.mp hin).1
    · exact hs hx

theorem Effect.heldByOwner {s s' : TxState} {c : Command} (h : Effect s c s') (hP : ToOwner s c)
    (hs : HeldByOwner s.world) : HeldByOwner s'.world := by
  intro id x hx
  cases h with
  | registered att ctx hid =>
    rcases update_some hx with ⟨-, hx⟩ | hx
    · cases hx
      rfl
    · exact hs hx
  | revoked hin howner =>
    rcases update_some hx with ⟨-, hx⟩ | hx
    · cases hx
    · exact hs hx
  | @transferred i att recipient hin =>
    rcases update_some hx with ⟨-, hx⟩ | hx
    · cases hx
      exact hP i recipient ⟨att, s.ctx.sender⟩ rfl (input_some.mp hin).1
    · exact hs hx

/-- What the transaction has used up stays as it is. -/
theorem Effect.frame {s s' : TxState} {c : Command} (h : Effect s c s') {id : ID} {o : Option Live}
    (hs : id ∈ s.unavailable ∧ id ∈ s.world.used ∧ s.world.attestations id = o) :
    id ∈ s'.unavailable ∧ id ∈ s'.world.used ∧ s'.world.attestations id = o := by
  obtain ⟨hun, hused, ho⟩ := hs
  cases h with
  | registered att ctx hid =>
    have hne : id ≠ att.id := fun heq => hid (heq ▸ hused)
    exact ⟨List.mem_cons_of_mem _ hun, List.mem_cons_of_mem _ hused, (Function.update_of_ne hne _ _).trans ho⟩
  | @revoked i att hin howner =>
    have hne : id ≠ i := fun heq => (input_some.mp hin).2 (heq ▸ hun)
    exact ⟨List.mem_cons_of_mem _ hun, hused, (Function.update_of_ne hne _ _).trans ho⟩
  | @transferred i att recipient hin =>
    have hne : id ≠ i := fun heq => (input_some.mp hin).2 (heq ▸ hun)
    exact ⟨List.mem_cons_of_mem _ hun, hused, (Function.update_of_ne hne _ _).trans ho⟩

/-- Where every attestation is held by its owner after a transaction, its transfers were to the owners. -/
theorem along_toOwner {cs : List Command} {s s' : TxState} (hs : Placed s.world)
    (h : cs.foldlM step s = some s')
    (hheld : HeldByOwner s'.world) : Along step ToOwner cs s := by
  induction cs generalizing s with
  | nil => trivial
  | cons c cs ih =>
    obtain ⟨t, ht, h⟩ := foldlM_cons_some.mp h
    have heffect := step_effect ht
    refine ⟨?_, fun u hu => ?_⟩
    · rintro id recipient x rfl hx
      cases heffect with
      | @transferred id att recipient hin =>
        have hlive := (input_some.mp hin).1
        rw [hlive] at hx
        cases hx
        have hend := foldlM_keeps_all (fun s c s' hstep hs => (step_effect hstep).frame hs) h
          (J := fun u => id ∈ u.unavailable ∧ id ∈ u.world.used ∧ u.world.attestations id =
            some ⟨att, recipient⟩)
          ⟨List.mem_cons_self, hs hlive, Function.update_self _ _ _⟩
        exact hheld hend.2.2
    · obtain rfl : u = t := Option.some.inj (hu.symm.trans ht)
      exact ih (heffect.placed hs) h

/-- Every attestation is held by the owner that it records, who can revoke it and no one else can. -/
structure Custody (w : World) : Prop where
  held {id x} : w.attestations id = some x → x.holder = x.att.owner
  revocable {id x} (user ids ms) : w.attestations id = some x →
    ((chain.exec w ⟨user, ids, ms, [.revoke id]⟩).isSome ↔ user = x.att.owner)

theorem custody_of {w : World} (h : HeldByOwner w) : Custody w where
  held := h
  revocable {id x} user ids ms hx := by
    rw [revoke_iff]
    constructor
    · rintro ⟨y, hy, -, howner⟩
      rw [hx] at hy
      cases hy
      exact howner.symm
    · rintro rfl
      exact ⟨x, hx, h hx, rfl⟩

/-! ## Runs -/

/-- Attestations are in the custody of their owners in every state of a run exactly when its transfers are to the
owners. -/
theorem custody_iff (txs : List Tx) :
    (∀ n, Custody (chain.run .empty (txs.take n))) ↔ chain.Meets ToOwner txs .empty := by
  have hempty : Placed .empty ∧ HeldByOwner .empty := by
    constructor
    · intro id x hx
      cases hx
    · intro id x hx
      cases hx
  have hrun : (∀ n, Placed (chain.run .empty (txs.take n)) ∧ HeldByOwner (chain.run .empty (txs.take n))) ↔
      chain.Meets ToOwner txs .empty :=
    chain.run_take_iff (I := fun w => Placed w ∧ HeldByOwner w) (J := fun s => Placed s.world ∧
      HeldByOwner s.world)
      (fun _ _ h => h) (fun s c s' hP h hs => ⟨(step_effect h).placed hs.1,
        (step_effect h).heldByOwner hP hs.2⟩)
      (fun s w hs h => Option.some.inj h ▸ hs) (fun w t w' hw hexec hw' => ?_) hempty
  · rw [← hrun]
    constructor
    · intro h n
      refine ⟨?_, (h n).held⟩
      exact chain.run_keeps_all (I := fun w => Placed w) (J := fun s => Placed s.world) (fun _ _ h => h)
        (fun _ _ _ h hs => (step_effect h).placed hs) (fun _ _ hs h => Option.some.inj h ▸ hs) hempty.1
    · intro h n
      exact custody_of (h n).2
  · obtain ⟨s, hs, hf⟩ := chain.exec_some hexec
    cases hf
    exact along_toOwner hw.1 hs hw'.2

/-! ## A transfer to someone else -/

/-- A user registers an attestation and transfers it to another one. -/
def handedOver : List Tx :=
  [⟨.fill 1, fun _ => .fill 10, 0, [.register 0x11 [] [] (List.replicate 32 0) [] []]⟩,
    ⟨.fill 1, fun _ => .fill 11, 0, [.transfer (.fill 10) (.fill 2)]⟩]

/-- The attestation is held by someone who is not its owner, and no one can revoke it. -/
theorem stranded : ∃ x, (chain.run .empty handedOver).attestations (.fill 10) = some x ∧ x.holder = .fill 2 ∧
    x.att.owner = .fill 1 ∧
    ∀ user ids ms, chain.exec (chain.run .empty handedOver) ⟨user, ids, ms, [.revoke (.fill 10)]⟩ = none := by
  have hx : (chain.run .empty handedOver).attestations (.fill 10) =
      some ⟨⟨.fill 10, .fill 1, 0x11, [], [], List.replicate 32 0, [], [], 0⟩, .fill 2⟩ := by decide
  refine ⟨_, hx, rfl, rfl, fun user ids ms => ?_⟩
  by_contra hne
  obtain ⟨y, hy, hholder, howner⟩ := revoke_iff.mp (Option.isSome_iff_ne_none.mpr hne)
  rw [hx] at hy
  cases hy
  rw [← hholder] at howner
  exact absurd howner (by decide)

end SuiPq.Proof.PqAttestation
