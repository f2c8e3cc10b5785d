import SuiPq.Impl.SealDemo

/-!
# Approvals of `seal_demo`

`seal_approve` looks at the allowlist it is given and not at the identity, so
that approvals of the identities formed for an allowlist are all by members
of it exactly when the object that is presented is that allowlist
(`isolation_iff`). Whoever is not a member presents an allowlist of their own
(`intrusion_approved`). Only its owner changes an allowlist
(`changed_by_owner`), and whoever was removed from it is not on it
(`removed_not_member`).
-/

namespace SuiPq.Proof.SealDemo

open SuiPq.Impl SuiPq.Impl.SealDemo

/-! ## The functions -/

theorem sealApprove_ok {id : Bytes} {al : Allowlist} {ctx : TxContext} {u : Unit}
    (h : (sealApprove id al ctx).res = .ok u) : ctx.sender ∈ al.members :=
  Move.require_ok h

theorem sealApprove_eq {al : Allowlist} {ctx : TxContext} (id : Bytes) (h : ctx.sender ∈ al.members) :
    sealApprove id al ctx = pure () :=
  Move.require_pos h

theorem add_returns {al : Allowlist} {ctx : TxContext} (addr : Address) (h : al.owner = ctx.sender) :
    add al addr ctx = pure (if addr ∈ al.members then (al, none)
      else ({ al with members := al.members ++ [addr] }, some ⟨al.id, addr⟩)) := by
  rw [add, Move.require_pos h, pure_bind]
  by_cases hmem : addr ∈ al.members
  · rw [if_neg (not_not.mpr hmem), if_pos hmem]
  · rw [if_pos hmem, if_neg hmem]

/-- The occurrence that is taken off is the first. -/
theorem remove_returns {al : Allowlist} {ctx : TxContext} (addr : Address) (h : al.owner = ctx.sender) :
    remove al addr ctx = pure (if addr ∈ al.members then
      ({ al with members := al.members.erase addr }, some ⟨al.id, addr⟩) else (al, none)) := by
  rw [remove, Move.require_pos h, pure_bind]
  by_cases hmem : addr ∈ al.members
  · have hidx : al.members.idxOf addr < al.members.length := List.idxOf_lt_length_of_mem hmem
    rw [indexOf, if_pos hmem, if_pos hmem, List.erase_eq_eraseIdx_of_idxOf rfl]
    simp only [removeAt, if_pos hidx, pure_bind, if_true]
  · rw [indexOf, if_neg hmem, if_neg hmem]
    rfl

theorem add_owner {al : Allowlist} {addr : Address} {ctx : TxContext} {r : Allowlist × Option MemberAdded}
    (h : (add al addr ctx).res = .ok r) : al.owner = ctx.sender := by
  obtain ⟨u, hu, -⟩ := Comp.bind_ok h
  exact Move.require_ok hu

theorem remove_owner {al : Allowlist} {addr : Address} {ctx : TxContext}
    {r : Allowlist × Option MemberRemoved}
    (h : (remove al addr ctx).res = .ok r) : al.owner = ctx.sender := by
  obtain ⟨u, hu, -⟩ := Comp.bind_ok h
  exact Move.require_ok hu

/-- Who is on the list after `add`. -/
theorem add_ok {al : Allowlist} {addr : Address} {ctx : TxContext} {r : Allowlist × Option MemberAdded}
    (h : (add al addr ctx).res = .ok r) : al.owner = ctx.sender ∧ r.1.id = al.id ∧
      (al.members.Nodup → r.1.members.Nodup) ∧ ∀ x, x ∈ r.1.members ↔ x ∈ al.members ∨ x = addr := by
  have howner := add_owner h
  rw [add_returns addr howner] at h
  cases h
  by_cases hmem : addr ∈ al.members
  · rw [if_pos hmem]
    refine ⟨howner, rfl, id, fun x => ⟨.inl, fun hx => hx.elim id ?_⟩⟩
    rintro rfl
    exact hmem
  · rw [if_neg hmem]
    refine ⟨howner, rfl, fun hnd => ?_, fun x => by simp⟩
    exact List.nodup_append.mpr ⟨hnd, List.pairwise_singleton _ _, fun a ha b hb => by
      rw [List.mem_singleton.mp hb]
      exact fun he => hmem (he ▸ ha)⟩

/-- Who is on the list after `remove`. -/
theorem remove_ok {al : Allowlist} {addr : Address} {ctx : TxContext} {r : Allowlist × Option MemberRemoved}
    (h : (remove al addr ctx).res = .ok r) (hnd : al.members.Nodup) : al.owner = ctx.sender ∧
      r.1.id = al.id ∧ r.1.members.Nodup ∧
      ∀ x, x ∈ r.1.members ↔ x ∈ al.members ∧ x ≠ addr := by
  have howner := remove_owner h
  rw [remove_returns addr howner] at h
  cases h
  by_cases hmem : addr ∈ al.members
  · rw [if_pos hmem]
    exact ⟨howner, rfl, hnd.erase _, fun x => hnd.mem_erase_iff.trans And.comm⟩
  · rw [if_neg hmem]
    refine ⟨howner, rfl, hnd, fun x => ⟨fun hx => ⟨hx, ?_⟩, And.left⟩⟩
    rintro rfl
    exact hmem hx

theorem input_some {s : TxState} {id : ID} {al : Allowlist} (h : s.input id = some al) :
    s.world.allowlists id = some al ∧ id ∉ s.created := by
  obtain ⟨al', hal, h⟩ := Option.bind_eq_some_iff.mp h
  obtain ⟨hid, h⟩ := guard_bind_some.mp h
  cases h
  exact ⟨hal, hid⟩

/-- What an approval says: the sender is on the list that is presented. -/
theorem approval_some {s s' : TxState} {id : Bytes} {X : ID} (h : step s (.sealApprove id X) = some s') :
    ∃ al, s.world.allowlists X = some al ∧ s.ctx.sender ∈ al.members := by
  obtain ⟨al, hal, h⟩ := Option.bind_eq_some_iff.mp h
  obtain ⟨u, hu, -⟩ := Option.bind_eq_some_iff.mp h
  exact ⟨al, (input_some hal).1, sealApprove_ok (Comp.toOption_some.mp hu)⟩

/-! ## The lists -/

/-- An allowlist is at its id, which no other object can have, and a member is on it once. -/
def Listed (w : World) : Prop :=
  ∀ {id al}, w.allowlists id = some al → al.id = id ∧ id ∈ w.used ∧ al.members.Nodup

/-- What a command does: it creates an allowlist, or its sender changes one of its own. -/
inductive Effect (s : TxState) : World → Prop where
  | same : Effect s s.world
  | created (id : ID) (h : id ∉ s.world.used) :
    Effect s ⟨Function.update s.world.allowlists id (some ⟨id, s.ctx.sender, []⟩), id :: s.world.used⟩
  | changed {id : ID} {al al' : Allowlist} (h : s.world.allowlists id = some al)
    (howner : al.owner = s.ctx.sender) (hid : al'.id = al.id) (hnd : al.members.Nodup → al'.members.Nodup) :
    Effect s ⟨Function.update s.world.allowlists id (some al'), s.world.used⟩

theorem step_add_some {s s' : TxState} {id : ID} {addr : Address} (h : step s (.add id addr) = some s') :
    ∃ al r, s.input id = some al ∧ (add al addr s.ctx).res = .ok r ∧ s' = s.put id r.1 := by
  obtain ⟨al, hal, h⟩ := Option.bind_eq_some_iff.mp h
  obtain ⟨r, hr, h⟩ := Option.bind_eq_some_iff.mp h
  exact ⟨al, r, hal, Comp.toOption_some.mp hr, (Option.some.inj h).symm⟩

theorem step_remove_some {s s' : TxState} {id : ID} {addr : Address}
    (h : step s (.remove id addr) = some s') :
    ∃ al r, s.input id = some al ∧ (remove al addr s.ctx).res = .ok r ∧ s' = s.put id r.1 := by
  obtain ⟨al, hal, h⟩ := Option.bind_eq_some_iff.mp h
  obtain ⟨r, hr, h⟩ := Option.bind_eq_some_iff.mp h
  exact ⟨al, r, hal, Comp.toOption_some.mp hr, (Option.some.inj h).symm⟩

theorem step_effect {s s' : TxState} {c : Command} (hs : Listed s.world) (h : step s c = some s') :
    Effect s s'.world := by
  cases c with
  | create =>
    obtain ⟨hid, h⟩ := guard_bind_some.mp h
    cases h
    exact .created s.ctx.nextId hid
  | add id addr =>
    obtain ⟨al, r, hal, hr, rfl⟩ := step_add_some h
    obtain ⟨howner, hid, hnd, -⟩ := add_ok hr
    exact .changed (input_some hal).1 howner hid hnd
  | remove id addr =>
    obtain ⟨al, r, hal, hr, rfl⟩ := step_remove_some h
    have hal := (input_some hal).1
    obtain ⟨howner, hid, hnd, -⟩ := remove_ok hr (hs hal).2.2
    exact .changed hal howner hid fun _ => hnd
  | sealApprove id X =>
    obtain ⟨al, -, h⟩ := Option.bind_eq_some_iff.mp h
    obtain ⟨u, -, h⟩ := Option.bind_eq_some_iff.mp h
    cases h
    exact .same

theorem Effect.listed {s : TxState} {w : World} (h : Effect s w) (hs : Listed s.world) : Listed w := by
  intro i x hx
  cases h with
  | same => exact hs hx
  | created id =>
    dsimp only at hx
    by_cases hi : i = id
    · rw [hi, Function.update_self] at hx
      cases hx
      exact ⟨hi.symm, hi ▸ List.mem_cons_self, List.nodup_nil⟩
    · rw [Function.update_of_ne hi] at hx
      obtain ⟨h₁, h₂, h₃⟩ := hs hx
      exact ⟨h₁, List.mem_cons_of_mem _ h₂, h₃⟩
  | @changed id al al' hal _ hid hnd =>
    dsimp only at hx
    by_cases hi : i = id
    · rw [hi, Function.update_self] at hx
      cases hx
      obtain ⟨h₁, h₂, h₃⟩ := hs hal
      exact ⟨by rw [hid, h₁, hi], hi ▸ h₂, hnd h₃⟩
    · rw [Function.update_of_ne hi] at hx
      exact hs hx

theorem listed_empty : Listed .empty := by
  intro id al h
  cases h

theorem run_listed (txs : List Tx) : Listed (chain.run .empty txs) :=
  chain.run_keeps_all (I := fun w => Listed w) (J := fun s => Listed s.world) (fun _ _ h => h)
    (fun _ _ _ h hs => (step_effect hs h).listed hs) (fun _ _ hs h => Option.some.inj h ▸ hs) listed_empty

/-- Only its owner changes an allowlist. -/
theorem changed_by_owner {s s' : TxState} {c : Command} (hs : Listed s.world) (h : step s c = some s')
    {id : ID} {al : Allowlist} (hal : s.world.allowlists id = some al) :
    s'.world.allowlists id = some al ∨ al.owner = s.ctx.sender := by
  have he := step_effect hs h
  generalize s'.world = w at he
  cases he with
  | same => exact .inl hal
  | created i hi =>
    by_cases hne : id = i
    · exact absurd (hne ▸ (hs hal).2.1) hi
    · exact .inl ((Function.update_of_ne hne _ _).trans hal)
  | @changed i x x' hx howner =>
    by_cases hne : id = i
    · rw [hne, hx] at hal
      cases hal
      exact .inr howner
    · exact .inl ((Function.update_of_ne hne _ _).trans hal)

/-- Whoever was removed from a list is not on it. -/
theorem removed_not_member {s s' : TxState} {id : ID} {addr : Address} (hs : Listed s.world)
    (h : step s (.remove id addr) = some s') :
    ∀ al, s'.world.allowlists id = some al → addr ∉ al.members := by
  obtain ⟨al, r, hal, hr, rfl⟩ := step_remove_some h
  intro al' hal' hmem
  obtain ⟨-, -, -, hiff⟩ := remove_ok hr (hs (input_some hal).1).2.2
  have : Function.update s.world.allowlists id (some r.1) id = some al' := hal'
  rw [Function.update_self] at this
  rw [← Option.some.inj this] at hmem
  exact ((hiff addr).mp hmem).2 rfl

/-! ## Isolation -/

/-- The sender is a member of the allowlist `A`. -/
def MemberOf (A : ID) (s : TxState) : Prop :=
  ∃ al, s.world.allowlists A = some al ∧ s.ctx.sender ∈ al.members

/-- If the command approves the identity `A || nonce` for the allowlist `X`, then a member of `A` sent it. -/
def ByMember (A X : ID) (nonce : Bytes) (s : TxState) (c : Command) : Prop :=
  c = .sealApprove (A.bytes ++ nonce) X → MemberOf A s

/-- An approval is by a member of whichever allowlist its identity was formed for. -/
def Isolated (s : TxState) (c : Command) : Prop := ∀ A X nonce, ByMember A X nonce s c

/-- An approval presents the allowlist that its identity was formed for. -/
def PresentsOwn (_ : TxState) (c : Command) : Prop :=
  ∀ A X nonce, c = .sealApprove (A.bytes ++ nonce) X → X = A

theorem byMember_of_own {A : ID} {nonce : Bytes} {s s' : TxState} {c : Command} (h : step s c = some s') :
    ByMember A A nonce s c := by
  intro hc
  rw [hc] at h
  exact approval_some h

theorem meets_byMember (A : ID) (nonce : Bytes) (txs : List Tx) (w : World) :
    chain.Meets (ByMember A A nonce) txs w :=
  chain.meets_imp (fun _ _ _ _ h => byMember_of_own h) (chain.meets_true txs w)

theorem meets_isolated {txs : List Tx} {w : World} (h : chain.Meets PresentsOwn txs w) :
    chain.Meets Isolated txs w := by
  refine chain.meets_imp (fun s c s' hP hs A X nonce hc => ?_) h
  obtain rfl := hP A X nonce hc
  exact byMember_of_own hs hc

/-! ## An intrusion -/

/-- A user creates the allowlist `A`. -/
def creation (user : Address) (A : ID) : Tx := ⟨user, fun _ => A, [.create]⟩

/-- A user puts itself on the allowlist `X` and presents it for an identity. -/
def intrusion (user : Address) (X : ID) (id : Bytes) : Tx :=
    ⟨user, fun _ => X, [.add X user, .sealApprove id X]⟩

section Intrusion

variable {w : World} {user : Address} {A X : ID}

theorem next_creation (h : A ∉ w.used) : chain.next w (creation user A) =
    ⟨Function.update w.allowlists A (some ⟨A, user, []⟩), A :: w.used⟩ := by
  have hstep : step (chain.start w (creation user A)) .create =
      some ⟨⟨Function.update w.allowlists A (some ⟨A, user, []⟩), A :: w.used⟩, ⟨user, fun _ => A, 1⟩, [A]⟩ :=
    guard_bind_some.mpr ⟨h, rfl⟩
  rw [System.next, chain.exec_single (t := creation user A) rfl hstep]
  rfl

/-- The state in which the user presents its allowlist. -/
def intruded (w : World) (user : Address) (X : ID) : TxState :=
  ⟨⟨Function.update w.allowlists X (some ⟨X, user, [user]⟩), w.used⟩, ⟨user, fun _ => X, 0⟩, []⟩

theorem step_add (h : w.allowlists X = some ⟨X, user, []⟩) (id : Bytes) :
    step (chain.start w (intrusion user X id)) (.add X user) = some (intruded w user X) := by
  have hin : (chain.start w (intrusion user X id)).input X = some ⟨X, user, []⟩ := by
    refine Option.bind_eq_some_iff.mpr ⟨_, h, guard_bind_some.mpr ⟨?_, rfl⟩⟩
    exact List.not_mem_nil
  have hadd : add ⟨X, user, []⟩ user ⟨user, fun _ => X, 0⟩ = pure (⟨X, user, [user]⟩, some ⟨X, user⟩) := by
    rw [add_returns user rfl, if_neg List.not_mem_nil]
    rfl
  refine Option.bind_eq_some_iff.mpr ⟨_, hin, ?_⟩
  show ((add ⟨X, user, []⟩ user ⟨user, fun _ => X, 0⟩).res.toOption.bind _) = _
  rw [hadd]
  rfl

theorem step_approve (id : Bytes) :
    step (intruded w user X) (.sealApprove id X) = some (intruded w user X) := by
  have hin : (intruded w user X).input X = some ⟨X, user, [user]⟩ := by
    refine Option.bind_eq_some_iff.mpr ⟨_, Function.update_self _ _ _, guard_bind_some.mpr ⟨?_, rfl⟩⟩
    exact List.not_mem_nil
  refine Option.bind_eq_some_iff.mpr ⟨_, hin, ?_⟩
  rw [sealApprove_eq id (List.mem_singleton_self _)]
  rfl

/-- Whoever has created an allowlist gets any identity approved. -/
theorem intrusion_approved (h : w.allowlists X = some ⟨X, user, []⟩) (id : Bytes) :
    chain.exec w (intrusion user X id) = some (intruded w user X).world := by
  rw [System.exec]
  exact Option.bind_eq_some_iff.mpr ⟨_, foldlM_cons_some.mpr ⟨_, step_add h id,
    foldlM_cons_some.mpr ⟨_, step_approve id, rfl⟩⟩, rfl⟩

/-- The user of an allowlist of its own is not a member of another. -/
theorem not_memberOf {al : Allowlist} (hA : w.allowlists A = some al) (hne : A ≠ X) (h : user ∉ al.members) :
    ¬ MemberOf A (intruded w user X) := by
  intro ⟨al', hal, hmem⟩
  have : (intruded w user X).world.allowlists A = some al := by
    rw [← hA]
    exact Function.update_of_ne hne _ _
  rw [this] at hal
  exact h (Option.some.inj hal ▸ hmem)

end Intrusion

/-- The allowlists of two users, and the second user's attempt at an identity of the first's. -/
def stolen (A X : ID) (nonce : Bytes) : List Tx :=
  [creation (.fill 1) A, creation (.fill 2) X, intrusion (.fill 2) X (A.bytes ++ nonce)]

theorem stolen_not_byMember {A X : ID} (hne : X ≠ A) (nonce : Bytes) :
    ¬ chain.Meets (ByMember A X nonce) (stolen A X nonce) .empty := by
  intro ⟨_, _, h, _⟩
  rw [next_creation (w := .empty) List.not_mem_nil,
    next_creation (by simpa [World.empty] using hne)] at h
  have hX := Function.update_self X (some (⟨X, .fill 2, []⟩ : Allowlist))
    (Function.update World.empty.allowlists A (some ⟨A, .fill 1, []⟩))
  obtain ⟨-, h⟩ := h (by rw [intrusion_approved hX]; rfl)
  have hA : Function.update (Function.update World.empty.allowlists A (some ⟨A, .fill 1, []⟩)) X
      (some ⟨X, .fill 2, []⟩) A = some (⟨A, .fill 1, []⟩ : Allowlist) := by
    rw [Function.update_of_ne hne.symm]
    exact Function.update_self _ _ _
  exact not_memberOf hA hne.symm List.not_mem_nil ((h _ (step_add hX _)).1 rfl)

/-- The approvals of the identities of `A` for an object `X` are all by members of `A`, in every run, exactly
when `X` is `A`; so they are in every run whose approvals present the allowlist of the identity. -/
theorem isolation_iff (A X : ID) (nonce : Bytes) :
    ((∀ txs, chain.Meets (ByMember A X nonce) txs .empty) ↔ X = A) ∧
      ∀ txs w, chain.Meets PresentsOwn txs w → chain.Meets Isolated txs w := by
  refine ⟨⟨fun h => ?_, ?_⟩, fun txs w => meets_isolated⟩
  · by_contra hne
    exact stolen_not_byMember hne nonce (h _)
  · rintro rfl txs
    exact meets_byMember X nonce txs .empty

/-- A user who is not a member of the allowlist `10` gets an identity of it approved. -/
theorem not_isolated : ¬ chain.Meets Isolated (stolen (.fill 10) (.fill 11) []) .empty := by
  intro h
  have hne : (.fill 11 : ID) ≠ .fill 10 := by decide
  exact stolen_not_byMember hne [] (chain.meets_imp (fun s c _ hs _ => hs (.fill 10) (.fill 11) []) h)

end SuiPq.Proof.SealDemo
