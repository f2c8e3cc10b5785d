import Mathlib.Data.List.Chain
import SuiPq.Proof.SealDemo

/-!
# Membership of allowlists

An address is on an allowlist exactly when the last call of the list's owner
that names it was an `add`, in every state that a run reaches
(`membership_exact`). `remove` takes one occurrence of the address off, which
is enough as `add` does not make a second one.

For each allowlist and address the calls and the events are those of a switch:
`step_switch` says what a command does to it, and `Switched` what follows for
a history.
-/

namespace SuiPq.Proof.Membership

open SuiPq.Impl SuiPq.Impl.SealDemo SuiPq.Proof.SealDemo

/-! ## Switches -/

/-- On and off in turn, beginning with on. -/
def Alternate (log : List Bool) : Prop := (false :: log).IsChain (· ≠ ·)

/-- A call to a switch, if there is one, and what is logged: a call that changes where the switch is. -/
inductive Switch (before after : Prop) : Option Bool → List Bool → Prop
  | idle (h : after ↔ before) : Switch before after none []
  | same {b : Bool} (h : before ↔ b = true) (h' : after ↔ b = true) : Switch before after (some b) []
  | flip {b : Bool} (h : before ↔ b = false) (h' : after ↔ b = true) : Switch before after (some b) [b]

/-- Where a switch is after the calls, and what has been logged. -/
structure Switched (calls log : List Bool) (on : Prop) : Prop where
  last_call : on ↔ calls.getLast? = some true
  last_log : on ↔ log.getLast? = some true
  alternate : Alternate log

theorem switched_nil : Switched [] [] False := ⟨by simp, by simp, List.isChain_singleton _⟩

/-- A log whose last entry differs from the next one. -/
theorem Alternate.append {log : List Bool} {b : Bool} (h : Alternate log)
    (hb : log.getLast? = some true ↔ b = false) :
    Alternate (log ++ [b]) := by
  rw [Alternate, ← List.cons_append]
  refine List.isChain_append.mpr ⟨h, List.isChain_singleton _, fun x hx y hy => ?_⟩
  rw [List.getLast?_cons] at hx
  cases hx
  cases hy
  cases hlast : log.getLast? with
  | none =>
    rw [hlast] at hb
    cases b with
    | false => simp at hb
    | true => simp
  | some c =>
    rw [hlast] at hb
    cases b with
    | false => simpa using hb
    | true => simpa using hb

theorem Switched.step {calls log logged : List Bool} {call : Option Bool} {before after : Prop}
    (h : Switched calls log before) (hs : Switch before after call logged) :
    Switched (calls ++ call.toList) (log ++ logged) after := by
  cases hs with
  | idle hab =>
    rw [Option.toList_none, List.append_nil, List.append_nil]
    exact ⟨hab.trans h.last_call, hab.trans h.last_log, h.alternate⟩
  | @same b hb ha =>
    refine ⟨?_, ?_, ?_⟩
    · simpa using ha
    · rw [List.append_nil]
      exact ha.trans (hb.symm.trans h.last_log)
    · rw [List.append_nil]
      exact h.alternate
  | @flip b hb ha =>
    refine ⟨?_, ?_, ?_⟩
    · simpa using ha
    · simpa using ha
    · exact h.alternate.append (h.last_log.symm.trans hb)

/-! ## Calls and events -/

/-- The sender of the transaction is the allowlist's owner. -/
def sentByOwner (s : TxState) (id : ID) : Bool :=
  (s.world.allowlists id).any fun al => al.owner = s.ctx.sender

/-- What a call of the owner says of an address: `true` where it adds the address, and `false` where it removes it. -/
def ownerCall (id : ID) (addr : Address) (e : TxState × Command) : Option Bool :=
  match e.2 with
  | .add i a => if sentByOwner e.1 id ∧ i = id ∧ a = addr then some true else none
  | .remove i a => if sentByOwner e.1 id ∧ i = id ∧ a = addr then some false else none
  | _ => none

def ownerCalls (id : ID) (addr : Address) (h : List (TxState × Command)) : List Bool :=
    h.filterMap (ownerCall id addr)

/-- What an event says of an address: `true` for `MemberAdded`, and `false` for `MemberRemoved`. -/
def change (id : ID) (addr : Address) : Event → Option Bool
  | .added e => if e.allowlist = id ∧ e.member = addr then some true else none
  | .removed e => if e.allowlist = id ∧ e.member = addr then some false else none

/-- The events of a history. -/
def events (h : List (TxState × Command)) : List Event := h.flatMap fun e => emits e.1 e.2

def changes (id : ID) (addr : Address) (h : List (TxState × Command)) : List Bool :=
  (events h).filterMap (change id addr)

theorem ownerCalls_append (id : ID) (addr : Address) (h : List (TxState × Command)) (e : TxState × Command) :
    ownerCalls id addr (h ++ [e]) = ownerCalls id addr h ++ (ownerCall id addr e).toList := by
  rw [ownerCalls, List.filterMap_append, ownerCalls]
  cases he : ownerCall id addr e <;> simp [he]

theorem changes_append (id : ID) (addr : Address) (h : List (TxState × Command)) (e : TxState × Command) :
    changes id addr (h ++ [e]) = changes id addr h ++ (emits e.1 e.2).filterMap (change id addr) := by
  simp [changes, events, List.filterMap_append]

/-! ## What a command does -/

/-- The address is on the allowlist. -/
def Member (w : World) (id : ID) (addr : Address) : Prop :=
  ∃ al, w.allowlists id = some al ∧ addr ∈ al.members

theorem member_iff {w : World} {id : ID} {al : Allowlist} (h : w.allowlists id = some al) (addr : Address) :
    Member w id addr ↔ addr ∈ al.members := by
  simp [Member, h]

theorem member_put (s : TxState) (i : ID) (al : Allowlist) (id : ID) (addr : Address) :
    Member (s.put i al).world id addr ↔ if i = id then addr ∈ al.members else Member s.world id addr := by
  unfold Member TxState.put
  by_cases hi : i = id
  · subst hi
    simp
  · simp [hi, Function.update_of_ne (Ne.symm hi)]

theorem add_event {al : Allowlist} {addr : Address} {ctx : TxContext} {r : Allowlist × Option MemberAdded}
    (h : (add al addr ctx).res = .ok r) : r.2 = if addr ∈ al.members then none else some ⟨al.id, addr⟩ := by
  rw [add_returns addr (add_owner h)] at h
  cases h
  by_cases hmem : addr ∈ al.members
  · rw [if_pos hmem, if_pos hmem]
  · rw [if_neg hmem, if_neg hmem]

theorem remove_event {al : Allowlist} {addr : Address} {ctx : TxContext}
    {r : Allowlist × Option MemberRemoved}
    (h : (remove al addr ctx).res = .ok r) : r.2 = if addr ∈ al.members then some
    ⟨al.id, addr⟩ else none := by
  rw [remove_returns addr (remove_owner h)] at h
  cases h
  by_cases hmem : addr ∈ al.members
  · rw [if_pos hmem, if_pos hmem]
  · rw [if_neg hmem, if_neg hmem]

theorem emits_add {s : TxState} {id : ID} {addr : Address} {al : Allowlist}
    {r : Allowlist × Option MemberAdded}
    (hal : s.input id = some al) (hr : (add al addr s.ctx).res = .ok r) :
    emits s (.add id addr) = r.2.toList.map .added := by
  simp only [emits, hal, hr, Except.toOption, Option.bind_eq_bind, Option.bind_some]

theorem emits_remove {s : TxState} {id : ID} {addr : Address} {al : Allowlist}
    {r : Allowlist × Option MemberRemoved}
    (hal : s.input id = some al) (hr : (remove al addr s.ctx).res = .ok r) :
    emits s (.remove id addr) = r.2.toList.map .removed := by
  simp only [emits, hal, hr, Except.toOption, Option.bind_eq_bind, Option.bind_some]

/-- A call that names `a` on the allowlist `i`, to add it or to remove it. -/
theorem call_switch {s : TxState} {i : ID} {a : Address} {al al' : Allowlist} {b : Bool} {es : List Event}
    (hal : s.world.allowlists i = some al)
      (hmem : ∀ x, x ∈ al'.members ↔ if x = a then b = true else x ∈ al.members)
    (hes : ∀ id addr, es.filterMap (change id addr) =
      if i = id ∧ a = addr ∧ (addr ∈ al.members ↔ b = false) then [b] else []) (id : ID) (addr : Address) :
    Switch (Member s.world id addr) (Member (s.put i al').world id addr)
      (if i = id ∧ a = addr then some b else none)
      (es.filterMap (change id addr)) := by
  rw [hes, member_put]
  by_cases hi : i = id
  · subst hi
    rw [if_pos rfl, hmem, member_iff hal]
    by_cases ha : a = addr
    · subst ha
      rw [if_pos rfl, if_pos ⟨rfl, rfl⟩]
      by_cases hb : a ∈ al.members ↔ b = false
      · rw [if_pos ⟨rfl, rfl, hb⟩]
        exact .flip hb Iff.rfl
      · rw [if_neg fun h => hb h.2.2]
        refine .same ?_ Iff.rfl
        cases b with
        | false => simpa using hb
        | true => simpa using hb
    · rw [if_neg (Ne.symm ha), if_neg fun h => ha h.2, if_neg fun h => ha h.2.1]
      exact .idle Iff.rfl
  · rw [if_neg hi, if_neg fun h => hi h.1, if_neg fun h => hi h.1]
    exact .idle Iff.rfl

theorem sentByOwner_of {s : TxState} {id : ID} {al : Allowlist} (hal : s.world.allowlists id = some al)
    (howner : al.owner = s.ctx.sender) : sentByOwner s id = true := by
  simp [sentByOwner, hal, howner]

/-- What a command does for an address of an allowlist. -/
theorem step_switch {s s' : TxState} {c : Command} (hs : Listed s.world) (h : step s c = some s') (id : ID)
    (addr : Address) : Switch (Member s.world id addr) (Member s'.world id addr) (ownerCall id addr (s, c))
      ((emits s c).filterMap (change id addr)) := by
  cases c with
  | create =>
    obtain ⟨hid, h⟩ := guard_bind_some.mp h
    cases h
    refine .idle ?_
    rw [member_put]
    by_cases hi : s.ctx.nextId = id
    · rw [if_pos hi]
      constructor
      · intro hmem
        cases hmem
      · rintro ⟨al, hal, -⟩
        exact absurd (hi ▸ (hs hal).2.1) hid
    · rw [if_neg hi]
      rfl
  | add i a =>
    obtain ⟨al, r, hin, hr, rfl⟩ := step_add_some h
    have hal := (input_some hin).1
    obtain ⟨howner, -, -, hmem⟩ := add_ok hr
    have hcall : ownerCall id addr (s, .add i a) = if i = id ∧ a = addr then some true else none := by
      by_cases hi : i = id
      · simp [ownerCall, ← hi, sentByOwner_of hal howner]
      · simp [ownerCall, hi]
    rw [hcall]
    refine call_switch hal (fun x => ?_) (fun id addr => ?_) id addr
    · rw [hmem]
      by_cases hx : x = a <;> simp [hx]
    · rw [emits_add hin hr, add_event hr, (hs hal).1]
      by_cases ha : a = addr
      · subst ha
        by_cases hmem : a ∈ al.members
        · simp [hmem]
        · by_cases hi : i = id <;> simp [hmem, change, hi]
      · by_cases hmem : a ∈ al.members <;> simp [hmem, change, ha]
  | remove i a =>
    obtain ⟨al, r, hin, hr, rfl⟩ := step_remove_some h
    have hal := (input_some hin).1
    obtain ⟨howner, -, -, hmem⟩ := remove_ok hr (hs hal).2.2
    have hcall : ownerCall id addr (s, .remove i a) = if i = id ∧ a = addr then some false else none := by
      by_cases hi : i = id
      · simp [ownerCall, ← hi, sentByOwner_of hal howner]
      · simp [ownerCall, hi]
    rw [hcall]
    refine call_switch hal (fun x => ?_) (fun id addr => ?_) id addr
    · rw [hmem]
      by_cases hx : x = a <;> simp [hx]
    · rw [emits_remove hin hr, remove_event hr, (hs hal).1]
      by_cases ha : a = addr
      · subst ha
        by_cases hmem : a ∈ al.members
        · by_cases hi : i = id <;> simp [hmem, change, hi]
        · simp [hmem]
      · by_cases hmem : a ∈ al.members <;> simp [hmem, change, ha]
  | sealApprove bytes i =>
    obtain ⟨al, -, h⟩ := Option.bind_eq_some_iff.mp h
    obtain ⟨u, -, h⟩ := Option.bind_eq_some_iff.mp h
    cases h
    exact .idle Iff.rfl

/-- A call by someone else fails. -/
theorem step_outsider {s : TxState} {id : ID} {al : Allowlist} {c : Command} {addr : Address}
    (hal : s.world.allowlists id = some al) (howner : al.owner ≠ s.ctx.sender)
    (hc : c = .add id addr ∨ c = .remove id addr) : step s c = none := by
  by_contra hsome
  obtain ⟨s', hstep⟩ := Option.ne_none_iff_exists'.mp hsome
  rcases hc with rfl | rfl
  · obtain ⟨x, r, hin, hr, -⟩ := step_add_some hstep
    obtain rfl : al = x := Option.some.inj (hal.symm.trans (input_some hin).1)
    exact howner (add_owner hr)
  · obtain ⟨x, r, hin, hr, -⟩ := step_remove_some hstep
    obtain rfl : al = x := Option.some.inj (hal.symm.trans (input_some hin).1)
    exact howner (remove_owner hr)

/-- A call by the owner goes through. -/
theorem step_owner {s : TxState} {id : ID} {al : Allowlist} {c : Command} {addr : Address}
    (hin : s.input id = some al) (howner : al.owner = s.ctx.sender)
      (hc : c = .add id addr ∨ c = .remove id addr) :
    (step s c).isSome := by
  rcases hc with rfl | rfl
  · show ((s.input id).bind _).isSome
    rw [hin, Option.bind_some, add_returns addr howner]
    rfl
  · show ((s.input id).bind _).isSome
    rw [hin, Option.bind_some, remove_returns addr howner]
    rfl

/-! ## Runs -/

/-- The lists of the world are what the calls of a history have made of them. -/
structure Tracks (h : List (TxState × Command)) (w : World) : Prop where
  listed : Listed w
  switched (id : ID) (addr : Address) : Switched (ownerCalls id addr h) (changes id addr h) (Member w id addr)

theorem Tracks.step {h : List (TxState × Command)} {s s' : TxState} {c : Command} (hs : step s c = some s')
    (ht : Tracks h s.world) : Tracks (h ++ [(s, c)]) s'.world where
  listed := (step_effect ht.listed hs).listed ht.listed
  switched id addr := by
    rw [ownerCalls_append, changes_append]
    exact (ht.switched id addr).step (step_switch ht.listed hs id addr)

theorem tracks_empty : Tracks [] .empty where
  listed := listed_empty
  switched id addr := by
    have hmem : ¬ Member .empty id addr := by simp [Member, World.empty]
    rw [eq_false hmem]
    exact switched_nil

theorem tracks_run (txs : List Tx) : Tracks (chain.history txs .empty) (chain.run .empty txs) :=
  chain.history_keeps (J := fun h s => Tracks h s.world) (h := []) (fun _ _ _ h => h)
    (fun _ _ _ _ hs h => h.step hs) (fun _ _ _ hs h => Option.some.inj h ▸ hs) tracks_empty

theorem tracks_at {txs : List Tx} {before after : List (TxState × Command)} {e : TxState × Command}
    (h : chain.history txs .empty = before ++ e :: after) :
    Tracks before e.1.world ∧ ∃ s', SealDemo.step e.1 e.2 = some s' :=
  chain.history_at (I := Tracks) (J := fun h s => Tracks h s.world) (fun _ _ _ h => h)
    (fun _ _ _ _ hs h => h.step hs) (fun _ _ _ hs h => Option.some.inj h ▸ hs) tracks_empty h

theorem ownerCall_true {id : ID} {addr : Address} {e : TxState × Command}
    (h : ownerCall id addr e = some true) :
    sentByOwner e.1 id = true ∧ e.2 = .add id addr := by
  obtain ⟨s, c⟩ := e
  cases c with
  | add i a =>
    simp only [ownerCall, Option.ite_none_right_eq_some, and_true] at h
    obtain ⟨hown, rfl, rfl⟩ := h
    exact ⟨hown, rfl⟩
  | remove i a => simp [ownerCall] at h
  | create => cases h
  | sealApprove bytes i => cases h

/-- Between a call that removes an address and an approval of it there is one that adds it. -/
theorem readded {txs : List Tx} {before mid after : List (TxState × Command)} {s t : TxState}
    {id : ID} {bytes : Bytes}
    (h : chain.history txs .empty =
      before ++ (s, .remove id t.ctx.sender) :: (mid ++ (t, .sealApprove bytes id) :: after)) :
    ∃ u, (u, .add id t.ctx.sender) ∈ mid ∧ sentByOwner u id = true := by
  obtain ⟨htracks, s', hremove⟩ := tracks_at h
  obtain ⟨al, r, hin, hr, -⟩ := step_remove_some hremove
  have hal := (input_some hin).1
  have howner := remove_owner hr
  have hcall : ownerCall id t.ctx.sender (s, .remove id t.ctx.sender) = some false := by
    simp [ownerCall, sentByOwner_of hal howner]
  rw [← List.cons_append, ← List.append_assoc] at h
  obtain ⟨htracks, t', happrove⟩ := tracks_at h
  have hlast := (htracks.switched id t.ctx.sender).last_call.mp (approval_some happrove)
  rw [ownerCalls, List.filterMap_append, List.filterMap_cons_some hcall, List.getLast?_append,
    List.getLast?_cons] at hlast
  have hmem : true ∈ mid.filterMap (ownerCall id t.ctx.sender) := by
    cases hmid : (mid.filterMap (ownerCall id t.ctx.sender)).getLast? with
    | none =>
      rw [hmid] at hlast
      cases hlast
    | some b =>
      rw [hmid] at hlast
      cases hlast
      exact List.mem_of_getLast? hmid
  obtain ⟨e, he, hadd⟩ := List.mem_filterMap.mp hmem
  obtain ⟨hown, hadd⟩ := ownerCall_true hadd
  exact ⟨e.1, hadd ▸ he, hown⟩

/-- What is known of the allowlists after a run. -/
structure Exact (txs : List Tx) : Prop where
  nodup {id al} : (chain.run .empty txs).allowlists id = some al → al.members.Nodup
  /-- An address is on a list exactly when the last call of its owner that names it was an `add`. -/
  member {id al} (addr) : (chain.run .empty txs).allowlists id = some al →
    (addr ∈ al.members ↔ (ownerCalls id addr (chain.history txs .empty)).getLast? = some true)
  /-- A transaction in which someone else calls changes nothing. -/
  outsider {tx before c after s id al addr} : tx.commands = before ++ c :: after →
    before.foldlM step (chain.start (chain.run .empty txs) tx) = some s → s.world.allowlists id = some al →
    al.owner ≠ s.ctx.sender → c = .add id addr ∨ c = .remove id addr →
    chain.next (chain.run .empty txs) tx = chain.run .empty txs
  /-- A call by the owner goes through. -/
  owner {id al c addr} (ids) : (chain.run .empty txs).allowlists id = some al →
    c = .add id addr ∨ c = .remove id addr →
    (chain.exec (chain.run .empty txs) ⟨al.owner, ids, [c]⟩).isSome
  /-- After a call that removes an address, no approval by it goes through before one of the owner that adds it. -/
  revoked {before mid after s t id bytes} : chain.history txs .empty =
      before ++ (s, .remove id t.ctx.sender) :: (mid ++ (t, .sealApprove bytes id) :: after) →
    ∃ u, (u, .add id t.ctx.sender) ∈ mid ∧ sentByOwner u id = true
  /-- The events for an address of a list alternate, beginning with `MemberAdded`. -/
  alternate (id addr) : Alternate (changes id addr (chain.history txs .empty))

theorem membership_exact (txs : List Tx) : Exact txs where
  nodup hal := (run_listed txs hal).2.2
  member addr hal := (member_iff hal addr).symm.trans ((tracks_run txs).switched _ addr).last_call
  outsider htx hs hal howner hc := chain.next_of_step_none htx hs (step_outsider hal howner hc)
  owner {id al c addr} ids hal hc := by
    have hin : (chain.start (chain.run .empty txs) ⟨al.owner, ids, [c]⟩).input id = some al :=
      Option.bind_eq_some_iff.mpr ⟨al, hal, guard_bind_some.mpr ⟨List.not_mem_nil, rfl⟩⟩
    obtain ⟨s', hs'⟩ := Option.isSome_iff_exists.mp (step_owner hin rfl hc)
    rw [chain.exec_single (t := ⟨al.owner, ids, [c]⟩) rfl hs']
    rfl
  revoked h := readded h
  alternate id addr := ((tracks_run txs).switched id addr).alternate

end SuiPq.Proof.Membership
