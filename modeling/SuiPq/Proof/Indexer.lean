import SuiPq.Framework.Delivery
import SuiPq.Impl.Indexer

/-!
# Delivery of events

The pollers are workers on the log of the events, in the sense of
`Framework.Delivery`: a step of theirs is one of the workers, or none
(`step_sim`). So the stored cursor passes over no event that a handler has not
completed, and neither does a handler (`at_least_once`), whatever fails and
whenever.
-/

namespace SuiPq.Proof.Indexer

open SuiPq.Impl.Indexer

variable {ι α : Type} [DecidableEq ι] [DecidableEq α]

/-! ## Cursors -/

section Cursors

variable {log : List (SuiEvent α)} {ev : SuiEvent α}

omit [DecidableEq α] in
theorem position_append {cursor : Option EventId} {n : Nat} (h : position log cursor = some n) :
    position (log ++ [ev]) cursor = some n := by
  cases cursor with
  | none => exact h
  | some id =>
    obtain ⟨k, hk, rfl⟩ := Option.map_eq_some_iff.mp h
    rw [position, List.findIdx?_append, hk]
    rfl

omit [DecidableEq α] in
theorem position_le {cursor : Option EventId} {n : Nat} (h : position log cursor = some n) :
    n ≤ log.length := by
  cases cursor with
  | none =>
    cases h
    exact Nat.zero_le _
  | some id =>
    obtain ⟨k, hk, rfl⟩ := Option.map_eq_some_iff.mp h
    exact (List.findIdx?_eq_some_iff_getElem.mp hk).1

omit [DecidableEq α] in
/-- The events before the one at a cursor are those with a smaller index. -/
theorem position_getElem {k : Nat} (hnd : (log.map SuiEvent.id).Nodup) (h : log[k]? = some ev) :
    position log (some ev.id) = some (k + 1) := by
  obtain ⟨hk, rfl⟩ := List.getElem?_eq_some_iff.mp h
  have : log.findIdx? (fun e => e.id = log[k].id) = some k := by
    refine List.findIdx?_eq_some_iff_getElem.mpr ⟨hk, by simp, fun j hj => ?_⟩
    have hj' : j < (log.map SuiEvent.id).length := by
      rw [List.length_map]
      omega
    have hne := List.pairwise_iff_getElem.mp hnd j k hj' (by rwa [List.length_map]) hj
    simpa using hne
  rw [position, this]
  rfl

/-- The next cursor is behind the events of its page. -/
theorem position_next {page : Page α} {limit n : Nat} {cursor : EventId} (hnd : (log.map SuiEvent.id).Nodup)
    (h : page.Follows log limit n) (hc : page.nextCursor = some cursor) :
    position log (some cursor) = some (n + page.data.length) := by
  obtain ⟨hpre, -, hnext⟩ := h
  rcases hnext with hnext | hnext
  · rw [hnext] at hc
    cases hc
  · rw [hnext] at hc
    obtain ⟨ev, hev, rfl⟩ := Option.map_eq_some_iff.mp hc
    have hne : page.data ≠ [] := by
      rintro he
      rw [he] at hev
      cases hev
    have hlen : 0 < page.data.length := List.length_pos_of_ne_nil hne
    have hlast : page.data[page.data.length - 1]? = some ev := by
      rw [← List.getLast?_eq_getElem?]
      exact hev
    have hlog : log[n + (page.data.length - 1)]? = some ev := by
      obtain ⟨post, hpost⟩ := hpre
      rw [← List.getElem?_drop, ← hpost, List.getElem?_append_left (by omega), hlast]
    rw [position_getElem hnd hlog]
    congr 1
    omega

theorem follows_append {page : Page α} {limit n : Nat} (h : page.Follows log limit n) (hn : n ≤ log.length) :
    page.Follows (log ++ [ev]) limit n := by
  refine ⟨?_, h.2⟩
  rw [List.drop_append_of_le_length hn]
  exact h.1.trans (List.prefix_append _ _)

end Cursors

/-! ## Simulation -/

/-- All of the page's events but `rest` are before the item `k`. -/
def Ahead (log : List (SuiEvent α)) (limit : Nat) (page : Page α) (rest : List (SuiEvent α))
    (k : Nat) : Prop :=
  ∃ n pre, page.data = pre ++ rest ∧ page.Follows log limit n ∧ n ≤ log.length ∧ k = n + pre.length

/-- Where a poller's worker is. -/
inductive At (log : List (SuiEvent α)) (limit : Nat) : Phase α → Option Nat → Prop where
  | stopped : At log limit .stopped none
  | test : At log limit .test none
  | querying {cursor : Option EventId} {n : Nat} (h : position log cursor = some n) :
    At log limit (.querying cursor) (some n)
  | handling {page : Page α} {rest : List (SuiEvent α)} {k : Nat} (h : Ahead log limit page rest k) :
    At log limit (.handling page rest) (some k)
  | running {page : Page α} {ev : SuiEvent α} {rest : List (SuiEvent α)} {k : Nat}
    (h : Ahead log limit page (ev :: rest) k) : At log limit (.running page ev rest) (some k)

/-- The pollers and their workers. -/
structure Sim (opts : PollOptions) (s : State ι α) (t : Delivery.State ι) : Prop where
  nodup : (s.log.map SuiEvent.id).Nodup
  saved : position s.log (s.store.load opts.cursorKey) = some t.saved
  completed : ∀ k ∈ t.completed, ∃ ev ∈ s.completed, s.log[k]? = some ev
  worker : ∀ i, At s.log opts.limit (s.pollers i).phase (t.worker i)

section Simulation

variable {opts : PollOptions} {s s' : State ι α} {t : Delivery.State ι} {log : List (SuiEvent α)}
  {ev : SuiEvent α} {limit k : Nat} {page : Page α} {rest : List (SuiEvent α)}

theorem Ahead.append (h : Ahead log limit page rest k) : Ahead (log ++ [ev]) limit page rest k := by
  obtain ⟨n, pre, hdata, hf, hn, hk⟩ := h
  refine ⟨n, pre, hdata, follows_append hf hn, ?_, hk⟩
  rw [List.length_append]
  omega

/-- The next event of the page is the item `k`. -/
theorem Ahead.getElem (h : Ahead log limit page (ev :: rest) k) : log[k]? = some ev := by
  obtain ⟨n, pre, hdata, ⟨⟨post, hpost⟩, -⟩, -, rfl⟩ := h
  rw [← List.getElem?_drop, ← hpost, hdata, List.append_assoc, List.getElem?_append_right le_rfl,
    Nat.sub_self]
  rfl

theorem Ahead.next (h : Ahead log limit page (ev :: rest) k) : Ahead log limit page rest (k + 1) := by
  obtain ⟨n, pre, hdata, hf, hn, rfl⟩ := h
  refine ⟨n, pre ++ [ev], ?_, hf, hn, ?_⟩
  · rw [hdata, List.append_assoc]
    rfl
  · rw [List.length_append]
    rfl

theorem At.append {phase : Phase α} {o : Option Nat} (h : At log limit phase o) :
    At (log ++ [ev]) limit phase o := by
  cases h with
  | stopped => exact .stopped
  | test => exact .test
  | querying h => exact .querying (position_append h)
  | handling h => exact .handling h.append
  | running h => exact .running h.append

theorem Sim.setPoller (h : Sim opts s t) {i : ι} {p : Poller α} {o : Option Nat}
    (hat : At s.log opts.limit p.phase o) :
    Sim opts { s with pollers := Function.update s.pollers i p }
      { t with worker := Function.update t.worker i o } where
  nodup := h.nodup
  saved := h.saved
  completed := h.completed
  worker j := by
    by_cases hj : j = i
    · rw [hj]
      simpa only [Function.update_self] using hat
    · simpa only [Function.update_of_ne hj] using h.worker j

theorem Sim.keep (h : Sim opts s t) {i : ι} {p : Poller α} (hat : At s.log opts.limit p.phase (t.worker i)) :
    Sim opts { s with pollers := Function.update s.pollers i p } t := by
  have hs := h.setPoller (i := i) hat
  rwa [Function.update_eq_self] at hs

/-- The state `s` is that of workers who went on from `t`. -/
def Simulated (opts : PollOptions) (t : Delivery.State ι) (s : State ι α) : Prop :=
  ∃ t', Relation.ReflTransGen Delivery.Step t t' ∧ Sim opts s t'

theorem Sim.publish (h : Sim opts s t) (hs : step opts s (.publish ev) = some s') : Simulated opts t s' := by
  obtain ⟨hev, hs⟩ := guard_bind_some.mp hs
  cases hs
  refine ⟨t, .refl, ?_, position_append h.saved, fun k hk => ?_, fun i => (h.worker i).append⟩
  · rw [List.map_append]
    refine List.nodup_append.mpr ⟨h.nodup, List.pairwise_singleton _ _, fun a ha b hb => ?_⟩
    obtain ⟨e, he, rfl⟩ := List.mem_map.mp ha
    rw [List.mem_singleton.mp hb]
    exact hev e he
  · obtain ⟨e, he, hk⟩ := h.completed k hk
    exact ⟨e, he, by rw [List.getElem?_append_left (List.getElem?_eq_some_iff.mp hk).1, hk]⟩

/-- A worker starts at what is saved, if its poller is not cancelled. -/
theorem Sim.load {i : ι} (h : Sim opts s t) (hs : step opts s (.load i) = some s') : Simulated opts t s' := by
  unfold step at hs
  dsimp only at hs
  split at hs
  · split at hs
    · cases hs
      exact ⟨_, .single (.stop i), h.setPoller .stopped⟩
    · cases hs
      exact ⟨_, .single (.start i), h.setPoller (.querying h.saved)⟩
  · cases hs

theorem Sim.respond {i : ι} (h : Sim opts s t) (hs : step opts s (.respond i page) = some s') :
    Simulated opts t s' := by
  have hw := h.worker i
  unfold step at hs
  dsimp only at hs
  split at hs
  · rename_i hph
    rw [hph] at hw
    obtain ⟨n, hn, hs⟩ := Option.bind_eq_some_iff.mp hs
    obtain ⟨hf, hs⟩ := guard_bind_some.mp hs
    cases hs
    refine ⟨t, .refl, h.keep ?_⟩
    generalize t.worker i = o at hw
    cases hw with
    | querying hpos =>
      cases hn.symm.trans hpos
      exact .handling ⟨n, [], rfl, hf, position_le hn, rfl⟩
  · cases hs

theorem Sim.handle {i : ι} (h : Sim opts s t) (hs : step opts s (.handle i) = some s') :
    Simulated opts t s' := by
  have hw := h.worker i
  unfold step at hs
  dsimp only at hs
  split at hs
  · rename_i hph
    rw [hph] at hw
    cases hs
    refine ⟨t, .refl, h.keep ?_⟩
    generalize t.worker i = o at hw
    cases hw with
    | handling ha => exact .running ha
  · cases hs

/-- The worker completes its item. -/
theorem Sim.complete {i : ι} (h : Sim opts s t) (hs : step opts s (.complete i) = some s') :
    Simulated opts t s' := by
  have hw := h.worker i
  unfold step at hs
  dsimp only at hs
  split at hs
  · rename_i page ev rest hph
    rw [hph] at hw
    cases hs
    generalize ho : t.worker i = o at hw
    cases hw with
    | @running _ _ _ k ha =>
      refine ⟨_, .single (.complete ho), Sim.setPoller (s := { s with completed := s.completed ++ [ev] })
        (t := { t with completed := insert k t.completed }) ⟨h.nodup, h.saved, ?_, h.worker⟩
        (.handling ha.next)⟩
      intro j hj
      rcases hj with rfl | hj
      · exact ⟨ev, List.mem_append_right _ (List.mem_singleton_self _), ha.getElem⟩
      · obtain ⟨e, he, hj⟩ := h.completed j hj
        exact ⟨e, List.mem_append_left _ he, hj⟩
  · cases hs

/-- The worker saves how far it came, if the page has a next cursor, and stops. -/
theorem Sim.save {i : ι} (h : Sim opts s t) (hs : step opts s (.save i) = some s') : Simulated opts t s' := by
  have hw := h.worker i
  unfold step at hs
  dsimp only at hs
  split at hs
  · rename_i page hph
    rw [hph] at hw
    split at hs
    · rename_i cursor hc
      cases hs
      generalize ho : t.worker i = o at hw
      cases hw with
      | @handling _ _ k ha =>
        obtain ⟨n, pre, hdata, hf, hn, rfl⟩ := ha
        have hsaved : position s.log (some cursor) = some (n + pre.length) := by
          rw [position_next h.nodup hf hc, hdata, List.append_nil]
        refine ⟨_, .tail (.single (.save ho)) (.stop i),
          Sim.setPoller (s := { s with store := s.store.save opts.cursorKey cursor })
            (t := { t with saved := n + pre.length }) ⟨h.nodup, ?_, h.completed, h.worker⟩ .test⟩
        simpa only [CursorStore.load, CursorStore.save, Function.update_self] using hsaved
    · cases hs
      exact ⟨_, .single (.stop i), h.setPoller .test⟩
  · cases hs

/-- A step of the pollers is one of their workers, or two, or none. -/
theorem step_sim {act : Action ι α} (h : Sim opts s t) (hs : step opts s act = some s') :
    Simulated opts t s' := by
  cases act with
  | publish ev => exact h.publish hs
  | start i =>
    unfold step at hs
    dsimp only at hs
    split at hs
    · cases hs
      exact ⟨_, .single (.stop i), h.setPoller .test⟩
    · cases hs
  | cancel i =>
    cases hs
    exact ⟨t, .refl, h.keep (h.worker i)⟩
  | crash i =>
    cases hs
    exact ⟨_, .single (.stop i), h.setPoller .stopped⟩
  | load i => exact h.load hs
  | respond i page => exact h.respond hs
  | handle i => exact h.handle hs
  | complete i => exact h.complete hs
  | save i => exact h.save hs

theorem run_sim {acts : List (Action ι α)} (h : Sim opts s t) (hrun : run opts s acts = some s') :
    Simulated opts t s' := by
  refine foldlM_keeps_all (J := Simulated opts t) (fun s act s' hs hsim => ?_) hrun ⟨t, .refl, h⟩
  obtain ⟨t', ht, hsim⟩ := hsim
  obtain ⟨t'', ht', hsim⟩ := step_sim hsim hs
  exact ⟨t'', ht.trans ht', hsim⟩

omit [DecidableEq ι] in
theorem initial_sim {first : Nat} (h : s.Initial)
    (hfirst : position s.log (s.store.load opts.cursorKey) = some first) :
    Sim opts s (Delivery.initial ι first) where
  nodup := h.nodup
  saved := hfirst
  completed := nofun
  worker i := by
    rw [h.stopped i]
    exact .stopped

end Simulation

/-! ## Delivery -/

section Delivered

variable {opts : PollOptions} {s₀ s : State ι α} {first : Nat} {acts : List (Action ι α)}

/-- A handler has completed the events from the one with index `first` up to that with index `n`. -/
def CompletedBetween (s : State ι α) (first n : Nat) : Prop :=
  ∀ k ev, first ≤ k → k < n → s.log[k]? = some ev → ev ∈ s.completed

omit [DecidableEq ι] in
theorem Sim.completedBetween {t : Delivery.State ι} {n : Nat} (h : Sim opts s t)
    (hn : Set.Ico first n ⊆ t.completed) : CompletedBetween s first n := by
  intro k ev hk hlt hev
  obtain ⟨e, he, hk⟩ := h.completed k (hn ⟨hk, hlt⟩)
  rw [hev] at hk
  exact Option.some.inj hk ▸ he

/-- Whatever fails, and whenever: the stored cursor points past no event that was not completed; the handler
is given no event before the earlier ones are completed; and an event that was not completed is one of those
that the next query is about. -/
theorem at_least_once (h₀ : s₀.Initial)
    (hfirst : position s₀.log (s₀.store.load opts.cursorKey) = some first)
    (hrun : run opts s₀ acts = some s) :
    (∃ n, position s.log (s.store.load opts.cursorKey) = some n ∧ CompletedBetween s first n ∧
      ∀ ev ∈ s.log.drop first, ev ∉ s.completed → ev ∈ s.log.drop n) ∧
    ∀ i page ev rest, (s.pollers i).phase = .running page ev rest →
      ∃ k, s.log[k]? = some ev ∧ CompletedBetween s first k := by
  obtain ⟨t, ht, hsim⟩ := run_sim (initial_sim h₀ hfirst) hrun
  have hinv := Delivery.Reachable.inv ht
  have hsaved := hsim.completedBetween hinv.saved
  refine ⟨⟨t.saved, hsim.saved, hsaved, fun ev hev hnot => ?_⟩, fun i page ev rest hph => ?_⟩
  · obtain ⟨k, hk⟩ := List.mem_iff_getElem?.mp hev
    rw [List.getElem?_drop] at hk
    have hle : t.saved ≤ first + k := Nat.not_lt.mp fun hlt => hnot (hsaved _ _ (Nat.le_add_right _ _) hlt hk)
    apply List.mem_iff_getElem?.mpr
    refine ⟨first + k - t.saved, ?_⟩
    rwa [List.getElem?_drop, Nat.add_sub_of_le hle]
  · have hw := hsim.worker i
    rw [hph] at hw
    generalize ho : t.worker i = o at hw
    cases hw with
    | @running _ _ _ k ha => exact ⟨k, ha.getElem, hsim.completedBetween (hinv.worker ho)⟩

/-- A step that the poller `i` makes by itself: it neither fails nor is stopped. -/
inductive Own (i : ι) : Action ι α → Prop where
  | load : Own i (.load i)
  | respond (page : Page α) : Own i (.respond i page)
  | handle : Own i (.handle i)
  | complete : Own i (.complete i)
  | save : Own i (.save i)

/-- What the poller `i` does, from the test of its loop to the next, when it gets a page with the event `ev` alone. -/
def round (i : ι) (ev : SuiEvent α) : List (Action ι α) :=
  [.load i, .respond i ⟨[ev], some ev.id, true⟩, .handle i, .complete i, .save i]

omit [DecidableEq ι] [DecidableEq α] in
theorem own_round (i : ι) (ev : SuiEvent α) : ∀ act ∈ round i ev, Own i act := by
  simp only [round, List.forall_mem_cons, List.not_mem_nil, false_implies, implies_true, and_true]
  exact ⟨.load, .respond _, .handle, .complete, .save⟩

theorem run_round {i : ι} {n : Nat} {ev : SuiEvent α} (hl : 0 < opts.limit)
    (hi : s.pollers i = ⟨false, .test⟩) (hn : position s.log (s.store.load opts.cursorKey) = some n)
    (hev : s.log[n]? = some ev) :
    run opts s (round i ev) = some { s with
      store := s.store.save opts.cursorKey ev.id
      completed := s.completed ++ [ev]
      pollers := Function.update s.pollers i ⟨false, .test⟩ } := by
  have hf : (⟨[ev], some ev.id, true⟩ : Page α).Follows s.log opts.limit n := by
    refine ⟨?_, hl, .inr rfl⟩
    obtain ⟨hlt, rfl⟩ := List.getElem?_eq_some_iff.mp hev
    rw [List.drop_eq_getElem_cons hlt]
    exact List.prefix_append [s.log[n]] _
  simp [run, round, step, State.setPhase, hi, hn, hf, guard]

/-- A poller at the test of its loop moves the cursor to the last event, by itself. -/
theorem catch_up {i : ι} (hl : 0 < opts.limit) (hnd : (s.log.map SuiEvent.id).Nodup)
    (hi : s.pollers i = ⟨false, .test⟩) {n : Nat}
      (hn : position s.log (s.store.load opts.cursorKey) = some n) :
    ∃ acts s', (∀ act ∈ acts, Own i act) ∧ run opts s acts = some s' ∧ s'.log = s.log ∧
      position s'.log (s'.store.load opts.cursorKey) = some s.log.length := by
  induction hd : s.log.length - n generalizing s n with
  | zero =>
    have hle := position_le hn
    exact ⟨[], s, nofun, rfl, rfl, by rw [hn, show n = s.log.length by omega]⟩
  | succ d ih =>
    have hlt : n < s.log.length := by omega
    have hev : s.log[n]? = some s.log[n] := List.getElem?_eq_getElem hlt
    have hround := run_round hl hi hn hev
    obtain ⟨acts, s', hown, hrun, hlog, hpos⟩ := ih (n := n + 1) (s := { s with
        store := s.store.save opts.cursorKey s.log[n].id
        completed := s.completed ++ [s.log[n]]
        pollers := Function.update s.pollers i ⟨false, .test⟩ }) hnd (Function.update_self ..)
      (by simpa only [CursorStore.load, CursorStore.save, Function.update_self]
        using position_getElem hnd hev)
      (by show s.log.length - (n + 1) = d; omega)
    exact ⟨round i s.log[n] ++ acts, s', List.forall_mem_append.mpr ⟨own_round i _, hown⟩,
      foldlM_append_some.mpr ⟨_, hround, hrun⟩, hlog, hpos⟩

/-- A poller that stops and is started again is at the test of its loop. -/
theorem run_restart (i : ι) : run opts s [.crash i, .start i] =
    some { s with pollers := Function.update s.pollers i ⟨false, .test⟩ } := by
  simp [run, step, State.setPhase]

/-- The stored cursor points past no event that was not completed. -/
theorem stored_completed (h₀ : s₀.Initial)
    (hfirst : position s₀.log (s₀.store.load opts.cursorKey) = some first)
    (hrun : run opts s₀ acts = some s) {n : Nat}
    (hn : position s.log (s.store.load opts.cursorKey) = some n) :
    CompletedBetween s first n := by
  obtain ⟨t, ht, hsim⟩ := run_sim (initial_sim h₀ hfirst) hrun
  cases hn.symm.trans hsim.saved
  exact hsim.completedBetween (Delivery.Reachable.inv ht).saved

/-- However a run went, any one poller that is started again, and neither fails nor is stopped, can complete all
events by itself. -/
theorem recovers (h₀ : s₀.Initial) (hfirst : position s₀.log (s₀.store.load opts.cursorKey) = some first)
    (hrun : run opts s₀ acts = some s) (i : ι) (hl : 0 < opts.limit) :
    ∃ acts' s', (∀ act ∈ acts', Own i act) ∧ run opts s ([.crash i, .start i] ++ acts') = some s' ∧
      s'.log = s.log ∧ ∀ ev ∈ s.log.drop first, ev ∈ s'.completed := by
  obtain ⟨t, -, hsim⟩ := run_sim (initial_sim h₀ hfirst) hrun
  have hstart : run opts s [.crash i, .start i] = _ := run_restart i
  obtain ⟨acts', s', hown, hrun', hlog, hpos⟩ := catch_up (i := i)
    (s := { s with pollers := Function.update s.pollers i ⟨false, .test⟩ }) hl hsim.nodup
      (Function.update_self ..)
    hsim.saved
  have hagain : run opts s ([.crash i, .start i] ++ acts') = some s' :=
    foldlM_append_some.mpr ⟨_, hstart, hrun'⟩
  refine ⟨acts', s', hown, hagain, hlog, fun ev hev => ?_⟩
  have hall : run opts s₀ (acts ++ ([.crash i, .start i] ++ acts')) = some s' :=
    foldlM_append_some.mpr ⟨s, hrun, hagain⟩
  obtain ⟨k, hk⟩ := List.mem_iff_getElem?.mp hev
  rw [List.getElem?_drop] at hk
  obtain ⟨hlt, -⟩ := List.getElem?_eq_some_iff.mp hk
  exact stored_completed h₀ hfirst hall hpos (first + k) ev (Nat.le_add_right _ _) hlt (hlog ▸ hk)

end Delivered

/-! ## A sample -/

/-- Two events, no cursor, and one poller. -/
def sample : State Unit Nat where
  log := [⟨⟨"a", "0"⟩, 1⟩, ⟨⟨"b", "0"⟩, 2⟩]
  store := ⟨fun _ => none⟩
  completed := []
  pollers := fun _ => ⟨false, .stopped⟩

theorem sample_initial : sample.Initial := ⟨by decide, rfl, fun _ => rfl⟩

/-- The poller crashes while it handles the second event. -/
def sampleActs : List (Impl.Indexer.Action Unit Nat) :=
  [.start (), .load (), .respond () ⟨sample.log, some ⟨"b", "0"⟩, false⟩, .handle (),
    .complete (), .handle (), .crash ()]

theorem at_least_once_sample : ∃ s, run ⟨"events", 50⟩ sample sampleActs = some s ∧
    ∃ n, position s.log (s.store.load "events") = some n ∧ CompletedBetween s 0 n ∧
      ∀ ev ∈ s.log.drop 0, ev ∉ s.completed → ev ∈ s.log.drop n :=
  ⟨_, rfl, (at_least_once sample_initial (show position sample.log (sample.store.load "events") =
    some 0 from rfl) (show run ⟨"events", 50⟩ sample sampleActs = some _ from rfl)).1⟩

/-- The poller completes the second event after all. -/
theorem recovers_sample : ∃ s acts' s', run ⟨"events", 50⟩ sample sampleActs = some s ∧
    (∀ act ∈ acts', Own () act) ∧ run ⟨"events", 50⟩ s ([.crash (), .start ()] ++ acts') = some s' ∧
    s'.log = s.log ∧ ∀ ev ∈ s.log.drop 0, ev ∈ s'.completed := by
  obtain ⟨s, hs⟩ : ∃ s, run ⟨"events", 50⟩ sample sampleActs = some s := ⟨_, rfl⟩
  obtain ⟨acts', s', h⟩ := recovers sample_initial
    (show position sample.log (sample.store.load "events") = some 0 from rfl) hs () (by decide)
  exact ⟨s, acts', s', hs, h⟩

end SuiPq.Proof.Indexer
