import SuiPq.Proof.Ptb.Effect

/-!
# One coin through a transaction

A coin is in one place at most (`Once`): stored, in a result, or taken by the
command that is running. `step_once` keeps that, for every id. `step_coin` is
what a command can do to a stored coin that the transaction created or took,
and only `transferObjects` gives such a coin to an address.
-/

namespace SuiPq.Impl.Ptb

open PqGuard (Verifiers PqAuthorized)

/-! ## Where a coin is -/

def Value.isCoin (c : ID) : Value → Bool
  | .coin d => d.id = c
  | _ => false

/-- How many of the coins have id `c`. -/
def countId (c : ID) (cs : List Coin) : Nat := cs.countP (·.id = c)

theorem countId_cons (c : ID) (d : Coin) (cs : List Coin) :
    countId c (d :: cs) = (if d.id = c then 1 else 0) + countId c cs := by
  rw [countId, List.countP_cons, Nat.add_comm]
  simp [countId]

theorem countP_isCoin (c : ID) (cs : List Coin) :
    (cs.map Value.coin).countP (Value.isCoin c) = countId c cs := by
  rw [List.countP_map]
  rfl

namespace TxState

/-- How many results are the coin `c`. -/
def heldCount (s : TxState) (c : ID) : Nat := s.results.flatten.countP (Value.isCoin c)

theorem heldCount_push (s : TxState) (vs : List Value) (c : ID) :
    (s.push vs).heldCount c = s.heldCount c + vs.countP (Value.isCoin c) := by
  simp [heldCount, push]

theorem heldCount_setSlot {s : TxState} {i j : Nat} {v : Value} (h : s.slot i j = some v) (v' : Value)
    (c : ID) : (s.setSlot i j v').heldCount c + (if v.isCoin c then 1 else 0) =
      s.heldCount c + if v'.isCoin c then 1 else 0 := by
  obtain ⟨l, r, hl, hm⟩ := flatten_modify h
  rw [heldCount, heldCount, setSlot, hm, hl, List.countP_append, List.countP_append, List.countP_cons,
    List.countP_cons]
  omega

end TxState

/-- The coin `c` is stored, a result, or one of `n` coins with its id that the
running command has taken, and only one of these; before the transaction
creates or takes it, it is not held. -/
structure Once (c : ID) (n : Nat) (s : TxState) : Prop where
  available : c ∉ s.unavailable → s.heldCount c = 0 ∧ n = 0
  once : s.heldCount c + (if (s.world.coins c).isSome then 1 else 0) + n ≤ 1

/-- The stored coin `c` stays as it is if the transaction has created or taken it. -/
def Quiet (c : ID) (s t : TxState) : Prop :=
  c ∈ s.unavailable → t.world.coins c = s.world.coins c ∧ c ∈ t.unavailable

theorem Quiet.trans {c : ID} {s t u : TxState} (h : Quiet c s t) (h' : Quiet c t u) : Quiet c s u :=
  fun hc => ⟨(h' (h hc).2).1.trans (h hc).1, (h' (h hc).2).2⟩

theorem Quiet.of_eq {c : ID} {s t : TxState} (hc : t.world.coins = s.world.coins)
    (hu : t.unavailable = s.unavailable) : Quiet c s t :=
  fun h => ⟨by rw [hc], by rwa [hu]⟩

namespace Once

variable {c : ID} {n : Nat} {s t : TxState}

theorem congr (h : Once c n s) (hr : t.results = s.results) (hc : t.world.coins = s.world.coins)
    (hu : t.unavailable = s.unavailable) : Once c n t := by
  have hh : t.heldCount c = s.heldCount c := by rw [TxState.heldCount, TxState.heldCount, hr]
  exact ⟨by rw [hu, hh]; exact h.available, by rw [hh, hc]; exact h.once⟩

theorem drop {m : Nat} (h : Once c (m + n) s) : Once c n s := by
  have := h.once
  exact ⟨fun hc => ⟨(h.available hc).1, by have := (h.available hc).2; omega⟩, by omega⟩

theorem push {vs : List Value} (h : Once c (vs.countP (Value.isCoin c) + n) s) : Once c n (s.push vs) := by
  have := h.once
  refine ⟨fun hc => ?_, ?_⟩
  · have := h.available hc
    rw [TxState.heldCount_push]
    omega
  · rw [TxState.heldCount_push]
    show s.heldCount c + _ + (if (s.world.coins c).isSome then 1 else 0) + n ≤ 1
    omega

theorem setSlot {i j : Nat} {v v' : Value} (hv : s.slot i j = some v)
    (h : Once c ((if v'.isCoin c then 1 else 0) + n) s) :
    Once c ((if v.isCoin c then 1 else 0) + n) (s.setSlot i j v') := by
  have hcount := TxState.heldCount_setSlot hv v' c
  have := h.once
  refine ⟨fun hc => ?_, ?_⟩
  · have := h.available hc
    omega
  · show _ + (if (s.world.coins c).isSome then 1 else 0) + _ ≤ 1
    omega

theorem isCoin_coin (c : ID) (d : Coin) :
    (if (Value.coin d).isCoin c then 1 else 0) = if d.id = c then 1 else 0 := by
  simp [Value.isCoin]

/-- A stored coin that is taken. -/
theorem unstore {d : ID} (hd : (s.world.coins d).isSome) (h : Once c n s) :
    Once c ((if d = c then 1 else 0) + n) ((s.setCoin d none).setUnavailable d) := by
  have := h.once
  have hcoins : ((s.setCoin d none).setUnavailable d).world.coins =
    Function.update s.world.coins d none := rfl
  rcases eq_or_ne d c with rfl | hne
  · rw [hd, if_pos rfl] at this
    refine ⟨fun hc => absurd List.mem_cons_self hc, ?_⟩
    rw [hcoins, Function.update_self, if_pos rfl]
    show s.heldCount d + 0 + (1 + n) ≤ 1
    omega
  · rw [if_neg hne, Nat.zero_add]
    refine ⟨fun hc => h.available fun hm => hc (List.mem_cons_of_mem _ hm), ?_⟩
    rw [hcoins, Function.update_of_ne hne.symm]
    exact this

theorem vacate {a : Arg} {d : Coin} (hd : s.coinAt a = some d) (h : Once c n s) :
    Once c ((if d.id = c then 1 else 0) + n) (s.vacate a) := by
  obtain ⟨i, j, rfl, hs⟩ | ⟨rfl, -, o, ho⟩ := TxState.coinAt_some hd
  · rw [← isCoin_coin]
    exact setSlot hs (by simpa [Value.isCoin] using h)
  · exact unstore (by rw [ho]; rfl) h

theorem setValue {a : Arg} {d : Coin} (hd : s.coinAt a = some d) (value : Nat) (h : Once c n s) :
    Once c n (s.setValue a d value) := by
  obtain ⟨i, j, rfl, hs⟩ | ⟨rfl, -, o, ho⟩ := TxState.coinAt_some hd
  · have hcount := TxState.heldCount_setSlot hs (.coin { d with value }) c
    rw [isCoin_coin, isCoin_coin, Nat.add_right_cancel_iff] at hcount
    exact ⟨by rw [TxState.setValue, hcount]; exact h.available, by
      rw [TxState.setValue, hcount]; exact h.once⟩
  · refine ⟨h.available, ?_⟩
    have hsome : (Function.update s.world.coins d.id ((s.world.coins d.id).map fun x =>
      { x with value }) c).isSome =
        (s.world.coins c).isSome := by
      rcases eq_or_ne c d.id with rfl | hne
      · rw [Function.update_self, Option.isSome_map]
      · rw [Function.update_of_ne hne]
    show _ + (if (Function.update s.world.coins d.id _ c).isSome then 1 else 0) + n ≤ 1
    rw [hsome]
    exact h.once

/-- A new object, taken for a coin. -/
theorem create {id : ID} {ctx : TxContext} (hc : s.create id ctx = some t) (h : Once c n s) :
    Once c ((if id = c then 1 else 0) + n) t := by
  obtain ⟨⟨-, hu, -, -, hfree⟩, rfl⟩ := TxState.create_some hc
  have := h.once
  rcases eq_or_ne id c with rfl | hne
  · obtain ⟨hheld, rfl⟩ := h.available hu
    refine ⟨fun hm => absurd List.mem_cons_self hm, ?_⟩
    rw [if_pos rfl]
    show s.heldCount id + (if (s.world.coins id).isSome then 1 else 0) + 1 ≤ 1
    rw [hheld, hfree]
    rfl
  · rw [if_neg hne, Nat.zero_add]
    exact ⟨fun hm => h.available fun hx => hm (List.mem_cons_of_mem _ hx), this⟩

theorem store {o : Owner} {d : Coin} (h : Once c ((if d.id = c then 1 else 0) + n) s) :
    Once c n (s.store o d) := by
  have hle := h.once
  have hcoins : (s.store o d).world.coins = Function.update s.world.coins d.id (some ⟨d.value, o⟩) := rfl
  rcases eq_or_ne d.id c with hd | hne
  · rw [if_pos hd] at h hle
    refine ⟨fun hc => by have := h.available hc; omega, ?_⟩
    rw [hcoins, ← hd, Function.update_self, hd]
    show s.heldCount c + 1 + n ≤ 1
    omega
  · rw [if_neg hne, Nat.zero_add] at h hle
    exact ⟨h.available, by rw [hcoins, Function.update_of_ne hne.symm]; exact hle⟩

theorem takeCoin {a : Arg} {d : Coin} (ht : s.takeCoin a = some (d, t)) (h : Once c n s) :
    Once c ((if d.id = c then 1 else 0) + n) t := by
  obtain ⟨hd, rfl⟩ := TxState.takeCoin_some.mp ht
  exact h.vacate hd

theorem takeCoins : ∀ {as : List Arg} {s t : TxState} {cs : List Coin} {n : Nat},
    Ptb.takeCoins as s = some (cs, t) → Once c n s → Once c (countId c cs + n) t
  | [], s, t, cs, n, ht, h => by
    cases (ht : some ([], s) = some (cs, t))
    rwa [show countId c [] = 0 from rfl, Nat.zero_add]
  | a :: as, s, t, cs, n, ht, h => by
    obtain ⟨⟨d, s₁⟩, h₁, ht⟩ := Option.bind_eq_some_iff.mp ht
    obtain ⟨⟨cs', s₂⟩, h₂, ht⟩ := Option.bind_eq_some_iff.mp ht
    cases ht
    have := takeCoins h₂ (h.takeCoin h₁)
    rwa [countId_cons, Nat.add_right_comm, Nat.add_comm]

theorem newCoins : ∀ {values : List Nat} {s t : TxState} {cs : List Coin} {n : Nat},
    Ptb.newCoins values s = some (cs, t) → Once c n s → Once c (countId c cs + n) t
  | [], s, t, cs, n, ht, h => by
    cases (ht : some ([], s) = some (cs, t))
    rwa [show countId c [] = 0 from rfl, Nat.zero_add]
  | v :: vs, s, t, cs, n, ht, h => by
    obtain ⟨s₁, h₁, ht⟩ := Option.bind_eq_some_iff.mp ht
    obtain ⟨⟨cs', s₂⟩, h₂, ht⟩ := Option.bind_eq_some_iff.mp ht
    cases ht
    have := newCoins h₂ (h.create h₁)
    rwa [countId_cons, Nat.add_right_comm, Nat.add_comm]

theorem foldl_store (o : Owner) : ∀ {cs : List Coin} {s : TxState}, Once c (countId c cs + n) s →
    Once c n (cs.foldl (TxState.store · o) s)
  | [], s, h => by rwa [show countId c [] = 0 from rfl, Nat.zero_add] at h
  | d :: cs, s, h => by
    rw [countId_cons, Nat.add_assoc] at h
    show Once c n (cs.foldl (TxState.store · o) (s.store o d))
    exact foldl_store o h.store

theorem takeAuth {a : Arg} {auth : PqAuthorized} (ht : s.takeAuth a = some (auth, t)) (h : Once c n s) :
    Once c n t := by
  obtain ⟨i, j, -, hs, rfl⟩ := TxState.takeAuth_some ht
  have h' : Once c ((if Value.gone.isCoin c then 1 else 0) + n) s := by simpa [Value.isCoin] using h
  simpa [Value.isCoin] using setSlot hs h'

end Once

namespace Quiet

variable {c : ID} {s t : TxState}

theorem refl (c : ID) (s : TxState) : Quiet c s s := fun h => ⟨rfl, h⟩

/-- Only a coin that the transaction has neither created nor taken is changed where it is stored. -/
theorem setCoin {d : ID} (hd : d ∉ s.unavailable) (x : Option StoredCoin) : Quiet c s (s.setCoin d x) :=
  fun hc => ⟨Function.update_of_ne (fun h : c = d => hd (h ▸ hc)) .., hc⟩

theorem setUnavailable (c : ID) (s : TxState) (d : ID) : Quiet c s (s.setUnavailable d) :=
  fun hc => ⟨rfl, List.mem_cons_of_mem _ hc⟩

theorem vacate {a : Arg} {d : Coin} (hd : s.coinAt a = some d) : Quiet c s (s.vacate a) := by
  obtain ⟨i, j, rfl, -⟩ | ⟨rfl, hu, -⟩ := TxState.coinAt_some hd
  · exact of_eq rfl rfl
  · exact (setCoin hu none).trans (setUnavailable c _ _)

theorem setValue {a : Arg} {d : Coin} (hd : s.coinAt a = some d) (value : Nat) :
    Quiet c s (s.setValue a d value) := by
  obtain ⟨i, j, rfl, -⟩ | ⟨rfl, hu, -⟩ := TxState.coinAt_some hd
  · exact of_eq rfl rfl
  · exact setCoin hu _

theorem takeCoin {a : Arg} {d : Coin} (ht : s.takeCoin a = some (d, t)) : Quiet c s t := by
  obtain ⟨hd, rfl⟩ := TxState.takeCoin_some.mp ht
  exact vacate hd

theorem takeForCall {a : Arg} {d : Coin} (ht : s.takeForCall a = some (d, t)) : Quiet c s t :=
  takeCoin (TxState.takeForCall_some ht)

theorem takeCoins : ∀ {as : List Arg} {s t : TxState} {cs : List Coin},
    Ptb.takeCoins as s = some (cs, t) → Quiet c s t
  | [], s, t, cs, ht => by
    cases (ht : some ([], s) = some (cs, t))
    exact refl c s
  | a :: as, s, t, cs, ht => by
    obtain ⟨⟨d, s₁⟩, h₁, ht⟩ := Option.bind_eq_some_iff.mp ht
    obtain ⟨⟨cs', s₂⟩, h₂, ht⟩ := Option.bind_eq_some_iff.mp ht
    cases ht
    exact (takeCoin h₁).trans (takeCoins h₂)

theorem create {id : ID} {ctx : TxContext} (ht : s.create id ctx = some t) : Quiet c s t := by
  obtain ⟨-, rfl⟩ := TxState.create_some ht
  exact fun hc => ⟨rfl, List.mem_cons_of_mem _ hc⟩

theorem newCoins : ∀ {values : List Nat} {s t : TxState} {cs : List Coin},
    Ptb.newCoins values s = some (cs, t) → Quiet c s t
  | [], s, t, cs, ht => by
    cases (ht : some ([], s) = some (cs, t))
    exact refl c s
  | v :: vs, s, t, cs, ht => by
    obtain ⟨s₁, h₁, ht⟩ := Option.bind_eq_some_iff.mp ht
    obtain ⟨⟨cs', s₂⟩, h₂, ht⟩ := Option.bind_eq_some_iff.mp ht
    cases ht
    exact (create h₁).trans (newCoins h₂)

theorem takeAuth {a : Arg} {auth : PqAuthorized} (ht : s.takeAuth a = some (auth, t)) : Quiet c s t := by
  obtain ⟨i, j, -, -, rfl⟩ := TxState.takeAuth_some ht
  exact of_eq rfl rfl

end Quiet

/-! ## Commands -/

variable {H : Hash} {V : Verifiers} {s s' : TxState} {cmd : Command} {c : ID}

theorem wrappedAt_some {id : ID} {d : Coin} (h : s.wrappedAt id = some d) :
    d.id = id ∧ s.world.coins id = some ⟨d.value, .object⟩ := by
  unfold TxState.wrappedAt at h
  split at h
  · rename_i hc
    cases h
    exact ⟨rfl, hc⟩
  · cases h

theorem step_once (h : step H V s cmd = some s') (hs : Once c 0 s) : Once c 0 s' := by
  have hnil {t : TxState} (ht : Once c 0 t) : Once c 0 (t.push []) := .push ht
  cases step_effect h with
  | register len new => exact hnil ((hs.create new).drop.congr rfl rfl rfl)
  | rotate input owner len => exact hnil (hs.congr rfl rfl rfl)
  | unlock input accepts nonce => exact .push (hs.congr rfl rfl rfl)
  | consume witness => exact hnil (hs.takeAuth witness)
  | openVault take new =>
    exact hnil (((hs.takeCoin (TxState.takeForCall_some take)).drop.create new).drop.congr rfl rfl rfl)
  | deposit input take pool balance =>
    exact hnil ((hs.takeCoin (TxState.takeForCall_some take)).drop.congr rfl rfl rfl)
  | @withdraw _ _ _ _ _ _ t u input witness owner sender digest balance pool new =>
    refine .push (.congr (s := u) ?_ rfl rfl rfl)
    simpa [Value.isCoin] using (hs.takeAuth witness).create new
  | coins coins =>
    cases coins with
    | splitCoins coin le new =>
      exact .push (by rw [countP_isCoin]; exact (hs.setValue coin _).newCoins new)
    | mergeCoins take coin lt => exact hnil ((hs.takeCoins take).drop.setValue coin _)
    | transferObjects take => exact hnil (.foldl_store _ (hs.takeCoins take))
    | wrap take => exact hnil (.store (hs.takeCoin (TxState.takeForCall_some take)))
    | unwrap coin =>
      obtain ⟨hid, hc⟩ := wrappedAt_some coin
      refine .push ?_
      have := hs.unstore (d := _) (by rw [hc]; rfl)
      simpa [Value.isCoin, hid] using this
    | absorb take => exact hnil ((hs.takeCoin (TxState.takeForCall_some take)).drop.congr rfl rfl rfl)
    | release le new => exact .push (by rw [countP_isCoin]; exact (hs.newCoins new).congr rfl rfl rfl)

/-- The command gives the coin `c`, with value `v`, to the address `r`. -/
def Delivers (s : TxState) (c : ID) (v : Nat) (r : Address) : Command → Prop
  | .transferObjects objects recipient => recipient = r ∧ ∃ a ∈ objects, s.coinAt a = some ⟨c, v⟩
  | _ => False

/-- A coin of an argument that the transaction has created or taken is a result. -/
theorem held_of_coinAt {a : Arg} {d : Coin} (hc : d.id ∈ s.unavailable) (hd : s.coinAt a = some d) :
    0 < s.heldCount d.id := by
  obtain ⟨i, j, rfl, hs⟩ | ⟨rfl, hu, -⟩ := TxState.coinAt_some hd
  · have := TxState.heldCount_setSlot hs .gone d.id
    simp only [Value.isCoin, decide_true, if_true, Bool.false_eq_true, if_false] at this
    omega
  · exact absurd hc hu

theorem slot_setSlot {i j i' j' : Nat} {v v' : Value} (hv : (s.setSlot i j v').slot i' j' = some v)
    (hne : v ≠ v') : s.slot i' j' = some v := by
  obtain ⟨xs, hxs, hv⟩ := Option.bind_eq_some_iff.mp hv
  rw [TxState.setSlot, List.getElem?_modify] at hxs
  obtain ⟨ys, hys, rfl⟩ := Option.map_eq_some_iff.mp hxs
  refine Option.bind_eq_some_iff.mpr ⟨ys, hys, ?_⟩
  split at hv
  · rw [List.getElem?_set] at hv
    split at hv
    · split at hv
      · exact absurd (Option.some.inj hv).symm hne
      · cases hv
    · exact hv
  · exact hv

/-- What is at an argument after another is taken was there before. -/
theorem coinAt_vacate {a b : Arg} {d e : Coin} (hd : s.coinAt a = some d)
    (he : (s.vacate a).coinAt b = some e) : s.coinAt b = some e := by
  obtain ⟨i, j, rfl, -⟩ | ⟨rfl, -, -⟩ := TxState.coinAt_some hd
  · cases b with
    | object id => exact TxState.coinAt_object.mpr (TxState.coinAt_object.mp he)
    | result i' j' =>
      exact TxState.coinAt_result.mpr (slot_setSlot (TxState.coinAt_result.mp he) (by simp))
  · cases b with
    | object id =>
      obtain ⟨hid, hu, o, ho, hs⟩ := TxState.coinAt_object.mp he
      have hne : id ≠ d.id := fun h => hu (h ▸ List.mem_cons_self)
      have hcoins : (s.vacate (.object d.id)).world.coins id = s.world.coins id :=
        Function.update_of_ne hne ..
      exact TxState.coinAt_object.mpr
        ⟨hid, fun h => hu (List.mem_cons_of_mem _ h), o, hcoins ▸ ho, hs⟩
    | result i' j' => exact TxState.coinAt_result.mpr (TxState.coinAt_result.mp he)

theorem takeCoins_mem : ∀ {as : List Arg} {s t : TxState} {cs : List Coin} {d : Coin},
    takeCoins as s = some (cs, t) → d ∈ cs → ∃ a ∈ as, s.coinAt a = some d
  | [], s, t, cs, d, h, hd => by
    cases (h : some ([], s) = some (cs, t))
    cases hd
  | a :: as, s, t, cs, d, h, hd => by
    obtain ⟨⟨d₀, s₁⟩, h₁, h⟩ := Option.bind_eq_some_iff.mp h
    obtain ⟨⟨cs', s₂⟩, h₂, h⟩ := Option.bind_eq_some_iff.mp h
    cases h
    obtain ⟨hd₀, rfl⟩ := TxState.takeCoin_some.mp h₁
    rcases List.mem_cons.mp hd with rfl | hd
    · exact ⟨a, List.mem_cons_self, hd₀⟩
    · obtain ⟨b, hb, hbd⟩ := takeCoins_mem h₂ hd
      exact ⟨b, List.mem_cons_of_mem _ hb, coinAt_vacate hd₀ hbd⟩

theorem takeCoins_get : ∀ {as : List Arg} {s t : TxState} {cs : List Coin} {a : Arg},
    takeCoins as s = some (cs, t) → a ∈ as → ∃ d ∈ cs, s.coinAt a = some d
  | [], _, _, _, _, _, ha => by cases ha
  | b :: as, s, t, cs, a, h, ha => by
    obtain ⟨⟨d₀, s₁⟩, h₁, h⟩ := Option.bind_eq_some_iff.mp h
    obtain ⟨⟨cs', s₂⟩, h₂, h⟩ := Option.bind_eq_some_iff.mp h
    cases h
    obtain ⟨hd₀, rfl⟩ := TxState.takeCoin_some.mp h₁
    rcases List.mem_cons.mp ha with rfl | ha
    · exact ⟨d₀, List.mem_cons_self, hd₀⟩
    · obtain ⟨d, hd, had⟩ := takeCoins_get h₂ ha
      exact ⟨d, List.mem_cons_of_mem _ hd, coinAt_vacate hd₀ had⟩

theorem eq_of_countId {d e : Coin} : ∀ {cs : List Coin}, countId c cs ≤ 1 → d ∈ cs → e ∈ cs → d.id = c →
    e.id = c → d = e
  | [], _, hd, _, _, _ => by cases hd
  | x :: cs, h, hd, he, hdc, hec => by
    have hpos {y : Coin} (hy : y ∈ cs) (hyc : y.id = c) : 0 < countId c cs :=
      List.countP_pos_iff.mpr ⟨y, hy, by simpa using hyc⟩
    rw [countId_cons] at h
    rcases List.mem_cons.mp hd with rfl | hd' <;> rcases List.mem_cons.mp he with rfl | he'
    · rfl
    · have := hpos he' hec
      rw [if_pos hdc] at h
      omega
    · have := hpos hd' hdc
      rw [if_pos hec] at h
      omega
    · exact eq_of_countId (by omega) hd' he' hdc hec

/-- The coin `c` after storing some: one of these, if it is among them. -/
theorem foldl_store_coin (o : Owner) : ∀ (cs : List Coin) (s : TxState),
    (∃ d ∈ cs, d.id = c ∧ (cs.foldl (TxState.store · o) s).world.coins c = some ⟨d.value, o⟩) ∨
      ((∀ d ∈ cs, d.id ≠ c) ∧ (cs.foldl (TxState.store · o) s).world.coins c = s.world.coins c)
  | [], _ => .inr ⟨fun _ h => absurd h List.not_mem_nil, rfl⟩
  | d :: cs, s => by
    obtain ⟨e, he, hec, h⟩ | ⟨hne, h⟩ := foldl_store_coin o cs (s.store o d)
    · exact .inl ⟨e, List.mem_cons_of_mem _ he, hec, h⟩
    · by_cases hd : d.id = c
      · refine .inl ⟨d, List.mem_cons_self, hd, h.trans ?_⟩
        rw [← hd]
        exact Function.update_self ..
      · refine .inr ⟨fun e he => ?_, h.trans (Function.update_of_ne (fun h => hd h.symm) ..)⟩
        rcases List.mem_cons.mp he with rfl | he
        · exact hd
        · exact hne e he

theorem foldl_store_unavailable (o : Owner) : ∀ (cs : List Coin) (s : TxState),
    (cs.foldl (TxState.store · o) s).unavailable = s.unavailable
  | [], _ => rfl
  | d :: cs, s => foldl_store_unavailable o cs (s.store o d)

/-- What a command does to a stored coin that the transaction has created or
taken: nothing, unless it takes it out of an object, or stores the result
that it is. -/
theorem step_coin (h : step H V s cmd = some s') (hc : c ∈ s.unavailable) : c ∈ s'.unavailable ∧
    (s'.world.coins c = s.world.coins c ∨
      (s'.world.coins c = none ∧ ∃ v, s.world.coins c = some ⟨v, .object⟩) ∨
      (0 < s.heldCount c ∧ ((∃ v, s'.world.coins c = some ⟨v, .object⟩) ∨
        ∃ v r, s'.world.coins c = some ⟨v, .address r⟩ ∧ Delivers s c v r cmd))) := by
  have quiet {t u : TxState} (hq : Quiet c s t) (hu : u.world.coins = t.world.coins)
      (hun : u.unavailable = t.unavailable) : c ∈ u.unavailable ∧ (u.world.coins c = s.world.coins c ∨
        (u.world.coins c = none ∧ ∃ v, s.world.coins c = some ⟨v, .object⟩) ∨
        (0 < s.heldCount c ∧ ((∃ v, u.world.coins c = some ⟨v, .object⟩) ∨
          ∃ v r, u.world.coins c = some ⟨v, .address r⟩ ∧ Delivers s c v r cmd))) :=
    ⟨hun ▸ (hq hc).2, .inl (hu ▸ (hq hc).1)⟩
  cases step_effect h with
  | register len new => exact quiet (.create new) rfl rfl
  | rotate input owner len => exact quiet (.refl c s) rfl rfl
  | unlock input accepts nonce => exact quiet (.refl c s) rfl rfl
  | consume witness => exact quiet (.takeAuth witness) rfl rfl
  | openVault take new => exact quiet ((Quiet.takeForCall take).trans (.create new)) rfl rfl
  | deposit input take pool balance => exact quiet (.takeForCall take) rfl rfl
  | withdraw input witness owner sender digest balance pool new =>
    exact quiet ((Quiet.takeAuth witness).trans (.create new)) rfl rfl
  | coins coins =>
    cases coins with
    | splitCoins coin le new => exact quiet ((Quiet.setValue coin _).trans (.newCoins new)) rfl rfl
    | mergeCoins take coin lt => exact quiet ((Quiet.takeCoins take).trans (.setValue coin _)) rfl rfl
    | @transferObjects objects recipient cs t take =>
      obtain ⟨hcoins, hu⟩ := Quiet.takeCoins take hc
      refine ⟨(foldl_store_unavailable (.address recipient) cs t).symm ▸ hu, ?_⟩
      obtain ⟨d, hd, rfl, hstore⟩ | ⟨-, hstore⟩ := foldl_store_coin (c := c) (.address recipient) cs t
      · obtain ⟨a, ha, had⟩ := takeCoins_mem take hd
        exact .inr (.inr ⟨held_of_coinAt hc had, .inr ⟨d.value, recipient, hstore, rfl, a, ha, had⟩⟩)
      · exact .inl (hstore.trans hcoins)
    | @wrap a d t take =>
      obtain ⟨hcoins, hu⟩ := Quiet.takeForCall take hc
      refine ⟨hu, ?_⟩
      by_cases hd : d.id = c
      · subst hd
        have had := (TxState.takeCoin_some.mp (TxState.takeForCall_some take)).1
        exact .inr (.inr ⟨held_of_coinAt hc had, .inl ⟨d.value, Function.update_self ..⟩⟩)
      · exact .inl ((Function.update_of_ne (fun h => hd h.symm) ..).trans hcoins)
    | @unwrap id d coin =>
      refine ⟨List.mem_cons_of_mem _ hc, ?_⟩
      obtain ⟨-, hid⟩ := wrappedAt_some coin
      by_cases hd : id = c
      · subst hd
        exact .inr (.inl ⟨Function.update_self .., d.value, hid⟩)
      · exact .inl (Function.update_of_ne (fun h => hd h.symm) ..)
    | absorb take => exact quiet (.takeForCall take) rfl rfl
    | release le new => exact quiet (.newCoins new) rfl rfl

end SuiPq.Impl.Ptb
