import Mathlib.Data.Set.Function
import Mathlib.Data.List.Nodup
import Mathlib.Tactic.Common

/-!
# Tokens that are issued, held and spent

A log of events, some of which issue a token and some of which spend one.
Tokens are held in between, cannot be copied, and may be dropped.
`Tokens log held` says that the spent and the held tokens were issued by
different events of the log. Each rule is what one step does to it, and
`Tokens.injection` reads off that every spending event has an issuing one of
its own before it.
-/

namespace SuiPq

variable {α τ : Type} {issues spends : α → τ → Prop} {isSpend : α → Prop}

/-- `ps` are the held tokens with the events that issued them, and `qs` the
spending events with those that issued what they spent. -/
structure Matched (issues spends : α → τ → Prop) (isSpend : α → Prop) (log : List α)
    (ps : List (τ × Nat)) (qs : List (Nat × Nat)) : Prop where
  held : ∀ p ∈ ps, ∃ u, log[p.2]? = some u ∧ issues u p.1
  paid : ∀ q ∈ qs, q.2 < q.1 ∧
    ∃ e u t, log[q.1]? = some e ∧ log[q.2]? = some u ∧ issues u t ∧ spends e t
  spent : ∀ i e, log[i]? = some e → isSpend e → ∃ j, (i, j) ∈ qs
  nodup : (qs.map Prod.snd ++ ps.map Prod.snd).Nodup

/-- The held tokens, and those that the log spends, were issued each by an event of its own. -/
def Tokens (issues spends : α → τ → Prop) (isSpend : α → Prop) (log : List α)
    (held : List τ) : Prop :=
  ∃ ps qs, ps.map Prod.fst = held ∧ Matched issues spends isSpend log ps qs

theorem getElem?_append_some {log : List α} {j : Nat} {u : α} (e : α) (h : log[j]? = some u) :
    (log ++ [e])[j]? = some u := by
  rw [List.getElem?_append_left (List.getElem?_eq_some_iff.mp h).1, h]

theorem getElem?_append_cases {log : List α} {e u : α} {i : Nat} (h : (log ++ [e])[i]? = some u) :
    log[i]? = some u ∨ i = log.length ∧ u = e := by
  rw [List.getElem?_append] at h
  split at h
  · exact .inl h
  · rename_i hi
    rw [List.getElem?_singleton] at h
    split at h
    · exact .inr ⟨by omega, (Option.some.inj h).symm⟩
    · cases h

namespace Matched

variable {log : List α} {ps : List (τ × Nat)} {qs : List (Nat × Nat)}

theorem lt (h : Matched issues spends isSpend log ps qs) :
    ∀ j ∈ qs.map Prod.snd ++ ps.map Prod.snd, j < log.length := by
  intro j hj
  rcases List.mem_append.mp hj with hj | hj
  · obtain ⟨p, hp, rfl⟩ := List.mem_map.mp hj
    obtain ⟨-, -, u, -, -, hu, -⟩ := h.paid p hp
    exact (List.getElem?_eq_some_iff.mp hu).1
  · obtain ⟨p, hp, rfl⟩ := List.mem_map.mp hj
    obtain ⟨u, hu, -⟩ := h.held p hp
    exact (List.getElem?_eq_some_iff.mp hu).1

/-- One more event, that spends nothing. -/
theorem event {e : α} (h : Matched issues spends isSpend log ps qs) (he : ¬ isSpend e) :
    Matched issues spends isSpend (log ++ [e]) ps qs where
  held p hp := by
    obtain ⟨u, hu, ht⟩ := h.held p hp
    exact ⟨u, getElem?_append_some e hu, ht⟩
  paid p hp := by
    obtain ⟨hlt, u, v, t, hu, hv, ht⟩ := h.paid p hp
    exact ⟨hlt, u, v, t, getElem?_append_some e hu, getElem?_append_some e hv, ht⟩
  spent i u hu hs := by
    obtain hu | ⟨-, rfl⟩ := getElem?_append_cases hu
    · exact h.spent i u hu hs
    · exact absurd hs he
  nodup := h.nodup

end Matched

namespace Tokens

variable {log : List α} {held l r : List τ} {e : α} {t : τ}

theorem nil : Tokens issues spends isSpend [] [] :=
  ⟨[], [], rfl, by simp, by simp, by simp, List.nodup_nil⟩

/-- An event that spends nothing. -/
theorem event (h : Tokens issues spends isSpend log held) (he : ¬ isSpend e) :
    Tokens issues spends isSpend (log ++ [e]) held := by
  obtain ⟨ps, qs, hps, hm⟩ := h
  exact ⟨ps, qs, hps, hm.event he⟩

/-- An event that issues a token. -/
theorem issue (h : Tokens issues spends isSpend log held) (he : ¬ isSpend e) (ht : issues e t) :
    Tokens issues spends isSpend (log ++ [e]) (held ++ [t]) := by
  obtain ⟨ps, qs, rfl, hm⟩ := h
  have hm' := hm.event he
  refine ⟨ps ++ [(t, log.length)], qs, by simp, fun p hp => ?_, hm'.paid, hm'.spent, ?_⟩
  · rcases List.mem_append.mp hp with hp | hp
    · exact hm'.held p hp
    · obtain rfl := List.mem_singleton.mp hp
      exact ⟨e, by simp, ht⟩
  · rw [List.map_append, ← List.append_assoc]
    refine List.nodup_append.mpr ⟨hm.nodup, by simp, fun j hj k hk => ?_⟩
    obtain rfl := List.mem_singleton.mp hk
    exact (hm.lt j hj).ne

/-- A token that is dropped. -/
theorem drop (h : Tokens issues spends isSpend log (l ++ t :: r)) :
    Tokens issues spends isSpend log (l ++ r) := by
  obtain ⟨ps, qs, hps, hm⟩ := h
  obtain ⟨lp, rp', rfl, rfl, hr⟩ := List.map_eq_append_iff.mp hps
  obtain ⟨p, rp, rfl, -, rfl⟩ := List.map_eq_cons_iff.mp hr
  refine ⟨lp ++ rp, qs, by simp, fun q hq => hm.held q ?_, hm.paid, hm.spent, ?_⟩
  · rcases List.mem_append.mp hq with hq | hq
    · exact List.mem_append_left _ hq
    · exact List.mem_append_right _ (List.mem_cons_of_mem _ hq)
  · have hsub : (lp ++ rp).map Prod.snd |>.Sublist ((lp ++ p :: rp).map Prod.snd) :=
      ((List.sublist_cons_self p rp).append_left lp).map _
    exact hm.nodup.sublist (hsub.append_left _)

/-- An event that spends a held token. -/
theorem spend (h : Tokens issues spends isSpend log (l ++ t :: r)) (ht : spends e t) :
    Tokens issues spends isSpend (log ++ [e]) (l ++ r) := by
  obtain ⟨ps, qs, hps, hm⟩ := h
  obtain ⟨lp, rp', rfl, rfl, hr⟩ := List.map_eq_append_iff.mp hps
  obtain ⟨p, rp, rfl, rfl, rfl⟩ := List.map_eq_cons_iff.mp hr
  obtain ⟨u, hu, hiss⟩ := hm.held p (by simp)
  refine ⟨lp ++ rp, (log.length, p.2) :: qs, by simp, fun q hq => ?_, fun q hq => ?_,
    fun i v hv hs => ?_, ?_⟩
  · obtain ⟨v, hv, hq'⟩ := hm.held q (by
      rcases List.mem_append.mp hq with hq | hq
      · exact List.mem_append_left _ hq
      · exact List.mem_append_right _ (List.mem_cons_of_mem _ hq))
    exact ⟨v, getElem?_append_some e hv, hq'⟩
  · rcases List.mem_cons.mp hq with rfl | hq
    · exact ⟨(List.getElem?_eq_some_iff.mp hu).1, e, u, p.1, by simp, getElem?_append_some e hu,
        hiss, ht⟩
    · obtain ⟨hlt, v, w, t, hv, hw, hsp⟩ := hm.paid q hq
      exact ⟨hlt, v, w, t, getElem?_append_some e hv, getElem?_append_some e hw, hsp⟩
  · obtain hv | ⟨rfl, -⟩ := getElem?_append_cases hv
    · obtain ⟨j, hj⟩ := hm.spent i v hv hs
      exact ⟨j, List.mem_cons_of_mem _ hj⟩
    · exact ⟨p.2, List.mem_cons_self⟩
  · refine (List.Perm.nodup_iff ?_).mp hm.nodup
    simp only [List.map_append, List.map_cons, List.cons_append, ← List.append_assoc]
    exact List.perm_middle

/-- Every spending event has an issuing one of its own before it. -/
theorem injection (h : Tokens issues spends isSpend log held) : ∃ f : Nat → Nat,
    Set.InjOn f {i | ∃ e, log[i]? = some e ∧ isSpend e} ∧
      ∀ i e, log[i]? = some e → isSpend e →
        f i < i ∧ ∃ u t, log[f i]? = some u ∧ issues u t ∧ spends e t := by
  obtain ⟨ps, qs, -, hm⟩ := h
  classical
  have hqs (i : Nat) (hi : ∃ e, log[i]? = some e ∧ isSpend e) : ∃ j, (i, j) ∈ qs := by
    obtain ⟨e, he, hs⟩ := hi
    exact hm.spent i e he hs
  refine ⟨fun i => if hi : ∃ e, log[i]? = some e ∧ isSpend e then (hqs i hi).choose else 0,
    fun i hi j hj hij => ?_, fun i e he hs => ?_⟩
  · rw [Set.mem_ofPred_eq] at hi hj
    have hfi := (hqs i hi).choose_spec
    have hfj := (hqs j hj).choose_spec
    simp only [dif_pos hi, dif_pos hj] at hij
    have hinj := List.inj_on_of_nodup_map (List.Nodup.of_append_left hm.nodup)
    exact congrArg Prod.fst (hinj hfi hfj hij)
  · have hi : ∃ e, log[i]? = some e ∧ isSpend e := ⟨e, he, hs⟩
    have hfi := (hqs i hi).choose_spec
    simp only [dif_pos hi]
    obtain ⟨hlt, e', u, t, he', hu, hiss, hsp⟩ := hm.paid _ hfi
    obtain rfl := Option.some.inj (he.symm.trans he')
    exact ⟨hlt, u, t, hu, hiss, hsp⟩

end Tokens

end SuiPq
