import Mathlib.Data.Set.Insert
import Mathlib.Logic.Function.Basic
import Mathlib.Logic.Relation
import Mathlib.Order.Interval.Set.Defs
import Mathlib.Tactic.Common

/-!
# Workers on a log

Workers complete the items of a log in order and save how far they came, in
one place that they share. Each starts from what is saved, and may stop at any
moment. Nothing that was not completed is passed over: neither by what is
saved nor by a worker (`Reachable.inv`), whatever the other workers do.
-/

namespace SuiPq.Delivery

/-- The items are numbered. A worker is at the item that it completes next. -/
structure State (ι : Type) where
  saved : Nat
  completed : Set Nat
  worker : ι → Option Nat

section Workers

variable {ι : Type} [DecidableEq ι]

inductive Step : State ι → State ι → Prop where
  | start {s : State ι} (i : ι) : Step s { s with worker := Function.update s.worker i (some s.saved) }
  | complete {s : State ι} {i : ι} {k : Nat} (h : s.worker i = some k) :
    Step s { s with completed := insert k s.completed, worker := Function.update s.worker i (some (k + 1)) }
  | save {s : State ι} {i : ι} {k : Nat} (h : s.worker i = some k) : Step s { s with saved := k }
  | stop {s : State ι} (i : ι) : Step s { s with worker := Function.update s.worker i none }

/-- The items from `first` on are to be completed, and no worker has started. -/
def initial (ι : Type) (first : Nat) : State ι := ⟨first, ∅, fun _ => none⟩

def Reachable (first : Nat) (s : State ι) : Prop := Relation.ReflTransGen Step (initial ι first) s

/-- Nothing from `first` on that was not completed is passed over. -/
structure Inv (first : Nat) (s : State ι) : Prop where
  saved : Set.Ico first s.saved ⊆ s.completed
  worker : ∀ {i n}, s.worker i = some n → Set.Ico first n ⊆ s.completed

variable {first : Nat} {s t : State ι}

theorem Inv.update (h : Inv first s) {i : ι} {o : Option Nat}
    (ho : ∀ n, o = some n → Set.Ico first n ⊆ s.completed) :
    Inv first { s with worker := Function.update s.worker i o } where
  saved := h.saved
  worker {j n} hj := by
    by_cases hi : j = i
    · rw [hi] at hj
      exact ho n ((Function.update_self i o s.worker).symm.trans hj)
    · exact h.worker ((Function.update_of_ne hi o s.worker).symm.trans hj)

omit [DecidableEq ι] in
theorem Inv.complete (h : Inv first s) (k : Nat) :
    Inv first { s with completed := insert k s.completed } where
  saved := h.saved.trans (Set.subset_insert _ _)
  worker hj := (h.worker hj).trans (Set.subset_insert _ _)

theorem Step.inv (hst : Step s t) (h : Inv first s) : Inv first t := by
  cases hst with
  | start i =>
    refine h.update fun n hn => ?_
    cases hn
    exact h.saved
  | @complete i k hi =>
    refine (h.complete k).update fun n hn => ?_
    cases hn
    intro j hj
    rcases Nat.lt_succ_iff_lt_or_eq.mp hj.2 with hlt | rfl
    · exact .inr (h.worker hi ⟨hj.1, hlt⟩)
    · exact Set.mem_insert _ _
  | save hi => exact ⟨h.worker hi, h.worker⟩
  | stop i => exact h.update nofun

theorem Reachable.inv (h : Reachable first s) : Inv first s := by
  induction h with
  | refl => exact ⟨fun k hk => absurd hk.2 (Nat.not_lt.mpr hk.1), nofun⟩
  | tail _ hst ih => exact hst.inv ih

theorem Reachable.step (h : Reachable first s) (hst : Step s t) : Reachable first t := h.tail hst

end Workers

end SuiPq.Delivery
