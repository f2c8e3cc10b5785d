import SuiPq.Proof.MoveVm.Helpers

/-!
# Runs of `extract_fors_indices`

Each of the 14 indices takes 12 bits, from a place that goes up by 12:
`extractForsIndices_holds` goes through the loop by hand, with the number of
indices and the place as ghost variables, and leaves the bits to the analysis.
-/

namespace SuiPq.Proof.MoveVm

set_option maxRecDepth 100000

open SuiPq.Impl SuiPq.Impl.MoveVm SuiPq.Impl.ExtractForsIndicesReal SuiPq.Spec.StrictVm

namespace ForsIndices

/-- The frames of the loop: indices up to `hi` are counted in the ghost variable 0, and their bits in the
ghost variable 1. -/
def frame (hi pc : Nat) : Frame where
  stack := []
  locals := [some (bytes 21), none, none, none, some (.int .w64 ⟨0, 12 * hi, some (1, 0)⟩),
    some (.int .w64 ⟨0, hi, some (0, 0)⟩), some (.vecU32 ⟨0, some 0⟩ (2 ^ 12 - 1)), none]
  pc := pc

/-- The frame before the loop. -/
def start : Frame where
  stack := []
  locals := [some (bytes 21), none, none, none, some (k64 0), some (k64 0),
    some (.vecU32 (.const 0) (2 ^ 12 - 1)), none]
  pc := 6

/-- The frame at the end. -/
def last : Frame where
  stack := [.vecU32 (.const 14) (2 ^ 12 - 1)]
  locals := List.replicate 8 none
  pc := 67

/-- The values of the ghost variables after `v` indices. -/
def val (v : Nat) : Nat → Nat
  | 0 => v
  | 1 => 12 * v
  | _ => 0

variable {H : Hash} {v : Nat} {s : StrictState}

theorem frame_zero (hs : start.Holds (val 0) s) : (frame 14 6).Holds (val 0) s := by
  have h₁ := hs.know (i := 4) (b := .int .w64 ⟨0, 168, some (1, 0)⟩) rfl (implies_int fun m hm => by
    obtain rfl : m = 0 := Nat.le_zero.mp hm.hi
    exact ⟨le_rfl, Nat.zero_le _, by simp [val]⟩)
  have h₂ := h₁.know (i := 5) (b := .int .w64 ⟨0, 14, some (0, 0)⟩) rfl (implies_int fun m hm => by
    obtain rfl : m = 0 := Nat.le_zero.mp hm.hi
    exact ⟨le_rfl, Nat.zero_le _, by simp [val]⟩)
  refine h₂.know (i := 6) (b := .vecU32 ⟨0, some 0⟩ (2 ^ 12 - 1)) rfl fun v hv => ?_
  cases hv with
  | vecU32 _ hm => exact .vecU32 (Nat.zero_le _) hm

/-- Another index is left. -/
theorem frame_lt (hv : v < 14) (hs : (frame 14 6).Holds (val v) s) : (frame 13 6).Holds (val v) s := by
  have h₁ := hs.know (i := 4) (b := .int .w64 ⟨0, 12 * 13, some (1, 0)⟩) rfl (implies_int fun m hm => by
    obtain rfl : m = 12 * v := hm.ghost _ rfl
    exact ⟨Nat.zero_le _, by dsimp only; omega, hm.ghost⟩)
  exact h₁.know (i := 5) (b := .int .w64 ⟨0, 13, some (0, 0)⟩) rfl (implies_int fun m hm => by
    obtain rfl : m = v := hm.ghost _ rfl
    exact ⟨Nat.zero_le _, by dsimp only; omega, hm.ghost⟩)

theorem body (hv : v < 14) (hs : (frame 14 6).Holds (val v) s) :
    Within H extractForsIndicesRealBytecode s 510 ((frame 14 6).Holds (val (v + 1))) := by
  have htest : Within H extractForsIndicesRealBytecode s 10 ((frame 13 10).Holds (val v)) :=
    leads_holds [] (some 10) .nil (by decide) (frame_lt hv hs)
  refine htest.bind (n := 500) fun t ht => ?_
  have hbits : Within H extractForsIndicesRealBytecode t 500
      ((((frame 14 6).shift 1 12).shift 0 1).Holds (val v)) :=
    leads_holds [] (some 6) .nil (by decide) ht
  refine hbits.mono le_rfl fun t ht => ?_
  have ht : ((frame 14 6).shift 1 12).Holds (Function.update (val v) 0 (v + 1)) t :=
    Frame.holds_of_shift (Function.update_self ..) (fun j hj => Function.update_of_ne hj _ _) ht
  refine Frame.holds_of_shift rfl (fun j hj => ?_) ht
  rcases j with _ | _ | j
  · rfl
  · exact absurd rfl hj
  · rfl

theorem exit (hs : (frame 14 6).Holds (val 14) s) :
    Within H extractForsIndicesRealBytecode s 10 (last.Holds (val 14)) := by
  have h₁ := hs.know (i := 5) (b := k64 14) rfl (implies_int fun m hm => by
    obtain rfl : m = 14 := hm.ghost _ rfl
    exact Range.const_holds)
  exact leads_holds [] none .nil (by decide)
    (Frame.close_holds (k := 0) (n := 14) le_rfl (fun _ _ => rfl) h₁)

end ForsIndices

def extractForsIndices : Contract := ⟨[.val (bytes 21)], some (.vecU32 (.const 14) (2 ^ 12 - 1))⟩

open ForsIndices in
theorem extractForsIndices_holds {H : Hash} : extractForsIndices.Holds H extractForsIndicesRealBytecode
    ForsPkFromSigReal.extractForsLocalsTail := by
  intro ρ s hs
  have hs : (extractForsIndices.entry ForsPkFromSigReal.extractForsLocalsTail).Holds (val 0) ⟨s, []⟩ :=
    Frame.plain_holds (by decide) hs
  have hstart : Within H extractForsIndicesRealBytecode ⟨s, []⟩ 10 (start.Holds (val 0)) :=
    leads_holds [] (some 6) .nil (by decide) hs
  have hloop : ∀ t, start.Holds (val 0) t →
      Within H extractForsIndicesRealBytecode t ((14 - 0) * 510 + 10) (last.Holds (val 14)) :=
    fun t ht => Within.loop (fun v => (frame 14 6).Holds (val v)) (fun v hv s hs => body hv hs)
      (fun s hs => exit hs) (Nat.zero_le _) (frame_zero ht)
  have hlast := (hstart.bind hloop).run_holds rfl (by omega)
  exact ⟨last, by decide, Frame.plain_holds (by decide) hlast⟩

end SuiPq.Proof.MoveVm
