import SuiPq.Proof.MoveVm.Helpers

/-!
# Runs of `base_w`

`base_w` takes two digits from each byte of its input, and its loop ends at a
local: `baseW_ends` goes through it by hand, with the number of digits, the
number of bytes taken and the length of the input as ghost variables.
-/

namespace SuiPq.Proof.MoveVm

set_option maxRecDepth 100000

open SuiPq.Impl SuiPq.Impl.MoveVm SuiPq.Impl.BaseWReal SuiPq.Spec.StrictVm

namespace BaseW

/-- The frames of the loop: digits and bytes up to `hi` are counted in the ghost variables 0 and 1,
of as many as the ghost variables 2 and 3 say. -/
def frame (bits hi pc : Nat) (stack : List Shape) : Frame where
  stack := stack
  locals := [some (.vecU8 ⟨0, some 3⟩), some (.int .w64 ⟨0, 2 ^ 64 - 1, some (2, 0)⟩),
    some (k64 bits), some (.int .w64 ⟨0, hi, some (0, 0)⟩), some (.int .w64 ⟨0, hi, some (1, 0)⟩),
    some (.vecU32 (.const 0) (2 ^ 32 - 1)), some (u32 255)]
  pc := pc

/-- The frame before the loop. -/
def start (pc : Nat) : Frame where
  stack := []
  locals := [some (.vecU8 ⟨0, some 3⟩), some (.int .w64 ⟨0, 2 ^ 64 - 1, some (2, 0)⟩),
    some (k64 0), some (k64 0), some (k64 0), some (.vecU32 (.const 0) (2 ^ 32 - 1)), some (u32 255)]
  pc := pc

/-- The values of the ghost variables after `v` digits. -/
def val (k n v : Nat) : Nat → Nat
  | 0 => v
  | 1 => (v + 1) / 2
  | 2 => k
  | _ => n

def bits (v : Nat) : Nat := if v % 2 = 0 then 0 else 4

/-- The most digits that `base_w` is known to have the fuel for. -/
def limit : Nat := 2 ^ 14

variable {H : Hash} {k n v : Nat} {s : StrictState}

theorem frame_zero (hs : (start 10).Holds (val k n 0) s) : (frame 0 limit 10 []).Holds (val k n 0) s := by
  have h₁ := hs.know (i := 3) (b := .int .w64 ⟨0, limit, some (0, 0)⟩) rfl (implies_int fun m hm => by
    obtain rfl : m = 0 := Nat.le_zero.mp hm.hi
    exact ⟨le_rfl, Nat.zero_le _, by simp [val]⟩)
  exact h₁.know (i := 4) (b := .int .w64 ⟨0, limit, some (1, 0)⟩) rfl (implies_int fun m hm => by
    obtain rfl : m = 0 := Nat.le_zero.mp hm.hi
    exact ⟨le_rfl, Nat.zero_le _, by simp [val]⟩)

/-- Another digit is left to take. -/
theorem frame_lt {b : Nat} (hv : v < k) (hk : k ≤ limit) (hs : (frame b limit 14 []).Holds (val k n v) s) :
    (frame b (limit - 1) 14 []).Holds (val k n v) s := by
  have h₁ := hs.know (i := 3) (b := .int .w64 ⟨0, limit - 1, some (0, 0)⟩) rfl (implies_int fun m hm => by
    obtain rfl : m = v := hm.ghost _ rfl
    exact ⟨Nat.zero_le _, by dsimp only; omega, hm.ghost⟩)
  exact h₁.know (i := 4) (b := .int .w64 ⟨0, limit - 1, some (1, 0)⟩) rfl (implies_int fun m hm => by
    obtain rfl : m = (v + 1) / 2 := hm.ghost _ rfl
    exact ⟨Nat.zero_le _, by dsimp only; omega, hm.ghost⟩)

theorem body_even (hv : v % 2 = 0) (hn : v < 2 * n)
    (hs : (frame 0 (limit - 1) 14 []).Holds (val k n v) s) :
    Within H baseWRealBytecode s 50 ((frame 4 limit 10 []).Holds (val k n (v + 1))) := by
  -- up to the next byte
  have h₁ : Within H baseWRealBytecode s 20 ((frame 0 (limit - 1) 21
      [.int .w64 ⟨0, limit - 1, some (1, 0)⟩, .vecU8 ⟨0, some 3⟩]).Holds (val k n v)) :=
    leads_holds [] (some 21) .nil (by decide) hs
  refine h₁.bind (n := 30) fun t ht => ?_
  have h₂ : Within H baseWRealBytecode t 1 ((frame 0 (limit - 1) 22 [u8]).Holds (val k n v)) := by
    refine vecImmBorrow_step rfl rfl rfl (fun a b ha hb => ?_) ht
    have ha : a = (v + 1) / 2 := ha.ghost _ rfl
    have hb : n ≤ b := by simpa [Least.Holds, val] using hb
    omega
  refine h₂.bind (n := 29) fun t ht => ?_
  have h₃ : Within H baseWRealBytecode t 29
    ((((frame 4 limit 10 []).shift 1 1).shift 0 1).Holds (val k n v)) :=
    leads_holds [] (some 10) .nil (by decide) ht
  -- Both counts go up.
  refine h₃.mono le_rfl fun t ht => ?_
  have ht : ((frame 4 limit 10 []).shift 1 1).Holds (Function.update (val k n v) 0 (v + 1)) t :=
    Frame.holds_of_shift (Function.update_self ..) (fun j hj => Function.update_of_ne hj _ _) ht
  refine Frame.holds_of_shift ?_ ?_ ht
  · show (v + 1 + 1) / 2 = (v + 1) / 2 + 1
    omega
  · intro j hj
    rcases j with _ | _ | _ | j
    · rfl
    · exact absurd rfl hj
    · rfl
    · rfl

theorem body_odd (hv : v % 2 = 1) (hs : (frame 4 (limit - 1) 14 []).Holds (val k n v) s) :
    Within H baseWRealBytecode s 50 ((frame 0 limit 10 []).Holds (val k n (v + 1))) := by
  have h₁ : Within H baseWRealBytecode s 50 (((frame 0 limit 10 []).shift 0 1).Holds (val k n v)) :=
    leads_holds [] (some 10) .nil (by decide) hs
  refine h₁.mono le_rfl fun t ht => Frame.holds_of_shift (k := 0) rfl (fun j hj => ?_) ht
  rcases j with _ | _ | _ | j
  · exact absurd rfl hj
  · show (v + 1 + 1) / 2 = (v + 1) / 2
    omega
  · rfl
  · rfl

theorem body (hv : v < k) (hk : k ≤ limit) (hn : k ≤ 2 * n)
    (hs : (frame (bits v) limit 10 []).Holds (val k n v) s) :
    Within H baseWRealBytecode s 54 ((frame (bits (v + 1)) limit 10 []).Holds (val k n (v + 1))) := by
  have hguard : Within H baseWRealBytecode s 4 ((frame (bits v) limit 14 []).Holds (val k n v)) := by
    have h := guard_holds (H := H) baseWRealBytecode (i := 3) (j := 1) rfl rfl rfl rfl rfl hs
    rwa [if_pos (show val k n v 0 < val k n v 2 from hv)] at h
  refine hguard.bind (n := 50) fun t ht => ?_
  have ht := frame_lt hv hk ht
  unfold bits at ht ⊢
  rcases Nat.mod_two_eq_zero_or_one v with h | h
  · rw [if_pos h] at ht
    rw [if_neg (by omega)]
    exact body_even h (by omega) ht
  · rw [if_neg (by omega)] at ht
    rw [if_pos (by omega)]
    exact body_odd h ht

/-- The frame at the end. -/
def last : Frame where
  stack := [.vecU32 (.const 0) (2 ^ 32 - 1)]
  locals := [none, none, none, none, none, none, none]
  pc := 54

theorem exit (hs : (frame (bits k) limit 10 []).Holds (val k n k) s) :
    Within H baseWRealBytecode s 8 (last.Holds (val k n k)) := by
  have hguard : Within H baseWRealBytecode s 4 ((frame (bits k) limit 51 []).Holds (val k n k)) := by
    have h := guard_holds (H := H) baseWRealBytecode (i := 3) (j := 1) rfl rfl rfl rfl rfl hs
    rwa [if_neg (show ¬ val k n k 0 < val k n k 2 from lt_irrefl k)] at h
  refine hguard.bind (n := 4) fun t ht => ?_
  unfold bits at ht
  split at ht
  · exact leads_holds [] none .nil (by decide) ht
  · exact leads_holds [] none .nil (by decide) ht

end BaseW

open BaseW in
/-- A run of `base_w` ends without an error where its input has the digits asked for. -/
theorem baseW_agrees (H : Hash) {msg : Bytes} {outlen : Nat} (hlen : outlen ≤ 2 * msg.length)
    (hout : outlen ≤ limit) : Agrees H baseWRealBytecode (initialState msg outlen) := by
  have hk : (UInt64.ofNat outlen).toNat = outlen := by
    rw [UInt64.toNat_ofNat']
    exact Nat.mod_eq_of_lt (Nat.lt_of_le_of_lt hout (by decide))
  have hs : (start 0).Holds (val outlen msg.length 0) ⟨initialState msg outlen, []⟩ := by
    refine .mk .nil (Contract.localsHold_of_known (.cons ?_ (.cons ?_ ?_)))
    · exact Contract.known_some (.vecU8 (Nat.zero_add _).le)
    · refine Contract.known_some (.int rfl ⟨Nat.zero_le _, ?_, fun p hp => ?_⟩)
      · exact Nat.le_of_lt_succ (UInt64.toNat_lt _)
      · cases hp
        exact hk
    · have hzero : (k64 0).Holds (val outlen msg.length 0) (.u64 0) := .int rfl Range.const_holds
      exact .cons (Contract.known_some hzero) (.cons (Contract.known_some hzero)
        (.cons (Contract.known_some hzero) (.cons (Contract.known_some (.vecU32 le_rfl (by simp)))
          (.cons (Contract.known_some (.int rfl (Range.upTo_holds (Nat.zero_le _)))) .nil))))
  have hstart : Within H baseWRealBytecode ⟨initialState msg outlen, []⟩ 10
      ((start 10).Holds (val outlen msg.length 0)) :=
    leads_holds [] (some 10) .nil (by decide) hs
  have hloop : ∀ t, (start 10).Holds (val outlen msg.length 0) t →
      Within H baseWRealBytecode t ((outlen - 0) * 54 + 8) (last.Holds (val outlen msg.length outlen)) :=
    fun t ht => Within.loop (fun v => (frame (BaseW.bits v) limit 10 []).Holds (val outlen msg.length v))
      (fun v hv s hs => body hv hout hlen hs) (fun s hs => exit hs) (Nat.zero_le _) (frame_zero ht)
  have hlast := (hstart.bind hloop).run_holds rfl (by unfold limit at hout; omega)
  refine agrees_of ?_
  generalize strictRun H baseWRealBytecode _ 1000000 = final at hlast
  cases hlast
  rfl

end SuiPq.Proof.MoveVm
