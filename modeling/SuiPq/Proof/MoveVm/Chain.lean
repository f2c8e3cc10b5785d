import SuiPq.Proof.MoveVm.Helpers

/-!
# Runs of `chain`

The loop of `chain` ends at a local, the sum of two arguments: `chain_ends`
goes through it by hand, with the step, the number of steps and the sum as
the ghost variables 1, 2 and 3. What comes before it is left to the analysis,
for inputs that are byte strings of any length (`chain_agrees`) and for those
that `wots_pk_from_sig` gives it (`chain_holds`).
-/

namespace SuiPq.Proof.MoveVm

set_option maxRecDepth 100000

open SuiPq.Impl SuiPq.Impl.MoveVm SuiPq.Impl.ChainReal SuiPq.Spec.StrictVm

variable {H : Hash}

namespace Chain

def calls : List (Nat × Contract) := [(37, setU32), (44, vectorAppend), (47, vectorAppend)]

theorem respects : Respects H chainRealBytecode calls :=
  .cons 37 rfl adrsSetTreeIndex_holds (.cons 44 rfl vectorAppend_holds (.cons 47 rfl vectorAppend_holds .nil))

/-- The copies of the locals that the arguments refer to. -/
def copies (byRef : Bool) : List (Option Shape) :=
  if byRef then [some (bytes 560), some (bytes 22)] else [some (bytes 22)]

/-- The frames from the sum on, with the step up to `hi`. -/
def frame (byRef : Bool) (stop : Option Shape) (hi pc : Nat) (stack : List Shape) : Frame where
  stack := stack
  locals := [none, none, none, none, some (bytes 0), some (.locRef (if byRef then 14 else 13)), none, stop,
    none, some (.int .w32 ⟨0, hi, some (1, 0)⟩), none, none, some (bytes 16)] ++ copies byRef
  pc := pc

/-- An integer that is a ghost variable. -/
def counted (k : Nat) : Shape := .int .w32 ⟨0, 2 ^ 32 - 1, some (k, 0)⟩

/-- The frame before the sum. -/
def sum (byRef : Bool) : Frame := frame byRef none (2 ^ 32 - 1) 28 [counted 2, counted 1]

/-- The frame of the loop. -/
def head (byRef : Bool) : Frame := frame byRef (some (counted 3)) (2 ^ 32 - 1) 30 []

/-- The frame at the end. -/
def last (byRef : Bool) : Frame where
  stack := [bytes 16]
  locals := List.replicate 13 none ++ copies byRef
  pc := 78

/-- The most steps that `chain` is known to have the fuel for. -/
def limit : Nat := 2 ^ 11

section Loop

variable {ρ : Nat → Nat} {byRef : Bool} {s : StrictState}

theorem body (hlt : ρ 1 < ρ 3) (hs : (head byRef).Holds ρ s) :
    Within H chainRealBytecode s 304 (((head byRef).shift 1 1).Holds ρ) := by
  have hguard : Within H chainRealBytecode s 4
      ((frame byRef (some (counted 3)) (2 ^ 32 - 1) 34 []).Holds ρ) := by
    have h := guard_holds (H := H) chainRealBytecode (i := 9) (j := 7) rfl rfl rfl rfl rfl hs
    rwa [if_pos hlt] at h
  refine hguard.bind (n := 300) fun t ht => ?_
  -- The step is below a number of its type.
  obtain ⟨v, -, -, -, hv⟩ := ht.int_value (i := 7) (w := .w32) (r := ⟨0, 2 ^ 32 - 1, some (3, 0)⟩) rfl
  have hmax : ρ 3 ≤ 2 ^ 32 - 1 := (hv.ghost _ rfl).symm.trans_le hv.hi
  have ht : (frame byRef (some (counted 3)) (2 ^ 32 - 2) 34 []).Holds ρ t :=
    ht.know (i := 9) (b := .int .w32 ⟨0, 2 ^ 32 - 2, some (1, 0)⟩) rfl (implies_int fun m hm => by
      have hm' : m = ρ 1 := hm.ghost _ rfl
      exact ⟨Nat.zero_le _, by dsimp only; omega, hm.ghost⟩)
  cases byRef <;> exact leads_holds [] (some 30) respects (by decide) ht

theorem exit (hge : ¬ ρ 1 < ρ 3) (hs : (head byRef).Holds ρ s) :
    Within H chainRealBytecode s 10 ((last byRef).Holds ρ) := by
  have hguard : Within H chainRealBytecode s 4
      ((frame byRef (some (counted 3)) (2 ^ 32 - 1) 73 []).Holds ρ) := by
    have h := guard_holds (H := H) chainRealBytecode (i := 9) (j := 7) rfl rfl rfl rfl rfl hs
    rwa [if_neg hge] at h
  refine hguard.bind (n := 6) fun t ht => ?_
  cases byRef <;> exact leads_holds [] none respects (by decide) ht

/-- A run from a frame that leads to the sum ends. -/
theorem ends {f : Frame} (hf : leads calls [] chainRealBytecode.toList (some 28) f (sum byRef) 1000 = true)
    (hs : f.Holds ρ s) (hsum : ρ 3 = ρ 1 + ρ 2) (hlt : ρ 3 < 2 ^ 32) (hsteps : ρ 2 ≤ limit) :
    (last byRef).Holds ρ (strictRun H chainRealBytecode s 1000000) := by
  let val (v : Nat) := Function.update ρ 1 (ρ 1 + v)
  have hval : ∀ v, val v 1 = ρ 1 + v := fun v => Function.update_self ..
  have hval₃ : ∀ v, val v 3 = ρ 3 := fun v => Function.update_of_ne (by decide) _ _
  have hzero : val 0 = ρ := Function.update_eq_self 1 ρ
  have hloop : ∀ t, (head byRef).Holds ρ t →
      Within H chainRealBytecode t ((ρ 2 - 0) * 304 + 10) ((last byRef).Holds ρ) := by
    intro t ht
    refine Within.loop (fun v => (head byRef).Holds (val v)) (fun v hv s hs => ?_) (fun s hs => ?_)
      (Nat.zero_le _) (hzero.symm ▸ ht)
    · refine (body (by rw [hval, hval₃]; omega) hs).mono le_rfl fun t ht => ?_
      exact Frame.holds_of_shift (k := 1) ((hval (v + 1)).trans (congrArg (· + 1) (hval v).symm))
        (fun j hj => (Function.update_of_ne hj _ _).trans (Function.update_of_ne hj _ _).symm) ht
    · refine (exit (by rw [hval, hval₃]; omega) hs).mono le_rfl fun t ht => ?_
      exact Frame.plain_holds (by cases byRef <;> rfl) ht
  have hadd : ∀ t, (sum byRef).Holds ρ t → Within H chainRealBytecode t 1
      ((frame byRef none (2 ^ 32 - 1) 29 [counted 3]).Holds ρ) := fun t ht =>
    add_step (w := .w32) rfl rfl rfl rfl hsum hlt ht
  have hstore : ∀ t, (frame byRef none (2 ^ 32 - 1) 29 [counted 3]).Holds ρ t →
      Within H chainRealBytecode t 1 ((head byRef).Holds ρ) := fun t ht => by
    cases byRef <;> exact leads_holds [] (some 30) respects (by decide) ht
  have hrun := (((leads_holds [] _ respects hf hs).bind hadd).bind hstore).bind hloop
  refine hrun.run_holds (by cases byRef <;> rfl) ?_
  unfold limit at hsteps
  omega

end Loop

/-! ## The ways to the sum -/

/-- The first frame, where the offset of the value in `src` is the ghost variable 0. -/
def start : Frame where
  stack := []
  locals := [some (.vecU8 ⟨16, some 0⟩), some (.int .w64 ⟨0, 2 ^ 64 - 17, some (0, 0)⟩),
    some (counted 1), some (counted 2), some (bytes 0), some (.locRef 13)] ++ List.replicate 7 none ++
      [some (bytes 22)]
  pc := 0

def val (srcOff iStart steps : Nat) : Nat → Nat
  | 0 => srcOff
  | 1 => iStart
  | 2 => steps
  | _ => iStart + steps

/-- The 16 bytes of the value `i` of a signature's 35, which is a local of the caller or its value. -/
def contract (byRef : Bool) : Contract :=
  ⟨[input byRef 560, .val (u64 544), .val (u32 15), .val (u32 15), .val (bytes 0), ref 22],
    some (bytes 16)⟩

/-- The contract's first frame, with the step and the number of steps as ghost variables. -/
def entry (byRef : Bool) : Frame :=
  (((contract byRef).entry WotsPkFromSigReal.chainLocalsTail).store 2
    (some (.int .w32 ⟨0, 15, some (1, 0)⟩))).store
    3 (some (.int .w32 ⟨0, 15, some (2, 0)⟩))

end Chain

open Chain Contract in
/-- A run of `chain` ends without an error where there is a value at the offset, and where the last step
is a number of its type. -/
theorem chain_agrees (H : Hash) {src : Bytes} {srcOff iStart steps : Nat} (pre : Bytes) {adrsBytes : Bytes}
    (hsrc : srcOff + 16 ≤ src.length) (hlen : src.length < 2 ^ 64) (hsum : iStart + steps < 2 ^ 32)
    (hsteps : steps ≤ limit) (hadrs : 22 ≤ adrsBytes.length) :
    Agrees H chainRealBytecode (initialState src srcOff iStart steps pre adrsBytes) := by
  have h₀ : (UInt64.ofNat srcOff).toNat = srcOff := by
    rw [UInt64.toNat_ofNat']
    exact Nat.mod_eq_of_lt (by omega)
  have hu32 : ∀ {n}, n < 2 ^ 32 → (UInt32.ofNat n).toNat = n := fun h => by
    rw [UInt32.toNat_ofNat']
    exact Nat.mod_eq_of_lt h
  have hs : start.Holds (val srcOff iStart steps)
    ⟨initialState src srcOff iStart steps pre adrsBytes, []⟩ := by
    refine .mk .nil (localsHold_of_known (.cons (known_some (.vecU8 ?_)) (.cons (known_some (.int rfl ?_))
      (.cons (known_some (.int rfl ?_)) (.cons (known_some (.int rfl ?_))
        (.cons (known_some (.vecU8 (Nat.zero_le _))) (.cons (known_some .locRef) ?_)))))))
    · show 16 + srcOff ≤ src.length
      omega
    · refine ⟨Nat.zero_le _, ?_, fun p hp => ?_⟩
      · show (UInt64.ofNat srcOff).toNat ≤ 2 ^ 64 - 17
        omega
      · cases hp
        exact h₀
    · refine ⟨Nat.zero_le _, Nat.le_of_lt_succ (UInt32.toNat_lt _), fun p hp => ?_⟩
      cases hp
      exact hu32 (by omega)
    · refine ⟨Nat.zero_le _, Nat.le_of_lt_succ (UInt32.toNat_lt _), fun p hp => ?_⟩
      cases hp
      exact hu32 (by omega)
    · exact .cons known_none (.cons known_none (.cons known_none (.cons known_none (.cons known_none
        (.cons known_none (.cons known_none (.cons (known_some (.vecU8 hadrs)) .nil)))))))
  have hlast : (last false).Holds _ _ := ends (H := H) (by decide) hs rfl hsum hsteps
  refine agrees_of ?_
  generalize strictRun H chainRealBytecode _ 1000000 = final at hlast
  cases hlast
  rfl

open Chain in
theorem chain_holds (byRef : Bool) :
    (contract byRef).Holds H chainRealBytecode WotsPkFromSigReal.chainLocalsTail := by
  intro ρ s hs
  obtain ⟨a, hm₁, hv₁, hw₁, hr₁⟩ := hs.int_value (i := 2) (w := .w32) (r := .upTo 15)
    (by cases byRef <;> rfl)
  obtain ⟨b, hm₂, hv₂, hw₂, hr₂⟩ := hs.int_value (i := 3) (w := .w32) (r := .upTo 15)
    (by cases byRef <;> rfl)
  have ha := hr₁.hi
  have hb := hr₂.hi
  have hplain : ((contract byRef).entry WotsPkFromSigReal.chainLocalsTail).plain = true := by
    cases byRef <;> decide
  have hs' : (entry byRef).Holds (val 0 a.asNat b.asNat) ⟨s, []⟩ := by
    refine Frame.Holds.store_value (Frame.Holds.store_value (Frame.plain_holds hplain hs) hm₁ hv₁
      (.int hw₁ ?_)) hm₂ hv₂ (.int hw₂ ?_)
    · exact ⟨hr₁.lo, ha, fun p hp => by cases hp; rfl⟩
    · exact ⟨hr₂.lo, hb, fun p hp => by cases hp; rfl⟩
  have hlast : (last byRef).Holds (val 0 a.asNat b.asNat)
    (strictRun H chainRealBytecode ⟨s, []⟩ 1000000) := by
    refine ends ?_ hs' rfl ?_ ?_
    · cases byRef <;> decide
    · show a.asNat + b.asNat < 2 ^ 32
      dsimp only [Range.upTo] at ha hb
      omega
    · exact hb.trans (by decide)
  exact ⟨last byRef, by cases byRef <;> decide, Frame.plain_holds (by cases byRef <;> rfl) hlast⟩

end SuiPq.Proof.MoveVm
