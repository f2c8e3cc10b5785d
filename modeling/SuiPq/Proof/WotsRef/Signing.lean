import SuiPq.Impl.WotsRef.Signing
import SuiPq.Proof.WotsPlus
import SuiPq.Proof.WotsRef

/-!
# The TypeScript WOTS+ signatures are the specification

`wotsKeygen_eq` and `wotsSign_eq`: the key of a master secret and the
signature of a message, and what is hashed for them. `wotsVerify_res`: a
signature is accepted when it leads to the key.
-/

namespace SuiPq.Proof.WotsRef.Signing

open SuiPq.Impl.JsBytes SuiPq.Impl.WotsRef SuiPq.Impl.WotsRef.Signing SuiPq.Js SuiPq.HashSig
open SuiPq.Proof.WotsPlus (chainBase length_chainBase)
open SuiPq.Spec.WotsPlus (digits chainAdrs input step chains length_chain)

variable {H : Hash} {seed adrs : Bytes}

/-! ## Chains -/

theorem F_eq (a m : Bytes) : F H seed a m = Comp.hash H (seed ++ a ++ m) := by
  rw [F, concat_eq, pure_bind]
  simp

theorem chainStep_eq (ha : adrs.length = 32) (i start steps : Nat) (x : Bytes) :
    chainStep H seed adrs i start steps x =
      Comp.ret (chain (step H seed adrs i) start x steps)
        ((chainEvals (step H seed adrs i) start x steps).map fun e => input seed adrs i e.1 e.2) := by
  have hlen := length_chainBase ha i
  rw [chainStep, TYPE_WOTS_HASH, writeU32BE_eq (show 16 + 4 ≤ adrs.length by omega),
    writeU32BE_eq (by simp [ha])]
  refine Comp.forLt_zero_bind (fun k s => s.1 = chain (step H seed adrs i) start x k ∧ s.2.length = 32 ∧
      ∀ q : Bytes, q.length = 4 → patch s.2 28 q = patch (chainBase adrs i) 28 q)
    (fun k => [input seed adrs i (start + k) (chain (step H seed adrs i) start x k)]) ⟨rfl, hlen,
      fun _ _ => rfl⟩ ?_ ?_
  · rintro k ⟨v, a⟩ hk ⟨rfl, hal, hap⟩
    replace hal : a.length = 32 := hal
    have hpatch : writeU32BE a 28 (start + k) = chainAdrs adrs i (start + k) :=
      (writeU32BE_eq (by omega) _).trans (hap _ (length_be _ _))
    refine ⟨(_, chainAdrs adrs i (start + k)), ⟨rfl, ?_, fun q hq => ?_⟩, ?_⟩
    · exact (length_patch (by rw [length_be]; exact hlen.ge)).trans hlen
    · exact patch_patch (by simp [hq]) (by rw [length_be]; exact hlen.ge)
    · simp only [hpatch, F_eq, Comp.hash, Comp.ret_bind, Comp.after_pure]
      rfl
  · rintro ⟨v, a⟩ ⟨rfl, -⟩
    rw [Comp.after_pure, ← List.map_eq_flatMap, chainEvals, List.map_map]
    rfl

/-! ## Keys -/

/-- What is hashed for the secret of a chain. -/
def secretInput (master : Bytes) (i : Nat) : Bytes := master ++ tag ++ be 4 i

def secret (H : Hash) (master : Bytes) (i : Nat) : Bytes := H (secretInput master i)

/-- The first `k` of the 67 cells, and zeros. -/
def cells (v : Nat → Bytes) (k : Nat) : Bytes := (List.range k).flatMap v ++ zeros ((67 - k) * 32)

theorem cells_full (v : Nat → Bytes) : cells v 67 = (List.range 67).flatMap v := by
  rw [cells, show zeros ((67 - 67) * 32) = [] by rfl, List.append_nil]

theorem set_cells {v : Nat → Bytes} (hv : ∀ i < 67, (v i).length = 32) {i : Nat} (hi : i < 67) :
    set (cells v i) (v i) (i * 32) = pure (cells v (i + 1)) := by
  have hlen : ((List.range i).flatMap v).length = i * 32 := length_flatMap_range fun j hj => hv j (by omega)
  rw [cells, set_cell hlen hi (hv i hi).le, hv i hi, cells, List.range_succ, List.flatMap_append,
    List.flatMap_singleton, Nat.sub_self]
  simp [zeros]

/-- What is hashed on the way from the secrets to the tops. -/
def keygenHashed (H : Hash) (seed adrs master : Bytes) : List Bytes :=
  (List.range 67).flatMap fun i => secretInput master i ::
    (chainEvals (step H seed adrs i) 0 (secret H master i) 15).map fun e => input seed adrs i e.1 e.2

theorem wotsKeygen_eq {master : Bytes} (hm : master.length = 32) (hs : seed.length = 32)
    (ha : adrs.length = 32) :
    wotsKeygen H master seed adrs = Comp.ret ⟨seed, adrs, (List.range 67).flatMap (secret H master),
      Spec.WotsPlus.publicKey H seed adrs (secret H master)⟩ (keygenHashed H seed adrs master) := by
  have hsk : ∀ i < 67, (secret H master i).length = 32 := fun i _ => H.length_apply _
  let top i := top (step H seed adrs) 16 i 0 (secret H master i)
  have htop : ∀ i < 67, (top i).length = 32 := fun i hi => Spec.WotsPlus.length_top (hsk i hi) i 0
  rw [wotsKeygen, if_neg (not_not.mpr hm)]
  dsimp only
  rw [if_neg (not_not.mpr hs), if_neg (not_not.mpr ha)]
  refine (congrArg (· >>= _) (Comp.forLt_zero_ret (fun k => (cells (secret H master) k, cells top k))
    (fun i => secretInput master i ::
      (chainEvals (step H seed adrs i) 0 (secret H master i) 15).map fun e => input seed adrs i e.1 e.2)
    (by rfl) fun i hi => ?_)).trans ?_
  · replace hi : i < 67 := hi
    have hcounter : writeU32BE (zeros 4) 0 i = be 4 i := by
      rw [writeU32BE_eq (by simp), patch_self (by simp)]
    have hin : [master, tag, be 4 i].flatten = secretInput master i := by simp [secretInput]
    simp only [hcounter, concat_eq, pure_bind, hin, Comp.hash, Comp.ret_bind, WOTS.n, WOTS.w]
    show Comp.after _ (set (cells (secret H master) i) (secret H master i) (i * 32) >>= _) = _
    rw [set_cells hsk hi, pure_bind, chainStep_eq ha, Comp.ret_bind]
    show Comp.after _ (Comp.after _ (set (cells top i) (top i) (i * 32) >>= _)) = _
    rw [set_cells htop hi, pure_bind, Comp.after_pure, Comp.after_ret]
    rfl
  · rw [Comp.ret_bind]
    show Comp.after _ (pure (WotsKeypair.mk seed adrs (cells (secret H master) 67) (cells top 67))) = _
    rw [cells_full, cells_full, Comp.after_pure]
    rfl

/-! ## Signatures -/

theorem wotsSign_eq {m : Bytes} {sk : Nat → Bytes} (hsk : ∀ i < 67, (sk i).length = 32)
    (ha : adrs.length = 32) (hm : m.length = 32) (pk : Bytes) :
    wotsSign H ⟨seed, adrs, (List.range 67).flatMap sk, pk⟩ m =
      Comp.ret (Spec.WotsPlus.sign H seed adrs sk m) ((List.range 67).flatMap fun i =>
        (chainEvals (step H seed adrs i) 0 (sk i) (digits m i)).map fun e => input seed adrs i e.1 e.2) := by
  let v i := chain (step H seed adrs i) 0 (sk i) (digits m i)
  have hv : ∀ i < 67, (v i).length = 32 := fun i hi => length_chain H seed adrs (hsk i hi) i 0 _
  rw [Signing.wotsSign, if_neg (show ¬ m.length ≠ WOTS.n from not_not.mpr hm), msgToChains_eq hm, pure_bind,
    Comp.forLt_zero_ret (cells v) _ (by rfl) fun i hi => ?_]
  · rw [show WOTS.len = 67 from rfl, cells_full]
    rfl
  · replace hi : i < 67 := hi
    simp only [get_eq (show i < ((List.range 67).map (digits m)).length by simpa using hi), pure_bind,
      List.getElem_map, List.getElem_range, WOTS.n, Nat.succ_mul, slice_eq, window_flatMap hsk hi,
      chainStep_eq ha, Comp.ret_bind]
    show Comp.after _ (set (cells v i) (v i) (i * 32)) = _
    rw [set_cells hv hi, Comp.after_pure]

/-- Comparing two strings, byte by byte. -/
theorem compareLoop {u v : Bytes} {n : Nat} (hu : u.length = n) (hv : v.length = n) :
    (searchLt 0 n fun k => do
      if (← get u k) ≠ (← get v k) then return some false
      return none : Js (Option Bool)).res = .ok (if u = v then none else some false) := by
  subst hu
  exact congrArg Comp.res (mismatch_eq hv.symm false)

theorem wotsVerify_res {m sig pk : Bytes} (hs : seed.length = 32) (ha : adrs.length = 32) (hm : m.length = 32)
    (hsig : sig.length = 2144) (hpk : pk.length = 2144) :
    (wotsVerify H seed adrs m sig pk).res =
    .ok (decide (Spec.WotsPlus.pkFromSig H seed adrs m sig = pk)) := by
  rw [wotsVerify, if_neg (show ¬ seed.length ≠ WOTS.n from not_not.mpr hs), if_neg (not_not.mpr ha),
    if_neg (show ¬ m.length ≠ WOTS.n from not_not.mpr hm),
    if_neg (show ¬ sig.length ≠ WOTS.len * WOTS.n from not_not.mpr hsig),
    if_neg (show ¬ pk.length ≠ WOTS.len * WOTS.n from not_not.mpr hpk), msgToChains_eq hm, pure_bind]
  refine Comp.allLoop (Spec.WotsPlus.pkFromSig_eq_iff hsig hpk) fun i hi => ?_
  replace hi : i < 67 := hi
  have hx : (chains sig i).length = 32 := length_window (by omega)
  have hlen : (top (step H seed adrs) 16 i (digits m i) (chains sig i)).length = 32 :=
    Spec.WotsPlus.length_top hx i _
  have hpk_i : (window pk (i * 32) 32).length = 32 := length_window (by omega)
  simp only [get_eq (show i < ((List.range 67).map (digits m)).length by simpa using hi), pure_bind,
    List.getElem_map, List.getElem_range, WOTS.n, WOTS.w, Nat.succ_mul, slice_eq,
    chainStep_eq ha, Comp.ret_bind]
  exact compareLoop hlen hpk_i

end SuiPq.Proof.WotsRef.Signing
