import SuiPq.Framework.HashSig.ByteDigits

/-!
# WOTS+ over 32-byte hashes

The one-time signatures of `wots_plus`, as chains over a hash `H`: a step of
a chain hashes the seed, the address of the step (`chainAdrs`) and the value.
-/

namespace SuiPq.Spec.WotsPlus

open SuiPq.HashSig

/-- The digits a 32-byte message is signed with. -/
def digits (m : Bytes) : Nat → Nat := encode 16 64 3 (digit 16 64 (ofBe m))

/-- The base address with the type of a chain, the chain and the position in it. -/
def chainAdrs (adrs : Bytes) (i j : Nat) : Bytes :=
  patch (patch (patch adrs 16 (be 4 0)) 24 (be 4 i)) 28 (be 4 j)

def input (seed adrs : Bytes) (i j : Nat) (x : Bytes) : Bytes := seed ++ chainAdrs adrs i j ++ x

/-- The step at position `j` of chain `i`. -/
def step (H : Hash) (seed adrs : Bytes) (i j : Nat) (x : Bytes) : Bytes := H (input seed adrs i j x)

/-- The values of a signature. -/
def chains (s : Bytes) (i : Nat) : Bytes := window s (i * 32) 32

/-- The public key that a signature leads to: the chains' tops. -/
def pkFromSig (H : Hash) (seed adrs m s : Bytes) : Bytes :=
  (List.range 67).flatMap fun i => top (step H seed adrs) 16 i (digits m i) (chains s i)

/-- What is hashed on the way to it. -/
def hashed (H : Hash) (seed adrs m s : Bytes) : List Bytes :=
  (topsEvals (step H seed adrs) 16 67 (digits m) (chains s)).map fun e =>
    input seed adrs e.1.1 e.1.2 e.2

theorem digits_lt (m : Bytes) (i : Nat) : digits m i < 16 :=
  encode_lt (by decide) (fun _ _ => digit_lt (by decide) _ _ _) i

/-- Of the digits of two messages, some of the second's are smaller. -/
theorem exists_digits_lt {m m' : Bytes} (hm : m.length = 32) (hm' : m'.length = 32) (h : m ≠ m') :
    ∃ i < 67, digits m' i < digits m i :=
  exists_encode_lt (n := 64) (k := 3) (by decide) (fun _ _ => digit_lt (by decide) _ _ _)
    (exists_digit_ne hm hm' h)

theorem length_chain (H : Hash) (seed adrs : Bytes) {x : Bytes} (hx : x.length = 32) (i d k : Nat) :
    (chain (step H seed adrs i) d x k).length = 32 := by
  cases k with
  | zero => exact hx
  | succ k => exact H.length_apply _

theorem length_top {H : Hash} {seed adrs x : Bytes} (hx : x.length = 32) (i d : Nat) :
    (top (step H seed adrs) 16 i d x).length = 32 := length_chain H seed adrs hx i d _

theorem length_pkFromSig {H : Hash} {seed adrs m s : Bytes} (hs : s.length = 2144) :
    (pkFromSig H seed adrs m s).length = 2144 :=
  length_flatMap_range fun i _ => length_top (length_window (by omega)) i _

/-! ## Addresses -/

/-- Whether two addresses are equal up to their type, chain and position. -/
structure SameBase (adrs adrs' : Bytes) : Prop where
  front : window adrs 0 16 = window adrs' 0 16
  keypair : window adrs 20 4 = window adrs' 20 4

theorem chainAdrs_eq {adrs : Bytes} (ha : adrs.length = 32) (i j : Nat) :
    chainAdrs adrs i j = window adrs 0 16 ++ be 4 0 ++ window adrs 20 4 ++ be 4 i ++ be 4 j := by
  have hsplit : adrs = window adrs 0 16 ++ window adrs 16 4 ++ window adrs 20 4 ++ window adrs 24 4 ++
      window adrs 28 4 := by
    conv_lhs => rw [← window_full ha.le, show 32 = 16 + 4 + 4 + 4 + 4 by rfl, window_add,
      window_add, window_add, window_add]
  have h0 : (window adrs 0 16).length = 16 := length_window (by omega)
  have h16 : (window adrs 16 4).length = 4 := length_window (by omega)
  have h20 : (window adrs 20 4).length = 4 := length_window (by omega)
  have h24 : (window adrs 24 4).length = 4 := length_window (by omega)
  have h28 : (window adrs 28 4).length = 4 := length_window (by omega)
  generalize window adrs 0 16 = a at *
  generalize window adrs 16 4 = b at *
  generalize window adrs 20 4 = c at *
  generalize window adrs 24 4 = d at *
  generalize window adrs 28 4 = e at *
  subst hsplit
  have htype := patch_part (x := a) (y := b) (z := c ++ d ++ e) (p := be 4 0) (by simp [h16])
  have hchain := patch_part (x := a ++ be 4 0 ++ c) (y := d) (z := e) (p := be 4 i) (by simp [h24])
  have hpos := patch_part (x := a ++ be 4 0 ++ c ++ be 4 i) (y := e) (z := []) (p := be 4 j) (by simp [h28])
  simp only [List.length_append, length_be, h0, h20, Nat.reduceAdd, ← List.append_assoc, List.append_nil]
    at htype hchain hpos
  rw [chainAdrs, htype, hchain, hpos]

/-- The words that a chain writes itself do not count. -/
theorem SameBase.pkFromSig_eq {adrs adrs' : Bytes} (h : SameBase adrs adrs') (ha : adrs.length = 32)
    (ha' : adrs'.length = 32) (H : Hash) (seed m s : Bytes) :
    pkFromSig H seed adrs m s = pkFromSig H seed adrs' m s := by
  have hadrs : chainAdrs adrs = chainAdrs adrs' := by
    funext i j
    rw [chainAdrs_eq ha, chainAdrs_eq ha', h.front, h.keypair]
  have hstep : step H seed adrs = step H seed adrs' := by
    funext i j x
    rw [step, step, input, input, hadrs]
  rw [pkFromSig, pkFromSig, hstep]

/-! ## Signing -/

section Signing

variable (H : Hash) (seed adrs : Bytes) (sk : Nat → Bytes)

/-- The tops of the chains from the secrets `sk`. -/
def publicKey : Bytes := (List.range 67).flatMap fun i => top (step H seed adrs) 16 i 0 (sk i)

def sign (m : Bytes) : Bytes :=
  (List.range 67).flatMap fun i => chain (step H seed adrs i) 0 (sk i) (digits m i)

variable {sk}

theorem length_sign (hsk : ∀ i < 67, (sk i).length = 32) (m : Bytes) :
    (sign H seed adrs sk m).length = 2144 :=
  length_flatMap_range fun i hi => length_chain H seed adrs (hsk i hi) i 0 _

theorem length_publicKey (hsk : ∀ i < 67, (sk i).length = 32) : (publicKey H seed adrs sk).length = 2144 :=
  length_flatMap_range fun i hi => length_top (hsk i hi) i 0

/-- A signature leads to the key. -/
theorem pkFromSig_sign (hsk : ∀ i < 67, (sk i).length = 32) (m : Bytes) :
    pkFromSig H seed adrs m (sign H seed adrs sk m) = publicKey H seed adrs sk := by
  have hchain : ∀ i < 67, chains (sign H seed adrs sk m) i =
    chain (step H seed adrs i) 0 (sk i) (digits m i) :=
    fun i hi => window_flatMap (fun i hi => length_chain H seed adrs (hsk i hi) i 0 _) hi
  have htop : ∀ i < 67, top (step H seed adrs) 16 i (digits m i) (chains (sign H seed adrs sk m) i) =
      top (step H seed adrs) 16 i 0 (sk i) := by
    intro i hi
    have hd := digits_lt m i
    have hadd := chain_add (step H seed adrs i) 0 (sk i) (digits m i) (16 - 1 - digits m i)
    rw [Nat.zero_add, show digits m i + (16 - 1 - digits m i) = 16 - 1 - 0 by omega] at hadd
    rw [hchain i hi, top, top, hadd]
  rw [pkFromSig, publicKey, List.flatMap, List.flatMap,
    List.map_congr_left fun i hi => htop i (List.mem_range.mp hi)]

end Signing

/-- A public key is told apart by the tops. -/
theorem pkFromSig_eq_iff {H : Hash} {seed adrs m s pk : Bytes} (hs : s.length = 2144)
    (hpk : pk.length = 2144) :
    pkFromSig H seed adrs m s = pk ↔
      ∀ i < 67, top (step H seed adrs) 16 i (digits m i) (chains s i) = window pk (i * 32) 32 := by
  have hcell : ∀ i < 67, window (pkFromSig H seed adrs m s) (i * 32) 32 =
      top (step H seed adrs) 16 i (digits m i) (chains s i) := fun i hi =>
    window_flatMap (fun i hi => length_top (length_window (by omega)) i _) hi
  constructor
  · rintro rfl i hi
    exact (hcell i hi).symm
  · intro h
    refine eq_of_windows (w := 32) (k := 67) (length_pkFromSig hs) hpk fun i hi => ?_
    rw [hcell i hi, h i hi]

end SuiPq.Spec.WotsPlus
