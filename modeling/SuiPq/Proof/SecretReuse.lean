import SuiPq.Proof.SlhDsaRef.Sign

/-!
# WOTS+ secrets are shared between trees

A WOTS+ secret is derived from its leaf's index in its tree and its chain,
and from neither the tree nor the layer. So the positions that a key derives
secrets at (`Reached`) have different derivations exactly if they differ in
leaf or chain (`derivation_ne_iff`), and the tree that a message selects has
the secrets of the top tree (`derivation_shared`).
-/

namespace SuiPq.Proof.SecretReuse

open SuiPq.Impl.SlhDsaRef SuiPq.HashSig
open SuiPq.Spec.SlhLite (params secretInput selection)
open SuiPq.Proof.SlhDsaRef (T secret eventsOf)

/-- A WOTS+ position: a chain of a leaf. -/
structure Position where
  layer : Nat
  tree : Nat
  keypair : Nat
  chain : Nat
deriving DecidableEq

def Position.secret (x : Position) : Secret := .wots x.layer x.tree x.keypair x.chain

/-- The inputs hashed by `wotsSk` for a position. -/
def derivation (H : Hash) (skSeed : Bytes) (x : Position) : List Bytes :=
    (wotsSk H skSeed x.keypair x.chain).log

/-- The positions whose secrets are derived by `keygen` or `sign`. -/
def Reached (H : Hash) (seed skSeed : Bytes) (x : Position) : Prop :=
  .derive x.secret ∈ xmssTreeEvents params (T H seed) (secret H skSeed) 1 0 ∨
    ∃ msg, .derive x.secret ∈ eventsOf H seed skSeed msg

variable {H : Hash} {seed skSeed : Bytes} {x y : Position}

theorem derivation_eq (x : Position) : derivation H skSeed x = [secretInput skSeed x.secret] := by
  rw [derivation, SlhDsaRef.wotsSk_eq x.layer x.tree, Comp.log_ret]
  rfl

theorem mem_keygen : .derive x.secret ∈ xmssTreeEvents params (T H seed) (secret H skSeed) 1 0 ↔
    (x.layer = 1 ∧ x.tree = 0) ∧ x.keypair < 16 ∧ x.chain < 67 := by
  rw [derive_mem_xmssTree, Position.secret]
  constructor
  · rintro ⟨k, hk, i, hi, h⟩
    obtain ⟨hl, ht, rfl, rfl⟩ := Secret.wots.inj h
    exact ⟨⟨hl, ht⟩, hk, hi⟩
  · rintro ⟨⟨hl, ht⟩, hk, hi⟩
    exact ⟨_, hk, _, hi, by rw [hl, ht]⟩

theorem mem_sign (msg : Bytes) : .derive x.secret ∈ eventsOf H seed skSeed msg ↔
    (x.layer = 1 ∧ x.tree = 0 ∨ x.layer = 0 ∧ x.tree = (selection H seed msg).tree) ∧
      x.keypair < 16 ∧ x.chain < 67 := by
  have ht : (selection H seed msg).tree < 2 ^ 4 := Spec.SlhLite.tree_lt _
  have h1 : treeAt params (selection H seed msg).tree 1 = 0 := by
    rw [treeAt, Nat.shiftRight_eq_div_pow]
    exact Nat.div_eq_of_lt ht
  refine (derive_mem_sign (Spec.SlhLite.leaf_lt _)).trans ⟨?_, ?_⟩
  · rintro ⟨hl, ht, hk, hi⟩
    refine ⟨?_, hk, hi⟩
    have hl : x.layer < 2 := hl
    rcases (show x.layer = 0 ∨ x.layer = 1 by omega) with h | h
    · rw [h] at ht
      exact .inr ⟨h, ht⟩
    · rw [h, h1] at ht
      exact .inl ⟨h, ht⟩
  · rintro ⟨⟨hl, ht⟩ | ⟨hl, ht⟩, hk, hi⟩
    · exact ⟨by rw [hl]; decide, by rw [hl, h1, ht], hk, hi⟩
    · exact ⟨by rw [hl]; decide, by rw [hl, ht]; rfl, hk, hi⟩

/-- Those are all chains of the top tree, and of the trees that messages select. -/
theorem reached_iff : Reached H seed skSeed x ↔
    (x.layer = 1 ∧ x.tree = 0 ∨ x.layer = 0 ∧ ∃ msg, x.tree = (selection H seed msg).tree) ∧
      x.keypair < 16 ∧ x.chain < 67 := by
  simp only [Reached, mem_keygen, mem_sign]
  constructor
  · rintro (⟨h, hb⟩ | ⟨msg, h | ⟨hl, ht⟩, hb⟩)
    · exact ⟨.inl h, hb⟩
    · exact ⟨.inl h, hb⟩
    · exact ⟨.inr ⟨hl, msg, ht⟩, hb⟩
  · rintro ⟨h | ⟨hl, msg, ht⟩, hb⟩
    · exact .inl ⟨h, hb⟩
    · exact .inr ⟨msg, .inr ⟨hl, ht⟩, hb⟩

/-- What is derived at a reached position is hashed by a run of `keygen` or `sign`. -/
theorem derivation_mem_log (h : Reached H seed skSeed x) : ∀ i ∈ derivation H skSeed x,
    i ∈ (keygen H seed skSeed).log ∨ ∃ msg, i ∈ (sign H ⟨seed, skSeed⟩ msg).log := by
  intro i hi
  obtain rfl := List.mem_singleton.mp (derivation_eq (H := H) x ▸ hi)
  rw [SlhDsaRef.keygen_eq, Comp.log_ret]
  refine h.imp (fun h => List.mem_map.mpr ⟨_, h, rfl⟩) fun ⟨msg, h⟩ => ⟨msg, ?_⟩
  rw [SlhDsaRef.sign_eq, Comp.log_ret]
  exact List.mem_cons_of_mem _ (List.mem_map.mpr ⟨_, h, rfl⟩)

theorem secretInput_inj (hx : x.keypair < 16 ∧ x.chain < 67) (hy : y.keypair < 16 ∧ y.chain < 67)
    (h : secretInput skSeed x.secret = secretInput skSeed y.secret) :
    x.keypair = y.keypair ∧ x.chain = y.chain := by
  obtain ⟨h1, h2⟩ := List.append_inj' (List.append_inj_right h rfl) (by simp)
  exact ⟨be_inj (by omega) (by omega) h1, be_inj (by omega) (by omega) h2⟩

/-- Positions have different derivations exactly if they differ in leaf or chain. -/
theorem derivation_ne_iff (hx : Reached H seed skSeed x) (hy : Reached H seed skSeed y) :
    derivation H skSeed x ≠ derivation H skSeed y ↔ x.keypair ≠ y.keypair ∨ x.chain ≠ y.chain := by
  rw [← not_and_or, not_iff_not, derivation_eq, derivation_eq]
  constructor
  · intro he
    exact secretInput_inj (reached_iff.mp hx).2 (reached_iff.mp hy).2 (List.singleton_injective he)
  · rintro ⟨hk, hc⟩
    rw [Position.secret, Position.secret, hk, hc]
    rfl

/-- Two chains of one leaf of the top tree. -/
theorem derivation_ne_zero :
    derivation Hash.zero [] ⟨1, 0, 0, 0⟩ ≠ derivation Hash.zero [] ⟨1, 0, 0, 1⟩ ↔ 0 ≠ 0 ∨ 0 ≠ 1 :=
  have hr : ∀ c < 67, Reached Hash.zero [] [] ⟨1, 0, 0, c⟩ := fun _ hc =>
    reached_iff.mpr ⟨.inl ⟨rfl, rfl⟩, Nat.zero_lt_succ 15, hc⟩
  derivation_ne_iff (hr 0 (by decide)) (hr 1 (by decide))

/-- The chains of the tree that a message selects, and those of the top tree. -/
theorem derivation_shared (H : Hash) (seed skSeed msg : Bytes) {k c : Nat} (hk : k < 16) (hc : c < 67) :
    let x : Position := ⟨0, (selection H seed msg).tree, k, c⟩
    let y : Position := ⟨1, 0, k, c⟩
    Reached H seed skSeed x ∧ Reached H seed skSeed y ∧ x ≠ y ∧ derivation H skSeed x =
    derivation H skSeed y :=
  ⟨reached_iff.mpr ⟨.inr ⟨rfl, msg, rfl⟩, hk, hc⟩, reached_iff.mpr ⟨.inl ⟨rfl, rfl⟩, hk, hc⟩,
    fun h => Nat.zero_ne_one (congrArg Position.layer h), rfl⟩

/-- No key derives its secrets from different inputs. -/
theorem no_key_separates : ¬ ∃ (H : Hash) (seed skSeed : Bytes), ∀ x y, Reached H seed skSeed x →
    Reached H seed skSeed y → x ≠ y → derivation H skSeed x ≠ derivation H skSeed y := by
  rintro ⟨H, seed, skSeed, h⟩
  obtain ⟨hx, hy, hne, he⟩ :=
    derivation_shared H seed skSeed [] (show 0 < 16 by decide) (show 0 < 67 by decide)
  exact h _ _ hx hy hne he

end SuiPq.Proof.SecretReuse
