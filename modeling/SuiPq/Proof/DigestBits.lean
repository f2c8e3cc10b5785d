import SuiPq.Framework.Bits
import SuiPq.Proof.Fips205
import SuiPq.Proof.Sha2128s.Digits
import SuiPq.Proof.Slh128sRef

/-!
# The bits that a digest selects by

Of the 240 bits of a message digest, the 128s verifiers use the first 168 as
FORS indices, 54 of the next 56 as the tree and 9 of the last 16 as the leaf
(`selects_bits`), and no others (`select_eq_iff`).
-/

namespace SuiPq.Proof.DigestBits

open SuiPq.Impl SuiPq.Move SuiPq.HashSig SuiPq.Spec.Slh128s

/-! ## What a digest selects -/

/-- The FORS indices, the tree and the leaf, on chain. -/
def moveSelect (digest : Bytes) : MoveFn (List Nat × Nat × Nat) := do
  let (md, treeIdx, leafIdx) ← Sha2128s.splitDigest digest
  let indices ← Sha2128s.extractForsIndices md
  pure (indices, treeIdx, leafIdx)

/-- The same in TypeScript. -/
def tsSelect (digest : Bytes) : Js (List Nat × Nat × Nat) := do
  let (md, treeIdx, leafIdx) ← Slh128sRef.splitDigest digest
  let indices ← Slh128sRef.forsIndices md
  pure (indices, treeIdx, leafIdx)

/-- The same in the repository's Lean. -/
def leanSelect (digest : Bytes) : List Nat × Nat × Nat :=
  let (md, treeIdx, leafIdx) := Fips205.splitDigest digest
  (Fips205.extractForsIndices md, treeIdx, leafIdx)

def indices (digest : Bytes) : List Nat := (List.range 14).map (forsIndex (split digest).md)

section Select

variable {digest : Bytes} (h : digest.length = 30)
include h

theorem length_md : (split digest).md.length = 21 := length_window (by omega)

theorem moveSelect_eq : moveSelect digest =
    pure (indices digest, (split digest).tree, (split digest).leaf) := by
  have hmd := length_md h
  rw [moveSelect, Sha2128s.splitDigest_eq h, pure_bind]
  dsimp only
  rw [Sha2128s.extractForsIndices_eq hmd.ge, pure_bind, window_full hmd.le]
  rfl

theorem tsSelect_eq : tsSelect digest = pure (indices digest, (split digest).tree, (split digest).leaf) := by
  rw [tsSelect, Slh128sRef.splitDigest_eq h, pure_bind]
  dsimp only
  rw [Slh128sRef.forsIndices_eq (length_md h), pure_bind]
  rfl

theorem leanSelect_eq : leanSelect digest = (indices digest, (split digest).tree, (split digest).leaf) := by
  rw [leanSelect, Fips205.splitDigest_eq h]
  dsimp only
  rw [Fips205.extractForsIndices_eq (length_md h)]
  rfl

/-! ## Its bits -/

theorem bits_indices : (indices digest).flatMap (bits 12) = window (bitsOf digest) 0 168 := by
  have hmd := length_md h
  have hbits := bitsOf_window (b := digest) (s := 0) (n := 21) (by omega)
  have hdigits := bits_digits 12 14 (ofBe (split digest).md)
  rw [← hbits, bitsOf_eq]
  exact hmd.symm ▸ hdigits

theorem window_tree : window (bitsOf digest) 168 56 = bits 56 (ofBe (window digest 21 7)) := by
  have hlen : (window digest 21 7).length = 7 := length_window (by omega)
  rw [← bitsOf_window (s := 21) (n := 7) (by omega), bitsOf_eq, hlen]

theorem window_leaf : window (bitsOf digest) 224 16 = bits 16 (ofBe (window digest 28 2)) := by
  have hlen : (window digest 28 2).length = 2 := length_window (by omega)
  rw [← bitsOf_window (s := 28) (n := 2) (by omega), bitsOf_eq, hlen]

theorem tree_eq : (split digest).tree = ofBits (window (bitsOf digest) 168 56) % 2 ^ 54 := by
  rw [window_tree h, ofBits_bits, Nat.mod_mod_of_dvd _ (by decide)]
  rfl

theorem leaf_eq : (split digest).leaf = ofBits (window (bitsOf digest) 224 16) % 2 ^ 9 := by
  rw [window_leaf h, ofBits_bits, Nat.mod_mod_of_dvd _ (by decide)]
  rfl

/-- Two of the 56 bits are not used. -/
theorem bits_tree : bits 54 (split digest).tree = window (bitsOf digest) 170 54 := by
  rw [show 170 = 168 + 2 from rfl, ← window_window _ (show 2 + 54 ≤ 56 by decide), window_tree h]
  exact (bits_mod le_rfl _).trans (window_bits 2 54 _).symm

/-- Seven of the 16 bits are not used. -/
theorem bits_leaf : bits 9 (split digest).leaf = window (bitsOf digest) 231 9 := by
  rw [show 231 = 224 + 7 from rfl, ← window_window _ (show 7 + 9 ≤ 16 by decide), window_leaf h]
  exact (bits_mod le_rfl _).trans (window_bits 7 9 _).symm

end Select

/-- The digests agree on the 231 bits. -/
structure Agree (digest digest' : Bytes) : Prop where
  indices : window (bitsOf digest) 0 168 = window (bitsOf digest') 0 168
  tree : window (bitsOf digest) 170 54 = window (bitsOf digest') 170 54
  leaf : window (bitsOf digest) 231 9 = window (bitsOf digest') 231 9

theorem indices_inj {digest digest' : Bytes} (h : digest.length = 30) (h' : digest'.length = 30) :
    indices digest = indices digest' ↔ window (bitsOf digest) 0 168 = window (bitsOf digest') 0 168 := by
  constructor
  · intro he
    rw [← bits_indices h, ← bits_indices h', he]
  · intro he
    rw [← bitsOf_window (s := 0) (n := 21) (by omega), ← bitsOf_window (s := 0) (n := 21) (by omega)] at he
    have hmd : (split digest).md = (split digest').md :=
      (bitsOf_inj ((length_md h).trans (length_md h').symm)).mp he
    rw [indices, indices, hmd]

theorem select_eq_iff {digest digest' : Bytes} (h : digest.length = 30) (h' : digest'.length = 30) :
    (indices digest, (split digest).tree, (split digest).leaf) =
      (indices digest', (split digest').tree, (split digest').leaf) ↔ Agree digest digest' := by
  have htree : ∀ d, (split d).tree < 2 ^ 54 := fun d => Nat.mod_lt _ (by decide)
  have hleaf : ∀ d, (split d).leaf < 2 ^ 9 := fun d => Nat.mod_lt _ (by decide)
  rw [Prod.mk.injEq, Prod.mk.injEq, indices_inj h h', ← bits_inj (htree digest) (htree digest'),
    ← bits_inj (hleaf digest) (hleaf digest'), bits_tree h, bits_tree h', bits_leaf h, bits_leaf h']
  exact ⟨fun ⟨hi, ht, hl⟩ => ⟨hi, ht, hl⟩, fun ⟨hi, ht, hl⟩ => ⟨hi, ht, hl⟩⟩

/-- What the verifiers select by a digest, bit by bit. -/
structure BitExact (digest : Bytes) (indices : List Nat) (treeIdx leafIdx : Nat) : Prop where
  move : moveSelect digest = pure (indices, treeIdx, leafIdx)
  typescript : tsSelect digest = pure (indices, treeIdx, leafIdx)
  lean : leanSelect digest = (indices, treeIdx, leafIdx)
  length : indices.length = 14
  lt : ∀ v ∈ indices, v < 2 ^ 12
  bits : indices.flatMap (bits 12) = window (bitsOf digest) 0 168
  tree : treeIdx = ofBits (window (bitsOf digest) 168 56) % 2 ^ 54
  leaf : leafIdx = ofBits (window (bitsOf digest) 224 16) % 2 ^ 9

theorem selects_bits {digest : Bytes} (h : digest.length = 30) :
    BitExact digest (indices digest) (split digest).tree (split digest).leaf where
  move := moveSelect_eq h
  typescript := tsSelect_eq h
  lean := leanSelect_eq h
  length := by rw [indices, List.length_map, List.length_range]
  lt v hv := by
    obtain ⟨i, -, rfl⟩ := List.mem_map.mp hv
    exact forsIndex_lt _ i
  bits := bits_indices h
  tree := tree_eq h
  leaf := leaf_eq h

/-- Digests select the indices, the tree and the leaf that their bits spell, and the same ones exactly when they
agree on the 231 bits. -/
theorem split_bit_exact {digest digest' : Bytes} (h : digest.length = 30) (h' : digest'.length = 30) :
    ∃ indices treeIdx leafIdx indices' treeIdx' leafIdx',
      BitExact digest indices treeIdx leafIdx ∧ BitExact digest' indices' treeIdx' leafIdx' ∧
        ((indices, treeIdx, leafIdx) = (indices', treeIdx', leafIdx') ↔ Agree digest digest') :=
  ⟨_, _, _, _, _, _, selects_bits h, selects_bits h', select_eq_iff h h'⟩

/-- Bits 168 and 169 do not count. -/
theorem split_bit_exact_sample :
    moveSelect (List.replicate 30 0) = moveSelect (List.replicate 21 0 ++ 0xc0 :: List.replicate 8 0) := by
  obtain ⟨_, _, _, _, _, _, hd, hd', hiff⟩ :=
    split_bit_exact (show (List.replicate 30 0 : Bytes).length = 30 by decide)
      (show (List.replicate 21 0 ++ 0xc0 :: List.replicate 8 0 : Bytes).length = 30 by decide)
  rw [hd.move, hd'.move, hiff.mpr ⟨by decide +kernel, by decide +kernel, by decide +kernel⟩]

end SuiPq.Proof.DigestBits
