import SuiPq.Framework.HashSig.Binding
import SuiPq.Framework.HashSig.Signing
import SuiPq.Spec.WotsPlus

/-!
# SLH-DSA-LITE

The scheme of `slh-dsa-ref.ts` and `slh_dsa::verifier`, with SHA-256 as a hash
`H`, as an instance of the hypertree signatures with 32-byte values. `root`
is what a signature of any length leads to; the secrets (`secretInput`) are
hashes of the secret seed, a tag and some of the coordinates.
-/

namespace SuiPq.Spec.SlhLite

open SuiPq.HashSig

/-! ## Addresses and hashes -/

/-- An address. What its last three words are depends on the type. -/
structure Adrs where
  layer : Nat
  tree : Nat
  type : Nat
  word1 : Nat
  word2 : Nat
  word3 : Nat

def Adrs.bytes (a : Adrs) : Bytes :=
  be 4 a.layer ++ be 12 a.tree ++ be 4 a.type ++ be 4 a.word1 ++ be 4 a.word2 ++ be 4 a.word3

/-- The address of a position. Those of FORS have no key pair. -/
def adrs : Node → Adrs
  | .wotsStep l t kp i j => ⟨l, t, 0, kp, i, j⟩
  | .wotsPk l t kp => ⟨l, t, 1, kp, 0, 0⟩
  | .merkle l t h i => ⟨l, t, 2, h, i, 0⟩
  | .forsNode l t _ h i => ⟨l, t, 3, h, i, 0⟩
  | .forsRoots l t _ => ⟨l, t, 4, 0, 0, 0⟩

def params : Params where
  w := 16
  len := 67
  hp := 4
  d := 2
  a := 3
  k := 4

/-- A string padded with zeros to 32 bytes. -/
def pad32 (b : Bytes) : Bytes := b ++ List.replicate (32 - b.length) 0

/-- What is hashed at a position behind the address. The chains' tops lie in
cells of 32 bytes; one that is shorter, as only a signature of another length
has it, is padded. -/
def payload : Node → List Bytes → Bytes
  | .wotsPk .., xs => xs.flatMap pad32
  | _, xs => xs.flatten

/-- The input of the hash for an evaluation. -/
def input (seed : Bytes) (e : Eval Bytes) : Bytes := seed ++ (adrs e.1).bytes ++ payload e.1 e.2

def thash (H : Hash) (seed : Bytes) (n : Node) (xs : List Bytes) : Bytes := H (input seed (n, xs))

/-! ## Messages and signatures -/

/-- An XMSS signature: 67 chains of 32 bytes, and 4 siblings. -/
def xmssSig (wotsSig authPath : Bytes) : XmssSig Bytes where
  wots i := window wotsSig (i * 32) 32
  auth j := window authPath (j * 32) 32

/-- A FORS signature: for each tree, a secret and 3 siblings of 32 bytes. -/
def forsSig (s : Bytes) : ForsSig Bytes where
  sk i := window s (i * 128) 32
  auth i j := window (window s (i * 128 + 32) 96) (j * 32) 32

/-- The XMSS signature of layer `l`, behind the FORS signature. -/
def htSig (s : Bytes) (l : Nat) : XmssSig Bytes :=
  xmssSig (window s (512 + l * 2272) 2144) (window s (512 + l * 2272 + 2144) 128)

/-- What a digest selects: the FORS leaves, the tree and its leaf. -/
structure Selection where
  fors : Nat → Nat
  tree : Nat
  leaf : Nat

def split (digest : Bytes) : Selection where
  fors := digit 8 4 (ofBe (window digest 0 2))
  tree := ofBe (window digest 2 1) / 2 ^ 4 % 2 ^ 4
  leaf := ofBe (window digest 2 1) % 2 ^ 4

def selection (H : Hash) (seed msg : Bytes) : Selection := split (H (seed ++ msg))

/-! ## Verification -/

section Verify

variable (H : Hash) (seed msg : Bytes)

/-- The root that a signature's parts lead to. -/
def rootFrom (fors : ForsSig Bytes) (ht : Nat → XmssSig Bytes) : Bytes :=
  rootFromSig params (thash H seed) WotsPlus.digits (selection H seed msg).tree
    (selection H seed msg).leaf (selection H seed msg).fors fors ht

/-- The evaluations on the way to it. -/
def evalsFrom (fors : ForsSig Bytes) (ht : Nat → XmssSig Bytes) : List (Eval Bytes) :=
  rootEvals params (thash H seed) WotsPlus.digits (selection H seed msg).tree
    (selection H seed msg).leaf (selection H seed msg).fors fors ht

def root (sig : Bytes) : Bytes := rootFrom H seed msg (forsSig (window sig 0 512)) (htSig sig)

def evals (sig : Bytes) : List (Eval Bytes) := evalsFrom H seed msg (forsSig (window sig 0 512)) (htSig sig)

/-- What is hashed on the way to the root of a signature. -/
def hashed (sig : Bytes) : List Bytes := (seed ++ msg) :: (evals H seed msg sig).map (input seed)

end Verify

/-- A signature of the right length that leads to the key's root. -/
def verify (H : Hash) (pk msg sig : Bytes) : Bool :=
  decide (sig.length = 5056 ∧ root H (window pk 0 32) msg sig = window pk 32 32)

/-! ## Secrets -/

def wotsTag : Bytes := [0x77, 0x6f, 0x74, 0x73, 0x2d, 0x73, 0x6b]
def forsTag : Bytes := [0x66, 0x6f, 0x72, 0x73, 0x2d, 0x73, 0x6b]

/-- The input of the hash for a secret. -/
def secretInput (skSeed : Bytes) : Secret → Bytes
  | .wots _ _ kp i => skSeed ++ wotsTag ++ (be 4 kp ++ be 4 i)
  | .fors t _ i j => skSeed ++ forsTag ++ (be 8 t ++ be 4 i ++ be 4 j)

def secret (H : Hash) (skSeed : Bytes) (s : Secret) : Bytes := H (secretInput skSeed s)

/-- The input of the hash for an event of a signer. -/
def eventInput (seed skSeed : Bytes) : Event Bytes → Bytes
  | .derive s => secretInput skSeed s
  | .eval e => input seed e

section Lemmas

@[simp] theorem Adrs.length_bytes (a : Adrs) : a.bytes.length = 32 := by
  simp only [Adrs.bytes, List.length_append, length_be]

theorem pad32_eq {b : Bytes} (h : b.length = 32) : pad32 b = b := by
  rw [pad32, h, Nat.sub_self, List.replicate_zero, List.append_nil]

theorem length_pad32 {b : Bytes} (h : b.length ≤ 32) : (pad32 b).length = 32 := by
  rw [pad32, List.length_append, List.length_replicate]
  omega

theorem fors_lt (digest : Bytes) (i : Nat) : (split digest).fors i < 2 ^ 3 := digit_lt (by decide) _ _ _

theorem tree_lt (digest : Bytes) : (split digest).tree < 2 ^ 4 := Nat.mod_lt _ (by decide)

theorem leaf_lt (digest : Bytes) : (split digest).leaf < 2 ^ 4 := Nat.mod_lt _ (by decide)

@[simp] theorem length_thash {H : Hash} {seed : Bytes} (n : Node) (xs : List Bytes) :
    (thash H seed n xs).length = 32 := H.length_apply _

theorem length_htRoot {H : Hash} {seed m : Bytes} (hm : m.length = 32) (t kp : Nat)
    (s : Nat → XmssSig Bytes) :
    ∀ n, (htRoot params (thash H seed) WotsPlus.digits t kp m s n).length = 32
  | 0 => hm
  | _ + 1 => length_thash _ _

theorem length_forsPk {H : Hash} {seed : Bytes} {l t kp : Nat} (idx : Nat → Nat) (s : ForsSig Bytes) :
    (forsPkFromSig params (thash H seed) l t kp idx s).length = 32 := length_thash _ _

theorem treeAt_succ (t l : Nat) : treeAt params t (l + 1) = treeAt params t l >>> 4 := by
  rw [treeAt, treeAt, ← Nat.shiftRight_add]
  rfl

theorem pad_zero_bytes : List.replicate 32 0 = Adrs.bytes ⟨0, 0, 0, 0, 0, 0⟩ := rfl

theorem patch_layer (l t ty w1 w2 w3 v : Nat) :
    patch (Adrs.bytes ⟨l, t, ty, w1, w2, w3⟩) 0 (be 4 v) = Adrs.bytes ⟨v, t, ty, w1, w2, w3⟩ := by
  have := patch_part (x := []) (y := be 4 l) (z := be 12 t ++ be 4 ty ++ be 4 w1 ++ be 4 w2 ++ be 4 w3)
    (p := be 4 v) (by simp)
  simp only [List.length_nil, List.nil_append, ← List.append_assoc] at this
  exact this

/-- A tree index of 32 bits, written over the last word of a zero one. -/
theorem patch_tree {t : Nat} (h : t < 2 ^ 32) (l ty w1 w2 w3 : Nat) :
    patch (Adrs.bytes ⟨l, 0, ty, w1, w2, w3⟩) 12 (be 4 t) = Adrs.bytes ⟨l, t, ty, w1, w2, w3⟩ := by
  have ht : be 12 t = be 8 0 ++ be 4 t := by
    rw [be_add 8 4, Nat.shiftRight_eq_div_pow, Nat.div_eq_of_lt h]
  have := patch_part (x := be 4 l ++ be 8 0) (y := be 4 0) (z := be 4 ty ++ be 4 w1 ++ be 4 w2 ++ be 4 w3)
    (p := be 4 t) (by simp)
  simp only [List.length_append, length_be, ← List.append_assoc] at this
  rw [Adrs.bytes, Adrs.bytes, ht, be_add 8 4 0]
  simp only [← List.append_assoc]
  exact this

/-- A tree index of 64 bits, written in halves. -/
theorem patch_tree_halves {t : Nat} (h : t < 2 ^ 64) (l ty w1 w2 w3 : Nat) :
    patch (patch (Adrs.bytes ⟨l, 0, ty, w1, w2, w3⟩) 8 (be 4 (t >>> 32))) 12 (be 4 t) =
      Adrs.bytes ⟨l, t, ty, w1, w2, w3⟩ := by
  have ht : be 12 t = be 4 0 ++ be 4 (t >>> 32) ++ be 4 t := by
    rw [be_add 8 4, be_add 4 4, ← Nat.shiftRight_add, Nat.shiftRight_eq_div_pow, Nat.div_eq_of_lt h]
  have h0 : be 12 0 = be 4 0 ++ be 4 0 ++ be 4 0 := rfl
  have hhi := patch_part (x := be 4 l ++ be 4 0) (y := be 4 0)
    (z := be 4 0 ++ be 4 ty ++ be 4 w1 ++ be 4 w2 ++ be 4 w3) (p := be 4 (t >>> 32)) (by simp)
  have hlo := patch_part (x := be 4 l ++ be 4 0 ++ be 4 (t >>> 32)) (y := be 4 0)
    (z := be 4 ty ++ be 4 w1 ++ be 4 w2 ++ be 4 w3) (p := be 4 t) (by simp)
  simp only [List.length_append, length_be, ← List.append_assoc] at hhi hlo
  simp only [Adrs.bytes, ht, h0, ← List.append_assoc]
  exact (congrArg (patch · 12 (be 4 t)) hhi).trans hlo

theorem patch_type (l t ty w1 w2 w3 v : Nat) :
    patch (Adrs.bytes ⟨l, t, ty, w1, w2, w3⟩) 16 (be 4 v) = Adrs.bytes ⟨l, t, v, w1, w2, w3⟩ := by
  have := patch_part (x := be 4 l ++ be 12 t) (y := be 4 ty) (z := be 4 w1 ++ be 4 w2 ++ be 4 w3)
    (p := be 4 v) (by simp)
  simp only [List.length_append, length_be, ← List.append_assoc] at this
  exact this

theorem patch_word1 (l t ty w1 w2 w3 v : Nat) :
    patch (Adrs.bytes ⟨l, t, ty, w1, w2, w3⟩) 20 (be 4 v) = Adrs.bytes ⟨l, t, ty, v, w2, w3⟩ := by
  have := patch_part (x := be 4 l ++ be 12 t ++ be 4 ty) (y := be 4 w1) (z := be 4 w2 ++ be 4 w3)
    (p := be 4 v) (by simp)
  simp only [List.length_append, length_be, ← List.append_assoc] at this
  exact this

theorem patch_word2 (l t ty w1 w2 w3 v : Nat) :
    patch (Adrs.bytes ⟨l, t, ty, w1, w2, w3⟩) 24 (be 4 v) = Adrs.bytes ⟨l, t, ty, w1, v, w3⟩ := by
  have := patch_part (x := be 4 l ++ be 12 t ++ be 4 ty ++ be 4 w1) (y := be 4 w2) (z := be 4 w3)
    (p := be 4 v) (by simp)
  simp only [List.length_append, length_be] at this
  exact this

theorem patch_word3 (l t ty w1 w2 w3 v : Nat) :
    patch (Adrs.bytes ⟨l, t, ty, w1, w2, w3⟩) 28 (be 4 v) = Adrs.bytes ⟨l, t, ty, w1, w2, v⟩ := by
  have := patch_part (x := be 4 l ++ be 12 t ++ be 4 ty ++ be 4 w1 ++ be 4 w2) (y := be 4 w3) (z := [])
    (p := be 4 v) (by simp)
  simp only [List.length_append, length_be, List.append_nil] at this
  exact this

/-- The step of a chain, as a step of `wots_plus` under the chain's address. -/
theorem chainAdrs_adrs (l t kp w2 w3 i j : Nat) :
    WotsPlus.chainAdrs (Adrs.bytes ⟨l, t, 0, kp, w2, w3⟩) i j = (adrs (.wotsStep l t kp i j)).bytes := by
  rw [WotsPlus.chainAdrs, patch_type, patch_word2, patch_word3]
  rfl

section Wots

variable {H : Hash} {seed : Bytes} {l t kp : Nat}

theorem input_wotsStep (w2 w3 i j : Nat) (x : Bytes) :
    WotsPlus.input seed (Adrs.bytes ⟨l, t, 0, kp, w2, w3⟩) i j x =
      input seed (.wotsStep l t kp i j, [x]) := by
  rw [WotsPlus.input, chainAdrs_adrs, input, payload, List.flatten_singleton]
  rintro _ _ _ ⟨⟩

theorem step_eq (w2 w3 : Nat) :
    WotsPlus.step H seed (Adrs.bytes ⟨l, t, 0, kp, w2, w3⟩) = wotsStep (thash H seed) l t kp := by
  funext i j x
  rw [WotsPlus.step, input_wotsStep]
  rfl

/-- The chains' tops, hashed as the public key of the position. -/
theorem payload_wotsPk {m wotsSig authPath : Bytes} (hs : wotsSig.length = 2144) (w2 w3 : Nat) :
    payload (.wotsPk l t kp)
        (wotsTops params (thash H seed) l t kp (WotsPlus.digits m) (xmssSig wotsSig authPath).wots) =
      WotsPlus.pkFromSig H seed (Adrs.bytes ⟨l, t, 0, kp, w2, w3⟩) m wotsSig := by
  rw [payload, wotsTops, List.flatMap_map, WotsPlus.pkFromSig, step_eq]
  refine List.flatMap_congr fun i hi => pad32_eq ?_
  have hi : i < 67 := List.mem_range.mp hi
  have hx : (WotsPlus.chains wotsSig i).length = 32 := length_window (by omega)
  rw [wotsTop, ← step_eq w2 w3]
  exact WotsPlus.length_top hx i _

theorem hashed_wots (m wotsSig authPath : Bytes) (w2 w3 : Nat) :
    WotsPlus.hashed H seed (Adrs.bytes ⟨l, t, 0, kp, w2, w3⟩) m wotsSig =
      (wotsStepEvals params (thash H seed) l t kp (WotsPlus.digits m)
        (xmssSig wotsSig authPath).wots).map (input seed) := by
  rw [WotsPlus.hashed, wotsStepEvals, step_eq, List.map_map]
  exact List.map_congr_left fun e _ => input_wotsStep w2 w3 _ _ _

end Wots

end Lemmas

end SuiPq.Spec.SlhLite
