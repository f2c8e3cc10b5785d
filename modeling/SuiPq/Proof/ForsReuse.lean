import SuiPq.Proof.SlhDsaRef.Sign
import SuiPq.Proof.Verifier

/-!
# FORS keys are shared between the leaves of a tree

A FORS key of SLH-DSA-LITE is derived, and addressed, by the tree that a
message selects and not by the leaf. What `sign` and the on-chain `verify`
hash for it (`Hashed`) is separated from what they hash for
another message exactly if the two messages select different trees
(`separated_iff`).
-/

namespace SuiPq.Proof.ForsReuse

open SuiPq.Impl SuiPq.HashSig
open SuiPq.Spec.SlhLite (params adrs input selection secretInput forsTag)
open SuiPq.Proof.SlhDsaRef (T secret inputs eventsOf)

/-! ## What is done for the FORS key of a message -/

/-- By the signer: the secrets it derives and the hashes it evaluates. -/
def signerEvents (H : Hash) (seed skSeed msg : Bytes) : List (Event Bytes) :=
  let s := selection H seed msg
  forsEvents params (T H seed) (secret H skSeed) s.tree s.leaf s.fors

/-- By the verifier, on a signature. -/
def verifierEvals (H : Hash) (seed msg sig : Bytes) : List (Eval Bytes) :=
  let s := selection H seed msg
  forsEvals params (T H seed) 0 s.tree s.leaf s.fors (Spec.SlhLite.forsSig (window sig 0 512))

/-- After the message, `sign` hashes the signer's inputs, and the on-chain `verify` the verifier's on a signature. -/
structure Hashed (H : Hash) (seed skSeed msg : Bytes) : Prop where
  sign : ∃ rest, (SlhDsaRef.sign H ⟨seed, skSeed⟩ msg).log =
    (seed ++ msg) :: (inputs seed skSeed (signerEvents H seed skSeed msg) ++ rest)
  verify : ∀ root sig, seed.length = 32 → root.length = 32 → msg.length < 2 ^ 64 → sig.length = 5056 →
    ∃ rest, (Verifier.verify H (seed ++ root) msg sig).log =
      (seed ++ msg) :: ((verifierEvals H seed msg sig).map (input seed) ++ rest)

theorem sign_log (H : Hash) (seed skSeed msg : Bytes) : ∃ rest,
    (SlhDsaRef.sign H ⟨seed, skSeed⟩ msg).log =
      (seed ++ msg) :: (inputs seed skSeed (signerEvents H seed skSeed msg) ++ rest) := by
  rw [SlhDsaRef.sign_eq, Comp.log_ret]
  simp only [eventsOf]
  rw [signEvents_eq, SlhDsaRef.inputs_append]
  exact ⟨_, rfl⟩

theorem verify_log (H : Hash) {seed root msg sig : Bytes} (hseed : seed.length = 32)
    (hroot : root.length = 32) (hmsg : msg.length < 2 ^ 64) (hsig : sig.length = 5056) : ∃ rest,
    (Verifier.verify H (seed ++ root) msg sig).log =
      (seed ++ msg) :: ((verifierEvals H seed msg sig).map (input seed) ++ rest) := by
  have hpk : (seed ++ root).length = 64 := by rw [List.length_append, hseed, hroot]
  have hwin : window (seed ++ root) 0 32 = seed := by
    rw [window, List.drop_zero, ← hseed, List.take_left]
  rw [Verifier.verify_eq hpk hmsg, Comp.log_ret, if_pos hsig, hwin, Spec.SlhLite.hashed, Spec.SlhLite.evals,
    Spec.SlhLite.evalsFrom, rootEvals, List.map_append]
  exact ⟨_, rfl⟩

theorem hashed (H : Hash) (seed skSeed msg : Bytes) : Hashed H seed skSeed msg :=
  ⟨sign_log H seed skSeed msg, fun _ _ => verify_log H⟩

/-- The inputs of the secrets that are derived for a message. -/
def Derivation (H : Hash) (seed skSeed msg x : Bytes) : Prop :=
  ∃ s, .derive s ∈ signerEvents H seed skSeed msg ∧ x = secretInput skSeed s

/-- The addresses of the leaves, nodes and roots hashed for a message. -/
def Address (H : Hash) (seed skSeed msg a : Bytes) : Prop :=
  ∃ n xs, ((.eval (n, xs) ∈ signerEvents H seed skSeed msg) ∨
    ∃ sig, sig.length = 5056 ∧ (n, xs) ∈ verifierEvals H seed msg sig) ∧ a = (adrs n).bytes

/-- The FORS keys of two messages have nothing in common. -/
def Separated (H : Hash) (seed skSeed msg msg' : Bytes) : Prop :=
  (∀ x y, Derivation H seed skSeed msg x → Derivation H seed skSeed msg' y → x ≠ y) ∧
  ∀ a b, Address H seed skSeed msg a → Address H seed skSeed msg' b → a ≠ b

/-! ## Trees separate -/

variable {H : Hash} {seed skSeed msg msg' : Bytes}

theorem derivation_eq {x : Bytes} (h : Derivation H seed skSeed msg x) :
    ∃ i j, x = skSeed ++ forsTag ++ (be 8 (selection H seed msg).tree ++ be 4 i ++ be 4 j) := by
  obtain ⟨s, hs, rfl⟩ := h
  obtain ⟨i, -, j, rfl⟩ := derive_mem_fors hs
  exact ⟨i, j, rfl⟩

theorem address_eq {a : Bytes} (h : Address H seed skSeed msg a) :
    ∃ rest, a = be 4 0 ++ be 12 (selection H seed msg).tree ++ rest := by
  obtain ⟨n, xs, h, rfl⟩ := h
  have hn : n.InFors 0 (selection H seed msg).tree (selection H seed msg).leaf := by
    obtain h | ⟨sig, -, h⟩ := h
    · exact eval_mem_fors h
    · exact forsEvals_inFors h
  obtain ⟨w, i, rfl⟩ | rfl := hn
  · exact ⟨be 4 3 ++ be 4 w ++ be 4 i ++ be 4 0, by simp [adrs, Spec.SlhLite.Adrs.bytes]⟩
  · exact ⟨be 4 4 ++ be 4 0 ++ be 4 0 ++ be 4 0, by simp [adrs, Spec.SlhLite.Adrs.bytes]⟩

theorem tree_lt_256 (w : Nat) (hw : 0 < w) : (selection H seed msg).tree < 256 ^ w :=
  Nat.lt_of_lt_of_le (Spec.SlhLite.tree_lt (H (seed ++ msg)))
    (Nat.le_trans (by decide) (Nat.pow_le_pow_right (by decide) hw))

theorem separated_of_ne (h : (selection H seed msg).tree ≠ (selection H seed msg').tree) :
    Separated H seed skSeed msg msg' := by
  refine ⟨fun x y hx hy hxy => h ?_, fun a b ha hb hab => h ?_⟩
  · obtain ⟨i, j, rfl⟩ := derivation_eq hx
    obtain ⟨i', j', rfl⟩ := derivation_eq hy
    have := List.append_cancel_left hxy
    rw [List.append_assoc, List.append_assoc] at this
    exact be_inj (tree_lt_256 8 (by decide)) (tree_lt_256 8 (by decide)) (List.append_inj_left this (by simp))
  · obtain ⟨r, rfl⟩ := address_eq ha
    obtain ⟨r', rfl⟩ := address_eq hb
    have := List.append_inj_left hab (by simp)
    exact be_inj (tree_lt_256 12 (by decide)) (tree_lt_256 12 (by decide)) (List.append_cancel_left this)

/-- Each key has a secret at leaf 0 of its first FORS tree. -/
theorem first_secret (msg : Bytes) : .derive (.fors (selection H seed msg).tree
    (selection H seed msg).leaf 0 0) ∈ signerEvents H seed skSeed msg := by
  refine List.mem_append_left _ (List.mem_flatMap.mpr ⟨0, by decide, List.mem_append_left _ ?_⟩)
  exact List.mem_append_left _ (List.mem_flatMap.mpr ⟨0, by decide, List.mem_cons_self⟩)

/-- The FORS keys of two messages, as `sign` and the on-chain `verify` hash
them, have nothing in common exactly if the messages select different trees. -/
theorem separated_iff (H : Hash) (seed skSeed msg msg' : Bytes) :
    (Hashed H seed skSeed msg ∧ Hashed H seed skSeed msg') ∧
      (Separated H seed skSeed msg msg' ↔ (selection H seed msg).tree ≠ (selection H seed msg').tree) := by
  refine ⟨⟨hashed .., hashed ..⟩, fun ⟨hsep, _⟩ heq => ?_, separated_of_ne⟩
  exact hsep _ _ ⟨_, first_secret msg, rfl⟩ ⟨_, first_secret msg', rfl⟩
    (by rw [secretInput, secretInput, heq])

/-! ## Two leaves of one tree -/

def sampleSeed : Bytes := List.replicate 32 0

/-- The SHA-256 of `sampleSeed` followed by 1, and by 2. -/
def sampleDigest1 : Bytes :=
  [0x1f, 0xd4, 0x24, 0x74, 0x43, 0xc9, 0x44, 0x0c, 0xb3, 0xc4, 0x8c, 0x28, 0x85, 0x19, 0x37, 0x19,
  0x6b, 0xc1, 0x56, 0x03, 0x2d, 0x70, 0xa9, 0x6c, 0x98, 0xe1, 0x27, 0xec, 0xb3, 0x47, 0xe4, 0x5f]

def sampleDigest2 : Bytes :=
  [0x58, 0xcc, 0x2f, 0x44, 0xd3, 0xa2, 0x78, 0x66, 0x87, 0x47, 0x01, 0xfb, 0xad, 0x57, 0x3d, 0xa9,
  0xad, 0x1c, 0xfd, 0x88, 0xfa, 0x31, 0x45, 0x53, 0x1c, 0x82, 0x2f, 0x20, 0xa5, 0x8b, 0xee, 0xa1]

/-- SHA-256 on the two messages. -/
def sampleHash : Hash where
  fn x := if x = sampleSeed ++ [1] then sampleDigest1 else if x = sampleSeed ++ [2] then sampleDigest2
    else List.replicate 32 0
  length_fn x := by
    split
    · rfl
    · split <;> rfl

/-- The leaves 4 and 15 of tree 2 have one FORS key. -/
theorem leaves_share_key : ¬ ∀ (H : Hash) (seed skSeed msg msg' : Bytes),
    ((selection H seed msg).tree, (selection H seed msg).leaf) ≠
      ((selection H seed msg').tree, (selection H seed msg').leaf) → Separated H seed skSeed msg msg' := by
  intro h
  have h1 : (selection sampleHash sampleSeed [1]).tree = 2 ∧
    (selection sampleHash sampleSeed [1]).leaf = 4 := by
    decide +kernel
  have h2 : (selection sampleHash sampleSeed [2]).tree = 2 ∧
    (selection sampleHash sampleSeed [2]).leaf = 15 := by
    decide +kernel
  have hsep := h sampleHash sampleSeed sampleSeed [1] [2] (by rw [h1.1, h1.2, h2.1, h2.2]; decide)
  have hmem (m : Bytes) : Derivation sampleHash sampleSeed sampleSeed m (secretInput sampleSeed
      (.fors (selection sampleHash sampleSeed m).tree (selection sampleHash sampleSeed m).leaf 0 0)) :=
    ⟨_, first_secret m, rfl⟩
  exact hsep.1 _ _ (hmem [1]) (hmem [2]) (by rw [secretInput, secretInput, h1.1, h2.1])

end SuiPq.Proof.ForsReuse
