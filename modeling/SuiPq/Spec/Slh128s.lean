import SuiPq.Framework.HashSig.ByteDigits
import SuiPq.Framework.HashSig.Binding
import SuiPq.Framework.HashSig.Positions

/-!
# SLH-DSA-SHA2-128s

FIPS-205 verification with SHA-256 as a hash `H`, as an instance of the
hypertree signatures: each position has a 22-byte address (`adrs`), and its
value is the truncated hash of the prefix, the address and the values below
it (`thash`). `verify` is what the verifiers return and `hashed` what they
hash, in order.
-/

namespace SuiPq.Spec.Slh128s

open SuiPq.HashSig

/-! ## Addresses and hashes -/

/-- A compressed address. The last two fields are a chain and a position in it
where the type is a WOTS+ one. -/
structure Adrs where
  layer : Nat
  tree : Nat
  type : Nat
  keypair : Nat
  treeHeight : Nat
  treeIndex : Nat

def Adrs.bytes (a : Adrs) : Bytes :=
  be 1 a.layer ++ be 8 a.tree ++ be 1 a.type ++ be 4 a.keypair ++ be 4 a.treeHeight ++ be 4 a.treeIndex

/-- The address of a position. -/
def adrs : Node → Adrs
  | .wotsStep l t kp i j => ⟨l, t, 0, kp, i, j⟩
  | .wotsPk l t kp => ⟨l, t, 1, kp, 0, 0⟩
  | .merkle l t h i => ⟨l, t, 2, 0, h, i⟩
  | .forsNode l t kp h i => ⟨l, t, 3, kp, h, i⟩
  | .forsRoots l t kp => ⟨l, t, 4, kp, 0, 0⟩

def params : Params where
  w := 16
  len := 35
  hp := 9
  d := 7
  a := 12
  k := 14

/-- `PK.seed`, padded to a block of the hash. -/
def pkPrefix (seed : Bytes) : Bytes := seed ++ List.replicate 48 0

/-- The input of the hash for an evaluation. -/
def input (pre : Bytes) (e : Eval Bytes) : Bytes := pre ++ (adrs e.1).bytes ++ e.2.flatten

def thash (H : Hash) (pre : Bytes) (n : Node) (xs : List Bytes) : Bytes :=
  (H (input pre (n, xs))).take 16

/-! ## Messages and signatures -/

/-- The digits a 16-byte message is signed with. -/
def digits (m : Bytes) : Nat → Nat := encode 16 32 3 (digit 16 32 (ofBe m))

/-- The FORS leaf that the 21-byte digest selects in tree `i`. -/
def forsIndex (md : Bytes) (i : Nat) : Nat := digit (2 ^ 12) 14 (ofBe md) i

/-- An XMSS signature: 35 chains and 9 siblings of 16 bytes. -/
def xmssSig (s : Bytes) : XmssSig Bytes where
  wots i := window s (i * 16) 16
  auth j := window s (560 + j * 16) 16

/-- A FORS signature: for each tree, a secret and 12 siblings of 16 bytes. -/
def forsSig (s : Bytes) : ForsSig Bytes where
  sk i := window s (i * 208) 16
  auth i j := window s (i * 208 + 16 + j * 16) 16

def htSig (s : Bytes) (l : Nat) : XmssSig Bytes := xmssSig (window s (l * 704) 704)

/-- `M'`: the message under its context. -/
def wrap (ctx msg : Bytes) : Bytes := [0, UInt8.ofNat ctx.length] ++ ctx ++ msg

def mgf1Blocks (seed : Bytes) (n : Nat) : List Bytes :=
  (List.range ((n + 31) / 32)).map fun c => seed ++ be 4 c

def mgf1 (H : Hash) (seed : Bytes) (n : Nat) : Bytes := ((mgf1Blocks seed n).flatMap H).take n

/-- The first `k` blocks. -/
def mgf1Stream (H : Hash) (seed : Bytes) (k : Nat) : Bytes :=
  (List.range k).flatMap fun c => H (seed ++ be 4 c)

/-- The inner hash of the message digest. -/
def innerInput (r seed root m : Bytes) : Bytes := r ++ seed ++ root ++ m

def hmsgSeed (H : Hash) (r seed root m : Bytes) : Bytes := r ++ seed ++ H (innerInput r seed root m)

def hmsg (H : Hash) (r seed root m : Bytes) : Bytes := mgf1 H (hmsgSeed H r seed root m) 30

def hmsgHashed (H : Hash) (r seed root m : Bytes) : List Bytes :=
  innerInput r seed root m :: mgf1Blocks (hmsgSeed H r seed root m) 30

/-- What a digest selects: the FORS leaves, the tree and its leaf. -/
structure Selection where
  md : Bytes
  tree : Nat
  leaf : Nat

def split (digest : Bytes) : Selection where
  md := window digest 0 21
  tree := ofBe (window digest 21 7) % 2 ^ 54
  leaf := ofBe (window digest 28 2) % 2 ^ 9

/-! ## Verification -/

section Verify

variable (H : Hash) (pk msg sig ctx : Bytes)

/-- What the message digest of a signature selects. -/
def selection : Selection :=
  split (hmsg H (window sig 0 16) (window pk 0 16) (window pk 16 16) (wrap ctx msg))

def root : Bytes :=
  rootFromSig params (thash H (pkPrefix (window pk 0 16))) digits (selection H pk msg sig ctx).tree
    (selection H pk msg sig ctx).leaf (forsIndex (selection H pk msg sig ctx).md)
    (forsSig (window sig 16 2912)) (htSig (window sig 2928 4928))

/-- The evaluations of a verification. -/
def evals : List (Eval Bytes) :=
  rootEvals params (thash H (pkPrefix (window pk 0 16))) digits (selection H pk msg sig ctx).tree
    (selection H pk msg sig ctx).leaf (forsIndex (selection H pk msg sig ctx).md)
    (forsSig (window sig 16 2912)) (htSig (window sig 2928 4928))

/-- Whether the lengths are those of a signature and a context. -/
def WellSized : Prop := sig.length = 7856 ∧ ctx.length ≤ 255

instance : Decidable (WellSized sig ctx) := inferInstanceAs (Decidable (_ ∧ _))

def verify : Bool := decide (WellSized sig ctx ∧ root H pk msg sig ctx = window pk 16 16)

/-- What a verification of a well-sized signature hashes. -/
def hashed : List Bytes :=
  hmsgHashed H (window sig 0 16) (window pk 0 16) (window pk 16 16) (wrap ctx msg) ++
    (evals H pk msg sig ctx).map (input (pkPrefix (window pk 0 16)))

end Verify

/-! ## Digits -/

theorem digits_lt (m : Bytes) (i : Nat) : digits m i < 16 :=
  encode_lt (by decide) (fun _ _ => digit_lt (by decide) _ _ _) i

/-- The digits of a message, and behind them those of its checksum. -/
theorem map_digits (m : Bytes) : (List.range 32).map (digit 16 32 (ofBe m)) ++
    (List.range 3).map (digit 16 3 (checksum 16 32 (digit 16 32 (ofBe m)))) =
      (List.range 35).map (digits m) := by
  have hl : (List.range 32).map (digits m) = (List.range 32).map (digit 16 32 (ofBe m)) :=
    List.map_congr_left fun i hi => encode_left (List.mem_range.mp hi)
  have hr : (List.range 3).map (digits m ∘ fun j => 32 + j) =
      (List.range 3).map (digit 16 3 (checksum 16 32 (digit 16 32 (ofBe m)))) :=
    List.map_congr_left fun j _ => encode_right 16 32 3 _ j
  rw [show 35 = 32 + 3 by rfl, List.range_add, List.map_append, List.map_map, hl, hr]

/-- Of the digits of two messages, some of the second's are smaller. -/
theorem exists_digits_lt {m m' : Bytes} (hm : m.length = 16) (hm' : m'.length = 16) (h : m ≠ m') :
    ∃ i < 35, digits m' i < digits m i :=
  exists_encode_lt (n := 32) (k := 3) (by decide) (fun _ _ => digit_lt (by decide) _ _ _)
    (exists_digit_ne hm hm' h)

/-! ## Mask generation -/

section Mgf1

variable (H : Hash) (seed : Bytes)

@[simp] theorem length_mgf1Stream (k : Nat) : (mgf1Stream H seed k).length = 32 * k := by
  simp [mgf1Stream, List.length_flatMap, Nat.mul_comm]

theorem mgf1Stream_succ (k : Nat) : mgf1Stream H seed (k + 1) = mgf1Stream H seed k ++
    H (seed ++ be 4 k) := by
  rw [mgf1Stream, List.range_succ, List.flatMap_append, List.flatMap_singleton, mgf1Stream]

theorem mgf1_eq (n : Nat) : mgf1 H seed n = (mgf1Stream H seed ((n + 31) / 32)).take n := by
  rw [mgf1, mgf1Blocks, List.flatMap_map, mgf1Stream]

theorem mgf1Stream_prefix {j k : Nat} (h : j ≤ k) : mgf1Stream H seed j <+: mgf1Stream H seed k := by
  induction h with
  | refl => exact List.prefix_rfl
  | step _ ih =>
    rw [mgf1Stream_succ]
    exact ih.trans (List.prefix_append _ _)

/-- Any number of blocks that is enough gives the same bytes. -/
theorem mgf1_eq_take {n k : Nat} (h : n ≤ 32 * k) : mgf1 H seed n = (mgf1Stream H seed k).take n := by
  obtain ⟨rest, hrest⟩ := mgf1Stream_prefix H seed (show (n + 31) / 32 ≤ k by omega)
  rw [mgf1_eq, ← hrest, List.take_append_of_le_length]
  rw [length_mgf1Stream]
  omega

theorem length_mgf1 (n : Nat) : (mgf1 H seed n).length = n := by
  rw [mgf1_eq, List.length_take, length_mgf1Stream]
  omega

theorem mgf1_prefix {m n : Nat} (h : m ≤ n) : mgf1 H seed m <+: mgf1 H seed n := by
  rw [mgf1_eq_take H seed (show m ≤ 32 * n by omega), mgf1_eq_take H seed (show n ≤ 32 * n by omega)]
  exact List.take_prefix_take_left h

end Mgf1

/-! ## Selections -/

theorem treeAt_succ (t l : Nat) : treeAt params t (l + 1) = treeAt params t l >>> 9 := by
  rw [treeAt, treeAt, ← Nat.shiftRight_add]
  rfl

section Lengths

variable {H : Hash} {pre : Bytes} {l t kp : Nat}

@[simp] theorem length_thash (n : Node) (xs : List Bytes) : (thash H pre n xs).length = 16 := by
  simp [thash]

theorem length_htRoot {m : Bytes} (hm : m.length = 16) (s : Nat → XmssSig Bytes) :
    ∀ n, (htRoot params (thash H pre) digits t kp m s n).length = 16
  | 0 => hm
  | _ + 1 => length_thash _ _

theorem length_forsPk (idx : Nat → Nat) (s : ForsSig Bytes) :
    (forsPkFromSig params (thash H pre) l t kp idx s).length = 16 := length_thash _ _

end Lengths

section Selection

variable (H : Hash) (pk msg sig ctx : Bytes)

theorem length_hmsg (r seed root m : Bytes) : (hmsg H r seed root m).length = 30 := length_mgf1 _ _ _

theorem forsIndex_lt (md : Bytes) (i : Nat) : forsIndex md i < 2 ^ 12 := digit_lt (by decide) _ _ _

theorem selection_tree_lt : (selection H pk msg sig ctx).tree < 2 ^ 54 := Nat.mod_lt _ (by decide)

theorem selection_leaf_lt : (selection H pk msg sig ctx).leaf < 2 ^ 9 := Nat.mod_lt _ (by decide)

/-- The coordinates of a verification's positions fit the fields of an address. -/
theorem evals_fits {e : Eval Bytes} (h : e ∈ evals H pk msg sig ctx) :
    e.1.Fits (2 ^ 8) (2 ^ 64) (2 ^ 32) :=
  rootEvals_fits (fun _ _ => forsIndex_lt _ _)
    (Nat.lt_trans (selection_tree_lt H pk msg sig ctx) (by decide)) (selection_leaf_lt H pk msg sig ctx)
    (by decide) (by decide) (by decide) (by decide) (by decide) (by decide) (by decide)
    (List.mem_map_of_mem h)

theorem evals_nodup : ((evals H pk msg sig ctx).map Prod.fst).Nodup :=
  rootEvals_nodup (fun _ _ => forsIndex_lt _ _) _ _

end Selection

/-! ## Addresses are injective -/

@[simp] theorem Adrs.length_bytes (a : Adrs) : a.bytes.length = 22 := by
  simp only [Adrs.bytes, List.length_append, length_be]

section Patches

variable (l t ty kp th ti v : Nat)

theorem patch_layer :
    patch (Adrs.bytes ⟨l, t, ty, kp, th, ti⟩) 0 (be 1 v) = Adrs.bytes ⟨v, t, ty, kp, th, ti⟩ := by
  have := patch_part (x := []) (y := be 1 l) (z := be 8 t ++ be 1 ty ++ be 4 kp ++ be 4 th ++ be 4 ti)
    (p := be 1 v) (by simp)
  simp only [List.length_nil, List.nil_append, ← List.append_assoc] at this
  exact this

theorem patch_tree :
    patch (Adrs.bytes ⟨l, t, ty, kp, th, ti⟩) 1 (be 8 v) = Adrs.bytes ⟨l, v, ty, kp, th, ti⟩ := by
  have := patch_part (x := be 1 l) (y := be 8 t) (z := be 1 ty ++ be 4 kp ++ be 4 th ++ be 4 ti)
    (p := be 8 v) (by simp)
  simp only [length_be, ← List.append_assoc] at this
  exact this

theorem patch_type :
    patch (Adrs.bytes ⟨l, t, ty, kp, th, ti⟩) 9 (be 1 v) = Adrs.bytes ⟨l, t, v, kp, th, ti⟩ := by
  have := patch_part (x := be 1 l ++ be 8 t) (y := be 1 ty) (z := be 4 kp ++ be 4 th ++ be 4 ti)
    (p := be 1 v) (by simp)
  simp only [List.length_append, length_be, ← List.append_assoc] at this
  exact this

theorem patch_keypair :
    patch (Adrs.bytes ⟨l, t, ty, kp, th, ti⟩) 10 (be 4 v) = Adrs.bytes ⟨l, t, ty, v, th, ti⟩ := by
  have := patch_part (x := be 1 l ++ be 8 t ++ be 1 ty) (y := be 4 kp) (z := be 4 th ++ be 4 ti)
    (p := be 4 v) (by simp)
  simp only [List.length_append, length_be, ← List.append_assoc] at this
  exact this

theorem patch_treeHeight :
    patch (Adrs.bytes ⟨l, t, ty, kp, th, ti⟩) 14 (be 4 v) = Adrs.bytes ⟨l, t, ty, kp, v, ti⟩ := by
  have := patch_part (x := be 1 l ++ be 8 t ++ be 1 ty ++ be 4 kp) (y := be 4 th) (z := be 4 ti)
    (p := be 4 v) (by simp)
  simp only [List.length_append, length_be] at this
  exact this

theorem patch_treeIndex :
    patch (Adrs.bytes ⟨l, t, ty, kp, th, ti⟩) 18 (be 4 v) = Adrs.bytes ⟨l, t, ty, kp, th, v⟩ := by
  have := patch_part (x := be 1 l ++ be 8 t ++ be 1 ty ++ be 4 kp ++ be 4 th) (y := be 4 ti) (z := [])
    (p := be 4 v) (by simp)
  simp only [List.length_append, length_be, List.append_nil] at this
  exact this

end Patches

/-- Every field fits its bytes. -/
structure Adrs.Fits (a : Adrs) : Prop where
  layer : a.layer < 2 ^ 8
  tree : a.tree < 2 ^ 64
  type : a.type < 2 ^ 8
  keypair : a.keypair < 2 ^ 32
  treeHeight : a.treeHeight < 2 ^ 32
  treeIndex : a.treeIndex < 2 ^ 32

theorem Adrs.bytes_inj {a b : Adrs} (ha : a.Fits) (hb : b.Fits) (h : a.bytes = b.bytes) : a = b := by
  simp only [Adrs.bytes] at h
  obtain ⟨h, h6⟩ := List.append_inj h (by simp)
  obtain ⟨h, h5⟩ := List.append_inj h (by simp)
  obtain ⟨h, h4⟩ := List.append_inj h (by simp)
  obtain ⟨h, h3⟩ := List.append_inj h (by simp)
  obtain ⟨h1, h2⟩ := List.append_inj h (by simp)
  have e1 := be_inj ha.layer hb.layer h1
  have e2 := be_inj ha.tree hb.tree h2
  have e3 := be_inj ha.type hb.type h3
  have e4 := be_inj ha.keypair hb.keypair h4
  have e5 := be_inj ha.treeHeight hb.treeHeight h5
  have e6 := be_inj ha.treeIndex hb.treeIndex h6
  cases a
  cases b
  simp only at e1 e2 e3 e4 e5 e6
  subst e1 e2 e3 e4 e5 e6
  rfl

theorem adrs_fits {n : Node} (h : n.Fits (2 ^ 8) (2 ^ 64) (2 ^ 32)) : (adrs n).Fits := by
  cases n <;> simp only [Node.Fits] at h <;>
    constructor <;> simp only [adrs] <;> omega

theorem adrs_inj_node {n n' : Node} (h : adrs n = adrs n') : n = n' := by
  cases n <;> cases n' <;> simp only [adrs, Adrs.mk.injEq] at h <;> simp_all

/-- Positions whose coordinates fit the fields are told apart by their addresses. -/
theorem adrs_inj {n n' : Node} (hn : n.Fits (2 ^ 8) (2 ^ 64) (2 ^ 32))
    (hn' : n'.Fits (2 ^ 8) (2 ^ 64) (2 ^ 32)) (h : (adrs n).bytes = (adrs n').bytes) : n = n' :=
  adrs_inj_node (Adrs.bytes_inj (adrs_fits hn) (adrs_fits hn') h)

/-- Every 22-byte string is an address. -/
theorem exists_adrs {b : Bytes} (h : b.length = 22) : ∃ a : Adrs, a.bytes = b := by
  refine ⟨⟨ofBe (window b 0 1), ofBe (window b 1 8), ofBe (window b 9 1), ofBe (window b 10 4),
    ofBe (window b 14 4), ofBe (window b 18 4)⟩, ?_⟩
  have hs : ∀ s n, s + n ≤ 22 → be n (ofBe (window b s n)) = window b s n := fun s n hn => by
    have := be_ofBe (window b s n)
    rwa [length_window (by omega)] at this
  simp only [Adrs.bytes]
  rw [hs 0 1 (by decide), hs 1 8 (by decide), hs 9 1 (by decide), hs 10 4 (by decide),
    hs 14 4 (by decide), hs 18 4 (by decide), ← window_add b 0 1 8, ← window_add b 0 (1 + 8) 1,
    ← window_add b 0 (1 + 8 + 1) 4, ← window_add b 0 (1 + 8 + 1 + 4) 4,
    ← window_add b 0 (1 + 8 + 1 + 4 + 4) 4, window_full (by omega)]

end SuiPq.Spec.Slh128s
