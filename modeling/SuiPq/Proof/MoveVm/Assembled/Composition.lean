import SuiPq.Proof.MoveVm.Assembled.Digest
import SuiPq.Proof.Sha2128s.Verify

/-!
# The composed verifiers are FIPS-205

The functions of `Composition.lean` run a bytecode for every helper, and
thread the address in other ways than the transcription: `chainViaBC_eq`,
`wotsPkFromSigViaBC_eq`, `xmssPkFromSigViaBC_eq`, `htRootFromSigViaBC_eq` and
`forsPkFromSigViaBC_eq` are the functions of the same name in `Fips205`, and
`verifyViaBC_fips205` is about the verifiers, on every input. Each loop keeps
that what is left of the recursion gives the value of the whole.
-/

namespace SuiPq.Proof.MoveVm.Assembled

open SuiPq.Impl SuiPq.Impl.MoveVm Composition

variable {H : Hash} (seed : Bytes) (adrs : Fips205.Adrs)

/-- The prefix of a seed. -/
abbrev pre (seed : Bytes) : Bytes := seed ++ Fips205.zeros 48

theorem length_compress : (Fips205.compress adrs).length = 22 := by
  obtain ⟨l, t, ty, kp, th, ti⟩ := adrs
  rw [Proof.Fips205.compress_eq, Spec.Slh128s.Adrs.length_bytes]

theorem slice_compress : Slice.sliceMoveBC H (Fips205.compress adrs) 0 22 = Fips205.compress adrs := by
  have hlen := length_compress adrs
  exact (sliceMoveBC_eq (show 0 + 22 ≤ _ by omega) (by decide) (by decide)).trans
    (window_full (Nat.le_of_eq hlen))

/-! ## WOTS+ -/

theorem chainViaBC_eq (x : Bytes) (i k : Nat) :
    chainViaBC H x i k (pre seed) (Fips205.compress adrs) = Fips205.chain H x i k seed adrs := by
  symm
  refine forLt_id (fun j s => chainViaBC H s.1 j (i + k - j) (pre seed) (Fips205.compress s.2) =
    chainViaBC H x i k (pre seed) (Fips205.compress adrs)) (Nat.le_add_right _ _)
    (by rw [Nat.add_sub_cancel_left]) ?_ ?_
  · rintro j ⟨tmp, a⟩ hij hj h
    rw [← h, show i + k - j = i + k - (j + 1) + 1 by omega, chainViaBC, slice_compress,
      setTreeIndex_eq, thash_eq]
    rfl
  · rintro ⟨tmp, a⟩ h
    rw [← h, Nat.sub_self, chainViaBC]
    rfl

/-- A chain, and those behind it. -/
theorem wotsAccumulator_succ {digits : List Nat} {sig : Bytes} (hsig : 560 ≤ sig.length)
    {i : Nat} (hi : i < 35) :
    wotsAccumulator H digits sig (pre seed) (Fips205.compress adrs) i =
      Fips205.chain H (Fips205.slice sig (i * 16) 16) (digits.getD i 0) (15 - digits.getD i 0) seed
        (Fips205.setTreeHeight adrs i) ++
      wotsAccumulator H digits sig (pre seed) (Fips205.compress adrs) (i + 1) := by
  have hslice := slice_eq (H := H) (show i * 16 + 16 ≤ sig.length by omega) (by omega) (by decide)
  rw [wotsAccumulator, if_neg (show ¬ i ≥ Fips205.len from Nat.not_le.mpr hi), setTreeHeight_eq]
  simp only [Fips205.n, hslice, chainViaBC_eq]
  rfl

theorem wotsAccumulator_end (digits : List Nat) (sig p a : Bytes) :
    wotsAccumulator H digits sig p a 35 = [] := by
  rw [wotsAccumulator, if_pos (show 35 ≥ Fips205.len from Nat.le_refl _)]

/-- The address of a key or of roots: a type, and the last two fields cleared. -/
theorem setCleared_eq (x : UInt8) :
    AdrsSetTreeIndex.adrsSetTreeIndexMoveBC H
      (AdrsSetters.adrsSetTreeHeightMoveBC H (AdrsSetters.adrsSetTypeMoveBC H
      (Fips205.compress adrs) x) 0) 0 =
      Fips205.compress (Fips205.setTreeIndex (Fips205.setTreeHeight (Fips205.setType adrs x) 0) 0) := by
  rw [setType_eq, show (0 : UInt64) = UInt64.ofNat 0 from rfl, setTreeHeight_eq, setTreeIndex_eq]

theorem wotsPkFromSigViaBC_eq {sig : Bytes} (hsig : 560 ≤ sig.length) (msg : Bytes) :
    wotsPkFromSigViaBC H sig msg (pre seed) (Fips205.compress adrs) =
      Fips205.wotsPkFromSig H sig msg seed adrs := by
  rw [wotsPkFromSigViaBC, setCleared_eq, setType_eq, thash_eq]
  symm
  refine forLt_zero_id (fun i s => (∀ j, Fips205.setTreeHeight s.2 j =
      Fips205.setTreeHeight (Fips205.setType adrs Fips205.AdrsType.wots_hash) j) ∧
    s.1 ++ wotsAccumulator H (Fips205.msgToChainDigits msg) sig (pre seed)
      (Fips205.compress (Fips205.setType adrs Fips205.AdrsType.wots_hash)) i =
      wotsAccumulator H (Fips205.msgToChainDigits msg) sig (pre seed)
        (Fips205.compress (Fips205.setType adrs Fips205.AdrsType.wots_hash)) 0) ⟨fun _ => rfl,
          List.nil_append _⟩ ?_ ?_
  · rintro i ⟨tmp, a⟩ hi ⟨ha, h⟩
    refine ⟨fun j => by rw [← ha j]; rfl, ?_⟩
    rw [← h, wotsAccumulator_succ seed _ hsig hi, ← ha i, ← List.append_assoc]
    rfl
  · rintro ⟨tmp, a⟩ ⟨-, h⟩
    rw [show Fips205.len = 35 from rfl, wotsAccumulator_end, List.append_nil] at h
    rw [← h]
    rfl

/-! ## XMSS and the hypertree -/

/-- A level of the climb, and those above it. -/
theorem xmssAuthWalk_succ {auth node : Bytes} (hauth : auth.length = 144) {idx cur i : Nat} (hi : i < 9) :
    xmssAuthWalk H (pre seed) (Fips205.compress adrs) auth node idx cur i =
      xmssAuthWalk H (pre seed) (Fips205.compress adrs) auth
        (Fips205.thash H seed (Fips205.setTreeIndex (Fips205.setTreeHeight adrs (i + 1)) (cur >>> 1))
          (if idx >>> i &&& 1 = 0 then node ++ Fips205.slice auth (i * 16) 16 else Fips205.slice
            auth (i * 16) 16 ++ node))
        idx (cur >>> 1) (i + 1) := by
  have hslice := slice_eq (H := H) (show i * 16 + 16 ≤ auth.length by omega) (by omega) (by decide)
  rw [xmssAuthWalk, if_neg (show ¬ i ≥ Fips205.h_prime from Nat.not_le.mpr hi), Nat.shiftRight_one]
  simp only [Fips205.n, hslice, setTreeHeight_eq, setTreeIndex_eq, thash_eq]

theorem xmssAuthWalk_end (p a auth node : Bytes) (idx cur : Nat) :
    xmssAuthWalk H p a auth node idx cur 9 = node := by
  rw [xmssAuthWalk, if_pos (show 9 ≥ Fips205.h_prime from Nat.le_refl _)]

/-- The address of the climb to an XMSS root. -/
abbrev climbAdrs (idx : Nat) : Fips205.Adrs :=
  Fips205.setKeypair (Fips205.setType
    (Fips205.setKeypair (Fips205.setType adrs Fips205.AdrsType.wots_hash) idx)
    Fips205.AdrsType.tree) 0

theorem xmssPkFromSig_eq {sig : Bytes} (hsig : sig.length = 704) (idx : Nat) (msg : Bytes) :
    Fips205.xmssPkFromSig H idx sig msg seed adrs =
      xmssAuthWalk H (pre seed) (Fips205.compress (climbAdrs adrs idx)) (Fips205.slice sig 560 144)
        (Fips205.wotsPkFromSig H (Fips205.slice sig 0 560) msg seed
          (Fips205.setKeypair (Fips205.setType adrs Fips205.AdrsType.wots_hash) idx)) idx idx 0 := by
  have hlen : (Fips205.slice sig 560 144).length = 144 := by
    rw [Proof.Fips205.slice_eq (by omega), length_window (by omega)]
  refine forLt_zero_id (fun i s => (∀ h j, Fips205.setTreeIndex (Fips205.setTreeHeight s.2.1 h) j =
      Fips205.setTreeIndex (Fips205.setTreeHeight (climbAdrs adrs idx) h) j) ∧
    xmssAuthWalk H (pre seed) (Fips205.compress (climbAdrs adrs idx)) (Fips205.slice sig 560 144)
      s.1 idx s.2.2 i = _)
    ⟨fun _ _ => rfl, rfl⟩ ?_ ?_
  · rintro i ⟨node, a, cur⟩ hi ⟨hset, h⟩
    refine ⟨fun k j => by rw [← hset k j]; rfl, ?_⟩
    rw [xmssAuthWalk_succ seed _ hlen hi, ← hset] at h
    exact h
  · rintro ⟨node, a, cur⟩ ⟨-, h⟩
    exact (xmssAuthWalk_end ..).symm.trans h

theorem xmssPkFromSigViaBC_eq {sig : Bytes} (hsig : sig.length = 704) (idx : Nat) (msg : Bytes) :
    xmssPkFromSigViaBC H idx sig msg (pre seed) (Fips205.compress adrs) =
      Fips205.xmssPkFromSig H idx sig msg seed adrs := by
  have hw : Slice.sliceMoveBC H sig 0 (UInt64.ofNat (Fips205.len * Fips205.n)) = Fips205.slice sig 0 560 :=
    slice_eq (show 0 + 560 ≤ _ by omega) (by decide) (by decide)
  have ha : Slice.sliceMoveBC H sig (UInt64.ofNat (Fips205.len * Fips205.n))
    (UInt64.ofNat (Fips205.h_prime * Fips205.n)) =
      Fips205.slice sig 560 144 := slice_eq (show 560 + 144 ≤ _ by omega) (by decide) (by decide)
  have hlen : 560 ≤ (Fips205.slice sig 0 560).length := by
    rw [Proof.Fips205.slice_eq (by omega), length_window (by omega)]
  rw [xmssPkFromSig_eq seed adrs hsig, xmssPkFromSigViaBC, hw, ha, setType_eq, setKeypair_eq,
    wotsPkFromSigViaBC_eq _ _ hlen, setType_eq, show (0 : UInt64) = UInt64.ofNat 0 from rfl, setKeypair_eq]

/-- A layer, and those above it. -/
theorem htLayers_succ {sig : Bytes} (hsig : sig.length = 4928) {msg node : Bytes}
    {tree leaf j : Nat} (hj : j < 7) :
    htLayers H sig msg (pre seed) node tree leaf j =
      htLayers H sig msg (pre seed) (Fips205.xmssPkFromSig H leaf (Fips205.slice sig (j * 704) 704) node seed
        (Fips205.setTree (Fips205.setLayer Fips205.empty j) tree)) (tree >>> 9)
        (tree &&& (2 ^ 9 - 1)) (j + 1) := by
  have hslice : Slice.sliceMoveBC H sig (UInt64.ofNat (j * ((Fips205.len + Fips205.h_prime) * Fips205.n)))
      (UInt64.ofNat ((Fips205.len + Fips205.h_prime) * Fips205.n)) = Fips205.slice sig (j * 704) 704 :=
    slice_eq (show j * 704 + 704 ≤ _ by omega) (show j * 704 + 704 < 2 ^ 64 by omega) (by decide)
  have hlen : (Fips205.slice sig (j * 704) 704).length = 704 := by
    rw [Proof.Fips205.slice_eq (by omega), length_window (by omega)]
  rw [htLayers, if_neg (show ¬ j ≥ Fips205.d from Nat.not_le.mpr hj)]
  dsimp only
  rw [hslice, compress_empty, setLayer_eq, setTree_eq, xmssPkFromSigViaBC_eq _ _ hlen]
  rfl

theorem htLayers_end (sig msg p node : Bytes) (tree leaf : Nat) :
    htLayers H sig msg p node tree leaf 7 = node := by
  rw [htLayers, if_pos (show 7 ≥ Fips205.d from Nat.le_refl _)]

theorem htRootFromSigViaBC_eq {sig : Bytes} (hsig : sig.length = 4928) (msg : Bytes) (tree leaf : Nat) :
    htRootFromSigViaBC H sig msg tree leaf (pre seed) = Fips205.htRootFromSig H sig msg tree leaf seed := by
  symm
  refine forLt_zero_id (fun j s => htLayers H sig msg (pre seed) s.1 s.2.1 s.2.2 j = _) rfl ?_ ?_
  · rintro j ⟨node, t, l⟩ hj h
    rw [htLayers_succ seed hsig hj] at h
    exact h
  · rintro ⟨node, t, l⟩ h
    exact (htLayers_end ..).symm.trans h

/-! ## FORS -/

/-- A level of the climb in a FORS tree, and those above it. -/
theorem forsTreeWalk_succ {auth node : Bytes} (hauth : auth.length = 192) {cur i j : Nat} (hj : j < 12) :
    forsTreeWalk H (pre seed) (Fips205.compress adrs) auth node cur j i =
      forsTreeWalk H (pre seed) (Fips205.compress adrs) auth
        (Fips205.thash H seed (Fips205.setTreeIndex (Fips205.setTreeHeight adrs (j + 1))
          (i * 2 ^ (12 - j - 1) + cur >>> 1))
          (if cur &&& 1 = 0 then node ++ Fips205.slice auth (j * 16) 16 else Fips205.slice auth
            (j * 16) 16 ++ node))
        (cur >>> 1) (j + 1) i := by
  have hslice := slice_eq (H := H) (show j * 16 + 16 ≤ auth.length by omega) (by omega) (by decide)
  rw [forsTreeWalk, if_neg (show ¬ j ≥ Fips205.a from Nat.not_le.mpr hj), Nat.shiftRight_one,
    Nat.and_one_is_mod]
  simp only [Fips205.n, Fips205.a, hslice, setTreeHeight_eq, setTreeIndex_eq, thash_eq]

theorem forsTreeWalk_end (p a auth node : Bytes) (cur i : Nat) :
    forsTreeWalk H p a auth node cur 12 i = node := by
  rw [forsTreeWalk, if_pos (show 12 ≥ Fips205.a from Nat.le_refl _)]

/-- A tree, and those behind it. -/
theorem forsRootAccumulator_succ {sig acc : Bytes} (hsig : sig.length = 2912) {indices : List Nat}
    {i : Nat} (hi : i < 14) :
    forsRootAccumulator H sig (pre seed) (Fips205.compress adrs) indices acc i =
      forsRootAccumulator H sig (pre seed) (Fips205.compress adrs) indices (acc ++
        forsTreeWalk H (pre seed) (Fips205.compress adrs) (Fips205.slice sig (i * 208 + 16) 192)
          (Fips205.thash H seed (Fips205.setTreeIndex (Fips205.setTreeHeight (Fips205.setType adrs
            Fips205.AdrsType.fors_tree) 0) (i * 2 ^ 12 + indices.getD i 0)) (Fips205.slice sig (i * 208) 16))
          (indices.getD i 0) 0 i) (i + 1) := by
  have hsk : Slice.sliceMoveBC H sig (UInt64.ofNat (i * ((1 + Fips205.a) * Fips205.n)))
    (UInt64.ofNat Fips205.n) =
      Fips205.slice sig (i * 208) 16 :=
    slice_eq (show i * 208 + 16 ≤ _ by omega) (show i * 208 + 16 < 2 ^ 64 by omega) (by decide)
  have hauth : Slice.sliceMoveBC H sig (UInt64.ofNat (i * ((1 + Fips205.a) * Fips205.n) + Fips205.n))
      (UInt64.ofNat (Fips205.a * Fips205.n)) = Fips205.slice sig (i * 208 + 16) 192 :=
    slice_eq (show i * 208 + 16 + 192 ≤ _ by omega) (show i * 208 + 16 + 192 < 2 ^ 64 by omega) (by decide)
  rw [forsRootAccumulator, if_neg (show ¬ i ≥ Fips205.k from Nat.not_le.mpr hi)]
  dsimp only
  rw [hsk, hauth, setType_eq, show (0 : UInt64) = UInt64.ofNat 0 from rfl, setTreeHeight_eq,
    setTreeIndex_eq, thash_eq]
  rfl

theorem forsRootAccumulator_end (sig p a acc : Bytes) (indices : List Nat) :
    forsRootAccumulator H sig p a indices acc 14 = acc := by
  rw [forsRootAccumulator, if_pos (show 14 ≥ Fips205.k from Nat.le_refl _)]

/-- FORS, for an address whose type is that of a FORS tree. -/
theorem forsPkFromSigViaBC_eq {sig : Bytes} (hsig : sig.length = 2912)
    (ha : adrs.type = Fips205.AdrsType.fors_tree)
    (md : Bytes) : forsPkFromSigViaBC H sig md (pre seed) (Fips205.compress adrs) =
      Fips205.forsPkFromSig H sig md seed adrs := by
  have hty : Fips205.setType adrs Fips205.AdrsType.fors_tree = adrs := by
    obtain ⟨l, t, ty, kp, th, ti⟩ := adrs
    subst ha
    rfl
  rw [forsPkFromSigViaBC, setCleared_eq, thash_eq]
  symm
  refine forLt_zero_id (fun i s => forsRootAccumulator H sig (pre seed) (Fips205.compress adrs)
    (Fips205.extractForsIndices md) s i = forsRootAccumulator H sig (pre seed) (Fips205.compress adrs)
    (Fips205.extractForsIndices md) [] 0) rfl ?_ ?_
  · intro i acc hi h
    have hi' : i < 14 := hi
    have hlen : (Fips205.slice sig (i * 208 + 16) 192).length = 192 := by
      rw [Proof.Fips205.slice_eq (by omega), length_window (by omega)]
    rw [forsRootAccumulator_succ seed adrs hsig hi', hty] at h
    rw [← h]
    refine congrArg (forsRootAccumulator H sig (pre seed) (Fips205.compress adrs)
      (Fips205.extractForsIndices md) · (i + 1)) ?_
    dsimp only
    rw [hty]
    refine forLt_zero_id (fun j s => (∀ h k, Fips205.setTreeIndex (Fips205.setTreeHeight s.2.1 h) k =
        Fips205.setTreeIndex (Fips205.setTreeHeight adrs h) k) ∧
      forsTreeWalk H (pre seed) (Fips205.compress adrs) (Fips205.slice sig (i * 208 + 16) 192) s.1
        s.2.2 j i = _)
      ⟨fun _ _ => rfl, rfl⟩ ?_ ?_
    · rintro j ⟨node, a, cur⟩ hj ⟨hset, h⟩
      refine ⟨fun m k => by rw [← hset m k]; rfl, ?_⟩
      rw [forsTreeWalk_succ seed adrs hlen hj, ← hset] at h
      exact h
    · rintro ⟨node, a, cur⟩ ⟨-, h⟩
      exact congrArg (acc ++ ·) ((forsTreeWalk_end ..).symm.trans h)
  · intro acc h
    rw [show Fips205.k = 14 from rfl, forsRootAccumulator_end] at h
    rw [← h]
    rfl

theorem forsPkFromSigViaBC_full_eq {sig md : Bytes} (hsig : sig.length = 2912) (hmd : md.length = 21)
    (ha : adrs.type = Fips205.AdrsType.fors_tree) :
    forsPkFromSigViaBC_full H sig md (pre seed) (Fips205.compress adrs) =
    Fips205.forsPkFromSig H sig md seed adrs := by
  rw [forsPkFromSigViaBC_full, extractForsIndices_eq hmd]
  exact forsPkFromSigViaBC_eq seed adrs hsig ha md

/-! ## Verification -/

theorem length_hmsg (r root m : Bytes) : (Fips205.hmsg H r seed root m).length = 30 := by
  rw [Proof.Fips205.hmsg_eq, Spec.Slh128s.length_hmsg]

/-- The address that FORS is verified under. -/
theorem forsAdrs_eq (tree leaf : Nat) :
    AdrsSetters.adrsSetKeypairMoveBC H (AdrsSetters.adrsSetTypeMoveBC H (AdrsSetters.adrsSetTreeMoveBC H
      (AdrsSetters.adrsSetLayerMoveBC H (Fips205.zeros 22) 0) (UInt64.ofNat tree)) Fips205.AdrsType.fors_tree)
      (UInt64.ofNat leaf) = Fips205.compress ⟨0, tree, Fips205.AdrsType.fors_tree, leaf, 0, 0⟩ := by
  rw [compress_empty, show (0 : UInt8) = UInt8.ofNat 0 from rfl, setLayer_eq, setTree_eq,
    setType_eq, setKeypair_eq]
  rfl

section Verifier

variable {hmsg : Bytes → Bytes → Bytes → Bytes → Bytes} {splitDigest : Bytes → Bytes × Nat × Nat}
  {forsPkFromSig : Bytes → Bytes → Bytes → Bytes → Bytes}

/-- A composed verifier, on a key, a signature and a context of the right sizes. -/
theorem verifyWith_wellSized (hh : ∀ r seed root m, hmsg r seed root m = Fips205.hmsg H r seed root m)
    (hs : ∀ d : Bytes, d.length = 30 → splitDigest d = Fips205.splitDigest d)
    (hf : ∀ sig md seed adrs, sig.length = 2912 → md.length = 21 → adrs.type = Fips205.AdrsType.fors_tree →
      forsPkFromSig sig md (pre seed) (Fips205.compress adrs) = Fips205.forsPkFromSig H sig md seed adrs)
    {pk msg sig ctx : Bytes} (hpk : pk.length = 32) (hsig : sig.length = 7856) (hctx : ctx.length ≤ 255) :
    verifyWith H hmsg splitDigest forsPkFromSig pk msg sig ctx = Fips205.verify H pk msg sig ctx := by
  have hseed : Slice.sliceMoveBC H pk 0 (UInt64.ofNat Fips205.n) = Fips205.slice pk 0 16 :=
    slice_eq (show 0 + 16 ≤ _ by omega) (by decide) (by decide)
  have hroot : Slice.sliceMoveBC H pk (UInt64.ofNat Fips205.n) (UInt64.ofNat Fips205.n) =
    Fips205.slice pk 16 16 :=
    slice_eq (show 16 + 16 ≤ _ by omega) (by decide) (by decide)
  have hr : Slice.sliceMoveBC H sig 0 (UInt64.ofNat Fips205.n) = Fips205.slice sig 0 16 :=
    slice_eq (show 0 + 16 ≤ _ by omega) (by decide) (by decide)
  have hfors : Slice.sliceMoveBC H sig (UInt64.ofNat Fips205.n)
    (UInt64.ofNat (Fips205.k * (1 + Fips205.a) * Fips205.n)) =
      Fips205.slice sig 16 2912 := slice_eq (show 16 + 2912 ≤ _ by omega) (by decide) (by decide)
  have hht : Slice.sliceMoveBC H sig (UInt64.ofNat (Fips205.n + Fips205.k * (1 + Fips205.a) * Fips205.n))
      (UInt64.ofNat (Fips205.sig_bytes - Fips205.n - Fips205.k * (1 + Fips205.a) * Fips205.n)) =
      Fips205.slice sig 2928 4928 := slice_eq (show 2928 + 4928 ≤ _ by omega) (by decide) (by decide)
  have hflen : (Fips205.slice sig 16 2912).length = 2912 := by
    rw [Proof.Fips205.slice_eq (by omega), length_window (by omega)]
  have hhlen : (Fips205.slice sig 2928 4928).length = 4928 := by
    rw [Proof.Fips205.slice_eq (by omega), length_window (by omega)]
  have hdlen := length_hmsg (H := H) (Fips205.slice pk 0 16) (Fips205.slice sig 0 16) (Fips205.slice pk 16 16)
    ([0, UInt8.ofNat ctx.length] ++ ctx ++ msg)
  have hmd := congrArg (fun x => x.1.length) (Proof.Fips205.splitDigest_eq hdlen)
  replace hmd := hmd.trans (length_window (show 0 + 21 ≤ _ by omega))
  rw [verifyWith, if_neg (show ¬ pk.length ≠ Fips205.pk_bytes from not_not.mpr hpk),
    if_neg (show ¬ sig.length ≠ Fips205.sig_bytes from not_not.mpr hsig),
    if_neg (show ¬ ctx.length > 255 by omega), Fips205.verify,
    if_neg (show ¬ pk.length ≠ Fips205.pk_bytes from not_not.mpr hpk),
    if_neg (show ¬ sig.length ≠ Fips205.sig_bytes from not_not.mpr hsig),
    if_neg (show ¬ ctx.length > 255 by omega)]
  dsimp only
  rw [hseed, hroot, hr, hfors, hht, hh, hs _ hdlen, pkSeedPadded_eq]
  rw [forsAdrs_eq, hf _ _ _ _ hflen hmd rfl, htRootFromSigViaBC_eq _ hhlen]
  rw [Id.run_pure, decide_eq_decide]
  simp only [Fips205.n, Fips205.k, Fips205.a, Fips205.sig_bytes, Nat.reduceAdd, Nat.reduceMul, Nat.reduceSub,
    Fips205.empty, Fips205.setLayer, Fips205.setTree, Fips205.setType, Fips205.setKeypair]

/-- A composed verifier is the transcription's, if its digest, its splitter and its FORS are. -/
theorem verifyWith_eq (hh : ∀ r seed root m, hmsg r seed root m = Fips205.hmsg H r seed root m)
    (hs : ∀ d : Bytes, d.length = 30 → splitDigest d = Fips205.splitDigest d)
    (hf : ∀ sig md seed adrs, sig.length = 2912 → md.length = 21 → adrs.type = Fips205.AdrsType.fors_tree →
      forsPkFromSig sig md (pre seed) (Fips205.compress adrs) = Fips205.forsPkFromSig H sig md seed adrs)
    (pk msg sig ctx : Bytes) :
    verifyWith H hmsg splitDigest forsPkFromSig pk msg sig ctx = Fips205.verify H pk msg sig ctx := by
  by_cases hpk : pk.length = Fips205.pk_bytes
  · by_cases hsig : sig.length = Fips205.sig_bytes
    · by_cases hctx : ctx.length > 255
      · rw [verifyWith, if_neg (not_not.mpr hpk), if_neg (not_not.mpr hsig), if_pos hctx, Fips205.verify,
          if_neg (not_not.mpr hpk), if_neg (not_not.mpr hsig), if_pos hctx]
        rfl
      · exact verifyWith_wellSized hh hs hf hpk hsig (Nat.le_of_not_lt hctx)
    · rw [verifyWith, if_neg (not_not.mpr hpk), if_pos hsig, Fips205.verify,
        if_neg (not_not.mpr hpk), if_pos hsig]
      rfl
  · rw [verifyWith, if_pos hpk, Fips205.verify, if_pos hpk]
    rfl

end Verifier

/-- The verifier whose digest and index extraction are still the transcription's. -/
theorem viaBC_eq (pk msg sig ctx : Bytes) : verifyViaBC H pk msg sig ctx = Fips205.verify H pk msg sig ctx :=
  verifyWith_eq (fun _ _ _ _ => rfl) (fun _ _ => rfl)
    (fun _ md seed adrs hsig _ ha => forsPkFromSigViaBC_eq seed adrs hsig ha md) pk msg sig ctx

/-- The verifier whose digest is still the transcription's. -/
theorem viaBC_full_eq (pk msg sig ctx : Bytes) : verifyViaBC_full H pk msg sig ctx =
    Fips205.verify H pk msg sig ctx :=
  verifyWith_eq (fun _ _ _ _ => rfl) (fun _ => splitDigest_eq)
    (fun _ _ seed adrs hsig hmd ha => forsPkFromSigViaBC_full_eq seed adrs hsig hmd ha) pk msg sig ctx

/-- The verifier of bytecodes alone. -/
theorem viaBC_total_eq (pk msg sig ctx : Bytes) : verifyViaBC_total H pk msg sig ctx =
    Fips205.verify H pk msg sig ctx :=
  verifyWith_eq hmsgMoveBC_eq (fun _ => splitDigest_eq)
    (fun _ _ seed adrs hsig hmd ha => forsPkFromSigViaBC_full_eq seed adrs hsig hmd ha) pk msg sig ctx

/-- Swapping functions for their bytecodes, some or all of them, changes no verdict. -/
theorem verifyViaBC_fips205 (pk msg sig ctx : Bytes) :
    verifyViaBC H pk msg sig ctx = Fips205.verify H pk msg sig ctx ∧
      verifyViaBC_full H pk msg sig ctx = Fips205.verify H pk msg sig ctx ∧
      verifyViaBC_total H pk msg sig ctx = Fips205.verify H pk msg sig ctx :=
  ⟨viaBC_eq pk msg sig ctx, viaBC_full_eq pk msg sig ctx, viaBC_total_eq pk msg sig ctx⟩

/-- The on-chain verifier returns what the composition of bytecodes does. -/
theorem verifyWithContext_viaBC {pk msg : Bytes} (hpk : pk.length = 32) (hmsg : msg.length + 257 < 2 ^ 64)
    (sig ctx : Bytes) :
    (Sha2128s.verifyWithContext H pk msg sig ctx).res = .ok (verifyViaBC_total H pk msg sig ctx) := by
  rw [viaBC_total_eq, Proof.Fips205.verify_eq hpk, Proof.Sha2128s.verifyWithContext_eq hpk hmsg, Comp.res_ret]

theorem verifyWithContext_viaBC_zeros :
    (Sha2128s.verifyWithContext Hash.zero (List.replicate 32 0) [] (List.replicate 7856 0) []).res =
      .ok (verifyViaBC_total Hash.zero (List.replicate 32 0) [] (List.replicate 7856 0) []) :=
  verifyWithContext_viaBC (H := Hash.zero) List.length_replicate (by decide) _ _

end SuiPq.Proof.MoveVm.Assembled
