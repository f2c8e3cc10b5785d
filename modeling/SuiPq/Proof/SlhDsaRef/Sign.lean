import SuiPq.Proof.SlhDsaRef.Verify

/-!
# The TypeScript SLH-DSA-LITE signer is the specification

`keygen_eq` and `sign_eq`: the trees, the signature and what is hashed for
them, which is the inputs of the signer's events in order.
`root_packedOf`: a packed signature leads to the key's root.
-/

namespace SuiPq.Proof.SlhDsaRef

open SuiPq.Impl SuiPq.Impl.JsBytes SuiPq.Impl.WotsRef SuiPq.Impl.SlhDsaRef SuiPq.Js SuiPq.HashSig
open SuiPq.Spec.SlhLite (Adrs params input payload pad32 xmssSig forsSig length_thash length_htRoot
  length_forsPk treeAt_succ secretInput eventInput)
open SuiPq.Spec.WotsPlus (digits digits_lt)

/-- The secrets of the specification. -/
abbrev secret (H : Hash) (skSeed : Bytes) := Spec.SlhLite.secret H skSeed

/-- What is hashed for the events of a signer. -/
abbrev inputs (seed skSeed : Bytes) (es : List (Event Bytes)) : List Bytes := es.map (eventInput seed skSeed)

variable {H : Hash} {seed skSeed : Bytes} {l t kp : Nat}

theorem inputs_append (es es' : List (Event Bytes)) :
    inputs seed skSeed (es ++ es') = inputs seed skSeed es ++ inputs seed skSeed es' := List.map_append

theorem inputs_flatMap (f : Nat → List (Event Bytes)) (is : List Nat) :
    inputs seed skSeed (is.flatMap f) = is.flatMap fun i => inputs seed skSeed (f i) := List.map_flatMap

theorem inputs_eval (es : List (Eval Bytes)) :
    inputs seed skSeed (es.map .eval) = es.map (input seed) := List.map_map

/-! ## WOTS+ -/

theorem wotsSk_eq (l t kp c : Nat) :
    wotsSk H skSeed kp c =
      Comp.ret (secret H skSeed (.wots l t kp c)) [secretInput skSeed (.wots l t kp c)] := by
  have hkp : writeU32BE (zeros 8) 0 kp = be 4 kp ++ be 4 0 := writeU32BE_word (x := []) rfl 0 kp
  have hc : writeU32BE (be 4 kp ++ be 4 0) 4 c = be 4 kp ++ be 4 c := by
    have := writeU32BE_word (z := []) (length_be 4 kp) 0 c
    rwa [List.append_nil, List.append_nil] at this
  have hin : [skSeed, wotsTag, be 4 kp ++ be 4 c].flatten = secretInput skSeed (.wots l t kp c) := by
    simp [secretInput, Spec.SlhLite.wotsTag, wotsTag]
  simp only [wotsSk, hkp, hc, concat_eq, pure_bind, hin]
  rfl

/-- Chain `c` from its secret, `k` steps. -/
theorem chainFromSk_eq (c k : Nat) (ty w2 w3 : Nat) :
    (do
      let sk ← wotsSk H skSeed kp c
      chainStep H seed (Adrs.bytes ⟨l, t, ty, kp, w2, w3⟩) c 0 k sk) =
      Comp.ret (chain (wotsStep (T H seed) l t kp c) 0 (secret H skSeed (.wots l t kp c)) k)
        (inputs seed skSeed (chainEvents (T H seed) (secret H skSeed) l t kp c k)) := by
  rw [wotsSk_eq l t, Comp.ret_bind, chainStep_eq, Comp.after_ret, inputs, chainEvents, List.map_cons,
    List.map_map]
  rfl

theorem length_secret (s : Secret) : (secret H skSeed s).length = 32 := H.length_apply _

theorem wotsPk_eq (ty w2 w3 : Nat) :
    SlhDsaRef.wotsPk H seed skSeed kp (Adrs.bytes ⟨l, t, ty, kp, w2, w3⟩) =
      Comp.ret (payload (.wotsPk l t kp) ((List.range 67).map fun i =>
          wotsTop params (T H seed) l t kp i 0 (secret H skSeed (.wots l t kp i))))
        (inputs seed skSeed ((List.range 67).flatMap fun i =>
          chainEvents (T H seed) (secret H skSeed) l t kp i 15)) := by
  refine (cellsLoop (v := fun i => wotsTop params (T H seed) l t kp i 0 (secret H skSeed (.wots l t kp i)))
    (fun i => inputs seed skSeed (chainEvents (T H seed) (secret H skSeed) l t kp i 15))
    (fun i _ => length_chain_le (Nat.le_of_eq (length_secret _)) _ _ _) fun i hi out => ?_).trans ?_
  · simp only [WOTS.w, SLH.n]
    rw [← bind_assoc, chainFromSk_eq, Comp.ret_bind]
    rfl
  · rw [payload, List.flatMap_map, inputs_flatMap]

theorem length_wotsSign (dig : Nat → Nat) (i : Nat) :
    (HashSig.wotsSign (T H seed) (secret H skSeed) l t kp dig i).length = 32 := by
  rw [HashSig.wotsSign]
  cases dig i with
  | zero => exact length_secret _
  | succ d => exact length_thash _ _

theorem wotsSign_eq {m : Bytes} (hm : m.length = 32) (ty w2 w3 : Nat) :
    SlhDsaRef.wotsSign H seed skSeed kp (Adrs.bytes ⟨l, t, ty, kp, w2, w3⟩) m =
      Comp.ret ((List.range 67).flatMap (HashSig.wotsSign (T H seed) (secret H skSeed) l t kp (digits m)))
        (inputs seed skSeed (wotsSignEvents params (T H seed) (secret H skSeed) l t kp (digits m))) := by
  rw [SlhDsaRef.wotsSign, WotsRef.msgToChains_eq hm, pure_bind]
  refine (cellsLoop (v := HashSig.wotsSign (T H seed) (secret H skSeed) l t kp (digits m))
    (fun i => inputs seed skSeed (chainEvents (T H seed) (secret H skSeed) l t kp i (digits m i)))
    (fun i _ => Nat.le_of_eq (length_wotsSign _ i)) fun i hi out => ?_).trans ?_
  · simp only [get_eq (show i < ((List.range 67).map (digits m)).length by simpa using hi), pure_bind,
      List.getElem_map, List.getElem_range, SLH.n]
    rw [← bind_assoc, chainFromSk_eq, Comp.ret_bind]
    rfl
  · rw [wotsSignEvents, inputs_flatMap]
    simp only [Spec.SlhLite.pad32_eq (length_wotsSign _ _)]
    rfl

/-! ## Trees -/

theorem xmssLeafFromKeypair_eq (ht : t < 2 ^ 64) :
    xmssLeafFromKeypair H seed skSeed l t kp =
      Comp.ret (HashSig.wotsPk params (T H seed) (secret H skSeed) l t kp)
        (inputs seed skSeed (wotsPkEvents params (T H seed) (secret H skSeed) l t kp)) := by
  have hleaf : SlhDsaRef.thash H seed (Adrs.bytes ⟨l, t, 1, kp, 0, 0⟩) _ = _ := thash_node (.wotsPk l t kp)
    ((List.range 67).map fun i => wotsTop params (T H seed) l t kp i 0 (secret H skSeed (.wots l t kp i))) rfl
  rw [xmssLeafFromKeypair]
  simp only [TYPE_WOTS_PK, buildAdrs_at ht, pure_bind, Option.getD_some, Option.getD_none, wotsPk_eq,
    Comp.ret_bind, hleaf, Comp.after_ret]
  rw [wotsPkEvents, inputs_append]
  rfl

theorem xmssLeaves_eq (ht : t < 2 ^ 64) :
    xmssLeaves H seed skSeed l t =
      Comp.ret ((List.range 16).map (HashSig.wotsPk params (T H seed) (secret H skSeed) l t))
        (inputs seed skSeed
          ((List.range 16).flatMap (wotsPkEvents params (T H seed) (secret H skSeed) l t))) := by
  rw [xmssLeaves, SLH.h_prime, shl_eq (by decide) (by decide), pure_bind, show 1 <<< 4 = 16 by rfl,
    Comp.forLt_zero_ret (fun k => (List.range k).map (HashSig.wotsPk params (T H seed) (secret H skSeed) l t))
      (fun k => inputs seed skSeed (wotsPkEvents params (T H seed) (secret H skSeed) l t k)) (by rfl)
      fun k _ => ?_, inputs_flatMap]
  rw [xmssLeafFromKeypair_eq ht, Comp.ret_bind, Comp.after_pure, List.range_succ, List.map_append]
  rfl

/-- A level of a tree, at the positions `n`. -/
theorem nextLevel_eq (seed : Bytes) {ty h : Nat} {n : Nat → Node} {index : Nat → Nat}
    (hn : ∀ i, Spec.SlhLite.adrs (n i) = ⟨l, t, ty, h, index i, 0⟩)
    (hp : ∀ i xs, payload (n i) xs = xs.flatten) (v : Nat → Bytes) (m w : Nat) :
    ∃ w', nextLevel H seed (Adrs.bytes ⟨l, t, ty, h, w, 0⟩) ((List.range (2 * m)).map v) index =
      Comp.ret ((List.range m).map fun i => T H seed (n i) [v (2 * i), v (2 * i + 1)],
          Adrs.bytes ⟨l, t, ty, h, w', 0⟩)
        ((List.range m).map fun i => input seed (n i, [v (2 * i), v (2 * i + 1)])) := by
  have hlen : ((List.range (2 * m)).map v).length = 2 * m := by simp
  let last : Nat → Nat := Nat.rec w fun k _ => index k
  refine ⟨last m, ?_⟩
  rw [nextLevel, hlen, show (2 * m + 1) / 2 = m by omega, Comp.forLt_zero_ret
    (fun k => ((List.range k).map fun i => T H seed (n i) [v (2 * i), v (2 * i + 1)],
      Adrs.bytes ⟨l, t, ty, h, last k, 0⟩))
    (fun i => [input seed (n i, [v (2 * i), v (2 * i + 1)])]) (by rfl) fun i hi => ?_, ← List.map_eq_flatMap]
  have hnode : SlhDsaRef.thash H seed (Adrs.bytes ⟨l, t, ty, h, index i, 0⟩) [v (2 * i),
    v (2 * i + 1)].flatten =
      Comp.ret (T H seed (n i) [v (2 * i), v (2 * i + 1)])
      [input seed (n i, [v (2 * i), v (2 * i + 1)])] := by
    rw [← hn i]
    exact thash_node _ _ (hp i _).symm
  simp only [writeWord2_eq, get_eq (show 2 * i < ((List.range (2 * m)).map v).length by omega),
    get_eq (show 2 * i + 1 < ((List.range (2 * m)).map v).length by omega), List.getElem_map,
    List.getElem_range, pure_bind, concat_eq, hnode, Comp.ret_bind, Comp.after_pure]
  rw [List.range_succ, List.map_append]
  rfl

/-- The events of the level above height `h` of a tree of height `n`. -/
def levelAt (pos : Nat → Nat → Node) (v : Nat → Nat → Bytes) (n h : Nat) : List (Event Bytes) :=
  (List.range (2 ^ (n - (h + 1)))).map fun j => .eval (pos (h + 1) j, [v h (2 * j), v h (2 * j + 1)])

/-- The level above height `h` of a tree of height `n`. -/
theorem treeLevel_eq (seed skSeed : Bytes) {ty n h : Nat} (hh : h < n) (pos : Nat → Nat → Node)
    {index : Nat → Nat} (hn : ∀ i, Spec.SlhLite.adrs (pos (h + 1) i) = ⟨l, t, ty, h + 1, index i, 0⟩)
    (hp : ∀ i xs, payload (pos (h + 1) i) xs = xs.flatten) (leaf : Nat → Bytes) (w : Nat) :
    let v := tree (fun h i x y => T H seed (pos h i) [x, y]) leaf
    ∃ w', nextLevel H seed (Adrs.bytes ⟨l, t, ty, h + 1, w, 0⟩) ((List.range (2 ^ (n - h))).map (v h)) index =
      Comp.ret ((List.range (2 ^ (n - (h + 1)))).map (v (h + 1)), Adrs.bytes ⟨l, t, ty, h + 1, w', 0⟩)
        (inputs seed skSeed (levelAt pos v n h)) := by
  intro v
  obtain ⟨w', hl⟩ := nextLevel_eq (H := H) seed hn hp (v h) (2 ^ (n - (h + 1))) w
  refine ⟨w', ?_⟩
  rw [show 2 ^ (n - h) = 2 * 2 ^ (n - (h + 1)) by rw [← pow_succ']; congr 1; omega, hl, inputs, levelAt,
    List.map_map]
  rfl

/-! ## XMSS -/

theorem xmssRoot_eq (ht : t < 2 ^ 64) :
    SlhDsaRef.xmssRoot H seed skSeed l t =
      Comp.ret (xmssTree params (T H seed) (secret H skSeed) l t 4 0)
        (inputs seed skSeed (xmssTreeEvents params (T H seed) (secret H skSeed) l t)) := by
  let v := xmssTree params (T H seed) (secret H skSeed) l t
  rw [SlhDsaRef.xmssRoot]
  simp only [TYPE_TREE, xmssLeaves_eq ht, buildAdrs_at ht, Comp.ret_bind, pure_bind, Option.getD_some,
    Option.getD_none]
  refine (congrArg (Comp.after _) (Comp.forLt_one_bind (n := 4)
    (c := Comp.ret (v 4 0) (inputs seed skSeed (levelEvents (.merkle l t) v 4)))
    (fun h x => x.1 = (List.range (2 ^ (4 - h))).map (v h) ∧ ∃ w1 w2, x.2 = Adrs.bytes ⟨l, t, 2, w1, w2, 0⟩)
    (fun h => inputs seed skSeed (levelAt (.merkle l t) v 4 h)) ⟨rfl, _, _, rfl⟩ ?_ ?_)).trans ?_
  · rintro h ⟨nodes, a⟩ hh ⟨rfl, w1, w2, rfl⟩
    obtain ⟨w, hl⟩ := treeLevel_eq (H := H) seed skSeed hh (.merkle l t) (fun _ => rfl) (fun _ _ => rfl)
      (HashSig.wotsPk params (T H seed) (secret H skSeed) l t) w2
    refine ⟨(_, Adrs.bytes ⟨l, t, 2, h + 1, w, 0⟩), ⟨rfl, _, _, rfl⟩, ?_⟩
    simp only [writeWord1_eq]
    exact hl
  · rintro ⟨nodes, a⟩ ⟨rfl, -⟩
    rw [get_eq (by simp), Comp.after_pure, List.getElem_map, List.getElem_range, levelEvents, inputs_flatMap]
    rfl
  · rw [Comp.after_ret, xmssTreeEvents, inputs_append]
    rfl

/-- The siblings of the path from leaf `idx`. -/
def authBytes (v : Nat → Nat → Bytes) (idx n : Nat) : Bytes :=
  (List.range n).flatMap fun h => v h (sibling idx h)

theorem sibling_lt {idx n h : Nat} (hidx : idx < 2 ^ n) (hh : h < n) : sibling idx h < 2 ^ (n - h) := by
  refine Nat.xor_lt_two_pow ?_ (Nat.one_lt_two_pow (by omega))
  rw [Nat.shiftRight_eq_div_pow]
  refine Nat.div_lt_of_lt_mul ?_
  rwa [← pow_add, Nat.add_sub_cancel' (by omega)]

/-- Writing the sibling at height `h` of the path from leaf `idx` of a tree of height `n`. -/
theorem authStep_eq {β : Type} {g : Bytes → Js β} {v : Nat → Nat → Bytes} (hv : ∀ h i, (v h i).length = 32)
    {idx n h : Nat} (hidx : idx < 2 ^ n) (h31 : idx < 2 ^ 31) (hh : h < n) :
    (do
      let sib ← Js.xor (idx >>> h) 1
      let auth ← Js.set (authBytes v idx h ++ zeros ((n - h) * 32))
        (← Js.get ((List.range (2 ^ (n - h))).map (v h)) sib) (h * 32)
      g auth) = g (authBytes v idx (h + 1) ++ zeros ((n - (h + 1)) * 32)) := by
  have hsib := sibling_lt hidx hh
  have hlen : (authBytes v idx h).length = h * 32 := length_flatMap_range fun i _ => hv i _
  have hcell := set_cell hlen hh (Nat.le_of_eq (hv h (sibling idx h)))
  rw [xor_eq (Nat.lt_of_le_of_lt (Nat.shiftRight_le _ _) h31) (by decide), pure_bind,
    get_eq (by rwa [List.length_map, List.length_range]), pure_bind, List.getElem_map, List.getElem_range]
  refine (congrArg (· >>= g) hcell).trans ?_
  rw [pure_bind, hv, authBytes, authBytes, List.range_succ, List.flatMap_append, List.flatMap_singleton]
  simp [zeros]

theorem length_xmssTree : ∀ h i, (xmssTree params (T H seed) (secret H skSeed) l t h i).length = 32
  | 0, _ => length_thash _ _
  | _ + 1, _ => length_thash _ _

theorem xmssAuthPath_eq {idx : Nat} (ht : t < 2 ^ 64) (hidx : idx < 2 ^ 4) :
    xmssAuthPath H seed skSeed l t idx =
      Comp.ret (authBytes (xmssTree params (T H seed) (secret H skSeed) l t) idx 4)
        (inputs seed skSeed (xmssTreeEvents params (T H seed) (secret H skSeed) l t)) := by
  let v := xmssTree params (T H seed) (secret H skSeed) l t
  rw [xmssAuthPath]
  simp only [TYPE_TREE, xmssLeaves_eq ht, buildAdrs_at ht, Comp.ret_bind, pure_bind, Option.getD_some,
    Option.getD_none]
  refine (congrArg (Comp.after _) (Comp.forLt_one_bind (n := 4)
    (c := Comp.ret (authBytes v idx 4) (inputs seed skSeed (levelEvents (.merkle l t) v 4)))
    (fun h x => x.1 = (List.range (2 ^ (4 - h))).map (v h) ∧
      x.2.1 = authBytes v idx h ++ zeros ((4 - h) * 32) ∧ x.2.2.1 = idx >>> h ∧
      ∃ w1 w2, x.2.2.2 = Adrs.bytes ⟨l, t, 2, w1, w2, 0⟩)
    (fun h => inputs seed skSeed (levelAt (.merkle l t) v 4 h)) ⟨rfl, rfl, rfl, _, _, rfl⟩ ?_ ?_)).trans ?_
  · rintro h ⟨nodes, auth, i, a⟩ hh ⟨rfl, rfl, rfl, w1, w2, rfl⟩
    obtain ⟨w, hl⟩ := treeLevel_eq (H := H) seed skSeed hh (.merkle l t) (fun _ => rfl) (fun _ _ => rfl)
      (HashSig.wotsPk params (T H seed) (secret H skSeed) l t) w2
    refine ⟨(_, _, idx >>> (h + 1), Adrs.bytes ⟨l, t, 2, h + 1, w, 0⟩), ⟨rfl, rfl, rfl, _, _, rfl⟩, ?_⟩
    simp only [SLH.n, writeWord1_eq, Nat.add_sub_cancel]
    refine (authStep_eq length_xmssTree hidx (by omega) hh).trans ?_
    refine (congrArg (· >>= _) hl).trans ?_
    rw [Comp.ret_bind, sar_eq (Nat.lt_of_le_of_lt (Nat.shiftRight_le _ _) (by omega)) (by decide), pure_bind,
      ← Nat.shiftRight_add, Comp.after_pure]
    rfl
  · rintro ⟨nodes, auth, i, a⟩ ⟨-, rfl, -⟩
    rw [Comp.after_pure, levelEvents, inputs_flatMap, show zeros ((4 - 4) * 32) = [] by rfl, List.append_nil]
    rfl
  · rw [Comp.after_ret, xmssTreeEvents, inputs_append]
    rfl

/-- The signature of `m` at leaf `kp` of tree `t` of layer `l`. -/
def xmssPart (H : Hash) (seed skSeed : Bytes) (l t kp : Nat) (m : Bytes) : SlhDsaRef.XmssSig where
  wotsSig := (List.range 67).flatMap (HashSig.wotsSign (T H seed) (secret H skSeed) l t kp (digits m))
  authPath := authBytes (xmssTree params (T H seed) (secret H skSeed) l t) kp 4

theorem xmssPart_agree (m : Bytes) :
    (xmssSig (xmssPart H seed skSeed l t kp m).wotsSig
      (xmssPart H seed skSeed l t kp m).authPath).Agree params
      (HashSig.xmssSign params (T H seed) (secret H skSeed) l t kp (digits m)) :=
  ⟨fun _ hi => window_flatMap (fun _ _ => length_wotsSign _ _) hi,
    fun _ hj => window_flatMap (fun _ _ => length_xmssTree _ _) hj⟩

theorem xmssSign_eq {m : Bytes} (hm : m.length = 32) (ht : t < 2 ^ 64) (hkp : kp < 2 ^ 4) :
    SlhDsaRef.xmssSign H seed skSeed l t kp m =
      Comp.ret (xmssPart H seed skSeed l t kp m)
        (inputs seed skSeed (xmssSignEvents params (T H seed) (secret H skSeed) l t kp (digits m))) := by
  rw [SlhDsaRef.xmssSign]
  simp only [buildAdrs_at ht, pure_bind, Option.getD_some, Option.getD_none, wotsSign_eq hm,
    xmssAuthPath_eq ht hkp, Comp.ret_bind, Comp.after_pure, Comp.after_ret]
  rw [xmssSignEvents, inputs_append]
  rfl

/-! ## Keys and the hypertree -/

/-- The root of the key that a secret seed belongs to. -/
abbrev rootOf (H : Hash) (seed skSeed : Bytes) : Bytes :=
  xmssTree params (T H seed) (secret H skSeed) 1 0 4 0

theorem keygen_eq :
    keygen H seed skSeed =
      Comp.ret (⟨seed, rootOf H seed skSeed⟩, ⟨seed, skSeed⟩)
        (inputs seed skSeed (xmssTreeEvents params (T H seed) (secret H skSeed) 1 0)) := by
  rw [keygen, xmssRoot_eq (by decide), Comp.ret_bind, Comp.after_pure]
  rfl

theorem length_htMsg {m : Bytes} (hm : m.length = 32) :
    ∀ l, (htMsg params (T H seed) (secret H skSeed) t m l).length = 32
  | 0 => hm
  | _ + 1 => length_xmssTree _ _

/-- The hypertree's signature of `m` at leaf `kp` of tree `t`. -/
def htPart (H : Hash) (seed skSeed : Bytes) (t kp : Nat) (m : Bytes) (l : Nat) : SlhDsaRef.XmssSig :=
  xmssPart H seed skSeed l (treeAt params t l) (leafAt params t kp l)
    (htMsg params (T H seed) (secret H skSeed) t m l)

theorem htSign_eq {m : Bytes} (hm : m.length = 32) (ht : t < 2 ^ 53) (hkp : kp < 2 ^ 4) :
    SlhDsaRef.htSign H seed skSeed m t kp =
      Comp.ret ⟨(List.range 2).map (htPart H seed skSeed t kp m)⟩
        (inputs seed skSeed (htSignEvents params (T H seed) (secret H skSeed) digits t kp m 2)) := by
  refine Comp.forLt_zero_bind (fun k x => x = ((List.range k).map (htPart H seed skSeed t kp m),
      htMsg params (T H seed) (secret H skSeed) t m k, treeAt params t k, leafAt params t kp k))
    (fun k => inputs seed skSeed (xmssSignEvents params (T H seed) (secret H skSeed) k (treeAt params t k)
      (leafAt params t kp k) (digits (htMsg params (T H seed) (secret H skSeed) t m k)) ++
        xmssTreeEvents params (T H seed) (secret H skSeed) k (treeAt params t k))) rfl ?_ ?_
  · rintro k _ hk rfl
    have htk := treeAt_le (p := params) t k
    refine ⟨_, rfl, ?_⟩
    simp only [SLH.h_prime, number_eq (show treeAt params t k < 2 ^ 53 by omega), and_mask,
      number_eq (show treeAt params t k % 2 ^ 4 < 2 ^ 53 by omega), pure_bind]
    rw [xmssSign_eq (length_htMsg hm k) (by omega) (leafAt_lt (p := params) hkp k), Comp.ret_bind,
      xmssRoot_eq (by omega), Comp.ret_bind, Comp.after_pure, Comp.after_ret, List.range_succ,
      List.map_append, treeAt_succ, inputs_append]
    rfl
  · rintro _ rfl
    rw [Comp.after_pure, htSignEvents, inputs_flatMap]
    rfl

/-- What is signed climbs to the top tree's root. -/
theorem rootFrom_sign {msg : Bytes} (fors : ForsSig Bytes) :
    let sel := Spec.SlhLite.selection H seed msg
    Spec.SlhLite.rootFrom H seed msg fors (htParts (htPart H seed skSeed sel.tree sel.leaf
        (forsPkFromSig params (T H seed) 0 sel.tree sel.leaf sel.fors fors))) =
      xmssTree params (T H seed) (secret H skSeed) 1 0 4 0 := by
  intro sel
  have hsign : rootFromSig params (T H seed) digits sel.tree sel.leaf sel.fors fors
      (HashSig.htSign params (T H seed) (secret H skSeed) digits sel.tree sel.leaf
        (forsPkFromSig params (T H seed) 0 sel.tree sel.leaf sel.fors fors)) = _ :=
    rootFromSig_sign (by decide) (Spec.SlhLite.leaf_lt (H (seed ++ msg)))
      (Spec.SlhLite.tree_lt (H (seed ++ msg))) (fun x i _ => Nat.le_sub_one_of_lt (digits_lt x i)) fors
  exact (htRoot_congr fun l _ => xmssPart_agree _).trans hsign

/-! ## FORS -/

theorem forsSk_eq (t kp i j : Nat) :
    forsSk H skSeed t i j =
      Comp.ret (secret H skSeed (.fors t kp i j)) [secretInput skSeed (.fors t kp i j)] := by
  have hlt : ∀ n, n &&& 0xffffffff < 2 ^ 53 := fun n => Nat.lt_of_le_of_lt Nat.and_le_right (by decide)
  have hand : ∀ n, be 4 (n &&& 0xffffffff) = be 4 n := fun n => by
    rw [show 0xffffffff = 2 ^ 32 - 1 by rfl, Nat.and_two_pow_sub_one_eq_mod]
    exact be_mod 4 n
  have hw : ∀ a b c d, writeU32BE (writeU32BE (writeU32BE (writeU32BE (zeros 16) 0 a) 4 b) 8 c) 12 d =
      be 4 a ++ be 4 b ++ be 4 c ++ be 4 d := fun a b c d => by
    have h0 : writeU32BE (be 4 0 ++ (be 4 0 ++ be 4 0 ++ be 4 0)) 0 a = _ := writeU32BE_word (x := []) rfl 0 a
    have h1 : writeU32BE (be 4 a ++ be 4 0 ++ (be 4 0 ++ be 4 0)) 4 b = _ := writeU32BE_word (by simp) 0 b
    have h2 : writeU32BE (be 4 a ++ be 4 b ++ be 4 0 ++ be 4 0) 8 c = _ := writeU32BE_word (by simp) 0 c
    have h3 : writeU32BE (be 4 a ++ be 4 b ++ be 4 c ++ be 4 0 ++ []) 12 d = _ :=
      writeU32BE_word (by simp) 0 d
    simp only [List.nil_append, List.append_nil, ← List.append_assoc] at h0 h1 h2 h3
    rw [show zeros 16 = be 4 0 ++ be 4 0 ++ be 4 0 ++ be 4 0 by rfl, h0, h1, h2, h3]
  have hin : [skSeed, forsTag, be 4 (t >>> 32) ++ be 4 t ++ be 4 i ++ be 4 j].flatten =
      secretInput skSeed (.fors t kp i j) := by
    simp [secretInput, Spec.SlhLite.forsTag, forsTag, be_add 4 4 t]
  simp only [forsSk, number_eq (hlt t), number_eq (hlt (t >>> 32)), pure_bind, Nat.reduceAdd, hw, hand,
    concat_eq, hin]
  rfl

theorem length_forsTree (i : Nat) :
    ∀ h j, (forsTree params (T H seed) (secret H skSeed) 0 t kp i h j).length = 32
  | 0, _ => length_thash _ _
  | _ + 1, _ => length_thash _ _

/-- The secret at leaf `j` of FORS tree `i` and the siblings of its path; the
addresses and secrets do not depend on the leaf `kp` of the tree `t`. -/
theorem forsLeavesAndAuth_eq {i j : Nat} (kp : Nat) (ht : t < 2 ^ 64) (hj : j < 2 ^ 3) :
    forsLeavesAndAuth H seed skSeed t i j =
      Comp.ret (secret H skSeed (.fors t kp i j),
          authBytes (forsTree params (T H seed) (secret H skSeed) 0 t kp i) j 3)
        (inputs seed skSeed (forsTreeEvents params (T H seed) (secret H skSeed) 0 t kp i ++
          [.derive (.fors t kp i j)])) := by
  let v := forsTree params (T H seed) (secret H skSeed) 0 t kp i
  let pos : Nat → Nat → Node := fun h j => .forsNode 0 t kp h (i * 2 ^ (3 - h) + j)
  have hshl : shl 1 3 = pure (2 ^ 3) := shl_eq (by decide) (by decide)
  rw [forsLeavesAndAuth]
  simp only [SLH.a, SLH.n, TYPE_FORS_TREE, hshl, buildAdrs_at ht, pure_bind, Option.getD_some,
    Option.getD_none]
  refine Comp.forLt_zero_bind (n := 2 ^ 3) (fun k x => x.1 = (List.range k).map (v 0) ∧
      ∃ w, x.2 = Adrs.bytes ⟨0, t, 3, 0, w, 0⟩)
    (fun k => inputs seed skSeed [.derive (.fors t kp i k),
      .eval (.forsNode 0 t kp 0 (i * 2 ^ 3 + k), [secret H skSeed (.fors t kp i k)])]) ⟨rfl, _, rfl⟩ ?_ ?_
  · rintro k ⟨nodes, a⟩ hk ⟨rfl, w, rfl⟩
    have hleaf : SlhDsaRef.thash H seed (Adrs.bytes ⟨0, t, 3, 0, i * 2 ^ 3 + k, 0⟩)
        (secret H skSeed (.fors t kp i k)) = Comp.ret (v 0 k)
          [input seed (.forsNode 0 t kp 0 (i * 2 ^ 3 + k), [secret H skSeed (.fors t kp i k)])] :=
      thash_node (.forsNode 0 t kp 0 (i * 2 ^ 3 + k)) [secret H skSeed (.fors t kp i k)] (by simp [payload])
    refine ⟨(_, Adrs.bytes ⟨0, t, 3, 0, i * 2 ^ 3 + k, 0⟩), ⟨rfl, _, rfl⟩, ?_⟩
    simp only [forsSk_eq t kp, writeWord2_eq, Comp.ret_bind, hleaf, Comp.after_pure, Comp.after_ret]
    rw [List.range_succ, List.map_append]
    rfl
  rintro ⟨nodes, a⟩ ⟨rfl, -⟩
  refine (congrArg (Comp.after _) (Comp.forLt_one_bind (n := 3)
    (c := Comp.ret (secret H skSeed (.fors t kp i j), authBytes v j 3)
      (inputs seed skSeed (levelEvents pos v 3 ++ [.derive (.fors t kp i j)])))
    (fun h x => x.1 = (List.range (2 ^ (3 - h))).map (v h) ∧
      x.2.1 = authBytes v j h ++ zeros ((3 - h) * 32) ∧ x.2.2.1 = j >>> h ∧
      ∃ w1 w2, x.2.2.2 = Adrs.bytes ⟨0, t, 3, w1, w2, 0⟩)
    (fun h => inputs seed skSeed (levelAt pos v 3 h)) ⟨rfl, rfl, rfl, _, _, rfl⟩ ?_ ?_)).trans ?_
  · rintro h ⟨nodes, auth, cur, a⟩ hh ⟨rfl, rfl, rfl, w1, w2, rfl⟩
    have hpow : 1 <<< (3 - (h + 1)) < 2 ^ 31 := by
      rw [Nat.one_shiftLeft]
      exact Nat.pow_lt_pow_right (by decide) (by omega)
    obtain ⟨w, hl⟩ := treeLevel_eq (H := H) seed skSeed hh pos (fun _ => rfl) (fun _ _ => rfl)
      (fun j => forsLeaf params (T H seed) 0 t kp i j (secret H skSeed (.fors t kp i j))) w2
    refine ⟨(_, _, j >>> (h + 1), Adrs.bytes ⟨0, t, 3, h + 1, w, 0⟩), ⟨rfl, rfl, rfl, _, _, rfl⟩, ?_⟩
    simp only [writeWord1_eq, Nat.add_sub_cancel]
    refine (authStep_eq (length_forsTree i) hj (by omega) hh).trans ?_
    rw [shl_eq (by omega) hpow, pure_bind, Nat.one_shiftLeft]
    refine (congrArg (· >>= _) hl).trans ?_
    rw [Comp.ret_bind, sar_eq (Nat.lt_of_le_of_lt (Nat.shiftRight_le _ _) (by omega)) (by decide), pure_bind,
      ← Nat.shiftRight_add, Comp.after_pure]
    rfl
  · rintro ⟨nodes, auth, cur, a⟩ ⟨-, rfl, -⟩
    rw [forsSk_eq t kp, Comp.ret_bind, Comp.after_pure, Comp.after_ret, levelEvents, inputs_append,
      inputs_flatMap, show zeros ((3 - 3) * 32) = [] by rfl, List.append_nil]
    rfl
  · rw [Comp.after_ret, ← inputs_flatMap, ← inputs_append, ← List.append_assoc]
    rfl

/-- What tree `i` adds to a FORS signature: the secret at leaf `j` and its path. -/
def forsPart (H : Hash) (seed skSeed : Bytes) (t kp i j : Nat) : Bytes :=
  secret H skSeed (.fors t kp i j) ++ authBytes (forsTree params (T H seed) (secret H skSeed) 0 t kp i) j 3

def forsBytes (H : Hash) (seed skSeed : Bytes) (t kp : Nat) (idx : Nat → Nat) : Bytes :=
  (List.range 4).flatMap fun i => forsPart H seed skSeed t kp i (idx i)

theorem length_authBytes {v : Nat → Nat → Bytes} (hv : ∀ h i, (v h i).length = 32) (idx n : Nat) :
    (authBytes v idx n).length = n * 32 := length_flatMap_range fun i _ => hv i _

theorem length_forsPart (i j : Nat) : (forsPart H seed skSeed t kp i j).length = 128 := by
  rw [forsPart, List.length_append, length_secret, length_authBytes (length_forsTree i)]

theorem length_forsBytes (idx : Nat → Nat) : (forsBytes H seed skSeed t kp idx).length = 512 :=
  length_flatMap_range fun i _ => length_forsPart i _

/-- Writing the two halves of a tree's part. -/
theorem forsCell_eq {done sk auth : Bytes} {i : Nat} (hd : done.length = i * 128) (hi : i < 4)
    (hs : sk.length = 32) (ha : auth.length = 96) :
    (do
      let out ← Js.set (done ++ zeros ((4 - i) * 128)) sk (i * 128)
      Js.set out auth (i * 128 + 32)) =
      pure (done ++ (sk ++ auth) ++ zeros ((4 - (i + 1)) * 128)) := by
  have hz : zeros (128 - 32) = zeros 96 := rfl
  have hpatch : patch (done ++ sk ++ zeros 96 ++ zeros ((4 - (i + 1)) * 128)) (i * 128 + 32) auth =
      done ++ sk ++ auth ++ zeros ((4 - (i + 1)) * 128) := by
    rw [show i * 128 + 32 = (done ++ sk).length by rw [List.length_append, hd, hs],
      patch_part (by rw [ha, length_zeros])]
  rw [set_cell hd hi (by omega), pure_bind, hs, hz, ← List.append_assoc,
    set_eq (by simp only [List.length_append, length_zeros]; omega), hpatch, ← List.append_assoc]

theorem forsSign_eq (kp : Nat) (ht : t < 2 ^ 64) {idx : Nat → Nat} (hidx : ∀ i, idx i < 2 ^ 3) :
    SlhDsaRef.forsSign H seed skSeed t ((List.range 4).map idx) =
      Comp.ret ⟨forsBytes H seed skSeed t kp idx⟩
        (inputs seed skSeed (forsSignEvents params (T H seed) (secret H skSeed) 0 t kp idx)) := by
  rw [SlhDsaRef.forsSign]
  refine Comp.forLt_zero_bind (fun k x => x = ((List.range k).flatMap fun i =>
      forsPart H seed skSeed t kp i (idx i)) ++ zeros ((4 - k) * 128))
    (fun i => inputs seed skSeed (forsTreeEvents params (T H seed) (secret H skSeed) 0 t kp i ++
      [.derive (.fors t kp i (idx i))])) rfl ?_ ?_
  · rintro i _ hi rfl
    replace hi : i < 4 := hi
    refine ⟨_, rfl, ?_⟩
    simp only [get_eq (show i < ((List.range 4).map idx).length by simpa using hi), List.getElem_map,
      List.getElem_range, pure_bind, forsLeavesAndAuth_eq kp ht (hidx i), Comp.ret_bind]
    refine (congrArg (Comp.after _) (forsCell_eq (length_flatMap_range fun i _ => length_forsPart i _) hi
      (length_secret _) (length_authBytes (length_forsTree i) _ 3))).trans ?_
    rw [Comp.after_pure, List.range_succ, List.flatMap_append, List.flatMap_singleton]
    rfl
  · rintro _ rfl
    rw [Comp.after_pure, forsSignEvents, inputs_flatMap, show zeros ((4 - SLH.k) * 128) = [] by rfl,
      List.append_nil]
    rfl

theorem forsBytes_agree (idx : Nat → Nat) :
    (forsSig (forsBytes H seed skSeed t kp idx)).Agree params
      (HashSig.forsSign params (T H seed) (secret H skSeed) 0 t kp idx) := by
  intro i hi
  have hcell : window (forsBytes H seed skSeed t kp idx) (i * 128) 128 =
    forsPart H seed skSeed t kp i (idx i) :=
    window_flatMap (fun i _ => length_forsPart i _) hi
  have hsk : (secret H skSeed (.fors t kp i (idx i))).length = 32 := length_secret _
  have hauth : (authBytes (forsTree params (T H seed) (secret H skSeed) 0 t kp i) (idx i) 3).length = 96 :=
    length_authBytes (length_forsTree i) _ 3
  refine ⟨?_, fun j hj => ?_⟩
  · have hw : window (forsBytes H seed skSeed t kp idx) (i * 128) 32 =
        window (forsPart H seed skSeed t kp i (idx i)) 0 32 := by
      rw [← hcell, window_window _ (by decide), Nat.add_zero]
    refine hw.trans ?_
    rw [forsPart, window_append_left _ _ (by omega), window_full (by omega)]
    rfl
  · have hw : window (forsBytes H seed skSeed t kp idx) (i * 128 + 32) 96 =
        window (forsPart H seed skSeed t kp i (idx i)) (32 + 0) 96 := by
      rw [← hcell, window_window _ (by decide), Nat.add_zero]
    have hright := window_append_right (secret H skSeed (.fors t kp i (idx i)))
      (authBytes (forsTree params (T H seed) (secret H skSeed) 0 t kp i) (idx i) 3) 0 96
    rw [hsk, window_full (Nat.le_of_eq hauth)] at hright
    refine (congrArg (window · (j * 32) 32) (hw.trans hright)).trans ?_
    exact window_flatMap (fun _ _ => length_forsTree _ _ _) hj

/-! ## Signatures -/

/-- The FORS part of the signature of a message. -/
def forsOf (H : Hash) (seed skSeed msg : Bytes) : Bytes :=
  let s := Spec.SlhLite.selection H seed msg
  forsBytes H seed skSeed s.tree s.leaf s.fors

/-- What the hypertree signs for a message. -/
def forsPkOf (H : Hash) (seed skSeed msg : Bytes) : Bytes :=
  let s := Spec.SlhLite.selection H seed msg
  forsPkFromSig params (T H seed) 0 s.tree s.leaf s.fors (forsSig (forsOf H seed skSeed msg))

/-- The hypertree part of the signature of a message. -/
def htOf (H : Hash) (seed skSeed msg : Bytes) : Nat → SlhDsaRef.XmssSig :=
  let s := Spec.SlhLite.selection H seed msg
  htPart H seed skSeed s.tree s.leaf (forsPkOf H seed skSeed msg)

/-- What a signer does for a message. -/
def eventsOf (H : Hash) (seed skSeed msg : Bytes) : List (Event Bytes) :=
  let s := Spec.SlhLite.selection H seed msg
  signEvents params (T H seed) (secret H skSeed) digits s.tree s.leaf s.fors

theorem sign_eq (msg : Bytes) :
    sign H ⟨seed, skSeed⟩ msg =
      Comp.ret ⟨⟨forsOf H seed skSeed msg⟩, ⟨(List.range 2).map (htOf H seed skSeed msg)⟩⟩
        ((seed ++ msg) :: inputs seed skSeed (eventsOf H seed skSeed msg)) := by
  have hsel : Spec.SlhLite.split (H (seed ++ msg)) = Spec.SlhLite.selection H seed msg := rfl
  have ht := Spec.SlhLite.tree_lt (H (seed ++ msg))
  have hkp := Spec.SlhLite.leaf_lt (H (seed ++ msg))
  have hfors := Spec.SlhLite.fors_lt (H (seed ++ msg))
  have hcat : [seed, msg].flatten = seed ++ msg := by simp
  simp only [hsel] at ht hkp hfors
  rw [SlhDsaRef.sign, concat_eq, pure_bind, hcat, Comp.hash, Comp.ret_bind,
    splitDigest_eq (H.length_apply _), pure_bind]
  simp only [hsel]
  rw [forsSign_eq (Spec.SlhLite.selection H seed msg).leaf (by omega) hfors, Comp.ret_bind,
    forsRootFromSig_eq (Spec.SlhLite.selection H seed msg).leaf (by omega) hfors, Comp.ret_bind,
    htSign_eq (length_forsPk _ _) (by omega) hkp, Comp.ret_bind, Comp.after_pure, Comp.after_ret,
    Comp.after_ret, Comp.after_ret, eventsOf, signEvents, ← forsEvals_congr (forsBytes_agree _),
    ← forsPkFromSig_congr (forsBytes_agree _), inputs_append, inputs_append, inputs_eval,
    List.append_assoc]
  rfl

/-! ## Packing -/

/-- A layer's part of a packed signature. -/
def packPart (s : SlhDsaRef.XmssSig) : Bytes := s.wotsSig ++ s.authPath

def packBytes (fors : Bytes) (s : Nat → SlhDsaRef.XmssSig) : Bytes :=
  fors ++ (List.range 2).flatMap fun l => packPart (s l)

theorem packSignature_eq (fors : Bytes) (s : Nat → SlhDsaRef.XmssSig) :
    packSignature ⟨⟨fors⟩, ⟨(List.range 2).map s⟩⟩ = pure (packBytes fors s) := by
  rw [packSignature, concat_eq, packBytes]
  simp [List.range_succ, packPart]

/-- A layer's part of the right lengths. -/
def Sized (s : SlhDsaRef.XmssSig) : Prop := s.wotsSig.length = 2144 ∧ s.authPath.length = 128

theorem length_packPart {s : SlhDsaRef.XmssSig} (hs : Sized s) : (packPart s).length = 2272 := by
  rw [packPart, List.length_append, hs.1, hs.2]

section Packed

variable {fors msg : Bytes} {s : Nat → SlhDsaRef.XmssSig} (hf : fors.length = 512) (hs : ∀ l, Sized (s l))

include hf hs

theorem length_packBytes : (packBytes fors s).length = 5056 := by
  rw [packBytes, List.length_append, hf, length_flatMap_range (w := 2272) fun l _ => length_packPart (hs l)]

theorem htSig_packBytes {l : Nat} (hl : l < 2) : Spec.SlhLite.htSig (packBytes fors s) l = htParts s l := by
  have hcell : window (packBytes fors s) (512 + l * 2272) 2272 = packPart (s l) := by
    rw [packBytes, ← hf, window_append_right]
    exact window_flatMap (fun l _ => length_packPart (hs l)) hl
  have hw : window (packBytes fors s) (512 + l * 2272) 2144 = (s l).wotsSig := by
    rw [← Nat.add_zero (512 + l * 2272), ← window_window _ (show 0 + 2144 ≤ 2272 by decide), hcell, packPart,
      window_append_left _ _ (by rw [(hs l).1]), window_full (by rw [(hs l).1])]
  have ha : window (packBytes fors s) (512 + l * 2272 + 2144) 128 = (s l).authPath := by
    rw [← window_window _ (show 2144 + 128 ≤ 2272 by decide), hcell, packPart, ← (hs l).1,
      ← Nat.add_zero (List.length _), window_append_right, window_full (by rw [(hs l).2])]
  rw [Spec.SlhLite.htSig, hw, ha]

/-- A packed signature leads to the root its parts do. -/
theorem root_packBytes :
    Spec.SlhLite.root H seed msg (packBytes fors s) =
      Spec.SlhLite.rootFrom H seed msg (forsSig fors) (htParts s) := by
  have hfors : window (packBytes fors s) 0 512 = fors := by
    rw [packBytes, window_append_left _ _ (by omega), window_full (by omega)]
  rw [Spec.SlhLite.root, hfors, Spec.SlhLite.rootFrom, Spec.SlhLite.rootFrom, rootFromSig, rootFromSig]
  exact htRoot_congr fun l hl => by
    rw [htSig_packBytes hf hs hl]
    exact ⟨fun _ _ => rfl, fun _ _ => rfl⟩

end Packed

/-- The packed signature of a message. -/
def packedOf (H : Hash) (seed skSeed msg : Bytes) : Bytes :=
  packBytes (forsOf H seed skSeed msg) (htOf H seed skSeed msg)

theorem xmssPart_sized (m : Bytes) : Sized (xmssPart H seed skSeed l t kp m) :=
  ⟨length_flatMap_range fun _ _ => length_wotsSign _ _, length_authBytes length_xmssTree _ 4⟩

theorem length_forsOf (msg : Bytes) : (forsOf H seed skSeed msg).length = 512 := length_forsBytes _

theorem htOf_sized (msg : Bytes) (l : Nat) : Sized (htOf H seed skSeed msg l) := xmssPart_sized _

theorem length_packedOf (msg : Bytes) : (packedOf H seed skSeed msg).length = 5056 :=
  length_packBytes (length_forsOf msg) (htOf_sized msg)

/-- A signature leads to the key's root. -/
theorem root_packedOf (msg : Bytes) :
    Spec.SlhLite.root H seed msg (packedOf H seed skSeed msg) = rootOf H seed skSeed := by
  rw [packedOf, root_packBytes (length_forsOf msg) (htOf_sized msg)]
  exact rootFrom_sign _

end SuiPq.Proof.SlhDsaRef
