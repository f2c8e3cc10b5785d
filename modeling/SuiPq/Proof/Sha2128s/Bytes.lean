import SuiPq.Impl.Sha2128s
import SuiPq.Proof.MoveBytes
import SuiPq.Spec.Slh128s

/-!
# The on-chain 128s verifier: bytes, addresses and hashes

What the helpers of `sha2_128s` compute: copies and comparisons of byte
strings, the setters of a compressed address (`adrsSetTree_eq` and so on,
over the fields of `Adrs`), the truncated hash and the message digest
(`hmsg_eq`).
-/

namespace SuiPq.Proof.Sha2128s

open SuiPq.Impl SuiPq.Impl.MoveBytes SuiPq.Impl.Sha2128s SuiPq.Move SuiPq.HashSig
open SuiPq.Spec.Slh128s (Adrs mgf1Stream mgf1Stream_succ length_mgf1Stream)

/-! ## Bytes -/

theorem concat3_eq {b c : Bytes} (hb : b.length < 2 ^ 64) (hc : c.length < 2 ^ 64) (a : Bytes) :
    concat3 a b c = pure (a ++ b ++ c) := by
  rw [concat3, concat_eq hb, pure_bind]
  exact concat_eq hc _

theorem concat4_eq {b c d : Bytes} (hb : b.length < 2 ^ 64) (hc : c.length < 2 ^ 64)
    (hd : d.length < 2 ^ 64) (a : Bytes) : concat4 a b c d = pure (a ++ b ++ c ++ d) := by
  rw [concat4, concat3_eq hb hc, pure_bind]
  exact concat_eq hd _

theorem appendSlice_eq {src : Bytes} {start len : Nat} (h : start + len ≤ src.length)
    (hf : start + len < 2 ^ 64) (dst : Bytes) :
    appendSlice dst src start len = pure (dst ++ window src start len) :=
  copyLoop (by omega) h fun k hk => by rw [add_eq (by omega), pure_bind]

theorem writeU64Be_eq {buf : Bytes} {off : Nat} (h : off + 8 ≤ buf.length) (hf : off + 8 < 2 ^ 64)
    (v : Nat) : writeU64Be buf off v = pure (patch buf off (be 8 v)) := by
  rw [writeU64Be, beLoop (o := off) h fun i hi v buf => ?_, pure_bind]
  simp only [add_eq (show off + i < 2 ^ 64 by omega), shr_eq (show 8 < 64 by decide), pure_bind,
    byte_and_ff]

/-! ## Addresses -/

theorem adrsNew_eq : adrsNew = pure (Adrs.bytes ⟨0, 0, 0, 0, 0, 0⟩) :=
  Move.fillLoop (by decide)

variable (l t ty kp th ti v : Nat)

theorem adrsSetLayer_eq :
    adrsSetLayer (Adrs.bytes ⟨l, t, ty, kp, th, ti⟩) (UInt8.ofNat v) =
      pure (Adrs.bytes ⟨v, t, ty, kp, th, ti⟩) := by
  rw [adrsSetLayer, write_eq (by simp)]
  simp [Adrs.bytes, be]

theorem adrsSetTree_eq :
    adrsSetTree (Adrs.bytes ⟨l, t, ty, kp, th, ti⟩) v = pure (Adrs.bytes ⟨l, v, ty, kp, th, ti⟩) := by
  rw [adrsSetTree, writeU64Be_eq (by simp) (by decide), Spec.Slh128s.patch_tree]

theorem adrsSetType_eq (x : UInt8) :
    adrsSetType (Adrs.bytes ⟨l, t, ty, kp, th, ti⟩) x = pure (Adrs.bytes ⟨l, t, x.toNat, kp, th, ti⟩) := by
  rw [adrsSetType, write_eq (by simp)]
  simp [Adrs.bytes, be]

theorem adrsSetKeypair_eq :
    adrsSetKeypair (Adrs.bytes ⟨l, t, ty, kp, th, ti⟩) v = pure (Adrs.bytes ⟨l, t, ty, v, th, ti⟩) := by
  rw [adrsSetKeypair, writeU32_eq (by simp) (by decide), Spec.Slh128s.patch_keypair]

theorem adrsSetTreeHeight_eq :
    adrsSetTreeHeight (Adrs.bytes ⟨l, t, ty, kp, th, ti⟩) v = pure (Adrs.bytes ⟨l, t, ty, kp, v, ti⟩) := by
  rw [adrsSetTreeHeight, writeU32_eq (by simp) (by decide), Spec.Slh128s.patch_treeHeight]

theorem adrsSetTreeIndex_eq :
    adrsSetTreeIndex (Adrs.bytes ⟨l, t, ty, kp, th, ti⟩) v = pure (Adrs.bytes ⟨l, t, ty, kp, th, v⟩) := by
  rw [adrsSetTreeIndex, writeU32_eq (by simp) (by decide), Spec.Slh128s.patch_treeIndex]

/-! ## Hashes -/

theorem pkSeedPadded_eq (seed : Bytes) : pkSeedPadded seed = pure (Spec.Slh128s.pkPrefix seed) := by
  rw [pkSeedPadded, Move.fillLoop (by decide), Spec.Slh128s.pkPrefix]

theorem sha256Trunc_eq (H : Hash) (buf : Bytes) : sha256Trunc H buf = Comp.ret ((H buf).take 16) [buf] := by
  rw [sha256Trunc, Comp.hash, Comp.ret_bind, popLoop (by decide) (by simp)]
  simp

/-- Hashing under the address of a position. -/
theorem sha256Trunc_node (H : Hash) (pre : Bytes) (n : Node) (xs : List Bytes) {buf : Bytes}
    (h : buf = Spec.Slh128s.input pre (n, xs)) :
    sha256Trunc H buf = Comp.ret (Spec.Slh128s.thash H pre n xs) [Spec.Slh128s.input pre (n, xs)] := by
  rw [sha256Trunc_eq, h, Spec.Slh128s.thash]

/-! ## The message digest -/

/-- The inner loop of `mgf1Sha256`: appending a block until there are `n` bytes. -/
theorem blockLoop (block out : Bytes) (n : Nat) (hb : block.length = 32) :
    (whileGas (fun s : Nat × Bytes => s.1 < 32 && s.2.length < n)
      (fun s => do
        let x ← borrow block s.1
        let j ← Move.add 64 s.1 1
        pure (j, s.2 ++ [x])) 32 (0, out) : MoveFn (Nat × Bytes)) =
      pure (min 32 (n - out.length), out ++ block.take (n - out.length)) := by
  have hlen : ∀ j < min 32 (n - out.length), (out ++ block.take j).length = out.length + j :=
    fun j hj => by rw [List.length_append, List.length_take]; omega
  rw [whileGas, Comp.whileFuel_ret (n := min 32 (n - out.length))
    (fun j => (j, out ++ block.take j)) (fun _ => [])
    (by simp) (by omega) (fun j hj => ?_) (by simp; omega) fun j hj => ?_]
  · rw [List.flatMap_eq_nil_iff.mpr fun _ _ => rfl, Comp.ret_nil]
    rcases Nat.le_total 32 (n - out.length) with h | h
    · rw [Nat.min_eq_left h, List.take_of_length_le (by omega), List.take_of_length_le (by omega)]
    · rw [Nat.min_eq_right h]
  · simp only [hlen j hj, Bool.and_eq_true, decide_eq_true_eq]
    omega
  · have hj32 : j < block.length := by omega
    simp only [borrow_eq hj32, add_eq (show j + 1 < 2 ^ 64 by omega), pure_bind, List.append_assoc]
    rw [← List.take_succ_eq_append_getElem hj32]
    rfl

theorem mgf1Sha256_eq (H : Hash) (seed : Bytes) {n : Nat} (hn : n ≤ 32 * (2 ^ 32 - 1)) :
    mgf1Sha256 H seed n =
      Comp.ret (Spec.Slh128s.mgf1 H seed n) (Spec.Slh128s.mgf1Blocks seed n) := by
  have hlen : ∀ c, ((mgf1Stream H seed c).take n).length = min n (32 * c) := fun c => by
    rw [List.length_take, length_mgf1Stream]
  rw [mgf1Sha256, whileGas, Comp.whileFuel_ret (n := (n + 31) / 32)
    (fun c => (c, (mgf1Stream H seed c).take n))
    (fun c => [seed ++ be 4 c]) (by simp [mgf1Stream]) (by omega) (fun c hc => ?_)
    (by simp only [hlen]; simp; omega)
    fun c hc => ?_]
  · rw [Comp.ret_bind, Comp.after_pure, ← List.map_eq_flatMap, Spec.Slh128s.mgf1_eq, Spec.Slh128s.mgf1Blocks]
  · simp only [hlen, decide_eq_true_eq]
    omega
  · have hctr : writeU32 [0, 0, 0, 0] 0 c = pure (be 4 c) := by
      rw [writeU32_eq (by simp) (by decide), patch_self (by simp)]
    have hout : (mgf1Stream H seed c).take n = mgf1Stream H seed c :=
      List.take_of_length_le (by rw [length_mgf1Stream]; omega)
    simp only [hctr, pure_bind, concat_eq (show (be 4 c).length < 2 ^ 64 by simp), Comp.hash,
      Comp.ret_bind]
    rw [blockLoop _ _ _ (by simp), pure_bind, add_eq (by omega), pure_bind, Comp.after_pure,
      hout, mgf1Stream_succ, List.take_append, hout]

theorem hmsg_eq (H : Hash) {r seed root m : Bytes} (hseed : seed.length < 2 ^ 64)
    (hroot : root.length < 2 ^ 64) (hm : m.length < 2 ^ 64) :
    hmsg H r seed root m =
      Comp.ret (Spec.Slh128s.hmsg H r seed root m) (Spec.Slh128s.hmsgHashed H r seed root m) := by
  rw [hmsg, concat4_eq hseed hroot hm, pure_bind, Comp.hash, Comp.ret_bind,
    concat3_eq hseed (by simp), pure_bind, M_BYTES, mgf1Sha256_eq H _ (by decide), Comp.after_ret]
  rfl

end SuiPq.Proof.Sha2128s
