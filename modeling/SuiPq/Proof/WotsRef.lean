import SuiPq.Impl.WotsRef
import SuiPq.Proof.JsBytes
import SuiPq.Spec.SlhLite

/-!
# The TypeScript WOTS+ is the specification

`buildAdrs_eq`: the bytes of an address, fields that are not given being zero.
`msgToChains_eq`: the digits of a 32-byte message.
-/

namespace SuiPq.Proof.WotsRef

open SuiPq.Impl.JsBytes SuiPq.Impl.WotsRef SuiPq.Js SuiPq.HashSig
open SuiPq.Spec.SlhLite (Adrs)
open SuiPq.Spec.WotsPlus (digits)

/-! ## Addresses -/

/-- An address from its fields. -/
def adrsOf (o : AdrsOpts) : Adrs where
  layer := o.layer.getD 0
  tree := o.tree.getD 0
  type := o.type.getD 0
  word1 := o.keypair.getD 0
  word2 := o.chain.getD 0
  word3 := o.hash.getD 0

theorem writeOpt_eq {a : Bytes} {off : Nat} {f : Nat → Bytes} (ha : a = f 0)
    (hf : ∀ v, writeU32BE a off v = f v) (o : Option Nat) : writeOpt a off o = f (o.getD 0) := by
  cases o with
  | none => exact ha
  | some v => exact hf v

theorem writeU32BE_adrs (a : Adrs) {off : Nat} (h : off ≤ 28) (v : Nat) :
    writeU32BE a.bytes off v = patch a.bytes off (be 4 v) :=
  writeU32BE_eq (by rw [Spec.SlhLite.Adrs.length_bytes]; omega) v

theorem writeTree_eq {t : Nat} (h : t < 2 ^ 64) (l : Nat) :
    writeU32BE (writeU32BE (Adrs.bytes ⟨l, 0, 0, 0, 0, 0⟩) 8 (t >>> 32 &&& 0xffffffff)) 12
      (t &&& 0xffffffff) = Adrs.bytes ⟨l, t, 0, 0, 0, 0⟩ := by
  have hand : ∀ n, be 4 (n &&& 0xffffffff) = be 4 n := fun n => by
    rw [show 0xffffffff = 2 ^ 32 - 1 by rfl, Nat.and_two_pow_sub_one_eq_mod]
    exact be_mod 4 n
  rw [writeU32BE_adrs _ (by decide), writeU32BE_eq (by simp), hand, hand,
    Spec.SlhLite.patch_tree_halves h]

/-- The words behind the tree. -/
theorem writeWords_eq (l t : Nat) (type keypair chain hash : Option Nat) :
    writeOpt (writeOpt (writeOpt (writeOpt (Adrs.bytes ⟨l, t, 0, 0, 0, 0⟩) 16 type) 20 keypair) 24
      chain) 28 hash =
      Adrs.bytes ⟨l, t, type.getD 0, keypair.getD 0, chain.getD 0, hash.getD 0⟩ := by
  rw [writeOpt_eq (f := fun v => Adrs.bytes ⟨l, t, v, 0, 0, 0⟩) rfl fun v => by
      rw [writeU32BE_adrs _ (by decide), Spec.SlhLite.patch_type],
    writeOpt_eq (f := fun v => Adrs.bytes ⟨l, t, type.getD 0, v, 0, 0⟩) rfl fun v => by
      rw [writeU32BE_adrs _ (by decide), Spec.SlhLite.patch_word1],
    writeOpt_eq (f := fun v => Adrs.bytes ⟨l, t, type.getD 0, keypair.getD 0, v, 0⟩) rfl fun v => by
      rw [writeU32BE_adrs _ (by decide), Spec.SlhLite.patch_word2],
    writeOpt_eq (f := fun v => Adrs.bytes ⟨l, t, type.getD 0, keypair.getD 0, chain.getD 0, v⟩) rfl
      fun v => by rw [writeU32BE_adrs _ (by decide), Spec.SlhLite.patch_word3]]

theorem buildAdrs_eq {o : AdrsOpts} (ht : o.tree.getD 0 < 2 ^ 64) :
    buildAdrs o = pure (adrsOf o).bytes := by
  have hl : writeOpt (zeros 32) 0 o.layer = Adrs.bytes ⟨o.layer.getD 0, 0, 0, 0, 0, 0⟩ :=
    writeOpt_eq (f := fun v => Adrs.bytes ⟨v, 0, 0, 0, 0, 0⟩) rfl
      (fun v => (writeU32BE_adrs ⟨0, 0, 0, 0, 0, 0⟩ (by decide) v).trans
        (Spec.SlhLite.patch_layer _ _ _ _ _ _ _)) _
  have hlt : ∀ n, n &&& 0xffffffff < 2 ^ 53 := fun n =>
    Nat.lt_of_le_of_lt Nat.and_le_right (by decide)
  obtain ⟨layer, tree, type, keypair, chain, hash⟩ := o
  cases tree with
  | none => simp only [buildAdrs, hl, pure_bind, writeWords_eq, adrsOf, Option.getD_none]
  | some t =>
    replace ht : t < 2 ^ 64 := ht
    simp only [buildAdrs, hl, number_eq (hlt t), number_eq (hlt (t >>> 32)), pure_bind, writeTree_eq ht,
      writeWords_eq, adrsOf, Option.getD_some]

/-! ## Digits -/

theorem msgToChains_eq {m : Bytes} (hm : m.length = 32) :
    msgToChains m = pure ((List.range 67).map (digits m)) := by
  let d := digit 16 64 (ofBe m)
  have hd : ∀ i, d i < 16 := fun i => digit_lt (by decide) _ _ _
  have hc : checksum 16 64 d ≤ 64 * 15 := checksum_le 16 64 d
  have hcl : checksum 16 64 d <<< 4 < 2 ^ 16 := by rw [Nat.shiftLeft_eq]; omega
  have hand : ∀ n, n < 2 ^ 31 → Js.and n 0x0f = n &&& 15 := fun n hn => and_eq (by omega) (by decide)
  rw [msgToChains, WOTS.n, if_neg (not_not.mpr hm),
    forLt_zero_pure (fun k => (List.range (2 * k)).map d) (by rfl) fun k hk => ?_, pure_bind,
    forLt_zero_pure (fun k => checksum 16 k d) (by rfl) fun k hk => ?_, pure_bind]
  · have hff : ∀ n, n &&& 0xff = n % 256 := fun n => Nat.and_two_pow_sub_one_eq_mod n 8
    have hsh : ∀ n k, n >>> k ≤ n := fun n k => Nat.shiftRight_le n k
    have h8 := hsh (checksum 16 64 d <<< 4) 8
    have hd0 : digit 16 3 (checksum 16 64 d) 0 = checksum 16 64 d <<< 4 >>> 8 % 256 / 16 % 16 := by
      rw [digit, Nat.shiftLeft_eq, Nat.shiftRight_eq_div_pow]
      omega
    have hd1 : digit 16 3 (checksum 16 64 d) 1 = checksum 16 64 d <<< 4 >>> 8 % 256 % 16 := by
      rw [digit, Nat.shiftLeft_eq, Nat.shiftRight_eq_div_pow]
      omega
    have hd2 : digit 16 3 (checksum 16 64 d) 2 = checksum 16 64 d <<< 4 % 256 / 16 % 16 := by
      rw [digit, Nat.shiftLeft_eq]
      omega
    have hl : (List.range 64).map (digits m) = (List.range 64).map d :=
      List.map_congr_left fun i hi => encode_left (List.mem_range.mp hi)
    have hr : (List.range 3).map (digits m ∘ fun j => 64 + j) =
        (List.range 3).map (digit 16 3 (checksum 16 64 d)) :=
      List.map_congr_left fun j _ => encode_right 16 64 3 _ j
    rw [show 67 = 64 + 3 by rfl, List.range_add, List.map_append, List.map_map, hl, hr]
    simp only [WOTS.len_1, shl_eq (show 4 < 32 by decide) (show checksum 16 64 d <<< 4 < 2 ^ 31 by omega),
      sar_eq (show checksum 16 64 d <<< 4 < 2 ^ 31 by omega) (show 8 < 32 by decide), pure_bind,
      and_eq (show checksum 16 64 d <<< 4 < 2 ^ 32 by omega) (show 0xff < 2 ^ 32 by decide),
      and_eq (show checksum 16 64 d <<< 4 >>> 8 < 2 ^ 32 by omega) (show 0xff < 2 ^ 32 by decide), hff,
      sar_eq (show checksum 16 64 d <<< 4 % 256 < 2 ^ 31 by omega) (show 4 < 32 by decide),
      sar_eq (show checksum 16 64 d <<< 4 >>> 8 % 256 < 2 ^ 31 by omega) (show 4 < 32 by decide),
      Nat.shiftRight_eq_div_pow _ 4, Nat.reducePow]
    rw [hand _ (by omega), hand _ (by omega), hand _ (by omega), and_15, and_15, and_15, ← hd0, ← hd1, ← hd2,
      List.append_assoc, List.append_assoc]
    rfl
  · have hk' : k < 64 := hk
    rw [get_eq (by simpa using hk'), pure_bind, List.getElem_map, List.getElem_range, checksum_succ]
    rfl
  · have hk' : k < m.length := by omega
    have he := digit_ofBe_even hk'
    have ho := digit_ofBe_odd hk'
    have hx := m[k].toNat_lt
    rw [hm] at he ho
    rw [get_eq hk', pure_bind, sar_eq (by omega) (by decide), pure_bind,
      hand _ (Nat.lt_of_le_of_lt (Nat.shiftRight_le _ _) (by omega)), hand _ (by omega), ← he, ← ho,
      show 2 * (k + 1) = 2 * k + 1 + 1 by omega, List.range_succ, List.range_succ, List.map_append,
      List.map_append]
    rfl

end SuiPq.Proof.WotsRef
