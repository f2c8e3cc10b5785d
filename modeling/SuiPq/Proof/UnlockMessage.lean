import SuiPq.Impl.UnlockMessage
import SuiPq.Proof.JsBytes
import SuiPq.Proof.PqGuard

/-!
# The message of an unlock, on both sides

What the package signs is what `pq_guard` checks, for an address of
hexadecimal digits and a nonce of 64 bits (`build_valid`). Other addresses and
nonces are encoded, too, unless the length of the address is wrong
(`build_throws`): `meets_iff`.
-/

namespace SuiPq.Proof.UnlockMessage

open SuiPq.Impl SuiPq.Impl.UnlockMessage SuiPq.Js SuiPq.JsString

/-! ## Addresses -/

/-- The digits of an address: what stands behind an optional `0x`. -/
def hexPart (addr : JsString) : JsString := if startsWith addr (lit "0x") then addr.drop 2 else addr

/-- The address that a string of digits denotes. -/
def denoted (addr : JsString) : Address := ⟨be 32 (hexValue (digits (hexPart addr))), length_be _ _⟩

theorem addressTo32Bytes_throws {addr : JsString}
    (h : (hexPart addr).length = 0 ∨ (hexPart addr).length > 64) :
    addressTo32Bytes addr = Comp.stop (.error s!"bad address: {text addr}") := by
  rw [addressTo32Bytes]
  exact if_pos h

/-- The bytes that are written, whatever the string. -/
def addressBytes (addr : JsString) : Bytes :=
  (List.range 32).map fun i => toUint8 (parseInt16 (window (padStart (hexPart addr) 64 0x30) (i * 2) 2))

theorem fillLoop (f : Nat → UInt8) (n : Nat) :
    (forLt 0 n (zeros n) fun i out => pure (out.set i (f i)) : Js Bytes) = pure ((List.range n).map f) := by
  rw [forLt_zero_pure (fun k => (List.range k).map f ++ zeros (n - k)) (by simp) fun k hk => ?_]
  · rw [Nat.sub_self, show zeros 0 = [] from rfl, List.append_nil]
  · have hz : zeros (n - k) = 0 :: zeros (n - (k + 1)) := by
      rw [zeros, show n - k = n - (k + 1) + 1 by omega, List.replicate_succ]
      rfl
    rw [hz, List.set_append_right _ _ (by simp), List.length_map, List.length_range, Nat.sub_self,
      List.set_cons_zero, List.range_succ, List.map_append, List.append_assoc]
    rfl

theorem addressTo32Bytes_eq {addr : JsString}
    (h : ¬ ((hexPart addr).length = 0 ∨ (hexPart addr).length > 64)) :
    addressTo32Bytes addr = pure (addressBytes addr) := by
  rw [addressTo32Bytes]
  refine (if_neg h).trans ?_
  simp only [slice_eq]
  exact fillLoop _ 32

theorem addressBytes_hex {addr : JsString} (h : IsHex (hexPart addr)) (hl : (hexPart addr).length ≤ 64) :
    addressBytes addr = (denoted addr).bytes := by
  have hpad : IsHex (padStart (hexPart addr) 64 0x30) := by
    intro u hu
    rcases List.mem_append.mp hu with hu | hu
    · rw [List.eq_of_mem_replicate hu]
      decide
    · exact h u hu
  have hlen : (padStart (hexPart addr) 64 0x30).length = 2 * 32 := by
    rw [padStart, List.length_append, List.length_replicate]
    omega
  have hdigits : digits (padStart (hexPart addr) 64 0x30) =
      List.replicate (64 - (hexPart addr).length) 0 ++ digits (hexPart addr) := by
    rw [digits, padStart, List.filterMap_append,
      List.filterMap_replicate_of_some (show hexDigit 0x30 = some 0 by decide)]
    rfl
  rw [addressBytes, hexBytes hpad hlen, hdigits, hexValue_zeros]
  rfl

/-! ## Nonces -/

theorem u64BigEndian_eq (v : Nat) : u64BigEndian v = be 8 v := by
  have hloop : (forDown 8 ((v : Int), zeros 8) fun i s =>
    return (s.1 >>> (8 : Nat), put s.2 i (s.1 % 256).toNat) :
      Id (Int × Bytes)) = pure (((v >>> (8 * 8) : Nat) : Int), patch (zeros 8) (8 - 8) (be 8 v)) := by
    refine forDown_pure (fun k => (((v >>> (8 * k) : Nat) : Int),
      patch (zeros 8) (8 - k) (be k v))) ?_ fun k hk => ?_
    · simp [be, patch_nil]
    · have hmod : (((v >>> (8 * k) : Nat) : Int) % 256).toNat = v >>> (8 * k) % 256 := by omega
      have hbyte : UInt8.ofNat (v >>> (8 * k) % 256) = UInt8.ofNat (v >>> (8 * k)) := by
        apply UInt8.toNat_inj.mp
        rw [UInt8.toNat_ofNat', UInt8.toNat_ofNat']
        omega
      have hshift : ((v >>> (8 * k) : Nat) : Int) >>> (8 : Nat) = ((v >>> (8 * (k + 1)) : Nat) : Int) := by
        rw [Nat.mul_succ, Nat.shiftRight_add]
        rfl
      dsimp only
      rw [hmod, put, hbyte, hshift, show 8 - k = 8 - 1 - k + 1 by omega, set_patch_left (by simp; omega),
        show 8 - 1 - k = 8 - (k + 1) by omega, be]
  rw [u64BigEndian]
  refine (congrArg Prod.snd hloop).trans ?_
  exact patch_self (by simp)

/-! ## The message -/

theorem TAG_eq : TAG = Move.ascii "PQ_GUARD:UNLOCK:v1" := by decide

variable {o : UnlockMessageOpts}

theorem build_eq {a : Bytes} (hd : o.actionDigest.length = 32) (ha : addressTo32Bytes o.sender = pure a) :
    buildUnlockMessageBytes o = pure (TAG ++ a ++ u64BigEndian o.nonce ++ o.actionDigest) := by
  have hconcat := JsBytes.concat_eq [TAG, a, u64BigEndian o.nonce, o.actionDigest]
  rw [buildUnlockMessageBytes, if_neg (not_not.mpr hd), ha, pure_bind]
  dsimp only
  rw [Nat.zero_add]
  simp only [JsBytes.concat, List.foldl_cons, List.foldl_nil, List.foldlM_cons, List.foldlM_nil, Nat.zero_add,
    bind_assoc, pure_bind, List.flatten_cons, List.flatten_nil, List.append_nil] at hconcat
  simp only [bind_pure] at hconcat
  rw [hconcat]
  simp only [List.append_assoc]

theorem build_digest (h : o.actionDigest.length ≠ 32) : ∃ e, (buildUnlockMessageBytes o).res =
    .error (.error e) := by
  rw [buildUnlockMessageBytes, if_pos h]
  exact ⟨_, rfl⟩

theorem build_address (hd : o.actionDigest.length = 32)
    (h : (hexPart o.sender).length = 0 ∨ (hexPart o.sender).length > 64) :
    ∃ e, (buildUnlockMessageBytes o).res = .error (.error e) := by
  rw [buildUnlockMessageBytes, if_neg (not_not.mpr hd), addressTo32Bytes_throws h]
  exact ⟨_, rfl⟩

/-- An address of one to 64 digits, a nonce of 64 bits and a digest of 32 bytes. -/
structure Valid (o : UnlockMessageOpts) : Prop where
  digest : o.actionDigest.length = 32
  length : ¬ ((hexPart o.sender).length = 0 ∨ (hexPart o.sender).length > 64)
  hex : IsHex (hexPart o.sender)
  nonce : 0 ≤ o.nonce ∧ o.nonce < 2 ^ 64

/-- Where the lengths are right, the address has digits only and the nonce has 64 bits. -/
def Encodable (o : UnlockMessageOpts) : Prop :=
  o.actionDigest.length = 32 → ¬ ((hexPart o.sender).length = 0 ∨ (hexPart o.sender).length > 64) →
    IsHex (hexPart o.sender) ∧ 0 ≤ o.nonce ∧ o.nonce < 2 ^ 64

instance (o : UnlockMessageOpts) : Decidable (Encodable o) := inferInstanceAs (Decidable (_ → _ → _))

/-- What is not valid is refused, and what is returned is what the identity's `unlock` checks. -/
structure Meets (o : UnlockMessageOpts) : Prop where
  throws : (∃ e, (buildUnlockMessageBytes o).res = .error (.error e)) ↔ ¬ Valid o
  returns : ∀ b, (buildUnlockMessageBytes o).res = .ok b → ∀ x : PqGuard.PqIdentity, x.nonce = o.nonce →
    (PqGuard.unlockMessageBytes x (denoted o.sender) o.actionDigest).res = .ok b

/-- Messages that are equal are for one sender, nonce and action. -/
def Unambiguous (o o' : UnlockMessageOpts) : Prop :=
  ∀ b, (buildUnlockMessageBytes o).res = .ok b → (buildUnlockMessageBytes o').res = .ok b →
    denoted o.sender = denoted o'.sender ∧ o.nonce = o'.nonce ∧ o.actionDigest = o'.actionDigest

theorem build_valid (h : Valid o) :
    buildUnlockMessageBytes o =
      pure (PqGuard.unlockMessage (denoted o.sender) o.nonce.toNat o.actionDigest) := by
  have hnonce : o.nonce = (o.nonce.toNat : Int) := (Int.toNat_of_nonneg h.nonce.1).symm
  rw [build_eq h.digest (addressTo32Bytes_eq h.length),
    addressBytes_hex h.hex (Nat.not_lt.mp fun hl => h.length (.inr hl)), TAG_eq]
  conv_lhs => rw [hnonce, u64BigEndian_eq]
  rfl

theorem build_throws (hd : o.actionDigest.length = 32)
    (hl : ¬ ((hexPart o.sender).length = 0 ∨ (hexPart o.sender).length > 64)) :
    ¬ ∃ e, (buildUnlockMessageBytes o).res = .error (.error e) := by
  rw [build_eq hd (addressTo32Bytes_eq hl)]
  rintro ⟨e, he⟩
  cases he

/-- Only the lengths are looked at. -/
theorem throws_iff : (∃ e, (buildUnlockMessageBytes o).res = .error (.error e)) ↔
    ¬ (o.actionDigest.length = 32 ∧ ¬ ((hexPart o.sender).length = 0 ∨ (hexPart o.sender).length > 64)) := by
  by_cases hd : o.actionDigest.length = 32
  · by_cases hl : (hexPart o.sender).length = 0 ∨ (hexPart o.sender).length > 64
    · exact iff_of_true (build_address hd hl) fun h => h.2 hl
    · exact iff_of_false (build_throws hd hl) fun h => h ⟨hd, hl⟩
  · exact iff_of_true (build_digest hd) fun h => hd h.1

theorem meets_iff : Meets o ↔ Encodable o := by
  constructor
  · intro h hd hl
    have hv : Valid o := not_not.mp fun hv => throws_iff.mp (h.throws.mpr hv) ⟨hd, hl⟩
    exact ⟨hv.hex, hv.nonce⟩
  · intro h
    have hvalid : Valid o ↔ o.actionDigest.length = 32 ∧
        ¬ ((hexPart o.sender).length = 0 ∨ (hexPart o.sender).length > 64) :=
      ⟨fun hv => ⟨hv.digest, hv.length⟩, fun ⟨hd, hl⟩ => ⟨hd, hl, (h hd hl).1, (h hd hl).2⟩⟩
    refine ⟨by rw [throws_iff, hvalid], fun b hb x hx => ?_⟩
    have hv : Valid o := by
      by_contra hv
      obtain ⟨e, he⟩ := throws_iff.mpr fun hc => hv (hvalid.mpr hc)
      rw [hb] at he
      cases he
    have hnonce : o.nonce.toNat = x.nonce := by rw [← hx, Int.toNat_natCast]
    rw [build_valid hv, hnonce] at hb
    rw [PqGuard.unlockMessageBytes_eq hv.digest]
    exact congrArg _ (Except.ok.inj hb)

theorem Meets.valid {b : Bytes} (h : Meets o) (hb : (buildUnlockMessageBytes o).res = .ok b) : Valid o := by
  by_contra hv
  obtain ⟨e, he⟩ := h.throws.mpr hv
  rw [hb] at he
  cases he

theorem Meets.unambiguous {o' : UnlockMessageOpts} (h : Meets o) (h' : Meets o') : Unambiguous o o' := by
  intro b hb hb'
  have hv := h.valid hb
  have hv' := h'.valid hb'
  rw [build_valid hv] at hb
  rw [build_valid hv'] at hb'
  obtain ⟨hs, hn, hd⟩ := PqGuard.unlockMessage_inj (by have := hv.nonce; omega) (by have := hv'.nonce; omega)
    ((Except.ok.inj hb).trans (Except.ok.inj hb').symm)
  exact ⟨hs, by have := hv.nonce; have := hv'.nonce; omega, hd⟩

/-- The package's encoder meets its contract on two inputs, and tells them apart, exactly where both are
encodable; the on-chain one tells all of its inputs apart. -/
theorem unlock_encoders_iff (o o' : UnlockMessageOpts) :
    (Meets o ∧ Meets o' ∧ Unambiguous o o' ↔ Encodable o ∧ Encodable o') ∧
      ∀ (x x' : PqGuard.PqIdentity) (sender sender' : Address) (d d' b : Bytes), x.nonce < 2 ^ 64 →
        x'.nonce < 2 ^ 64 → (PqGuard.unlockMessageBytes x sender d).res = .ok b →
        (PqGuard.unlockMessageBytes x' sender' d').res = .ok b → sender = sender' ∧
        x.nonce = x'.nonce ∧ d = d' := by
  refine ⟨?_, fun x x' sender sender' d d' b hn hn' hb hb' => ?_⟩
  · rw [meets_iff, meets_iff]
    refine ⟨fun ⟨h, h', _⟩ => ⟨h, h'⟩, fun ⟨h, h'⟩ => ⟨h, h', ?_⟩⟩
    exact (meets_iff.mpr h).unambiguous (meets_iff.mpr h')
  · obtain ⟨-, rfl⟩ := PqGuard.unlockMessageBytes_ok hb
    obtain ⟨-, he⟩ := PqGuard.unlockMessageBytes_ok hb'
    exact PqGuard.unlockMessage_inj hn hn' he

/-- An address with a letter that is no digit, and a nonce of 65 bits. -/
theorem not_meets : ¬ Meets ⟨lit "0xg", 0, List.replicate 32 0⟩ ∧
    ¬ Meets ⟨lit "0xa", 2 ^ 64, List.replicate 32 0⟩ := by
  rw [meets_iff, meets_iff]
  decide

end SuiPq.Proof.UnlockMessage
