import SuiPq.Framework.Codec
import SuiPq.Impl.Hybrid

/-!
# The packed form of a hybrid signature

`packHybrid` writes the documented format (`packHybrid_iff`), a codec
(`wire`), whose reader gives back the values that fit. What is packed is read
back exactly where the fields behind prefixes of 16 bits are short and the
classical signature is a text (`recovers_iff`); a longer key is packed as
another signature is (`packHybrid_wide`).
-/

namespace SuiPq.Proof.Hybrid

open SuiPq.Impl.Schemes SuiPq.Impl.Hybrid SuiPq.Js

/-! ## The documented format -/

theorem schemeName_SCHEME (s : SchemeName) : schemeName (SCHEME s) = some s := by
  cases s <;> decide

theorem SCHEME_lt (s : SchemeName) : SCHEME s < 256 ^ 1 := by
  cases s <;> decide

/-- `u8 scheme byte`. -/
def scheme : Codec SchemeName :=
  (Codec.uint 1).map SCHEME schemeName (fun _ => True) (fun _ => schemeName_SCHEME _) fun h =>
    ⟨trivial, of_decide_eq_true (List.find?_some (p := fun s => decide (SCHEME s = _)) h)⟩

/-- A text in UTF-8, behind its length. -/
def utf8 (w : Nat) : Codec JsString :=
  (Codec.prefixed w).map JsString.encode JsString.decode JsString.WellFormed JsString.decode_encode
  JsString.decode_some

/-- The wire format. -/
def wire : Codec HybridSignature :=
  (scheme.pair ((Codec.prefixed 4).pair ((utf8 2).pair ((Codec.prefixed 2).pair (Codec.prefixed 4))))).map
    (fun s => (s.scheme, s.txBytes, s.classicalSignature, s.pqPublicKey, s.pqSignature))
    (fun p => some ⟨p.2.1, p.2.2.1, p.1, p.2.2.2.1, p.2.2.2.2⟩) (fun _ => True) (fun _ => rfl) fun h => by
      cases h
      exact ⟨trivial, rfl⟩

/-- A decoder that follows the format. -/
def unpackHybrid (b : Bytes) : Option HybridSignature := wire.read b

/-- How many bytes the packed form has. -/
def size (s : HybridSignature) : Nat :=
  13 + s.txBytes.length + (JsString.encode
    s.classicalSignature).length + s.pqPublicKey.length + s.pqSignature.length

theorem length_wire (s : HybridSignature) : (wire.encode s).length = size s := by
  simp only [wire, scheme, utf8, Codec.map, Codec.pair, Codec.prefixed, Codec.uint,
    List.length_append, length_leBytes, size]
  omega

theorem wire_fits {s : HybridSignature} (h : size s < 2 ^ 32) :
    wire.fits s ↔ (JsString.encode s.classicalSignature).length < 2 ^ 16 ∧ s.pqPublicKey.length < 2 ^ 16 ∧
      s.classicalSignature.WellFormed := by
  unfold size at h
  constructor
  · rintro ⟨-, -, -, ⟨hw, hc⟩, hk, -⟩
    exact ⟨hc, hk, hw⟩
  · rintro ⟨hc, hk, hw⟩
    refine ⟨trivial, ⟨trivial, SCHEME_lt _⟩, ?_, ⟨hw, hc⟩, hk, ?_⟩
    · show s.txBytes.length < 256 ^ 4
      omega
    · show s.pqSignature.length < 256 ^ 4
      omega

/-! ## What is packed -/

theorem uint8Array_append (xs ys : List Nat) : uint8Array (xs ++ ys) = uint8Array xs ++
    uint8Array ys := List.map_append

theorem uint8Array_bytes (b : Bytes) : uint8Array (b.map UInt8.toNat) = b := by
  rw [uint8Array, List.map_map, show UInt8.ofNat ∘ UInt8.toNat = id from funext fun _ =>
    UInt8.ofNat_toNat, List.map_id]

theorem uint8Array_u16 (n : Nat) : uint8Array [Js.and n 0xff, sarAnd n 8 0xff] = leBytes 2 n := by
  simp only [uint8Array, List.map_cons, List.map_nil, ofNat_and, ofNat_sarAnd n (show 8 ≤ 24 by decide)]
  rfl

theorem uint8Array_u32 (n : Nat) :
    uint8Array [Js.and n 0xff, sarAnd n 8 0xff, sarAnd n 16 0xff, sarAnd n 24 0xff] = leBytes 4 n := by
  simp only [uint8Array, List.map_cons, List.map_nil, ofNat_and, ofNat_sarAnd n (show 8 ≤ 24 by decide),
    ofNat_sarAnd n (show 16 ≤ 24 by decide), ofNat_sarAnd n (show 24 ≤ 24 by decide)]
  rfl

/-- What is pushed, in the order it is. -/
def numbers (s : HybridSignature) : List Nat :=
  let classicalBytes := JsString.encode s.classicalSignature
  let u16 := fun (n : Nat) => [Js.and n 0xff, sarAnd n 8 0xff]
  let u32 := fun (n : Nat) => [Js.and n 0xff, sarAnd n 8 0xff, sarAnd n 16 0xff, sarAnd n 24 0xff]
  [SCHEME s.scheme] ++ u32 s.txBytes.length ++ s.txBytes.map UInt8.toNat ++ u16 classicalBytes.length ++
    classicalBytes.map UInt8.toNat ++ u16 s.pqPublicKey.length ++ s.pqPublicKey.map UInt8.toNat ++
    u32 s.pqSignature.length ++ s.pqSignature.map UInt8.toNat

theorem uint8Array_numbers (s : HybridSignature) : uint8Array (numbers s) = wire.encode s := by
  simp only [numbers, uint8Array_append, uint8Array_bytes, uint8Array_u16, uint8Array_u32, List.append_assoc]
  rfl

theorem packHybrid_eq (s : HybridSignature) :
    packHybrid s = push [] (numbers s) >>= fun out => pure (uint8Array out) := by
  unfold packHybrid appendU32 appendU16 appendBytes
  dsimp only
  rw [push_push, push_loop, push_push, push_loop, push_push, push_loop, push_push, push_loop]
  rfl

theorem packHybrid_iff {s : HybridSignature} {b : Bytes} :
    (packHybrid s).res = .ok b ↔ size s < 2 ^ 32 ∧ b = wire.encode s := by
  have hlen : ([] : List Nat).length + (numbers s).length = size s := by
    rw [← length_wire, ← uint8Array_numbers, uint8Array, List.length_map, List.length_nil, Nat.zero_add]
  rw [packHybrid_eq, push, hlen]
  by_cases hs : size s < 2 ^ 32
  · rw [if_pos hs, pure_bind, List.nil_append, uint8Array_numbers]
    exact ⟨fun h => ⟨hs, (Except.ok.inj h).symm⟩, fun h => congrArg _ h.2.symm⟩
  · rw [if_neg hs]
    refine ⟨fun h => ?_, fun h => absurd h.1 hs⟩
    cases h

/-! ## What is read back -/

/-- The decoder gives back what was packed. -/
def Recovers (s : HybridSignature) : Prop := ∀ b, (packHybrid s).res = .ok b → unpackHybrid b = some s

/-- Signatures that are packed alike are equal. -/
def ToldApart (s s' : HybridSignature) : Prop :=
  ∀ b, (packHybrid s).res = .ok b → (packHybrid s').res = .ok b → s = s'

/-- Where there is an array of the size, the lengths have 16 bits, and the classical signature is a text. -/
def Fits (s : HybridSignature) : Prop :=
  size s < 2 ^ 32 → (JsString.encode s.classicalSignature).length < 2 ^ 16 ∧ s.pqPublicKey.length < 2 ^ 16 ∧
    s.classicalSignature.WellFormed

theorem recovers_iff {s : HybridSignature} : Recovers s ↔ Fits s := by
  constructor
  · intro h hs
    have hread := h _ (packHybrid_iff.mpr ⟨hs, rfl⟩)
    exact (wire_fits hs).mp (wire.read_iff.mp hread).1
  · intro h b hb
    obtain ⟨hs, rfl⟩ := packHybrid_iff.mp hb
    exact wire.read_iff.mpr ⟨(wire_fits hs).mpr (h hs), rfl⟩

/-- The decoder reads packed forms only. -/
theorem packHybrid_unpackHybrid {s : HybridSignature} {b : Bytes} (h : unpackHybrid b = some s)
    (hb : b.length < 2 ^ 32) :
    (packHybrid s).res = .ok b := by
  obtain ⟨-, rfl⟩ := wire.read_iff.mp h
  rw [length_wire] at hb
  exact packHybrid_iff.mpr ⟨hb, rfl⟩

theorem Recovers.toldApart {s s' : HybridSignature} (h : Recovers s) (h' : Recovers s') : ToldApart s s' := by
  intro b hb hb'
  exact Option.some.inj ((h b hb).symm.trans (h' b hb'))

/-- Two signatures are read back from their packed forms, and told apart by them, exactly where both fit. -/
theorem hybrid_recovered_iff (s s' : HybridSignature) :
    Recovers s ∧ Recovers s' ∧ ToldApart s s' ↔ Fits s ∧ Fits s' := by
  rw [recovers_iff, recovers_iff]
  refine ⟨fun ⟨h, h', _⟩ => ⟨h, h'⟩, fun ⟨h, h'⟩ => ⟨h, h', ?_⟩⟩
  exact (recovers_iff.mpr h).toldApart (recovers_iff.mpr h')

/-! ## A key that is too long -/

/-- A key of 2^16 bytes. -/
def wide : HybridSignature := ⟨[], [], .ML_DSA_65, [0, 0, 1, 0] ++ List.replicate 65532 0, []⟩

/-- An empty key, and a signature of 2^16 bytes. -/
def narrow : HybridSignature := ⟨[], [], .ML_DSA_65, [], List.replicate 65536 0⟩

theorem wide_ne : wide ≠ narrow := by
  intro h
  have hlen : wide.pqPublicKey.length = narrow.pqPublicKey.length :=
    congrArg (fun s => s.pqPublicKey.length) h
  rw [wide, List.length_append, List.length_replicate] at hlen
  cases hlen

/-- The length of the key is written as zero, and its first bytes are the length of the other's signature. -/
theorem encode_wide : wire.encode wide = wire.encode narrow := by
  have hk : leBytes 2 wide.pqPublicKey.length = leBytes 2 0 := by
    rw [wide, List.length_append, List.length_replicate]
    rfl
  have hs : leBytes 4 narrow.pqSignature.length = [0, 0, 1, 0] := by
    rw [narrow, List.length_replicate]
    rfl
  have hz : List.replicate 65532 (0 : UInt8) ++ leBytes 4 0 = List.replicate 65536 0 :=
    List.replicate_append_replicate (n := 65532) (m := 4)
  have htail : leBytes 2 wide.pqPublicKey.length ++ wide.pqPublicKey ++ leBytes 4 0 =
      leBytes 2 0 ++ (leBytes 4 narrow.pqSignature.length ++ narrow.pqSignature) := by
    rw [hk, hs, wide, narrow, List.append_assoc, List.append_assoc, hz]
  exact congrArg (fun t => scheme.encode .ML_DSA_65 ++
    ((Codec.prefixed 4).encode [] ++ ((utf8 2).encode [] ++ t))) htail

/-- Both are packed, as the same bytes. -/
theorem packHybrid_wide : wide ≠ narrow ∧ ∃ b, (packHybrid wide).res = .ok b ∧
    (packHybrid narrow).res = .ok b := by
  have hsize : size narrow < 2 ^ 32 := by
    have htx : narrow.txBytes.length = 0 := rfl
    have hclassical : (JsString.encode narrow.classicalSignature).length = 0 := rfl
    have hkey : narrow.pqPublicKey.length = 0 := rfl
    have hsig : narrow.pqSignature.length = 65536 := List.length_replicate
    rw [size, htx, hclassical, hkey, hsig]
    decide
  have hwide : size wide < 2 ^ 32 := by
    rwa [← length_wire, encode_wide, length_wire]
  exact ⟨wide_ne, wire.encode narrow, packHybrid_iff.mpr ⟨hwide, encode_wide.symm⟩,
    packHybrid_iff.mpr ⟨hsize, rfl⟩⟩

end SuiPq.Proof.Hybrid
