import SuiPq.Framework.Bytes

/-!
# Codecs

A codec writes the values that fit its format, and reads them from the front
of a byte string. `pair` and `map` put codecs together; `read` reads a whole
string, and `read_iff` says what it reads: a value that fits, from exactly the
bytes it is written as.
-/

namespace SuiPq

/-! ## Little-endian integers -/

/-- The low `w` bytes of `n`, least significant first. -/
def leBytes (w n : Nat) : Bytes := (be w n).reverse

def ofLe (b : Bytes) : Nat := ofBe b.reverse

@[simp] theorem length_leBytes (w n : Nat) : (leBytes w n).length = w := by
  rw [leBytes, List.length_reverse, length_be]

theorem ofLe_leBytes {w n : Nat} (h : n < 256 ^ w) : ofLe (leBytes w n) = n := by
  rw [ofLe, leBytes, List.reverse_reverse, ofBe_be, Nat.mod_eq_of_lt h]

theorem leBytes_ofLe (b : Bytes) : leBytes b.length (ofLe b) = b := by
  have h := be_ofBe b.reverse
  rw [List.length_reverse] at h
  rw [leBytes, ofLe, h, List.reverse_reverse]

theorem ofLe_lt (b : Bytes) : ofLe b < 256 ^ b.length := by
  have h := ofBe_lt b.reverse
  rwa [List.length_reverse] at h

/-! ## Codecs -/

structure Codec (α : Type) where
  encode : α → Bytes
  /-- The value in front, and what is behind it. -/
  decode : Bytes → Option (α × Bytes)
  fits : α → Prop
  decode_encode : ∀ {a}, fits a → ∀ r, decode (encode a ++ r) = some (a, r)
  decode_some : ∀ {b a r}, decode b = some (a, r) → fits a ∧ b = encode a ++ r

namespace Codec

variable {α β : Type}

/-- The value that a whole string holds. -/
def read (c : Codec α) (b : Bytes) : Option α :=
  (c.decode b).bind fun p => if p.2 = [] then some p.1 else none

theorem read_iff (c : Codec α) {b : Bytes} {a : α} : c.read b = some a ↔ c.fits a ∧ b = c.encode a := by
  constructor
  · intro h
    obtain ⟨⟨x, r⟩, hd, hr⟩ := Option.bind_eq_some_iff.mp h
    by_cases hnil : r = []
    · obtain rfl : x = a := Option.some.inj ((if_pos hnil).symm.trans hr)
      obtain ⟨hf, hb⟩ := c.decode_some hd
      rw [hnil, List.append_nil] at hb
      exact ⟨hf, hb⟩
    · cases (if_neg hnil).symm.trans hr
  · rintro ⟨hf, rfl⟩
    have hd := c.decode_encode hf []
    rw [List.append_nil] at hd
    rw [read, hd]
    rfl

/-- An integer of `w` bytes. -/
def uint (w : Nat) : Codec Nat where
  encode := leBytes w
  decode b := if w ≤ b.length then some (ofLe (b.take w), b.drop w) else none
  fits n := n < 256 ^ w
  decode_encode := by
    intro n h r
    have hl : w ≤ (leBytes w n ++ r).length := by
      rw [List.length_append, length_leBytes]
      exact Nat.le_add_right _ _
    rw [if_pos hl, List.take_left' (length_leBytes w n), List.drop_left' (length_leBytes w n), ofLe_leBytes h]
  decode_some := by
    intro b n r h
    split at h
    · cases h
      have hw : (b.take w).length = w := List.length_take_of_le (by assumption)
      have hlt := ofLe_lt (b.take w)
      have hbytes := leBytes_ofLe (b.take w)
      rw [hw] at hlt hbytes
      rw [hbytes, List.take_append_drop]
      exact ⟨hlt, rfl⟩
    · cases h

/-- A string behind its length, an integer of `w` bytes. -/
def prefixed (w : Nat) : Codec Bytes where
  encode x := leBytes w x.length ++ x
  decode b := ((uint w).decode b).bind fun p =>
    if p.1 ≤ p.2.length then some (p.2.take p.1, p.2.drop p.1) else none
  fits x := x.length < 256 ^ w
  decode_encode := by
    intro x h r
    have hl : x.length ≤ (x ++ r).length := by
      rw [List.length_append]
      exact Nat.le_add_right _ _
    rw [List.append_assoc]
    refine (congrArg (Option.bind · _) ((uint w).decode_encode h (x ++ r))).trans ?_
    rw [Option.bind_some, if_pos hl, List.take_left, List.drop_left]
  decode_some := by
    intro b x r h
    obtain ⟨⟨n, s⟩, hn, hs⟩ := Option.bind_eq_some_iff.mp h
    obtain ⟨hlt, rfl⟩ := (uint w).decode_some hn
    split at hs
    · cases hs
      have hlen : (s.take n).length = n := List.length_take_of_le (by assumption)
      rw [hlen, List.append_assoc, List.take_append_drop]
      exact ⟨hlt, rfl⟩
    · cases hs

/-- One value behind the other. -/
def pair (c : Codec α) (d : Codec β) : Codec (α × β) where
  encode p := c.encode p.1 ++ d.encode p.2
  decode b := (c.decode b).bind fun p => (d.decode p.2).map fun q => ((p.1, q.1), q.2)
  fits p := c.fits p.1 ∧ d.fits p.2
  decode_encode := by
    intro p h r
    rw [List.append_assoc, c.decode_encode h.1, Option.bind_some, d.decode_encode h.2]
    rfl
  decode_some := by
    intro b p r h
    obtain ⟨⟨x, s⟩, hx, hs⟩ := Option.bind_eq_some_iff.mp h
    obtain ⟨⟨y, t⟩, hy, ht⟩ := Option.map_eq_some_iff.mp hs
    cases ht
    obtain ⟨hfx, rfl⟩ := c.decode_some hx
    obtain ⟨hfy, rfl⟩ := d.decode_some hy
    exact ⟨⟨hfx, hfy⟩, (List.append_assoc ..).symm⟩

/-- Another form of the values: `enc` gives a value's form, which `dec` takes back for the values in `P`. -/
def map (c : Codec α) (enc : β → α) (dec : α → Option β) (P : β → Prop)
    (hd : ∀ {y}, P y → dec (enc y) = some y)
    (he : ∀ {x y}, dec x = some y → P y ∧ enc y = x) : Codec β where
  encode y := c.encode (enc y)
  decode b := (c.decode b).bind fun p => (dec p.1).map fun y => (y, p.2)
  fits y := P y ∧ c.fits (enc y)
  decode_encode := by
    intro y h r
    rw [c.decode_encode h.2, Option.bind_some, hd h.1]
    rfl
  decode_some := by
    intro b y r h
    obtain ⟨⟨x, s⟩, hx, hs⟩ := Option.bind_eq_some_iff.mp h
    obtain ⟨z, hz, hr⟩ := Option.map_eq_some_iff.mp hs
    cases hr
    obtain ⟨hP, rfl⟩ := he hz
    obtain ⟨hf, rfl⟩ := c.decode_some hx
    exact ⟨⟨hP, hf⟩, rfl⟩

end Codec

end SuiPq
