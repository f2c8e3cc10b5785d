import SuiPq.Framework.Bytes

/-!
# Base64

`btoa` and `atob` of JavaScript, on strings of characters below 256, which
are byte strings here. `atob` also reads text with white space in it and text
without its padding; `atob_btoa` is the round trip.
-/

namespace SuiPq.Base64

/-- The 64 characters, by value. -/
def alphabet : List Char :=
  "ABCDEFGHIJKLMNOPQRSTUVWXYZabcdefghijklmnopqrstuvwxyz0123456789+/".toList

def char (n : Nat) : Char := alphabet.getD n '='

/-- The value of a character. -/
def value (c : Char) : Option Nat := alphabet.findIdx? (· == c)

/-! ## Encoding -/

/-- A byte string in values of six bits, the last of which is filled with zeros. -/
def sextets : Bytes → List Nat
  | a :: b :: c :: rest =>
    a.toNat / 4 :: (a.toNat % 4 * 16 + b.toNat / 16) :: (b.toNat % 16 * 4 + c.toNat / 64) ::
      c.toNat % 64 :: sextets rest
  | [a, b] => [a.toNat / 4, a.toNat % 4 * 16 + b.toNat / 16, b.toNat % 16 * 4]
  | [a] => [a.toNat / 4, a.toNat % 4 * 16]
  | [] => []

/-- What fills a text of `n` values up to a multiple of four characters. -/
def padding (n : Nat) : List Char := List.replicate ((4 - n % 4) % 4) '='

def btoa (b : Bytes) : String := String.ofList ((sextets b).map char ++ padding (sextets b).length)

/-! ## Decoding -/

/-- The bytes that are full in values of six bits. -/
def bytes : List Nat → Bytes
  | s :: t :: u :: v :: rest =>
    UInt8.ofNat (s * 4 + t / 16) :: UInt8.ofNat (t % 16 * 16 + u / 4) :: UInt8.ofNat (u % 4 * 64 + v) ::
      bytes rest
  | [s, t, u] => [UInt8.ofNat (s * 4 + t / 16), UInt8.ofNat (t % 16 * 16 + u / 4)]
  | [s, t] => [UInt8.ofNat (s * 4 + t / 16)]
  | _ => []

/-- A tab, a line feed, a form feed, a carriage return or a space. -/
def isSpace (c : Char) : Bool := [9, 10, 12, 13, 32].contains c.toNat

/-- Text without one or two `=` at its end. -/
def dropPadding (cs : List Char) : List Char :=
  match cs.reverse with
  | '=' :: '=' :: r => r.reverse
  | '=' :: r => r.reverse
  | _ => cs

def atob (s : String) : Option Bytes :=
  let data := s.toList.filter (!isSpace ·)
  let data := if data.length % 4 = 0 then dropPadding data else data
  if data.length % 4 = 1 then none else (data.mapM value).map bytes

/-! ## The round trip -/

theorem bytes_sextets : ∀ b, bytes (sextets b) = b
  | [] => rfl
  | [a] => by
    rw [sextets, bytes]
    congr
    exact UInt8.toNat_inj.mp (by rw [UInt8.toNat_ofNat']; have := a.toNat_lt; omega)
  | [a, b] => by
    have ha := a.toNat_lt
    have hb := b.toNat_lt
    rw [sextets, bytes]
    congr
    · exact UInt8.toNat_inj.mp (by rw [UInt8.toNat_ofNat']; omega)
    · exact UInt8.toNat_inj.mp (by rw [UInt8.toNat_ofNat']; omega)
  | a :: b :: c :: rest => by
    have ha := a.toNat_lt
    have hb := b.toNat_lt
    have hc := c.toNat_lt
    rw [sextets, bytes, bytes_sextets rest]
    congr
    · exact UInt8.toNat_inj.mp (by rw [UInt8.toNat_ofNat']; omega)
    · exact UInt8.toNat_inj.mp (by rw [UInt8.toNat_ofNat']; omega)
    · exact UInt8.toNat_inj.mp (by rw [UInt8.toNat_ofNat']; omega)

theorem sextets_lt : ∀ b, ∀ n ∈ sextets b, n < 64
  | [] => nofun
  | [a] => by
    have ha := a.toNat_lt
    simp only [sextets, List.forall_mem_cons]
    exact ⟨by omega, by omega, nofun⟩
  | [a, b] => by
    have ha := a.toNat_lt
    have hb := b.toNat_lt
    simp only [sextets, List.forall_mem_cons]
    exact ⟨by omega, by omega, by omega, nofun⟩
  | a :: b :: c :: rest => by
    have ha := a.toNat_lt
    have hb := b.toNat_lt
    have hc := c.toNat_lt
    simp only [sextets, List.forall_mem_cons]
    exact ⟨by omega, by omega, by omega, by omega, sextets_lt rest⟩

/-- No text has a single character behind its last four. -/
theorem length_sextets_mod : ∀ b, (sextets b).length % 4 ≠ 1
  | [] => by decide
  | [_] => by simp [sextets]
  | [_, _] => by simp [sextets]
  | _ :: _ :: _ :: rest => by
    have := length_sextets_mod rest
    simp only [sextets, List.length_cons]
    omega

theorem value_char : ∀ n < 64, value (char n) = some n := by decide +kernel

theorem char_ne : ∀ n < 64, char n ≠ '=' ∧ isSpace (char n) = false := by decide +kernel

theorem mapM_value {ns : List Nat} (h : ∀ n ∈ ns, n < 64) : (ns.map char).mapM value = some ns := by
  induction ns with
  | nil => rfl
  | cons n ns ih =>
    rw [List.forall_mem_cons] at h
    rw [List.map_cons, List.mapM_cons, value_char n h.1, ih h.2]
    rfl

theorem reverse_ne {cs : List Char} (h : ∀ c ∈ cs, c ≠ '=') (r : List Char) : cs.reverse ≠ '=' :: r :=
  fun heq => h '=' (List.mem_reverse.mp (heq ▸ List.mem_cons_self)) rfl

theorem dropPadding_append {cs : List Char} (h : ∀ c ∈ cs, c ≠ '=') :
    ∀ k ≤ 2, dropPadding (cs ++ List.replicate k '=') = cs
  | 0, _ => by
    rw [List.replicate_zero, List.append_nil, dropPadding]
    split
    · exact absurd ‹_› (reverse_ne h _)
    · exact absurd ‹_› (reverse_ne h _)
    · rfl
  | 1, _ => by
    rw [dropPadding, List.reverse_append, show (List.replicate 1 '=').reverse = ['='] by rfl,
      List.singleton_append]
    split
    · rename_i heq
      exact absurd (List.cons.inj heq).2 (reverse_ne h _)
    · rename_i heq
      rw [← (List.cons.inj heq).2, List.reverse_reverse]
    · rename_i hne
      exact absurd rfl (hne _)
  | 2, _ => by
    rw [dropPadding, List.reverse_append]
    exact List.reverse_reverse cs

theorem atob_btoa (b : Bytes) : atob (btoa b) = some b := by
  have hlt := sextets_lt b
  have hmod := length_sextets_mod b
  have hne : ∀ c ∈ (sextets b).map char, c ≠ '=' ∧ isSpace c = false := by
    simpa using fun n hn => char_ne n (hlt n hn)
  have hspace : ∀ c ∈ (sextets b).map char ++ padding (sextets b).length, (!isSpace c) = true := by
    intro c hc
    rcases List.mem_append.mp hc with hc | hc
    · rw [(hne c hc).2]
      rfl
    · rw [List.eq_of_mem_replicate hc]
      decide
  have hlen : ((sextets b).map char ++ padding (sextets b).length).length % 4 = 0 := by
    rw [List.length_append, List.length_map, padding, List.length_replicate]
    omega
  have hk : (4 - (sextets b).length % 4) % 4 ≤ 2 := by omega
  rw [atob, btoa, String.toList_ofList, List.filter_eq_self.mpr hspace]
  simp only [if_pos hlen]
  rw [padding, dropPadding_append (fun c hc => (hne c hc).1) _ hk,
    if_neg (by rw [List.length_map]; exact hmod), mapM_value hlt, Option.map_some, bytes_sextets]

end SuiPq.Base64
