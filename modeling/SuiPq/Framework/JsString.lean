import SuiPq.Framework.Js

/-!
# Strings of JavaScript

A string is its UTF-16 code units. `chars` reads it as a text, in which an
unpaired surrogate is U+FFFD, as `TextEncoder` does (`encode`). The strings of
texts (`units`) are the well formed ones, and come back from what is encoded
(`decode_encode`).
-/

namespace SuiPq

/-- The UTF-16 code units of a string. -/
abbrev JsString := List UInt16

namespace JsString

/-! ## Texts -/

def unit (c : Char) : JsString :=
  if c.toNat < 0x10000 then [UInt16.ofNat c.toNat]
  else [UInt16.ofNat (0xd800 + (c.toNat - 0x10000) / 0x400),
    UInt16.ofNat (0xdc00 + (c.toNat - 0x10000) % 0x400)]

/-- The string of a text. -/
def units (cs : List Char) : JsString := cs.flatMap unit

/-- A string literal. -/
def lit (s : String) : JsString := units s.toList

def isHigh (u : UInt16) : Bool := 0xd800 ≤ u.toNat && u.toNat < 0xdc00

def isLow (u : UInt16) : Bool := 0xdc00 ≤ u.toNat && u.toNat < 0xe000

/-- The character of a unit that is not in a pair. -/
def single (u : UInt16) : Char := if isHigh u || isLow u then '\uFFFD' else Char.ofNat u.toNat

def pair (u v : UInt16) : Char := Char.ofNat (0x10000 + (u.toNat - 0xd800) * 0x400 + (v.toNat - 0xdc00))

def chars : JsString → List Char
  | [] => []
  | [u] => [single u]
  | u :: v :: s => if isHigh u && isLow v then pair u v :: chars s else single u :: chars (v :: s)

/-- The string as a text, as in the message of an error. -/
def text (s : JsString) : String := String.ofList (chars s)

/-- `s.isWellFormed()`. -/
def WellFormed (s : JsString) : Prop := units (chars s) = s

instance (s : JsString) : Decidable (WellFormed s) := inferInstanceAs (Decidable (_ = _))

/-- `new TextEncoder().encode(s)`. -/
def encode (s : JsString) : Bytes := (String.ofList (chars s)).toByteArray.data.toList

/-- The string whose UTF-8 encoding `b` is. -/
def decode (b : Bytes) : Option JsString := (String.fromUTF8? ⟨b.toArray⟩).map fun s => units s.toList

theorem chars_cons {u : UInt16} (h : isHigh u = false) (s : JsString) : chars (u :: s) =
    single u :: chars s := by
  cases s with
  | nil => rfl
  | cons v s => rw [chars, h, Bool.false_and, if_neg Bool.false_ne_true]

/-- A character is a scalar value. -/
theorem char_toNat (c : Char) : c.toNat < 0xd800 ∨ 0xdfff < c.toNat ∧ c.toNat < 0x110000 := c.valid

theorem chars_unit (c : Char) (s : JsString) : chars (unit c ++ s) = c :: chars s := by
  have hc := char_toNat c
  unfold unit
  split
  · have hu : (UInt16.ofNat c.toNat).toNat = c.toNat := UInt16.toNat_ofNat_of_lt' (by assumption)
    have hhigh : isHigh (UInt16.ofNat c.toNat) = false := by
      rw [isHigh, hu]
      simp only [Bool.and_eq_false_iff, decide_eq_false_iff_not]
      omega
    have hlow : isLow (UInt16.ofNat c.toNat) = false := by
      rw [isLow, hu]
      simp only [Bool.and_eq_false_iff, decide_eq_false_iff_not]
      omega
    rw [List.singleton_append, chars_cons hhigh, single, hhigh, hlow, Bool.or_self,
      if_neg Bool.false_ne_true, hu, Char.ofNat_toNat]
  · have hu : (UInt16.ofNat (0xd800 + (c.toNat - 0x10000) / 0x400)).toNat =
      0xd800 + (c.toNat - 0x10000) / 0x400 :=
      UInt16.toNat_ofNat_of_lt' (by rw [UInt16.size]; omega)
    have hv : (UInt16.ofNat (0xdc00 + (c.toNat - 0x10000) % 0x400)).toNat =
      0xdc00 + (c.toNat - 0x10000) % 0x400 :=
      UInt16.toNat_ofNat_of_lt' (by rw [UInt16.size]; omega)
    have hhigh : isHigh (UInt16.ofNat (0xd800 + (c.toNat - 0x10000) / 0x400)) = true := by
      rw [isHigh, hu]
      simp only [Bool.and_eq_true, decide_eq_true_eq]
      omega
    have hlow : isLow (UInt16.ofNat (0xdc00 + (c.toNat - 0x10000) % 0x400)) = true := by
      rw [isLow, hv]
      simp only [Bool.and_eq_true, decide_eq_true_eq]
      omega
    have hsum : 0x10000 + (0xd800 + (c.toNat - 0x10000) / 0x400 - 0xd800) * 0x400 +
        (0xdc00 + (c.toNat - 0x10000) % 0x400 - 0xdc00) = c.toNat := by omega
    rw [List.cons_append, List.singleton_append, chars, hhigh, hlow, Bool.and_self, if_pos rfl,
      pair, hu, hv, hsum, Char.ofNat_toNat]

theorem chars_units (cs : List Char) : chars (units cs) = cs := by
  induction cs with
  | nil => rfl
  | cons c cs ih => rw [units, List.flatMap_cons, chars_unit, ← units, ih]

theorem text_lit (s : String) : text (lit s) = s := by
  rw [text, lit, chars_units, String.ofList_toList]

theorem lit_injective : Function.Injective lit := fun s t h => by
  rw [← text_lit s, h, text_lit]

/-- Literals are the same string if they are the same text. -/
theorem lit_beq (s t : String) : (lit s == lit t) = (s == t) :=
  Bool.eq_iff_iff.mpr (by rw [beq_iff_eq, beq_iff_eq, lit_injective.eq_iff])

theorem wellFormed_units (cs : List Char) : WellFormed (units cs) := by
  rw [WellFormed, chars_units]

theorem decode_encode {s : JsString} (h : WellFormed s) : decode (encode s) = some s := by
  have hutf : String.fromUTF8? (String.ofList (chars s)).toByteArray = some (String.ofList (chars s)) :=
    dif_pos (String.ofList (chars s)).isValidUTF8
  rw [decode, encode]
  show (String.fromUTF8? (String.ofList (chars s)).toByteArray).map _ = _
  rw [hutf, Option.map_some, String.toList_ofList, h]

theorem decode_some {b : Bytes} {s : JsString} (h : decode b = some s) : WellFormed s ∧ encode s = b := by
  obtain ⟨t, ht, rfl⟩ := Option.map_eq_some_iff.mp h
  refine ⟨wellFormed_units _, ?_⟩
  rw [String.fromUTF8?] at ht
  split at ht
  · cases ht
    rw [encode, chars_units, String.ofList_toList]
    rfl
  · cases ht

/-! ## Numbers -/

/-- White space and line terminators. -/
def isSpace (u : UInt16) : Bool :=
  [0x09, 0x0a, 0x0b, 0x0c, 0x0d, 0x20, 0xa0, 0x1680, 0x2028, 0x2029, 0x202f, 0x205f, 0x3000,
    0xfeff].contains u.toNat || 0x2000 ≤ u.toNat && u.toNat ≤ 0x200a

/-- The value of a hexadecimal digit. -/
def hexDigit (u : UInt16) : Option Nat :=
  if 0x30 ≤ u.toNat ∧ u.toNat ≤ 0x39 then some (u.toNat - 0x30)
  else if 0x41 ≤ u.toNat ∧ u.toNat ≤ 0x46 then some (u.toNat - 0x37)
  else if 0x61 ≤ u.toNat ∧ u.toNat ≤ 0x66 then some (u.toNat - 0x57)
  else none

/-- The number that digits spell. -/
def hexValue (digits : List Nat) : Nat := digits.foldl (fun n d => 16 * n + d) 0

/-- `Number.parseInt(s, 16)`: the number before the first unit that is not a digit, or `none` for `NaN`. -/
def parseInt16 (s : JsString) : Option Int :=
  let s := s.dropWhile isSpace
  let negative := s.head? = some 0x2d
  let s := if s.head? = some 0x2d ∨ s.head? = some 0x2b then s.tail else s
  let s := if s.take 2 = lit "0x" ∨ s.take 2 = lit "0X" then s.drop 2 else s
  let digits := (s.takeWhile fun u => (hexDigit u).isSome).filterMap hexDigit
  if digits = [] then none
  else some (if negative then -(hexValue digits : Int) else hexValue digits)

/-- A number written to a `Uint8Array`. -/
def toUint8 : Option Int → UInt8
  | none => 0
  | some v => UInt8.ofNat (v % 256).toNat

def startsWith (s t : JsString) : Bool := t.isPrefixOf s

/-- `s.padStart(n, c)`, for one unit `c`. -/
def padStart (s : JsString) (n : Nat) (c : UInt16) : JsString := List.replicate (n - s.length) c ++ s

theorem hexDigit_some {u : UInt16} {d : Nat} (h : hexDigit u = some d) :
    d < 16 ∧ (0x30 ≤ u.toNat ∧ u.toNat ≤ 0x39 ∨ 0x41 ≤ u.toNat ∧ u.toNat ≤ 0x46 ∨ 0x61 ≤ u.toNat ∧
      u.toNat ≤ 0x66) := by
  unfold hexDigit at h
  split at h
  · cases h
    omega
  · split at h
    · cases h
      omega
    · split at h
      · cases h
        omega
      · cases h

theorem isSpace_hexDigit {u : UInt16} {d : Nat} (h : hexDigit u = some d) : isSpace u = false := by
  have hu := (hexDigit_some h).2
  have hlist : u.toNat ∉ [0x09, 0x0a, 0x0b, 0x0c, 0x0d, 0x20, 0xa0, 0x1680, 0x2028, 0x2029,
    0x202f, 0x205f, 0x3000,
      0xfeff] := by
    simp only [List.mem_cons, List.not_mem_nil, or_false]
    omega
  have hle : ¬ 0x2000 ≤ u.toNat := by omega
  rw [isSpace, List.contains_eq_mem, decide_eq_false hlist, decide_eq_false hle]
  rfl

theorem hexDigit_ne {u v : UInt16} {d : Nat} (h : hexDigit u = some d) (hv : hexDigit v = none) : u ≠ v := by
  rintro rfl
  rw [h] at hv
  cases hv

/-- Two digits. -/
theorem parseInt16_two {u v : UInt16} {d e : Nat} (hu : hexDigit u = some d) (hv : hexDigit v = some e) :
    parseInt16 [u, v] = some ((16 * d + e : Nat) : Int) := by
  have hminus := hexDigit_ne hu (show hexDigit 0x2d = none by decide)
  have hplus := hexDigit_ne hu (show hexDigit 0x2b = none by decide)
  have hx := hexDigit_ne hv (show hexDigit 0x78 = none by decide)
  have hX := hexDigit_ne hv (show hexDigit 0x58 = none by decide)
  simp [parseInt16, isSpace_hexDigit hu, hminus, hplus, hx, hX, hu, hv, lit, units, unit, hexValue]

theorem foldl_hexValue (ds : List Nat) (n : Nat) :
    ds.foldl (fun n d => 16 * n + d) n = 16 ^ ds.length * n + hexValue ds := by
  induction ds generalizing n with
  | nil => simp [hexValue]
  | cons d ds ih =>
    rw [hexValue, List.foldl_cons, List.foldl_cons, ih, ih, List.length_cons, pow_succ]
    ring

theorem hexValue_cons (d : Nat) (ds : List Nat) : hexValue (d :: ds) = 16 ^ ds.length * d + hexValue ds := by
  rw [hexValue, List.foldl_cons, foldl_hexValue, Nat.mul_zero, Nat.zero_add]

/-- Zeros in front do not count. -/
theorem hexValue_zeros (k : Nat) (ds : List Nat) : hexValue (List.replicate k 0 ++ ds) = hexValue ds := by
  induction k with
  | zero => rfl
  | succ k ih => rw [List.replicate_succ, List.cons_append, hexValue_cons, ih, Nat.mul_zero, Nat.zero_add]

/-! ## Hexadecimal strings -/

/-- The string has digits only. -/
def IsHex (s : JsString) : Prop := ∀ u ∈ s, (hexDigit u).isSome

instance (s : JsString) : Decidable (IsHex s) := List.decidableBAll (fun u => (hexDigit u).isSome) s

def digits (s : JsString) : List Nat := s.filterMap hexDigit

theorem length_digits {s : JsString} (h : IsHex s) : (digits s).length = s.length := by
  induction s with
  | nil => rfl
  | cons u s ih =>
    obtain ⟨d, hd⟩ := Option.isSome_iff_exists.mp (h u List.mem_cons_self)
    rw [digits, List.filterMap_cons_some hd, List.length_cons, List.length_cons]
    exact congrArg _ (ih fun v hv => h v (List.mem_cons_of_mem _ hv))

theorem hexValue_lt (s : JsString) : hexValue (digits s) < 16 ^ (digits s).length := by
  induction s with
  | nil => decide
  | cons u s ih =>
    cases hd : hexDigit u with
    | none =>
      rw [digits, List.filterMap_cons_none hd]
      exact ih
    | some d =>
      have hlt := (hexDigit_some hd).1
      rw [digits, List.filterMap_cons_some hd, hexValue_cons, List.length_cons, pow_succ]
      have := Nat.mul_le_mul_left (16 ^ (digits s).length) (Nat.le_of_lt_succ hlt)
      unfold digits at ih this
      omega

/-- The digit of a number below 16. -/
def hexUnit (n : Nat) : UInt16 := UInt16.ofNat (if n < 10 then 0x30 + n else 0x57 + n)

/-- `Buffer.from(b).toString('hex')`. -/
def toHex (b : Bytes) : JsString := b.flatMap fun x => [hexUnit (x.toNat / 16), hexUnit (x.toNat % 16)]

theorem hexDigit_hexUnit : ∀ n < 16, hexDigit (hexUnit n) = some n := by decide

theorem hexUnit_inj {m n : Nat} (hm : m < 16) (hn : n < 16) (h : hexUnit m = hexUnit n) : m = n := by
  have hd := congrArg hexDigit h
  rw [hexDigit_hexUnit m hm, hexDigit_hexUnit n hn] at hd
  exact Option.some.inj hd

/-- Bytes are told apart by their digits. -/
theorem toHex_inj {b c : Bytes} (h : toHex b = toHex c) : b = c := by
  induction b generalizing c with
  | nil =>
    cases c with
    | nil => rfl
    | cons y c => cases h
  | cons x b ih =>
    cases c with
    | nil => cases h
    | cons y c =>
      obtain ⟨hhigh, h⟩ := List.cons.inj h
      obtain ⟨hlow, h⟩ := List.cons.inj h
      have hx := x.toNat_lt
      have hy := y.toNat_lt
      have hdiv := hexUnit_inj (by omega) (by omega) hhigh
      have hmod := hexUnit_inj (by omega) (by omega) hlow
      have hxy : x = y := UInt8.toNat_inj.mp (by omega)
      rw [hxy, ih h]

/-- Two digits a byte: the bytes of the number that the string spells. -/
theorem hexBytes {s : JsString} {n : Nat} (hs : IsHex s) (hl : s.length = 2 * n) :
    (List.range n).map (fun i => toUint8 (parseInt16 (window s (i * 2) 2))) = be n (hexValue (digits s)) := by
  induction n generalizing s with
  | zero => rfl
  | succ n ih =>
    obtain ⟨u, t, rfl⟩ := List.exists_cons_of_length_pos (l := s) (by omega)
    obtain ⟨v, s, rfl⟩ := List.exists_cons_of_length_pos (l := t) (by rw [List.length_cons] at hl; omega)
    obtain ⟨d, hd⟩ := Option.isSome_iff_exists.mp (hs u List.mem_cons_self)
    obtain ⟨e, he⟩ := Option.isSome_iff_exists.mp (hs v (List.mem_cons_of_mem _ List.mem_cons_self))
    have hs' : IsHex s := fun w hw => hs w (List.mem_cons_of_mem _ (List.mem_cons_of_mem _ hw))
    have hlen : s.length = 2 * n := by
      rw [List.length_cons, List.length_cons] at hl
      omega
    have hdigits : (digits s).length = 2 * n := (length_digits hs').trans hlen
    have hvalue : hexValue (digits (u :: v :: s)) = 256 ^ n * (16 * d + e) + hexValue (digits s) := by
      rw [digits, List.filterMap_cons_some hd, List.filterMap_cons_some he, hexValue_cons,
        hexValue_cons, List.length_cons]
      show 16 ^ ((digits s).length + 1) * d + (16 ^ (digits s).length * e + hexValue (digits s)) = _
      rw [hdigits, show 256 = 16 ^ 2 by rfl, ← pow_mul]
      ring
    have hlt : hexValue (digits s) < 256 ^ n := by
      have := hexValue_lt s
      rwa [hdigits, pow_mul] at this
    have hhead : (256 ^ n * (16 * d + e) + hexValue (digits s)) >>> (8 * n) = 16 * d + e := by
      rw [Nat.shiftRight_eq_div_pow, pow_mul, show 2 ^ 8 = 256 by rfl,
        Nat.mul_add_div (Nat.pow_pos (by decide)), Nat.div_eq_of_lt hlt, Nat.add_zero]
    have htail : ∀ i, window (u :: v :: s) ((i + 1) * 2) 2 = window s (i * 2) 2 := fun i => by
      rw [Nat.succ_mul]
      rfl
    have hbyte : toUint8 (parseInt16 [u, v]) = UInt8.ofNat (16 * d + e) := by
      have := (hexDigit_some hd).1
      have := (hexDigit_some he).1
      have hmod : ((16 * d + e : Nat) : Int) % 256 = (16 * d + e : Nat) := by omega
      rw [parseInt16_two hd he, toUint8, hmod, Int.toNat_natCast]
    rw [List.range_succ_eq_map, List.map_cons, List.map_map, hvalue, be, hhead,
      be_add_mul _ _ _ _ (Nat.le_refl n), ← ih hs' hlen]
    simp only [Function.comp_def, Nat.succ_eq_add_one, htail, Nat.zero_mul]
    exact congrArg (· :: _) hbyte

end JsString

end SuiPq
