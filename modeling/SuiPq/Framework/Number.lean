import SuiPq.Framework.Double
import SuiPq.Framework.JsString

/-!
# Numbers of JavaScript

`ofRat` rounds to a number, as the language does with what a text says and with
a sum. `text` writes a number, and `ofString` reads one. A finite number is
what its decimal is rounded to (`ofRat_decimal`).
-/

namespace SuiPq

/-- A number, up to the sign of zero. -/
inductive Number where
  | nan
  | infinity (negative : Bool)
  | finite (x : Double)
deriving DecidableEq

namespace Number

/-! ## Arithmetic -/

/-- The number that `q` is rounded to. -/
def ofRat (q : ℚ) : Number :=
  if h : |Double.nearest q| < 2 ^ 1024 then .finite ⟨_, Double.isDouble_nearest h⟩ else .infinity (q < 0)

def ofNat (n : ℕ) : Number := ofRat n

def neg : Number → Number
  | .nan => .nan
  | .infinity n => .infinity !n
  | .finite x => ofRat (-x.1)

/-- `x + y`. -/
def add : Number → Number → Number
  | .finite x, .finite y => ofRat (x.1 + y.1)
  | .nan, _ | _, .nan => .nan
  | .infinity n, .infinity m => if n = m then .infinity n else .nan
  | .infinity n, _ | _, .infinity n => .infinity n

/-- `i === x`. -/
def isNat : Number → ℕ → Bool
  | .finite x, i => x.1 == i
  | _, _ => false

/-- `i < x`. -/
def above : Number → ℕ → Bool
  | .nan, _ => false
  | .infinity n, _ => !n
  | .finite x, i => i < x.1

theorem ofRat_double (x : Double) : ofRat x.1 = .finite x := by
  obtain ⟨q, hq⟩ := x
  have hself := Double.nearest_self hq
  rw [ofRat, dif_pos (by rw [hself]; exact hq.choose_spec.choose_spec.2.2.2)]
  exact congrArg Number.finite (Subtype.ext hself)

theorem ofNat_eq {n : ℕ} (h : n ≤ 2 ^ 53) : ofNat n = .finite (.nat n h) := ofRat_double (.nat n h)

theorem add_ofNat {n m : ℕ} (h : n + m ≤ 2 ^ 53) : (ofNat n).add (ofNat m) = ofNat (n + m) := by
  rw [ofNat_eq (Nat.le_of_add_right_le h), ofNat_eq (Nat.le_trans (Nat.le_add_left m n) h), add, ofNat]
  exact congrArg ofRat (Nat.cast_add n m).symm

theorem isNat_iff {x : Number} {i : ℕ} : x.isNat i = true ↔ ∃ q, x = .finite q ∧ q.1 = i := by
  cases x <;> simp [isNat]

theorem isNat_unique {x : Number} {i j : ℕ} (hi : x.isNat i = true) (hj : x.isNat j = true) : i = j := by
  obtain ⟨q, rfl, hq⟩ := isNat_iff.mp hi
  obtain ⟨q', hfin, hq'⟩ := isNat_iff.mp hj
  rw [← Number.finite.inj hfin] at hq'
  exact Nat.cast_inj.mp (hq.symm.trans hq')

theorem above_ofNat {n : ℕ} (h : n ≤ 2 ^ 53) (i : ℕ) : (ofNat n).above i = decide (i < n) := by
  rw [ofNat_eq h]
  exact decide_eq_decide.mpr Nat.cast_lt

theorem ofRat_decimal (x : Double) : ofRat x.decimal = .finite x := by
  have hself := Double.nearest_decimal x
  rw [ofRat, dif_pos (by rw [hself]; exact x.2.choose_spec.choose_spec.2.2.2)]
  exact congrArg Number.finite (Subtype.ext hself)

/-- The text of the decimal `d`: with an exponent only where it is very large or small. -/
def decimalText (d : ℕ × ℤ) : List Char :=
  let digits := Nat.toDigits 10 d.1
  let k : ℤ := digits.length
  let n := k + d.2
  if k ≤ n ∧ n ≤ 21 then digits ++ List.replicate (n - k).toNat '0'
  else if 0 < n ∧ n ≤ 21 then digits.take n.toNat ++ '.' :: digits.drop n.toNat
  else if -6 < n ∧ n ≤ 0 then '0' :: '.' :: List.replicate (-n).toNat '0' ++ digits
  else
    let fraction := if k = 1 then [] else '.' :: digits.drop 1
    digits.take 1 ++ fraction ++ 'e' :: (if n - 1 < 0 then '-' else '+') :: Nat.toDigits 10 (n - 1).natAbs

/-- `String(x)`. -/
def text : Number → JsString
  | .nan => JsString.lit "NaN"
  | .infinity n => JsString.lit (if n then "-Infinity" else "Infinity")
  | .finite x =>
    let cs := decimalText x.shortest
    JsString.units (if x.1 < 0 then '-' :: cs else cs)

/-! ## Reading -/

/-- The value of a digit to the base `b`. -/
def digit (b : ℕ) (c : Char) : Option ℕ :=
  let n := if c.isDigit then c.toNat - '0'.toNat
    else if 'a' ≤ c ∧ c ≤ 'z' then c.toNat - 'a'.toNat + 10
    else if 'A' ≤ c ∧ c ≤ 'Z' then c.toNat - 'A'.toNat + 10
    else b
  if n < b then some n else none

/-- The number with the digits `cs`, of which there is one at least. -/
def digits (b : ℕ) (cs : List Char) : Option ℕ :=
  if cs = [] then none else (cs.mapM (digit b)).map fun ds => ds.foldl (fun n d => b * n + d) 0

/-- An exponent, or nothing. -/
def exponentPart : List Char → Option ℤ
  | [] => some 0
  | c :: '-' :: cs => if c = 'e' ∨ c = 'E' then (digits 10 cs).map fun n => -(n : ℤ) else none
  | c :: '+' :: cs | c :: cs => if c = 'e' ∨ c = 'E' then (digits 10 cs).map fun n => (n : ℤ) else none

/-- A decimal without a sign. -/
def unsigned (cs : List Char) : Option ℚ := do
  let (whole, rest) := cs.span Char.isDigit
  let (fraction, rest) := match rest with
    | '.' :: rest => rest.span Char.isDigit
    | rest => ([], rest)
  let n ← digits 10 (whole ++ fraction)
  let e ← exponentPart rest
  return n * 10 ^ (e - fraction.length)

/-- A decimal or `Infinity`. -/
def decimalOf (cs : List Char) : Number :=
  if cs = "Infinity".toList then .infinity false else (unsigned cs).elim .nan ofRat

/-- `Number(s)`. -/
def ofString (s : JsString) : Number :=
  let trimmed := ((s.dropWhile JsString.isSpace).reverse.dropWhile JsString.isSpace).reverse
  match JsString.chars trimmed with
  | [] => ofNat 0
  | '0' :: 'x' :: cs | '0' :: 'X' :: cs => (digits 16 cs).elim .nan ofNat
  | '0' :: 'o' :: cs | '0' :: 'O' :: cs => (digits 8 cs).elim .nan ofNat
  | '0' :: 'b' :: cs | '0' :: 'B' :: cs => (digits 2 cs).elim .nan ofNat
  | '-' :: cs => (decimalOf cs).neg
  | '+' :: cs | cs => decimalOf cs

end Number

end SuiPq
