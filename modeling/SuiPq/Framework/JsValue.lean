import Mathlib.Data.List.Perm.Subperm
import SuiPq.Framework.Number

/-!
# Values of JavaScript

Values without methods of their own (`JsValue`): their properties and elements
(`prop`, `elem`), their texts (`toString`), and `+` and `<` on them as far as a
loop over the elements of a value uses them (`succ`). A value has no more
elements in a row than it has properties (`elem_size`).
-/

namespace SuiPq

open JsString (lit)

/-- A value. An object is its properties, in order, of which a later one of the same name replaces the
one before. -/
inductive JsValue where
  | undefined
  | null
  | bool (b : Bool)
  | number (x : Number)
  | bigint (i : Int)
  | string (s : JsString)
  | bytes (b : Bytes)
  | array (vs : List JsValue)
  | object (fs : List (JsString × JsValue))

namespace JsValue

/-! ## Properties -/

/-- The digits of a number. -/
def index (i : ℕ) : JsString := JsString.units (Nat.toDigits 10 i)

/-- `fs.key`, of an object. -/
def field (fs : List (JsString × JsValue)) (key : JsString) : JsValue :=
  (fs.reverse.lookup key).getD .undefined

/-- `v.key`, for the name of no method and no index. -/
def prop (v : JsValue) (key : JsString) : Js JsValue :=
  let length (n : ℕ) : JsValue := if key = lit "length" then .number (.ofNat n) else .undefined
  match v with
  | .undefined => Comp.stop (.error "Cannot read properties of undefined")
  | .null => Comp.stop (.error "Cannot read properties of null")
  | .string s => pure (length s.length)
  | .bytes b => pure (length b.length)
  | .array vs => pure (length vs.length)
  | .object fs => pure (field fs key)
  | .bool _ | .number _ | .bigint _ => pure .undefined

/-- `v[i]`. -/
def elem (v : JsValue) (i : ℕ) : Js JsValue :=
  match v with
  | .undefined => Comp.stop (.error "Cannot read properties of undefined")
  | .null => Comp.stop (.error "Cannot read properties of null")
  | .string s => pure ((s.map fun u => .string [u]).getD i .undefined)
  | .bytes b => pure ((b.map fun x => .number (.ofNat x.toNat)).getD i .undefined)
  | .array vs => pure (vs.getD i .undefined)
  | .object fs => pure (field fs (index i))
  | .bool _ | .number _ | .bigint _ => pure .undefined

/-- `v === s`. -/
def isString (v : JsValue) (s : JsString) : Bool :=
  match v with
  | .string t => t == s
  | _ => false

/-- `i === v`. -/
def isIndex (v : JsValue) (i : ℕ) : Bool :=
  match v with
  | .number x => x.isNat i
  | _ => false

/-! ## Conversions -/

/-- `ss.join(",")`. -/
def join (ss : List JsString) : JsString := (ss.intersperse (lit ",")).flatten

mutual

/-- `String(v)`. An object has its method `toString` from its prototype, unless it has a property of
that name, and then has none. -/
def toString : JsValue → Js JsString
  | .undefined => pure (lit "undefined")
  | .null => pure (lit "null")
  | .bool b => pure (lit (if b then "true" else "false"))
  | .number x => pure x.text
  | .bigint i => pure (lit (ToString.toString i))
  | .string s => pure s
  | .bytes b => pure (join (b.map fun x => index x.toNat))
  | .array vs => do return join (← elementTexts vs)
  | .object fs =>
    if fs.any fun f => f.1 == lit "toString" then
      Comp.stop (.error "Cannot convert object to primitive value")
    else pure (lit "[object Object]")

/-- The texts of elements, empty for `undefined` and `null`. -/
def elementTexts : List JsValue → Js (List JsString)
  | [] => pure []
  | .undefined :: vs | .null :: vs => do return [] :: (← elementTexts vs)
  | v :: vs => do
    let s ← toString v
    return s :: (← elementTexts vs)

end

/-- What operators make of a value first: the text of one that is not primitive. -/
def toPrimitive (v : JsValue) : Js JsValue :=
  match v with
  | .bytes _ | .array _ | .object _ => do return .string (← toString v)
  | v => pure v

/-- `Number(v)`, of a primitive value as operators convert it. -/
def toNumber : JsValue → Js Number
  | .null => pure (.ofNat 0)
  | .bool b => pure (.ofNat b.toNat)
  | .number x => pure x
  | .string s => pure (.ofString s)
  | .bigint _ => Comp.stop (.error "Cannot mix BigInt and other types, use explicit conversions")
  | .undefined | .bytes _ | .array _ | .object _ => pure .nan

/-- `v + 1`, which is a text for texts, as the number that `i < v + 1` compares `i` with. -/
def succ (v : JsValue) : Js Number := do
  match ← toPrimitive v with
  | .string s => return .ofString (s ++ lit "1")
  | v => return (← toNumber v).add (.ofNat 1)

theorem prop_length (vs : List JsValue) :
    (array vs).prop (lit "length") = pure (.number (.ofNat vs.length)) := congrArg pure (if_pos rfl)

/-- One more than the length of an array. -/
theorem succ_ofNat {n : ℕ} (h : n + 1 ≤ 2 ^ 53) : (number (.ofNat n)).succ = pure (.ofNat (n + 1)) :=
  congrArg pure (Number.add_ofNat h)

theorem isIndex_unique {v : JsValue} {i j : ℕ} (hi : isIndex v i = true) (hj : isIndex v j = true) :
    i = j := by
  cases v with
  | number x => exact Number.isNat_unique hi hj
  | _ => cases hi

/-! ## Elements -/

/-- How many elements there may be. -/
def size : JsValue → ℕ
  | .string s => s.length
  | .bytes b => b.length
  | .array vs => vs.length
  | .object fs => fs.length
  | _ => 0

theorem index_injective : Function.Injective index := by
  intro i j h
  have hchars := congrArg JsString.chars h
  rw [index, index, JsString.chars_units, JsString.chars_units] at hchars
  have hdigits := congrArg (fun cs => Nat.ofDigitChars 10 cs 0) hchars
  simpa only [Nat.ofDigitChars_ten_toDigits] using hdigits

/-- A property that is there has its name among the object's. -/
theorem mem_of_field {fs : List (JsString × JsValue)} {key : JsString} (h : field fs key ≠ .undefined) :
    key ∈ fs.map Prod.fst := by
  rw [field] at h
  cases hv : fs.reverse.lookup key with
  | none =>
    rw [hv] at h
    exact absurd rfl h
  | some v =>
    obtain ⟨l, r, hsplit, -⟩ := List.lookup_eq_some_iff.mp hv
    have hmem : (key, v) ∈ fs := List.mem_reverse.mp (hsplit ▸ List.mem_append_right l List.mem_cons_self)
    exact List.mem_map_of_mem hmem

theorem length_le_of_getD {vs : List JsValue} {n : ℕ} (h : ∀ i < n, vs.getD i .undefined ≠ .undefined) :
    n ≤ vs.length := by
  by_contra hlt
  refine h vs.length (Nat.lt_of_not_le hlt) ?_
  rw [List.getD_eq_getElem?_getD, List.getElem?_eq_none (Nat.le_refl _), Option.getD_none]

/-- The first `n` elements are all there only in a value of this size. -/
theorem elem_size {v : JsValue} {n : ℕ} (h : ∀ i < n, ∃ a, (elem v i).res = .ok a ∧ a ≠ .undefined) :
    n ≤ v.size := by
  replace h : ∀ i < n, (elem v i).res ≠ .ok .undefined ∧ ∃ a, (elem v i).res = .ok a := fun i hi => by
    obtain ⟨a, ha, hne⟩ := h i hi
    exact ⟨fun hu => hne (Except.ok.inj (ha.symm.trans hu)), a, ha⟩
  cases v with
  | string s => exact (length_le_of_getD fun i hi hu =>
      (h i hi).1 (congrArg _ hu)).trans_eq (List.length_map _)
  | bytes b => exact (length_le_of_getD fun i hi hu =>
      (h i hi).1 (congrArg _ hu)).trans_eq (List.length_map _)
  | array vs => exact length_le_of_getD fun i hi hu => (h i hi).1 (congrArg _ hu)
  | object fs =>
    have hsub : (List.range n).map index ⊆ fs.map Prod.fst := by
      intro key hkey
      obtain ⟨i, hi, rfl⟩ := List.mem_map.mp hkey
      exact mem_of_field fun hu => (h i (List.mem_range.mp hi)).1 (congrArg _ hu)
    have hnodup : ((List.range n).map index).Nodup := List.nodup_range.map index_injective
    have hle := (List.subperm_of_subset hnodup hsub).length_le
    rwa [List.length_map, List.length_range, List.length_map] at hle
  | undefined | null =>
    refine Nat.le_of_not_lt fun hn => ?_
    obtain ⟨-, a, ha⟩ := h 0 hn
    cases ha
  | bool | number | bigint => exact Nat.le_of_not_lt fun hn => (h 0 hn).1 rfl

end JsValue

end SuiPq
