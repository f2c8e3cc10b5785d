import SuiPq.Framework.Ranges
import SuiPq.Proof.MoveVm.Strict
import Mathlib.Data.List.Forall2

/-!
# Shapes of values

What is known of a value on every run of a bytecode (`Shape`): the range of
an integer, the least length of a vector; and of the locals, where a local
that might have been moved from is not known (`LocalsHold`).
-/

namespace SuiPq.Proof.MoveVm

open SuiPq.Impl.MoveVm SuiPq.Spec.StrictVm

/-! ## Integers -/

inductive Width where
  | w8
  | w32
  | w64
deriving DecidableEq

def Width.bound : Width → Nat
  | .w8 => 2 ^ 8
  | .w32 => 2 ^ 32
  | .w64 => 2 ^ 64

/-- The integer type of a value, if it is an integer. -/
def width : Value → Option Width
  | .u8 _ => some .w8
  | .u32 _ => some .w32
  | .u64 _ => some .w64
  | _ => none

theorem Width.bound_pos (w : Width) : 0 < w.bound := by
  cases w <;> exact Nat.two_pow_pos _

theorem bound_eq {v : Value} {w : Width} (h : width v = some w) : bound v = w.bound := by
  cases v <;> cases h <;> rfl

theorem asNat_lt {v : Value} {w : Width} (h : width v = some w) : v.asNat < w.bound := by
  cases v <;> cases h
  · exact UInt8.toNat_lt _
  · exact UInt32.toNat_lt _
  · exact UInt64.toNat_lt _

@[simp] theorem target_locRef (i : Nat) : target (.locRef i) = some i := rfl
@[simp] theorem target_vecElemRef (i j : Nat) : target (.vecElemRef i j) = some i := rfl
@[simp] theorem target_bool (b : Bool) : target (.bool b) = none := rfl
@[simp] theorem target_vecU8 (v : Bytes) : target (.vecU8 v) = none := rfl
@[simp] theorem target_vecU32 (v : List UInt32) : target (.vecU32 v) = none := rfl

theorem target_eq {v : Value} {w : Width} (h : width v = some w) : target v = none := by
  cases v <;> cases h <;> rfl

theorem width_wrapLikeInt {a : Value} {w : Width} (h : width a = some w) (n : Nat) :
    width (.wrapLikeInt a n) = some w := by
  cases a <;> cases h <;> rfl

theorem asNat_wrapLikeInt {a : Value} {w : Width} (h : width a = some w) (n : Nat) :
    (Value.wrapLikeInt a n).asNat = n % w.bound := by
  cases a <;> cases h
  · show (UInt8.ofNat (n &&& 0xff)).toNat = n % 2 ^ 8
    rw [show 0xff = 2 ^ 8 - 1 from rfl, Nat.and_two_pow_sub_one_eq_mod, UInt8.toNat_ofNat', Nat.mod_mod]
  · show (UInt32.ofNat (n &&& 0xffffffff)).toNat = n % 2 ^ 32
    rw [show 0xffffffff = 2 ^ 32 - 1 from rfl, Nat.and_two_pow_sub_one_eq_mod, UInt32.toNat_ofNat',
      Nat.mod_mod]
  · exact UInt64.toNat_ofNat'

/-! ## Values -/

inductive Shape where
  | int (w : Width) (r : Range)
  | bool (b : Option Bool)
  | vecU8 (l : Least)
  /-- A vector with entries of at most `m`. -/
  | vecU32 (l : Least) (m : Nat)
  | locRef (i : Nat)
  | elemRef (i : Nat) (r : Range)

namespace Shape

inductive Holds (ρ : Nat → Nat) : Shape → Value → Prop
  | int {w r v} : width v = some w → r.Holds ρ v.asNat → Holds ρ (.int w r) v
  | bool {b c} : (∀ d ∈ b, c = d) → Holds ρ (.bool b) (.bool c)
  | vecU8 {l v} : l.Holds ρ v.length → Holds ρ (.vecU8 l) (.vecU8 v)
  | vecU32 {l m v} : l.Holds ρ v.length → (∀ n ∈ v, n.toNat ≤ m) → Holds ρ (.vecU32 l m) (.vecU32 v)
  | locRef {i} : Holds ρ (.locRef i) (.locRef i)
  | elemRef {i r j} : r.Holds ρ j → Holds ρ (.elemRef i r) (.vecElemRef i j)

/-- The shape of a value that is known. -/
def ofValue : Value → Shape
  | .u8 n => .int .w8 (.const n.toNat)
  | .u32 n => .int .w32 (.const n.toNat)
  | .u64 n => .int .w64 (.const n.toNat)
  | .bool b => .bool (some b)
  | .vecU8 v => .vecU8 (.const v.length)
  | .vecU32 v => .vecU32 (.const v.length) (v.foldr (fun n m => max n.toNat m) 0)
  | .locRef i => .locRef i
  | .vecElemRef i j => .elemRef i (.const j)

def le (most : Option (Nat × Nat)) : Shape → Shape → Bool
  | .int w r, .int w' r' => decide (w = w') && r.le r'
  | .bool _, .bool none => true
  | .vecU8 l, .vecU8 l' => l.le most l'
  | .vecU32 l m, .vecU32 l' m' => l.le most l' && decide (m ≤ m')
  | .locRef i, .locRef j => i = j
  | _, _ => false

def shift (k c : Nat) : Shape → Shape
  | .int w r => .int w (r.shift k c)
  | .vecU8 l => .vecU8 (l.shift k c)
  | .vecU32 l m => .vecU32 (l.shift k c) m
  | .elemRef i r => .elemRef i (r.shift k c)
  | s => s

def close (k v : Nat) : Shape → Shape
  | .int w r => .int w (r.close k)
  | .vecU8 l => .vecU8 (l.close k v)
  | .vecU32 l m => .vecU32 (l.close k v) m
  | .elemRef i r => .elemRef i (r.close k)
  | s => s

variable {ρ ρ' : Nat → Nat} {a b : Shape} {v : Value}

theorem length_vecU8 {l : Least} (h : (vecU8 l).Holds ρ v) : l.Holds ρ v.asVecU8!.length := by
  cases h
  assumption

theorem length_vecU32 {l : Least} {m : Nat} (h : (vecU32 l m).Holds ρ v) :
    l.Holds ρ v.asVecU32!.length := by
  cases h
  assumption

theorem entry_vecU32 {l : Least} {m i : Nat} (h : (vecU32 l m).Holds ρ v) (hi : i < v.asVecU32!.length) :
    (v.asVecU32![i]!).toNat ≤ m := by
  cases h with
  | vecU32 _ hm =>
    rw [getElem!_pos (Value.vecU32 _).asVecU32! i hi]
    exact hm _ (List.getElem_mem hi)

theorem ofValue_holds (v : Value) : (ofValue v).Holds ρ v := by
  cases v with
  | u8 | u32 | u64 => exact .int rfl Range.const_holds
  | bool => exact .bool fun d hd => Option.some_inj.mp hd
  | vecU8 => exact .vecU8 (Least.const_holds le_rfl)
  | vecU32 x =>
    refine .vecU32 (Least.const_holds le_rfl) fun n hn => ?_
    induction x with
    | nil => cases hn
    | cons y x ih =>
      rcases List.mem_cons.mp hn with rfl | hn
      · exact le_max_left _ _
      · exact (ih hn).trans (le_max_right _ _)
  | locRef => exact .locRef
  | vecElemRef => exact .elemRef Range.const_holds

theorem le_holds {most : Option (Nat × Nat)} (hm : ∀ p ∈ most, ρ p.1 ≤ p.2) (h : a.le most b = true)
    (ha : a.Holds ρ v) : b.Holds ρ v := by
  cases ha with
  | int hw hr =>
    cases b <;> try cases h
    obtain ⟨hw', h⟩ := Bool.and_eq_true_iff.mp h
    exact .int (of_decide_eq_true hw' ▸ hw) (Range.le_holds h hr)
  | bool hb =>
    rcases b with _ | b | _ | _ | _ | _ <;> try cases h
    cases b <;> cases h
    exact .bool (by simp)
  | vecU8 hl =>
    cases b <;> try cases h
    exact .vecU8 (Least.le_holds hm h hl)
  | vecU32 hl hv =>
    cases b <;> try cases h
    obtain ⟨h, hm'⟩ := Bool.and_eq_true_iff.mp h
    exact .vecU32 (Least.le_holds hm h hl) fun n hn => (hv n hn).trans (of_decide_eq_true hm')
  | locRef =>
    cases b <;> try cases h
    obtain rfl := of_decide_eq_true h
    exact .locRef
  | elemRef => cases b <;> cases h

theorem holds_of_le (h : a.le none b = true) (ha : a.Holds ρ v) : b.Holds ρ v :=
  le_holds (by simp) h ha

theorem holds_of_shift {k c : Nat} (hk : ρ' k = ρ k + c) (hρ : ∀ j, j ≠ k → ρ' j = ρ j)
    (h : (a.shift k c).Holds ρ v) : a.Holds ρ' v := by
  cases a with
  | int => cases h with | int hw hr => exact .int hw (Range.holds_of_shift hk hρ hr)
  | bool => cases h with | bool hb => exact .bool hb
  | vecU8 => cases h with | vecU8 hl => exact .vecU8 (Least.holds_of_shift hk hρ hl)
  | vecU32 => cases h with | vecU32 hl hv => exact .vecU32 (Least.holds_of_shift hk hρ hl) hv
  | locRef => cases h with | locRef => exact .locRef
  | elemRef => cases h with | elemRef hr => exact .elemRef (Range.holds_of_shift hk hρ hr)

theorem close_holds {k n : Nat} (hn : n ≤ ρ k) (hρ : ∀ j, j ≠ k → ρ' j = ρ j) (h : a.Holds ρ v) :
    (a.close k n).Holds ρ' v := by
  cases h with
  | int hw hr => exact .int hw (Range.close_holds hρ hr)
  | bool hb => exact .bool hb
  | vecU8 hl => exact .vecU8 (Least.close_holds hn hρ hl)
  | vecU32 hl hv => exact .vecU32 (Least.close_holds hn hρ hl) hv
  | locRef => exact .locRef
  | elemRef hr => exact .elemRef (Range.close_holds hρ hr)

end Shape

/-! ## Locals -/

/-- What is known of the locals, where `none` stands for one that might not be usable. -/
structure LocalsHold (ρ : Nat → Nat) (ls : List (Option Shape)) (locals : List Value) (moved : List Nat) :
    Prop where
  size : ls.length = locals.length
  get : ∀ i a, ls[i]? = some (some a) → i ∉ moved ∧ ∃ v, locals[i]? = some v ∧ a.Holds ρ v

namespace LocalsHold

variable {ρ : Nat → Nat} {ls : List (Option Shape)} {locals : List Value} {moved : List Nat} {i : Nat}
  {a : Shape} {v : Value}

/-- A local that can be used gets a new value. -/
theorem write (h : LocalsHold ρ ls locals moved) (hi : i ∉ moved) (ha : a.Holds ρ v) :
    LocalsHold ρ (ls.set i (some a)) (locals.set i v) moved := by
  refine ⟨by simpa using h.size, fun j b hb => ?_⟩
  by_cases hij : i = j
  · subst hij
    have hlt : i < ls.length := by simpa using (List.getElem?_eq_some_iff.mp hb).1
    rw [List.getElem?_set_self hlt] at hb
    cases hb
    exact ⟨hi, v, List.getElem?_set_self (h.size ▸ hlt), ha⟩
  · rw [List.getElem?_set_ne hij] at hb ⊢
    exact h.get j b hb

/-- More is known of a local. -/
theorem know (h : LocalsHold ρ ls locals moved) (hi : i ∉ moved) (hv : locals[i]? = some v)
    (ha : a.Holds ρ v) : LocalsHold ρ (ls.set i (some a)) locals moved := by
  obtain ⟨hlt, rfl⟩ := List.getElem?_eq_some_iff.mp hv
  have h' := h.write hi ha
  rwa [List.set_getElem_self] at h'

/-- What is known of the locals implies what is said of them. -/
theorem imp {ρ' : Nat → Nat} {ls' : List (Option Shape)} (h : LocalsHold ρ ls locals moved)
    (hl : List.Forall₂ (fun o o' => ∀ b, o' = some b → ∃ a, o = some a ∧ ∀ v, Shape.Holds ρ a v →
      Shape.Holds ρ' b v) ls ls') : LocalsHold ρ' ls' locals moved := by
  refine ⟨hl.length_eq ▸ h.size, fun i b hb => ?_⟩
  obtain ⟨hi', hb⟩ := List.getElem?_eq_some_iff.mp hb
  have hi : i < ls.length := hl.length_eq ▸ hi'
  obtain ⟨a, ha, hab⟩ := hl.get hi hi' b hb
  obtain ⟨hm, v, hv, hav⟩ := h.get i a (List.getElem?_eq_some_iff.mpr ⟨hi, ha⟩)
  exact ⟨hm, v, hv, hab v hav⟩

theorem mono {moved' : List Nat} (h : LocalsHold ρ ls locals moved) (hm : ∀ i ∈ moved', i ∈ moved) :
    LocalsHold ρ ls locals moved' :=
  ⟨h.size, fun j b hb => ⟨fun hj => (h.get j b hb).1 (hm j hj), (h.get j b hb).2⟩⟩

theorem store (h : LocalsHold ρ ls locals moved) (ha : a.Holds ρ v) :
    LocalsHold ρ (ls.set i (some a)) (locals.set i v) (moved.filter (· ≠ i)) :=
  (h.mono fun _ hj => (List.mem_filter.mp hj).1).write (by simp) ha

theorem move (h : LocalsHold ρ ls locals moved) : LocalsHold ρ (ls.set i none) locals (i :: moved) := by
  refine ⟨by simpa using h.size, fun j b hb => ?_⟩
  by_cases hij : i = j
  · subst hij
    rw [List.getElem?_set] at hb
    simp at hb
  · rw [List.getElem?_set_ne hij] at hb
    refine ⟨fun hj => ?_, (h.get j b hb).2⟩
    rcases List.mem_cons.mp hj with rfl | hj
    · exact hij rfl
    · exact (h.get j b hb).1 hj

end LocalsHold

end SuiPq.Proof.MoveVm
