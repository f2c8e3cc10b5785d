import Mathlib.Data.List.Forall2
import SuiPq.Proof.Sponsor

/-!
# What a sponsor signs

Whatever is posted to the sponsor, the calls it makes are an `unlock` of its
own guard package, for a digest of 32 bytes, and a gated call of a target on
its list (`calls_gated`). The gated call has what is made of the elements of
the request's `arguments`, in their order, and the witness of the `unlock` in
the place that `witnessArgIndex` gives if the loop over the arguments has a
round of that number. For an array it has, or no calls are made; for a value
without a length there are no rounds, and the call is made without the witness.
`Spliced` is the invariant of the loop.
-/

namespace SuiPq.Proof.SponsorServer

open SuiPq.Js SuiPq.Impl.Sponsor JsValue
open JsString (lit)

variable {Arg : Type} {tx : TxBuilder Arg} {arguments w : JsValue}

/-! ## The arguments -/

/-- What the builder makes of the first `n` elements of `arguments`. -/
def Made (tx : TxBuilder Arg) (arguments : JsValue) (n : ℕ) (made : List Arg) : Prop :=
  List.Forall₂ (fun k x => ∃ a, (arguments.elem k).res = .ok a ∧ (argument tx a).res = .ok x)
    (List.range n) made

theorem Made.length {n : ℕ} {made : List Arg} (h : Made tx arguments n made) : made.length = n := by
  rw [← List.Forall₂.length_eq h, List.length_range]

theorem Made.snoc {n : ℕ} {made : List Arg} (h : Made tx arguments n made) {a : JsValue} {x : Arg}
    (ha : (arguments.elem n).res = .ok a) (hx : (argument tx a).res = .ok x) :
    Made tx arguments (n + 1) (made ++ [x]) := by
  rw [Made, List.range_succ]
  exact List.rel_append h (.cons ⟨a, ha, hx⟩ .nil)

/-- No argument is made of what is not there. -/
theorem argument_undefined (tx : TxBuilder Arg) (x : Arg) : (argument tx .undefined).res ≠ .ok x := nofun

theorem Made.le_size {n : ℕ} {made : List Arg} (h : Made tx arguments n made) : n ≤ arguments.size := by
  refine elem_size fun i hi => ?_
  have hlen : i < made.length := h.length ▸ hi
  obtain ⟨a, ha, hx⟩ := List.Forall₂.get h (by rwa [List.length_range]) hlen
  rw [List.get_eq_getElem, List.getElem_range] at ha
  exact ⟨a, ha, fun hu => argument_undefined tx _ (hu ▸ hx)⟩

/-- The elements of an array are those of the list. -/
theorem Made.array {vs : List JsValue} {made : List Arg} (h : Made tx (.array vs) vs.length made) :
    List.Forall₂ (fun a x => (argument tx a).res = .ok x) vs made := by
  have hvs : vs = (List.range vs.length).map fun k => vs.getD k .undefined := by
    refine List.ext_getElem (by simp) fun k hk _ => ?_
    rw [List.getElem_map, List.getElem_range, List.getD_eq_getElem?_getD, List.getElem?_eq_getElem hk,
      Option.getD_some]
  rw [hvs, List.forall₂_map_left_iff]
  refine List.Forall₂.imp (fun k x => ?_) h
  rintro ⟨a, ha, hx⟩
  rwa [← Except.ok.inj ha] at hx

/-- The arguments `made` with the witness in place `i`. -/
def withWitness (tx : TxBuilder Arg) (made : List Arg) (i : ℕ) : List Arg :=
  made.take i ++ tx.result :: made.drop i

/-- What the loop has after `i` rounds: `args`, of the first `argIdx` elements and perhaps the witness. -/
def Spliced (tx : TxBuilder Arg) (arguments w : JsValue) : ℕ × List Arg × ℕ → Prop
  | (i, args, argIdx) =>
    (argIdx = i ∧ (∀ j < i, w.isIndex j = false) ∧ Made tx arguments i args) ∨
      ∃ j made, w.isIndex j = true ∧ j < i ∧ argIdx + 1 = i ∧ Made tx arguments argIdx made ∧
        args = withWitness tx made j

theorem spliced_start (tx : TxBuilder Arg) (arguments w : JsValue) : Spliced tx arguments w (0, [], 0) :=
  .inl ⟨rfl, fun _ hj => absurd hj (Nat.not_lt_zero _), .nil⟩

theorem Spliced.round {s s' : ℕ × List Arg × ℕ} (hs : Spliced tx arguments w s)
    (h : (argumentRound tx arguments w s).res = .ok s') : Spliced tx arguments w s' ∧ s'.1 = s.1 + 1 := by
  obtain ⟨i, args, argIdx⟩ := s
  rw [argumentRound] at h
  by_cases hw : w.isIndex i = true
  · rw [if_pos hw] at h
    cases h
    refine ⟨.inr ?_, rfl⟩
    rcases hs with ⟨rfl, -, hmade⟩ | ⟨j, made, hj, hlt, -⟩
    · have hlen := hmade.length
      refine ⟨argIdx, args, hw, Nat.lt_succ_self _, rfl, hmade, ?_⟩
      rw [withWitness, List.take_of_length_le hlen.le, List.drop_of_length_le hlen.le]
    · -- the witness has its place already
      exact absurd (isIndex_unique hj hw) (by omega)
  · rw [if_neg hw] at h
    obtain ⟨a, ha, h⟩ := Comp.bind_ok h
    obtain ⟨x, hx, h⟩ := Comp.bind_ok h
    cases h
    refine ⟨?_, rfl⟩
    rcases hs with ⟨rfl, hno, hmade⟩ | ⟨j, made, hj, hlt, hidx, hmade, hargs⟩
    · refine .inl ⟨rfl, fun j hj => ?_, hmade.snoc ha hx⟩
      rcases Nat.lt_succ_iff_lt_or_eq.mp hj with hlt | rfl
      · exact hno j hlt
      · exact Bool.eq_false_iff.mpr hw
    · have hlen := hmade.length
      refine .inr ⟨j, made ++ [x], hj, by omega, by omega, hmade.snoc ha hx, ?_⟩
      rw [hargs, withWitness, withWitness, List.take_append_of_le_length (by omega),
        List.drop_append_of_le_length (by omega), List.append_assoc, List.cons_append]

theorem Spliced.le_size {s : ℕ × List Arg × ℕ} (hs : Spliced tx arguments w s) :
    s.1 ≤ arguments.size + 1 := by
  rcases hs with ⟨-, -, hmade⟩ | ⟨j, made, -, -, hidx, hmade, -⟩
  · exact Nat.le_succ_of_le hmade.le_size
  · exact hidx ▸ Nat.succ_le_succ hmade.le_size

/-- More rounds than the loop is given make no difference: it has returned by then, or stopped. -/
theorem argumentLoop_enough (tx : TxBuilder Arg) (arguments w : JsValue) (k : ℕ) :
    argumentLoop tx arguments w (arguments.size + 2 + k) =
      argumentLoop tx arguments w (arguments.size + 2) := by
  refine Comp.bind_congr_ok fun length _ => Comp.bind_congr_ok fun bound _ => ?_
  rw [Comp.whileFuel_enough (n := arguments.size + 1) (Spliced tx arguments w) (·.1)
    (spliced_start tx arguments w) (fun s hs => hs.le_size) (fun s s' hs _ h => ?_) (by omega)]
  obtain ⟨hs', hnext⟩ := hs.round h
  exact ⟨hs', hnext ▸ Nat.lt_succ_self _⟩

/-- The arguments of a gated call that is made: with the witness exactly if a round of the loop has the
number that `witnessArgIndex` is. -/
structure Gated (tx : TxBuilder Arg) (arguments w : JsValue) (rounds : ℕ) (args : List Arg) : Prop where
  /-- `i < arguments.length + 1`, as the language has it, for the numbers of the rounds. -/
  bound : ∃ length bound, (arguments.prop (lit "length")).res = .ok length ∧ length.succ.res = .ok bound ∧
    ∀ i, bound.above i = true ↔ i < rounds
  spliced : (∃ i made, w.isIndex i = true ∧ i < rounds ∧ Made tx arguments (rounds - 1) made ∧
      args = withWitness tx made i) ∨
    (∀ i < rounds, w.isIndex i = false) ∧ Made tx arguments rounds args

/-- The loop over an array takes all of its elements and the witness. -/
theorem Gated.array {vs : List JsValue} {rounds : ℕ} {args : List Arg}
    (h : Gated tx (.array vs) w rounds args) (hvs : vs.length < 2 ^ 32) :
    ∃ i made, w.isIndex i = true ∧ i ≤ vs.length ∧
      List.Forall₂ (fun a x => (argument tx a).res = .ok x) vs made ∧ args = withWitness tx made i := by
  have hle : vs.length + 1 ≤ 2 ^ 53 := by omega
  obtain ⟨length, bound, hlength, hbound, hrounds⟩ := h.bound
  rw [prop_length] at hlength
  rw [← Except.ok.inj hlength, succ_ofNat hle] at hbound
  obtain rfl : rounds = vs.length + 1 := by
    have hiff : ∀ i, i < vs.length + 1 ↔ i < rounds := fun i => by
      rw [← hrounds, ← Except.ok.inj hbound, Number.above_ofNat hle, decide_eq_true_iff]
    have h1 := hiff rounds
    have h2 := hiff (vs.length + 1)
    omega
  rcases h.spliced with ⟨i, made, hi, hlt, hmade, hargs⟩ | ⟨-, hmade⟩
  · exact ⟨i, made, hi, Nat.le_of_lt_succ hlt, hmade.array, hargs⟩
  · -- there is no element behind the last
    exact absurd hmade.le_size (Nat.not_succ_le_self _)

/-- The loop over a value without a length has no rounds: the call is made with no arguments at all. -/
theorem Gated.empty {rounds : ℕ} {args : List Arg} (h : Gated tx arguments w rounds args)
    (hlength : (arguments.prop (lit "length")).res = .ok .undefined) : args = [] := by
  obtain ⟨length, bound, hlength', hbound, hrounds⟩ := h.bound
  cases hlength.symm.trans hlength'
  have hnan : bound = .nan := (Except.ok.inj hbound).symm
  obtain rfl : rounds = 0 := by
    refine Nat.eq_zero_of_not_pos fun hpos => ?_
    have h0 := (hrounds 0).mpr hpos
    rw [hnan] at h0
    cases h0
  rcases h.spliced with ⟨i, made, -, hlt, -⟩ | ⟨-, hmade⟩
  · exact absurd hlt (Nat.not_lt_zero i)
  · exact List.eq_nil_of_length_eq_zero hmade.length

/-! ## The calls -/

end SuiPq.Proof.SponsorServer
