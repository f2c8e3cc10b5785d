import SuiPq.Proof.MoveVm.Calls
import SuiPq.Proof.MoveVm.Frames

/-!
# Contracts of calls

A contract says which arguments a bytecode accepts, and what it returns and
leaves in the locals that it was given references to (`Contract.Holds`). A
caller needs of a callee no more than its contract (`call_holds`): the locals
that the arguments refer to are copied into the callee, of the shapes that it
accepts, and copied back, of the shapes that it leaves.
-/

namespace SuiPq.Proof.MoveVm

open SuiPq.Impl.MoveVm SuiPq.Spec.StrictVm

inductive Arg where
  | val (a : Shape)
  /-- A reference to a local, with its shape before and after the call. -/
  | ref (before after : Shape)

structure Contract where
  args : List Arg
  ret : Option Shape

namespace Contract

/-! ## The callee's frames -/

/-- The shapes of the callee's arguments, where the first local copied in is its local `n`. -/
def params : Nat → List Arg → List (Option Shape)
  | _, [] => []
  | n, .val a :: args => some a :: params n args
  | n, .ref _ _ :: args => some (.locRef n) :: params (n + 1) args

/-- The shapes of the locals copied in. -/
def copied : List Arg → List (Option Shape)
  | [] => []
  | .val _ :: args => copied args
  | .ref before _ :: args => some before :: copied args

/-- The callee's first frame. -/
def entry (c : Contract) (localsTail : List Value) : Frame where
  stack := []
  locals := params (c.args.length + localsTail.length) c.args ++
    localsTail.map (fun v => some (.ofValue v)) ++ copied c.args
  pc := 0

/-- The copies have the shapes that the contract gives them, from the local `n` on. -/
def leaves (f : Frame) : Nat → List Arg → Bool
  | _, [] => true
  | n, .val _ :: args => leaves f n args
  | n, .ref _ after :: args => (f.read n).any (·.le none after) && leaves f (n + 1) args

/-- The callee's last frame is as the contract says. -/
def exit (c : Contract) (localsTail : List Value) (f : Frame) : Bool :=
  (match c.ret, f.stack with
    | none, [] => true
    | some a, b :: _ => b.le none a
    | _, _ => false) &&
  leaves f (c.args.length + localsTail.length) c.args

def Holds (H : Hash) (callee : Bytecode) (localsTail : List Value) (c : Contract) : Prop :=
  ∀ ρ s, (c.entry localsTail).Holds ρ ⟨s, []⟩ →
    ∃ f, c.exit localsTail f = true ∧ f.Holds ρ (strictRun H callee ⟨s, []⟩ 1000000)

/-! ## The caller's frames -/

/-- The arguments are as the contract wants them. -/
def accepts (f : Frame) : List Arg → List Shape → Bool
  | [], [] => true
  | .val _ :: _, .locRef _ :: _ => false
  | .val a :: args, b :: shapes => b.le none a && accepts f args shapes
  | .ref before _ :: args, .locRef i :: shapes =>
    (f.read i).any (·.le none before) && accepts f args shapes
  | _, _ => false

/-- The caller's frame once the copies are written back. -/
def writeBack (f : Frame) : List Arg → List Shape → Frame
  | .val _ :: args, _ :: shapes => writeBack f args shapes
  | .ref _ after :: args, .locRef i :: shapes => writeBack (f.store i (some after)) args shapes
  | _, _ => f

/-- The effect of a call on the caller's frame. -/
def apply (c : Contract) (arity : Nat) (f : Frame) : Option Frame :=
  let shapes := (f.stack.take arity).reverse
  let g := { f with stack := f.stack.drop arity }
  if c.args.length = arity ∧ accepts g c.args shapes then
    let g := writeBack g c.args shapes
    match c.ret with
    | none => g.advance
    | some a => (g.push a).advance
  else none

/-- Only locals are written back. -/
theorem writeBack_eq (f : Frame) (args : List Arg) (shapes : List Shape) :
    writeBack f args shapes = { f with locals := (writeBack f args shapes).locals } := by
  fun_induction writeBack f args shapes with
  | case1 f _ _ _ _ ih => exact ih
  | case2 f _ _ _ i _ ih => exact ih
  | case3 => rfl

/-! ## Soundness -/

variable {ρ : Nat → Nat}

/-- A local whose shape, if it is known, is that of its value. -/
def Known (ρ : Nat → Nat) (o : Option Shape) (v : Value) : Prop := ∀ a ∈ o, a.Holds ρ v

theorem localsHold_of_known {ls : List (Option Shape)} {locals : List Value}
    (h : List.Forall₂ (Known ρ) ls locals) : LocalsHold ρ ls locals [] := by
  refine ⟨h.length_eq, fun i a hi => ⟨List.not_mem_nil, ?_⟩⟩
  induction h generalizing i with
  | nil => cases hi
  | cons hv _ ih =>
    cases i with
    | zero => exact ⟨_, rfl, hv _ (Option.some.inj hi)⟩
    | succ i => exact ih i hi

theorem target_val {a b : Shape} {v : Value} (h : b.le none a = true) (hr : ∀ i, b ≠ .locRef i)
    (hb : b.Holds ρ v) : target v = none := by
  cases hb with
  | int hw => exact target_eq hw
  | locRef => exact absurd rfl (hr _)
  | elemRef => cases h
  | _ => rfl

theorem copyIn_val {v : Value} (h : target v = none) (locals : List Value) (n : Nat) (values : List Value) :
    copyIn locals n (v :: values) = (v :: (copyIn locals n values).1, (copyIn locals n values).2) := by
  cases v <;> first | rfl | cases h

/-- The cases of `accepts`. -/
theorem accepts_cons {f : Frame} {arg : Arg} {args : List Arg} {b : Shape} {shapes : List Shape}
    (h : accepts f (arg :: args) (b :: shapes) = true) :
    accepts f args shapes = true ∧
      ((∃ a, arg = .val a ∧ b.le none a = true ∧ ∀ i, b ≠ .locRef i) ∨
        ∃ before after i a, arg = .ref before after ∧ b = .locRef i ∧ f.read i = some a ∧
          a.le none before = true) := by
  cases arg with
  | val a =>
    cases b with
    | locRef i => cases h
    | _ =>
      obtain ⟨hle, h⟩ := Bool.and_eq_true_iff.mp h
      exact ⟨h, .inl ⟨a, rfl, hle, nofun⟩⟩
  | ref before after =>
    cases b with
    | locRef i =>
      obtain ⟨hle, h⟩ := Bool.and_eq_true_iff.mp h
      obtain ⟨a, ha, hle⟩ := (Option.any_eq_true _ _).mp hle
      exact ⟨h, .inr ⟨before, after, i, a, rfl, rfl, ha, hle⟩⟩
    | _ => cases h

theorem accepts_length {f : Frame} : ∀ {args : List Arg} {shapes : List Shape},
    accepts f args shapes = true → args.length = shapes.length
  | [], [], _ => rfl
  | _ :: _, [], h => by rename_i arg _; cases arg <;> cases h
  | _ :: _, _ :: _, h => congrArg (· + 1) (accepts_length (accepts_cons h).1)

theorem known_some {a : Shape} {v : Value} (h : a.Holds ρ v) : Known ρ (some a) v :=
  fun _ hb => Option.some.inj hb ▸ h

theorem known_none {v : Value} : Known ρ none v := fun _ hb => by cases hb

section Copies

variable {f : Frame} {locals : List Value} {moved : List Nat} {args : List Arg} {shapes : List Shape}
  {values : List Value}

/-- What is copied in has the shapes of the callee's first frame. -/
theorem copyIn_holds (hl : LocalsHold ρ f.locals locals moved)
    (hv : List.Forall₂ (Shape.Holds ρ) shapes values) (n : Nat) (h : accepts f args shapes = true) :
    (∀ i ∈ values.filterMap target, i ∉ moved) ∧
      List.Forall₂ (Known ρ) (params n args) (copyIn locals n values).1 ∧
      List.Forall₂ (Known ρ) (copied args) (copyIn locals n values).2.1 := by
  induction hv generalizing args n with
  | nil =>
    cases args with
    | nil => exact ⟨by simp, .nil, .nil⟩
    | cons arg => cases arg <;> cases h
  | cons hb hv ih =>
    cases args with
    | nil => cases h
    | cons arg args =>
      obtain ⟨h', ⟨a, rfl, hle, hr⟩ | ⟨before, after, i, a, rfl, rfl, ha, hle⟩⟩ := accepts_cons h
      · have ht := target_val hle hr hb
        obtain ⟨hu, hp, hc⟩ := ih n h'
        rw [copyIn_val ht, List.filterMap_cons_none ht]
        exact ⟨hu, .cons (known_some (Shape.holds_of_le hle hb)) hp, hc⟩
      · cases hb
        obtain ⟨hi, u, hu, ha⟩ := read_holds hl ha
        obtain ⟨hu', hp, hc⟩ := ih (n + 1) h'
        rw [copyIn_ref hu, List.filterMap_cons_some (target_locRef i)]
        refine ⟨fun j hj => ?_, .cons (known_some .locRef) hp,
          .cons (known_some (Shape.holds_of_le hle ha)) hc⟩
        rcases List.mem_cons.mp hj with rfl | hj
        · exact hi
        · exact hu' j hj

/-- What is copied out has the shapes of the caller's next frame, and can be used. -/
theorem copyOut_holds {f' g : Frame} {final : StrictState} {locals' : List Value}
    (hl : LocalsHold ρ f.locals locals moved) (hg : g.Holds ρ final)
    (hv : List.Forall₂ (Shape.Holds ρ) shapes values) (n : Nat) (h : accepts f args shapes = true)
    (hx : leaves g n args = true) (hl' : LocalsHold ρ f'.locals locals' moved) :
    (∀ b ∈ (copyIn locals n values).2.2, b.2 ∉ final.moved) ∧
      LocalsHold ρ (writeBack f' args shapes).locals
        (copyOut final.locals (copyIn locals n values).2.2 locals') moved := by
  induction hv generalizing args n f' locals' with
  | nil =>
    cases args with
    | nil => exact ⟨by simp [copyIn], hl'⟩
    | cons arg => cases arg <;> cases h
  | cons hb hv ih =>
    cases args with
    | nil => cases h
    | cons arg args =>
      obtain ⟨h', ⟨a, rfl, hle, hr⟩ | ⟨before, after, i, a, rfl, rfl, ha, hle⟩⟩ := accepts_cons h
      · rw [copyIn_val (target_val hle hr hb)]
        exact ih n h' hx hl'
      · cases hb
        obtain ⟨hi, u, hu, -⟩ := read_holds hl ha
        obtain ⟨hx, hx'⟩ := Bool.and_eq_true_iff.mp hx
        obtain ⟨x, hx, hle'⟩ := (Option.any_eq_true _ _).mp hx
        cases hg with
        | mk hst hlg =>
          obtain ⟨hn, w, hw, hx⟩ := read_holds hlg hx
          rw [copyIn_ref hu]
          have hl'' : LocalsHold ρ (f'.store i (some after)).locals (locals'.set i w) moved :=
            hl'.write hi (Shape.holds_of_le hle' hx)
          obtain ⟨hb, hl''⟩ := ih (n + 1) h' hx' hl''
          refine ⟨fun b hb' => ?_, ?_⟩
          · rcases List.mem_cons.mp hb' with rfl | hb'
            · exact hn
            · exact hb b hb'
          · rw [copyOut_cons hw]
            exact hl''

end Copies

/-- A bytecode with a contract agrees with the VM on the arguments that its contract accepts. -/
theorem agrees_of_args {H : Hash} {code : Bytecode} {localsTail : List Value} {c : Contract}
    (hc : c.Holds H code localsTail) {u v : List Value}
    (hu : List.Forall₂ (Known 0) (params (c.args.length + localsTail.length) c.args) u)
    (hv : List.Forall₂ (Known 0) (copied c.args) v) :
    Agrees H code ⟨[], u ++ localsTail ++ v, 0, none⟩ := by
  have hentry : (c.entry localsTail).Holds 0 ⟨⟨[], u ++ localsTail ++ v, 0, none⟩, []⟩ := by
    refine .mk .nil (localsHold_of_known (List.rel_append (List.rel_append hu ?_) hv))
    exact List.forall₂_map_left_iff.mpr (List.forall₂_same.mpr fun w _ => known_some (Shape.ofValue_holds w))
  obtain ⟨f, -, hf⟩ := hc 0 _ hentry
  refine agrees_of ?_
  generalize strictRun H code _ 1000000 = final at hf
  cases hf
  rfl

end Contract

open Contract in
/-- A call of a bytecode with a contract that its arguments meet. -/
theorem call_holds {H : Hash} {ρ : Nat → Nat} {callee : Bytecode} {localsTail : List Value}
    {arity : Nat} {c : Contract} {f g : Frame} {s : StrictState} (hc : c.Holds H callee localsTail)
    (hf : f.Holds ρ s) (h : c.apply arity f = some g) :
    g.Holds ρ (strictStep H (.Call callee localsTail arity) s) := by
  cases hf with
  | @mk stack locals moved hst hl =>
    unfold Contract.apply at h
    dsimp only at h
    split at h
    · rename_i hacc
      obtain ⟨rfl, hacc⟩ := hacc
      let s : StrictState := ⟨⟨stack, locals, f.pc, none⟩, moved⟩
      have hl : LocalsHold ρ { f with stack := f.stack.drop c.args.length }.locals locals moved := hl
      have hv := List.rel_reverse (List.forall₂_take c.args.length hst)
      obtain ⟨hu, hp, hcp⟩ := copyIn_holds hl hv (c.args.length + localsTail.length) hacc
      have hlen : c.args.length ≤ stack.length := by
        have := accepts_length hacc
        rw [List.length_reverse, List.length_take, hst.length_eq] at this
        omega
      -- the callee's run
      have hentry : (c.entry localsTail).Holds ρ ⟨s.enter localsTail c.args.length, []⟩ := by
        refine .mk .nil (localsHold_of_known ?_)
        refine List.rel_append (List.rel_append hp ?_) hcp
        exact List.forall₂_map_left_iff.mpr (List.forall₂_same.mpr fun v _ =>
          known_some (Shape.ofValue_holds v))
      obtain ⟨x, hx, hfinal⟩ := hc ρ _ hentry
      obtain ⟨hret, hleaves⟩ := Bool.and_eq_true_iff.mp hx
      obtain ⟨hb, hl'⟩ := copyOut_holds hl hfinal hv _ hacc hleaves hl
      have hu' : ∀ i ∈ uses (.Call callee localsTail c.args.length) stack, i ∉ moved := by
        intro i hi
        obtain ⟨v, hv, hi⟩ := List.mem_filterMap.mp
          (show i ∈ (stack.take c.args.length).filterMap target from hi)
        exact hu i (List.mem_filterMap.mpr ⟨v, List.mem_reverse.mpr hv, hi⟩)
      rw [strictStep_call (s := s) rfl hu' hlen hb]
      generalize strictRun H callee _ 1000000 = final at hfinal hl'
      cases hfinal with
      | mk hst' _ =>
        have hdrop := List.forall₂_drop c.args.length hst
        rw [writeBack_eq] at h
        cases hr : c.ret with
        | none =>
          rw [hr] at h hret
          obtain rfl := advance_eq h
          cases hx' : x.stack with
          | nil =>
            rw [hx'] at hst'
            cases hst'
            exact .mk hdrop hl'
          | cons => rw [hx'] at hret; cases hret
        | some a =>
          rw [hr] at h hret
          obtain rfl := advance_eq h
          cases hx' : x.stack with
          | nil => rw [hx'] at hret; cases hret
          | cons b =>
            rw [hx'] at hret hst'
            cases hst' with
            | cons hb _ => exact .mk (.cons (Shape.holds_of_le hret hb) hdrop) hl'
    · cases h

end SuiPq.Proof.MoveVm
