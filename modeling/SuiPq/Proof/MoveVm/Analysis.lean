import SuiPq.Proof.MoveVm.Contracts
import Mathlib.Logic.Function.Basic

/-!
# Analysis of bytecodes

`exec` follows a bytecode on a frame, along both ways of a branch that the
frame does not decide, to a `Ret` or to a given place. It needs a contract for
each call, and for a loop a local that counts and the shapes that the loop
changes: it checks that they are an invariant, and goes through the body once.
A loop without these is gone through as often as it runs.

`exec_holds` is its soundness: a strict run from a state of the frame comes to
a state of the frame found, within the number of opcodes found.
-/

namespace SuiPq.Proof.MoveVm

open SuiPq.Impl.MoveVm SuiPq.Spec.StrictVm

/-! ## Frames of loops -/

/-- A loop that counts up to a limit. -/
structure Loop where
  /-- The place of its test. -/
  head : Nat
  /-- The local that counts. -/
  counter : Nat
  /-- The ghost variable for the count. -/
  ghost : Nat
  limit : Nat
  /-- The shapes that the loop changes, in terms of the count. -/
  changes : List (Nat × Option Shape)

/-- What is known of a local implies what is said of it. -/
def leLocal (most : Option (Nat × Nat)) : Option Shape → Option Shape → Bool
  | _, none => true
  | some a, some b => a.le most b
  | none, some _ => false

namespace Frame

def le (most : Option (Nat × Nat)) (f g : Frame) : Bool :=
  decide (f.pc = g.pc) && List.all₂ (Shape.le most) f.stack g.stack &&
    List.all₂ (leLocal most) f.locals g.locals

def shift (k c : Nat) (f : Frame) : Frame :=
  { f with stack := f.stack.map (·.shift k c), locals := f.locals.map (·.map (·.shift k c)) }

def close (k v : Nat) (f : Frame) : Frame :=
  { f with stack := f.stack.map (·.close k v), locals := f.locals.map (·.map (·.close k v)) }

end Frame

namespace Loop

/-- The type and the range of the counter. -/
def count (L : Loop) (f : Frame) : Option (Width × Range) :=
  match f.read L.counter with
  | some (.int w r) => some (w, r)
  | _ => none

/-- The frame with a count between `lo` and `hi`. -/
def between (L : Loop) (w : Width) (lo hi : Nat) (f : Frame) : Frame :=
  f.store L.counter (some (.int w ⟨lo, hi, some (L.ghost, 0)⟩))

/-- The frame with the shapes that the loop changes. -/
def changed (L : Loop) (f : Frame) : Frame := L.changes.foldl (fun f p => f.store p.1 p.2) f

end Loop

/-! ## The analysis -/

section Exec

variable (calls : List (Nat × Contract)) (loops : List Loop) (ops : List Opcode)

/-- The effect of the opcode at a frame's place, if it neither branches nor returns. -/
def step₁ (f : Frame) : Option Frame :=
  ops[f.pc]?.bind fun op =>
    match op with
    | .Call _ _ arity => (calls.lookup f.pc).bind fun c => c.apply arity f
    | .Branch offset => some { f with pc := offset }
    | op => next op f

/-- Both ways of a branch that is not decided lead to one frame. -/
def fork (b : Option Bool) (k : Bool → Option (Frame × Nat)) : Option (Frame × Nat) :=
  match b with
  | some c => k c
  | none => (k true).bind fun (f, m) => (k false).bind fun (g, n) =>
    if f.le none g then some (g, max m n) else none

/-- The frame to which `f` leads, at `stop` or at a `Ret`, and the number of opcodes to it. -/
def exec : Nat → Option Nat → Frame → Option (Frame × Nat)
  | 0, _, _ => none
  | fuel + 1, stop, f =>
    if stop = some f.pc then some (f, 0)
    else
      match loops.find? (·.head = f.pc) with
      | some L => (L.count f).bind fun (w, r) =>
        let start := f.close L.ghost 0
        let inv := L.changed start
        if (L.between w r.lo r.hi start).le (some (L.ghost, r.hi)) (L.between w r.lo L.limit inv) then
          ((step₁ calls ops (L.between w r.lo (L.limit - 1) inv)).bind
            (exec fuel (some f.pc))).bind fun (g, m) =>
          if g.le none ((L.between w r.lo L.limit inv).shift L.ghost 1) then
            ((step₁ calls ops ((L.between w L.limit L.limit inv).close L.ghost L.limit)).bind
              (exec fuel stop)).bind fun (g, n) =>
            some (g, (L.limit - r.lo) * (m + 1) + (n + 1))
          else none
        else none
      | none =>
        match ops[f.pc]? with
        | some .Ret => some (f, 0)
        | some (.BrFalse offset) =>
          match f.stack with
          | .bool b :: stack =>
            (fork b fun c =>
              exec fuel stop { f with stack := stack, pc := if c then f.pc + 1 else offset }).bind
                fun (g, n) => some (g, n + 1)
          | _ => none
        | _ => ((step₁ calls ops f).bind (exec fuel stop)).bind fun (g, n) => some (g, n + 1)

end Exec

/-! ## Soundness of the loops' frames -/

variable {H : Hash} {ρ ρ' : Nat → Nat} {f g : Frame} {s : StrictState}

theorem forall₂_of_all₂ {α β : Type} {r : α → β → Bool} : ∀ {as : List α} {bs : List β},
    List.all₂ r as bs = true → List.Forall₂ (fun a b => r a b = true) as bs
  | [], [], _ => .nil
  | [], _ :: _, h => by cases h
  | _ :: _, [], h => by cases h
  | a :: as, b :: bs, h => by
    unfold List.all₂ at h
    split at h
    · exact .cons (by assumption) (forall₂_of_all₂ h)
    · cases h

namespace Frame

/-- What one shape says under `ρ` implies what the other says under `ρ'`. -/
def Implies (ρ ρ' : Nat → Nat) (a b : Shape) : Prop := ∀ v, a.Holds ρ v → b.Holds ρ' v

theorem Holds.imp (hf : f.Holds ρ s) (hpc : f.pc = g.pc)
    (hst : List.Forall₂ (Implies ρ ρ') f.stack g.stack)
    (hl : List.Forall₂ (fun o o' => ∀ b, o' = some b → ∃ a, o = some a ∧ Implies ρ ρ' a b)
      f.locals g.locals) : g.Holds ρ' s := by
  cases hf with
  | @mk stack _ _ hst' hl' =>
    rw [hpc]
    refine .mk ?_ (hl'.imp hl)
    obtain ⟨shapes, ls, pc⟩ := f
    dsimp only at hst hst'
    clear hl hl' hpc
    generalize g.stack = shapes' at hst ⊢
    induction hst generalizing stack with
    | nil => cases hst'; exact .nil
    | cons h _ ih => cases hst' with | cons h' hst' => exact .cons (h _ h') (ih hst')

/-- The value of a local that is known. -/
theorem Holds.value {i : Nat} {a : Shape} (hf : f.Holds ρ s) (hr : f.read i = some a) :
    i ∉ s.moved ∧ ∃ v, s.locals[i]? = some v ∧ a.Holds ρ v := by
  cases hf with
  | mk _ hl => exact read_holds hl hr

theorem Holds.int_value {i : Nat} {w : Width} {r : Range} (hf : f.Holds ρ s)
    (hr : f.read i = some (.int w r)) :
    ∃ v, i ∉ s.moved ∧ s.locals[i]? = some v ∧ width v = some w ∧ r.Holds ρ v.asNat := by
  obtain ⟨hm, v, hv, h⟩ := hf.value hr
  cases h with
  | int hw hr => exact ⟨v, hm, hv, hw, hr⟩

/-- A local's shape may be any that its value has. -/
theorem Holds.store_value {i : Nat} {a : Shape} {v : Value} (hf : f.Holds ρ s) (hm : i ∉ s.moved)
    (hv : s.locals[i]? = some v) (ha : a.Holds ρ v) : (f.store i (some a)).Holds ρ s := by
  cases hf with
  | mk hst hl => exact .mk hst (hl.know hm hv ha)

theorem le_pc {most : Option (Nat × Nat)} (h : f.le most g = true) : f.pc = g.pc :=
  of_decide_eq_true (Bool.and_eq_true_iff.mp (Bool.and_eq_true_iff.mp h).1).1

theorem le_holds {most : Option (Nat × Nat)} (hm : ∀ p ∈ most, ρ p.1 ≤ p.2) (h : f.le most g = true)
    (hf : f.Holds ρ s) : g.Holds ρ s := by
  have hpc := le_pc h
  obtain ⟨h, hl⟩ := Bool.and_eq_true_iff.mp h
  obtain ⟨-, hst⟩ := Bool.and_eq_true_iff.mp h
  refine hf.imp hpc ((forall₂_of_all₂ hst).imp fun a b hab v ha => Shape.le_holds hm hab ha)
    ((forall₂_of_all₂ hl).imp fun o o' ho b hb => ?_)
  subst hb
  cases o with
  | none => cases ho
  | some a => exact ⟨a, rfl, fun v ha => Shape.le_holds hm ho ha⟩

theorem holds_of_le (h : f.le none g = true) (hf : f.Holds ρ s) : g.Holds ρ s :=
  le_holds (by simp) h hf

theorem holds_of_shift {k c : Nat} (hk : ρ' k = ρ k + c) (hρ : ∀ j, j ≠ k → ρ' j = ρ j)
    (hf : (f.shift k c).Holds ρ s) : f.Holds ρ' s := by
  refine hf.imp rfl (List.forall₂_map_left_iff.mpr (List.forall₂_same.mpr fun a _ v ha =>
    Shape.holds_of_shift hk hρ ha)) (List.forall₂_map_left_iff.mpr (List.forall₂_same.mpr ?_))
  rintro _ _ b rfl
  exact ⟨_, rfl, fun v ha => Shape.holds_of_shift hk hρ ha⟩

theorem close_holds {k n : Nat} (hn : n ≤ ρ k) (hρ : ∀ j, j ≠ k → ρ' j = ρ j) (hf : f.Holds ρ s) :
    (f.close k n).Holds ρ' s := by
  refine hf.imp rfl (List.forall₂_map_right_iff.mpr (List.forall₂_same.mpr fun a _ v ha =>
    Shape.close_holds hn hρ ha)) (List.forall₂_map_right_iff.mpr (List.forall₂_same.mpr ?_))
  intro o _ b hb
  obtain ⟨a, rfl, rfl⟩ := Option.map_eq_some_iff.mp hb
  exact ⟨a, rfl, fun v ha => Shape.close_holds hn hρ ha⟩

end Frame

namespace Loop

variable {L : Loop} {w : Width}

theorem length_changed (L : Loop) (f : Frame) : (L.changed f).locals.length = f.locals.length := by
  unfold changed
  induction L.changes generalizing f with
  | nil => rfl
  | cons p changes ih => rw [List.foldl_cons, ih]; exact List.length_set

/-- The counter's value in a state. -/
def Counts (L : Loop) (w : Width) (n : Nat) (s : StrictState) : Prop :=
  L.counter ∉ s.moved ∧ ∃ v, s.locals[L.counter]? = some v ∧ width v = some w ∧ v.asNat = n

theorem read_of_count {r : Range} (h : L.count f = some (w, r)) :
    f.read L.counter = some (.int w r) := by
  unfold count at h
  split at h
  · cases h
    assumption
  · cases h

theorem counter_lt {r : Range} (h : L.count f = some (w, r)) : L.counter < f.locals.length :=
  (List.getElem?_eq_some_iff.mp (Option.join_eq_some_iff.mp (read_of_count h))).1

theorem counts_of_count {r : Range} (h : L.count f = some (w, r)) (hf : f.Holds ρ s) :
    ∃ n, r.Holds ρ n ∧ L.Counts w n s := by
  obtain ⟨v, hm, hv, hw, hr⟩ := hf.int_value (read_of_count h)
  exact ⟨_, hr, hm, v, hv, hw, rfl⟩

theorem count_between {lo hi : Nat} (h : L.counter < f.locals.length) :
    L.count (L.between w lo hi f) = some (w, ⟨lo, hi, some (L.ghost, 0)⟩) := by
  unfold count between Frame.read Frame.store
  rw [List.getElem?_set_self h]
  rfl

/-- The range of the counter may be any in which its value is. -/
theorem between_holds {n lo hi : Nat} (hf : f.Holds ρ s) (hn : L.Counts w n s) (hρ : n = ρ L.ghost)
    (hlo : lo ≤ n) (hhi : n ≤ hi) : (L.between w lo hi f).Holds ρ s := by
  obtain ⟨hm, v, hv, hw, rfl⟩ := hn
  refine hf.store_value hm hv (.int hw ⟨hlo, hhi, fun p hp => ?_⟩)
  cases hp
  exact hρ

theorem between_holds_of_between {n lo hi lo' hi' : Nat} (hf : (L.between w lo hi f).Holds ρ s)
    (hn : L.Counts w n s) (hρ : n = ρ L.ghost) (hlo : lo' ≤ n) (hhi : n ≤ hi') :
    (L.between w lo' hi' f).Holds ρ s := by
  have h := between_holds hf hn hρ hlo hhi
  rwa [between, between, Frame.store, Frame.store, List.set_set] at h

end Loop

/-! ## Soundness of the analysis -/

/-- Each contract is one of the bytecode called at its place. -/
def Respects (H : Hash) (code : Bytecode) (calls : List (Nat × Contract)) : Prop :=
  ∀ p ∈ calls, ∃ callee localsTail arity,
    code[p.1]? = some (.Call callee localsTail arity) ∧ p.2.Holds H callee localsTail

namespace Respects

variable {code : Bytecode} {calls : List (Nat × Contract)}

theorem nil : Respects H code [] := by
  intro p hp
  cases hp

theorem cons (pc : Nat) {callee : Bytecode} {localsTail : List Value} {arity : Nat} {c : Contract}
    (hop : code[pc]? = some (.Call callee localsTail arity)) (hc : c.Holds H callee localsTail)
    (h : Respects H code calls) : Respects H code ((pc, c) :: calls) := by
  intro p hp
  rcases List.mem_cons.mp hp with rfl | hp
  · exact ⟨callee, localsTail, arity, hop, hc⟩
  · exact h p hp

end Respects

section Exec

variable {code : Bytecode} {calls : List (Nat × Contract)} {loops : List Loop}

theorem mem_of_lookup {α : Type} {k : Nat} {v : α} : ∀ {l : List (Nat × α)}, l.lookup k = some v → (k, v) ∈ l
  | [], h => by cases h
  | (j, u) :: l, h => by
    rw [List.lookup_cons] at h
    split at h
    · rename_i hk
      cases h
      rw [beq_iff_eq.mp hk]
      exact .head _
    · exact .tail _ (mem_of_lookup h)

theorem step₁_holds (hc : Respects H code calls) (hf : f.Holds ρ s)
    (h : step₁ calls code.toList f = some g) : Within H code s 1 (g.Holds ρ) := by
  obtain ⟨op, hop, h⟩ := Option.bind_eq_some_iff.mp h
  rw [Array.getElem?_toList] at hop
  have hpc : s.pc = f.pc := by cases hf; rfl
  have he : s.error = none := by cases hf; rfl
  rw [← hpc] at hop
  cases op with
  | Ret => cases h
  | Call callee localsTail arity =>
    obtain ⟨c, hl, h⟩ := Option.bind_eq_some_iff.mp h
    obtain ⟨callee', localsTail', arity', hop', hc⟩ := hc _ (mem_of_lookup hl)
    rw [← hpc, hop] at hop'
    cases hop'
    exact .step he hop nofun (.done (call_holds hc hf h))
  | Branch offset =>
    cases h
    refine .step he hop nofun (.done ?_)
    cases hf with
    | mk hst hl =>
      exact strict_holds rfl (uses_none rfl) rfl (by simp) (.mk hst hl)
  | _ => exact .step he hop nofun (.done (next_holds hf h))

theorem brFalse_holds {a : Option Bool} {stack : List Shape} {offset : Nat}
    (hop : code.toList[f.pc]? = some (.BrFalse offset)) (hst : f.stack = .bool a :: stack)
    (hf : f.Holds ρ s) : ∃ b, (∀ c ∈ a, b = c) ∧ Within H code s 1
      (Frame.Holds ρ { f with stack := stack, pc := if b then f.pc + 1 else offset }) := by
  rw [Array.getElem?_toList] at hop
  cases hf with
  | mk hst' hl =>
    rw [hst] at hst'
    cases hst' with
    | cons hb hst' =>
      cases hb with
      | @bool _ b hb =>
        refine ⟨b, hb, .step rfl hop nofun (.done ?_)⟩
        refine strict_holds rfl (uses_none rfl) rfl (by simp) ?_
        cases b <;> exact .mk hst' hl

theorem fork_holds {a : Option Bool} {k : Bool → Option (Frame × Nat)} {n : Nat}
    (h : fork a k = some (g, n)) {b : Bool} (hb : ∀ c ∈ a, b = c) :
    ∃ g' m, k b = some (g', m) ∧ m ≤ n ∧ ∀ {ρ s}, g'.Holds ρ s → g.Holds ρ s := by
  unfold fork at h
  split at h
  · obtain rfl := hb _ rfl
    exact ⟨g, n, h, le_rfl, id⟩
  · obtain ⟨⟨x, m⟩, hx, h⟩ := Option.bind_eq_some_iff.mp h
    obtain ⟨⟨y, n'⟩, hy, h⟩ := Option.bind_eq_some_iff.mp h
    dsimp only at h
    split at h
    · rename_i hle
      cases h
      cases b with
      | true => exact ⟨x, m, hx, le_max_left _ _, Frame.holds_of_le hle⟩
      | false => exact ⟨g, n', hy, le_max_right _ _, id⟩
    · cases h

/-- A frame that `fork` finds is one at the end of a way. -/
theorem fork_eq {a : Option Bool} {k : Bool → Option (Frame × Nat)} {n : Nat}
    (h : fork a k = some (g, n)) : ∃ b m, k b = some (g, m) := by
  unfold fork at h
  split at h
  · exact ⟨_, _, h⟩
  · obtain ⟨⟨x, m⟩, -, h⟩ := Option.bind_eq_some_iff.mp h
    obtain ⟨⟨y, n'⟩, hy, h⟩ := Option.bind_eq_some_iff.mp h
    dsimp only at h
    split at h
    · cases h
      exact ⟨_, _, hy⟩
    · cases h

/-- The rule for loops: what is known of the frames of a body and of the way out. -/
theorem loop_holds {L : Loop} {w : Width} {r : Range} {inv g' : Frame} {m n : Nat}
    (hcount : L.count f = some (w, r)) (hinv : L.counter < inv.locals.length)
    (hle : (L.between w r.lo r.hi (f.close L.ghost 0)).le (some (L.ghost, r.hi))
      (L.between w r.lo L.limit inv) = true)
    (hbody : ∀ ρ s, (L.between w r.lo (L.limit - 1) inv).Holds ρ s → Within H code s m (g.Holds ρ))
    (hstep : g.le none ((L.between w r.lo L.limit inv).shift L.ghost 1) = true)
    (hexit : ∀ ρ s, ((L.between w L.limit L.limit inv).close L.ghost L.limit).Holds ρ s →
      Within H code s n (g'.Holds ρ)) (hf : f.Holds ρ s) :
    Within H code s ((L.limit - r.lo) * m + n) (g'.Holds ρ) := by
  -- The valuations of the iterations differ at the count only.
  let val (v : Nat) := Function.update ρ L.ghost v
  have hval : ∀ v, val v L.ghost = v := fun v => Function.update_self L.ghost v ρ
  have hne : ∀ v j, j ≠ L.ghost → val v j = ρ j := fun v j hj => Function.update_of_ne hj v ρ
  have hcount' : ∀ v s, (L.between w r.lo L.limit inv).Holds (val v) s →
      L.Counts w v s ∧ r.lo ≤ v ∧ v ≤ L.limit := by
    intro v s hs
    obtain ⟨n, hn, hc⟩ := Loop.counts_of_count (Loop.count_between hinv) hs
    have hv : n = v := (hn.ghost _ rfl).trans (hval v)
    exact ⟨hv ▸ hc, hv ▸ hn.lo, hv ▸ hn.hi⟩
  -- the first iteration
  obtain ⟨c, hc, hs⟩ := Loop.counts_of_count hcount hf
  have hstart : (L.between w r.lo L.limit inv).Holds (val c) s := by
    refine Frame.le_holds ?_ hle (Loop.between_holds ?_ hs (hval c).symm hc.lo hc.hi)
    · intro p hp
      cases hp
      exact (hval c).trans_le hc.hi
    · exact Frame.close_holds (Nat.zero_le _) (hne c) hf
  have hiter : ∀ v < L.limit, ∀ s, (L.between w r.lo L.limit inv).Holds (val v) s →
      Within H code s m ((L.between w r.lo L.limit inv).Holds (val (v + 1))) := by
    intro v hv s hs
    obtain ⟨hv', hlo, -⟩ := hcount' v s hs
    refine (hbody (val v) s (Loop.between_holds_of_between hs hv' (hval v).symm hlo
      (Nat.le_sub_one_of_lt hv))).mono le_rfl fun t ht => ?_
    exact Frame.holds_of_shift ((hval _).trans (congrArg (· + 1) (hval v).symm))
      (fun j hj => (hne _ j hj).trans (hne _ j hj).symm) (Frame.holds_of_le hstep ht)
  have hlast : ∀ s, (L.between w r.lo L.limit inv).Holds (val L.limit) s →
      Within H code s n (g'.Holds ρ) := by
    intro s hs
    obtain ⟨hv', -, -⟩ := hcount' _ s hs
    exact hexit ρ s (Frame.close_holds (hval _).ge (fun j hj => (hne _ j hj).symm)
      (Loop.between_holds_of_between hs hv' (hval _).symm le_rfl le_rfl))
  refine (Within.loop (fun v => (L.between w r.lo L.limit inv).Holds (val v)) hiter hlast
    (hcount' c s hstart).2.2 hstart).mono ?_ fun _ h => h
  exact Nat.add_le_add_right (Nat.mul_le_mul_right _ (Nat.sub_le_sub_left hc.lo _)) _

/-- The analysis goes from a frame to one that `step₁` gives. -/
theorem step₁_exec_holds (hc : Respects H code calls) {fuel : Nat} {stop : Option Nat} {n : Nat}
    (ih : ∀ {f n ρ s}, exec calls loops code.toList fuel stop f = some (g, n) → f.Holds ρ s →
      Within H code s n (g.Holds ρ))
    (h : (step₁ calls code.toList f).bind (exec calls loops code.toList fuel stop) = some (g, n))
    (hf : f.Holds ρ s) : Within H code s (n + 1) (g.Holds ρ) := by
  obtain ⟨f', hf', h⟩ := Option.bind_eq_some_iff.mp h
  rw [Nat.add_comm]
  exact (step₁_holds hc hf hf').bind fun t ht => ih h ht

/-- A strict run from a state of a frame comes to one of the frame that the analysis finds. -/
theorem exec_holds (hc : Respects H code calls) {fuel : Nat} {stop : Option Nat} {n : Nat}
    (h : exec calls loops code.toList fuel stop f = some (g, n)) (hf : f.Holds ρ s) :
    Within H code s n (g.Holds ρ) := by
  induction fuel generalizing stop f g n ρ s with
  | zero => cases h
  | succ fuel ih =>
    unfold exec at h
    split at h
    · cases h
      exact .done hf
    · split at h
      · -- a loop
        obtain ⟨⟨w, r⟩, hcount, h⟩ := Option.bind_eq_some_iff.mp h
        dsimp only at h
        split at h
        · rename_i L _ hle
          obtain ⟨⟨x, m⟩, hbody, h⟩ := Option.bind_eq_some_iff.mp h
          dsimp only at h
          split at h
          · rename_i hstep
            obtain ⟨⟨y, n'⟩, hexit, h⟩ := Option.bind_eq_some_iff.mp h
            cases h
            refine loop_holds hcount ?_ hle
              (fun ρ s hs => step₁_exec_holds hc (fun h hf => ih h hf) hbody hs) hstep
              (fun ρ s hs => step₁_exec_holds hc (fun h hf => ih h hf) hexit hs) hf
            rw [Loop.length_changed]
            exact (List.length_map _).symm ▸ Loop.counter_lt hcount
          · cases h
        · cases h
      · split at h
        · cases h
          exact .done hf
        · rename_i hop
          split at h
          · rename_i hst
            obtain ⟨⟨x, m⟩, hx, h⟩ := Option.bind_eq_some_iff.mp h
            cases h
            obtain ⟨b, hb, hw⟩ := brFalse_holds hop hst hf
            obtain ⟨y, m', hy, hm, himp⟩ := fork_holds hx hb
            rw [Nat.add_comm]
            exact (hw.bind fun t ht => ih hy ht).mono (Nat.add_le_add_left hm 1) fun _ ht => himp ht
          · cases h
        · obtain ⟨⟨x, m⟩, hx, h⟩ := Option.bind_eq_some_iff.mp h
          cases h
          exact step₁_exec_holds hc (fun h hf => ih h hf) hx hf

/-- The frame that the analysis finds is where it was to stop, or at a `Ret`. -/
theorem exec_ends {ops : List Opcode} {fuel : Nat} {stop : Option Nat} {n : Nat}
    (h : exec calls loops ops fuel stop f = some (g, n)) : stop = some g.pc ∨ ops[g.pc]? = some .Ret := by
  induction fuel generalizing stop f g n with
  | zero => cases h
  | succ fuel ih =>
    unfold exec at h
    split at h
    · cases h
      exact .inl (by assumption)
    · split at h
      · obtain ⟨⟨w, r⟩, -, h⟩ := Option.bind_eq_some_iff.mp h
        dsimp only at h
        split at h
        · obtain ⟨⟨x, m⟩, -, h⟩ := Option.bind_eq_some_iff.mp h
          dsimp only at h
          split at h
          · obtain ⟨⟨y, n'⟩, hexit, h⟩ := Option.bind_eq_some_iff.mp h
            cases h
            obtain ⟨f', -, h⟩ := Option.bind_eq_some_iff.mp hexit
            exact ih h
          · cases h
        · cases h
      · split at h
        · cases h
          exact .inr (by assumption)
        · split at h
          · obtain ⟨⟨x, m⟩, hx, h⟩ := Option.bind_eq_some_iff.mp h
            cases h
            obtain ⟨b, m', h⟩ := fork_eq hx
            exact ih h
          · cases h
        · obtain ⟨⟨x, m⟩, hx, h⟩ := Option.bind_eq_some_iff.mp h
          cases h
          obtain ⟨f', -, h⟩ := Option.bind_eq_some_iff.mp hx
          exact ih h

/-- A run that comes to a `Ret` in time ends there. -/
theorem Within.run_holds {n : Nat} (h : Within H code s n (g.Holds ρ))
    (hret : code.toList[g.pc]? = some .Ret) (hn : n < 1000000) :
    g.Holds ρ (strictRun H code s 1000000) := by
  obtain ⟨t, m, hm, hr, ht⟩ := h
  rw [Array.getElem?_toList] at hret
  have he : t.error = none := by cases ht; rfl
  have hpc : t.pc = g.pc := by cases ht; rfl
  rwa [hr.ends he (hpc ▸ hret) (Nat.lt_of_le_of_lt hm hn)]

/-! ## Checks -/

/-- The analysis goes from `f` to `g`, or to a frame that says more, in at most `n` opcodes. -/
def leads (calls : List (Nat × Contract)) (loops : List Loop) (ops : List Opcode) (stop : Option Nat)
    (f g : Frame) (n : Nat) : Bool :=
  (exec calls loops ops 10000 stop f).any fun (g', m) => g'.le none g && decide (m ≤ n)

theorem leads_holds (loops : List Loop) (stop : Option Nat) (hc : Respects H code calls) {n : Nat}
    (h : leads calls loops code.toList stop f g n = true) (hf : f.Holds ρ s) :
    Within H code s n (g.Holds ρ) := by
  obtain ⟨⟨g', m⟩, hg, h⟩ := (Option.any_eq_true _ _).mp h
  obtain ⟨hle, hm⟩ := Bool.and_eq_true_iff.mp h
  exact (exec_holds hc hg hf).mono (of_decide_eq_true hm) fun _ ht => Frame.holds_of_le hle ht

/-- The analysis finds that a bytecode has a contract. -/
def check (calls : List (Nat × Contract)) (loops : List Loop) (ops : List Opcode)
    (localsTail : List Value) (c : Contract) : Bool :=
  (exec calls loops ops 10000 none (c.entry localsTail)).any fun (f, n) =>
    c.exit localsTail f && decide (n < 1000000)

theorem holds_of_check (loops : List Loop) {localsTail : List Value} {c : Contract}
    (hc : Respects H code calls)
    (h : check calls loops code.toList localsTail c = true) : c.Holds H code localsTail := by
  intro ρ s hs
  obtain ⟨⟨f, n⟩, hf, h⟩ := (Option.any_eq_true _ _).mp h
  obtain ⟨hx, hn⟩ := Bool.and_eq_true_iff.mp h
  have hret : code.toList[f.pc]? = some .Ret := (exec_ends hf).resolve_left nofun
  exact ⟨f, hx, (exec_holds hc hf hs).run_holds hret (of_decide_eq_true hn)⟩

end Exec

/-! ## Ghost variables -/

namespace Shape

/-- A shape without ghost variables. -/
def plain : Shape → Bool
  | .int _ r => r.ghost.isNone
  | .vecU8 l | .vecU32 l _ => l.ghost.isNone
  | .elemRef _ r => r.ghost.isNone
  | _ => true

theorem plain_holds {a : Shape} {v : Value} (h : a.plain = true) (ha : a.Holds ρ v) : a.Holds ρ' v := by
  have hr : ∀ {r : Range} {n : Nat}, r.ghost.isNone = true → r.Holds ρ n → r.Holds ρ' n := by
    intro r n h hr
    refine ⟨hr.lo, hr.hi, ?_⟩
    rw [Option.isNone_iff_eq_none.mp h]
    simp
  have hl : ∀ {l : Least} {n : Nat}, l.ghost.isNone = true → l.Holds ρ n → l.Holds ρ' n := by
    intro l n h hl
    unfold Least.Holds at *
    rwa [Option.isNone_iff_eq_none.mp h] at hl ⊢
  cases ha with
  | int hw h' => exact .int hw (hr h h')
  | bool hb => exact .bool hb
  | vecU8 h' => exact .vecU8 (hl h h')
  | vecU32 h' hm => exact .vecU32 (hl h h') hm
  | locRef => exact .locRef
  | elemRef h' => exact .elemRef (hr h h')

end Shape

namespace Frame

def plain (f : Frame) : Bool := f.stack.all Shape.plain && f.locals.all fun o => o.all Shape.plain

/-- What is known without ghost variables holds whatever their values. -/
theorem plain_holds (h : f.plain = true) (hf : f.Holds ρ s) : f.Holds ρ' s := by
  obtain ⟨hst, hl⟩ := Bool.and_eq_true_iff.mp h
  refine hf.imp rfl (List.forall₂_same.mpr fun a ha v h' =>
    Shape.plain_holds (List.all_eq_true.mp hst a ha) h') (List.forall₂_same.mpr ?_)
  rintro o ho b rfl
  exact ⟨b, rfl, fun v h' => Shape.plain_holds (List.all_eq_true.mp hl _ ho) h'⟩

/-- More is known of a local. -/
theorem Holds.know {i : Nat} {a b : Shape} (hf : f.Holds ρ s) (hr : f.read i = some a) (h : Implies ρ ρ a b) :
    (f.store i (some b)).Holds ρ s := by
  obtain ⟨hm, v, hv, ha⟩ := hf.value hr
  exact hf.store_value hm hv (h v ha)

end Frame

theorem implies_int {w : Width} {r r' : Range} (h : ∀ n, r.Holds ρ n → r'.Holds ρ' n) :
    Frame.Implies ρ ρ' (.int w r) (.int w r') := by
  intro v hv
  cases hv with
  | int hw hr => exact .int hw (h _ hr)

section Ghosts

variable {code : Bytecode} {i j k k' l out : Nat} {w : Width} {r r' : Range}

theorem next_step {op : Opcode} (hop : code.toList[f.pc]? = some op) (hr : op ≠ .Ret)
    (h : next op f = some g) (hf : f.Holds ρ s) : Within H code s 1 (g.Holds ρ) := by
  have hpc : s.pc = f.pc := by cases hf; rfl
  have he : s.error = none := by cases hf; rfl
  rw [Array.getElem?_toList, ← hpc] at hop
  exact .step he hop hr (.done (next_holds hf h))

/-- A comparison of two ghost variables is decided by their values. -/
theorem lt_step {stack : List Shape} (hop : code.toList[f.pc]? = some .Lt)
    (hst : f.stack = .int w r' :: .int w r :: stack) (hk : r.ghost = some (k, 0))
    (hk' : r'.ghost = some (k', 0)) (hf : f.Holds ρ s) : Within H code s 1
      (Frame.Holds ρ { f with stack := .bool (some (decide (ρ k < ρ k'))) :: stack, pc := f.pc + 1 }) := by
  have hpc : s.pc = f.pc := by cases hf; rfl
  have he : s.error = none := by cases hf; rfl
  rw [Array.getElem?_toList, ← hpc] at hop
  refine .step he hop nofun (.done ?_)
  refine compare_holds (G := fun a b => if a.ghost = some (k, 0) ∧ b.ghost = some (k', 0) then
      some (decide (ρ k < ρ k')) else none)
    ⟨fun _ => rfl, fun _ => rfl, by simp⟩ (fun _ _ => ⟨fun _ => rfl, fun _ _ _ => rfl⟩) ?_ hf ?_
  · intro w a b ra rb _ _ ha hb c hc
    split at hc
    · rename_i hg
      cases hc
      have ha := ha.ghost _ hg.1
      have hb := hb.ghost _ hg.2
      rw [ha, hb]
      rfl
    · cases hc
  · simp only [Frame.compare, Frame.pop2, Frame.pop, hst, hk, hk', Frame.advance, Frame.push, and_self,
      if_true]

/-- A sum of two ghost variables that is a third. -/
theorem add_step {stack : List Shape} (hop : code.toList[f.pc]? = some .Add)
    (hst : f.stack = .int w r' :: .int w r :: stack) (hk : r.ghost = some (k, 0))
    (hk' : r'.ghost = some (k', 0)) (hl : ρ l = ρ k + ρ k') (hw : ρ l < w.bound) (hf : f.Holds ρ s) :
    Within H code s 1 (Frame.Holds ρ
      { f with stack := .int w ⟨0, w.bound - 1, some (l, 0)⟩ :: stack, pc := f.pc + 1 }) := by
  have hpc : s.pc = f.pc := by cases hf; rfl
  have he : s.error = none := by cases hf; rfl
  rw [Array.getElem?_toList, ← hpc] at hop
  refine .step he hop nofun (.done ?_)
  refine arith_holds (F := (· + ·)) (G := fun w' a b =>
      if w' = w ∧ a.ghost = some (k, 0) ∧ b.ghost = some (k', 0) then
        some ⟨0, w.bound - 1, some (l, 0)⟩ else none)
    ⟨fun _ => rfl, fun _ => rfl, by simp⟩ ?_ hf ?_
  · intro w' ra rb x a b hx hwa ha hb
    split at hx
    · rename_i hg
      obtain ⟨rfl, hga, hgb⟩ := hg
      cases hx
      have hab : a.asNat + b.asNat = ρ l := by
        rw [hl, ha.ghost _ hga, hb.ghost _ hgb]
        rfl
      refine ⟨⟨fun _ => decide_eq_true (by rwa [hab, bound_eq hwa]), fun _ _ _ => rfl⟩, ?_⟩
      show Range.Holds ρ _ ((a.asNat + b.asNat) % w'.bound)
      rw [hab, Nat.mod_eq_of_lt hw]
      refine ⟨Nat.zero_le _, Nat.le_sub_one_of_lt hw, fun p hp => ?_⟩
      cases hp
      rfl
    · cases hx
  · simp only [Frame.arith, Frame.pop2, Frame.pop, hst, hk, hk', Frame.advance, Frame.push, and_self,
      if_true, Option.bind_some]

/-- An index that is known to be below the length. -/
theorem vecImmBorrow_step {a : Shape} {l : Least} {stack : List Shape}
    (hop : code.toList[f.pc]? = some .VecImmBorrow) (hst : f.stack = .int .w64 r :: a :: stack)
    (hd : f.deref a = some (.vecU8 l)) (hlt : ∀ m n, r.Holds ρ m → l.Holds ρ n → m < n)
    (hf : f.Holds ρ s) : Within H code s 1
      (Frame.Holds ρ { f with stack := .int .w8 (.upTo 255) :: stack, pc := f.pc + 1 }) := by
  have hpc : s.pc = f.pc := by cases hf; rfl
  have he : s.error = none := by cases hf; rfl
  rw [Array.getElem?_toList, ← hpc] at hop
  refine .step he hop nofun (.done ?_)
  cases hf with
  | mk hst' hl =>
    rw [hst] at hst'
    obtain ⟨u, _, hu, htl, rfl⟩ := List.forall₂_cons_left_iff.mp hst'
    obtain ⟨v, values, hv, htl', rfl⟩ := List.forall₂_cons_left_iff.mp htl
    obtain ⟨hi, _, hd⟩ := deref_holds values hl hd hv
    cases hu with
    | int hw hr =>
      refine strict_holds rfl (uses_two rfl (no_target (target_eq hw)) hi) rfl (by simp) ?_
      cases u <;> cases hw
      rw [vecImmBorrow_eq (hlt _ _ hr (Shape.length_vecU8 (hd (.vecU8 []))))]
      exact .mk (.cons (.int rfl (Range.upTo_holds (Nat.le_of_lt_succ (UInt8.toNat_lt _)))) htl') hl

/-- The test of a loop that compares a local with another. -/
theorem guard_holds (code : Bytecode) {f : Frame} {s : StrictState} {i j k k' out : Nat} {w : Width}
    {r r' : Range} (hops : (code.toList.drop f.pc).take 4 = [.CopyLoc i, .CopyLoc j, .Lt, .BrFalse out])
    (hi : f.read i = some (.int w r)) (hj : f.read j = some (.int w r')) (hk : r.ghost = some (k, 0))
    (hk' : r'.ghost = some (k', 0)) (hf : f.Holds ρ s) :
    Within H code s 4 (Frame.Holds ρ { f with pc := if ρ k < ρ k' then f.pc + 4 else out }) := by
  have hop : ∀ n < 4, code.toList[f.pc + n]? = [.CopyLoc i, .CopyLoc j, .Lt, .BrFalse out][n]? := by
    intro n hn
    rw [← hops, List.getElem?_take_of_lt hn, List.getElem?_drop]
  have hop₁ : code.toList[f.pc]? = some (.CopyLoc i) := hop 0 (by omega)
  have hop₂ : code.toList[f.pc + 1]? = some (.CopyLoc j) := hop 1 (by omega)
  have hop₃ : code.toList[f.pc + 2]? = some .Lt := hop 2 (by omega)
  have hop₄ : code.toList[f.pc + 3]? = some (.BrFalse out) := hop 3 (by omega)
  let f₁ : Frame := { f with stack := .int w r :: f.stack, pc := f.pc + 1 }
  let f₂ : Frame := { f with stack := .int w r' :: .int w r :: f.stack, pc := f.pc + 2 }
  have h₁ : next (.CopyLoc i) f = some f₁ := congrArg (·.bind fun a => (f.push a).advance) hi
  have h₂ : next (.CopyLoc j) f₁ = some f₂ := congrArg (·.bind fun a => (f₁.push a).advance) hj
  refine (next_step hop₁ nofun h₁ hf).bind (n := 3) fun t ht => ?_
  refine (next_step (f := f₁) hop₂ nofun h₂ ht).bind (n := 2) fun t ht => ?_
  refine (lt_step (f := f₂) hop₃ rfl hk hk' ht).bind (n := 1) fun t ht => ?_
  obtain ⟨b, hb, hw⟩ := brFalse_holds hop₄ rfl ht
  obtain rfl := hb _ rfl
  simpa only [decide_eq_true_eq] using hw

end Ghosts

end SuiPq.Proof.MoveVm
