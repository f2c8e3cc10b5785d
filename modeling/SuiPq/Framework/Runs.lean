import Mathlib.Data.List.Basic
import Mathlib.Tactic.Common

/-!
# Runs of atomic transactions

A transaction is a list of commands. It runs them one after the other on a
state of its own and, when all of them succeed, leaves a new world; a
transaction with a command that fails leaves the world as it was. The history
of a run is the commands of the transactions that went through, in order.

A condition holds along a list of commands (`Along`) when it holds of each of
them in the state it runs in, and along a run (`System.Meets`) when it holds
along every transaction that goes through. `System.run_keeps` takes an
invariant of the commands that meet a condition to the runs that meet it, and
`System.history_keeps` one that speaks of the history.
-/

namespace SuiPq

theorem guard_bind_some {α : Type} {p : Prop} [Decidable p] {m : Option α} {a : α} :
    (guard p >>= fun _ => m) = some a ↔ p ∧ m = some a := by
  by_cases h : p <;> simp [h, guard]

theorem eq_some_getD {α : Type} {o : Option α} (h : o.isSome) (a : α) : o = some (o.getD a) := by
  cases o with
  | none => cases h
  | some b => rfl

section Commands

variable {σ χ : Type} {step : σ → χ → Option σ}

/-- `P` holds of every command, in the state it runs in. -/
def Along (step : σ → χ → Option σ) (P : σ → χ → Prop) : List χ → σ → Prop
  | [], _ => True
  | c :: cs, s => P s c ∧ ∀ s', step s c = some s' → Along step P cs s'

instance Along.decidable {P : σ → χ → Prop} [∀ s c, Decidable (P s c)] :
    ∀ (cs : List χ) (s : σ), Decidable (Along step P cs s)
  | [], _ => .isTrue trivial
  | c :: cs, s => match h : step s c with
    | none => decidable_of_iff (P s c) (by simp [Along, h])
    | some t =>
      haveI : Decidable (Along step P cs t) := Along.decidable cs t
      decidable_of_iff (P s c ∧ Along step P cs t) (by simp [Along, h])

theorem foldlM_cons_some {c : χ} {cs : List χ} {s s' : σ} :
    (c :: cs).foldlM step s = some s' ↔ ∃ t, step s c = some t ∧ cs.foldlM step t = some s' := by
  rw [List.foldlM_cons]
  exact Option.bind_eq_some_iff

theorem foldlM_append_some {cs ds : List χ} {s s' : σ} :
    (cs ++ ds).foldlM step s = some s' ↔
      ∃ t, cs.foldlM step s = some t ∧ ds.foldlM step t = some s' := by
  rw [List.foldlM_append]
  exact Option.bind_eq_some_iff

/-- What each command keeps along a list of them, all of them together do. -/
theorem foldlM_keeps {P : σ → χ → Prop} {J : σ → Prop}
    (hJ : ∀ s c s', P s c → step s c = some s' → J s → J s') :
    ∀ {cs : List χ} {s s' : σ}, Along step P cs s → cs.foldlM step s = some s' → J s → J s'
  | [], s, s', _, h, hs => by
    cases (h : some s = some s')
    exact hs
  | c :: cs, s, s', ⟨hP, hA⟩, h, hs => by
    obtain ⟨t, ht, h⟩ := foldlM_cons_some.mp h
    exact foldlM_keeps hJ (hA t ht) h (hJ s c t hP ht hs)

/-- What holds of each command that meets `P` in a state that satisfies `J`
holds along a list of them that succeed. -/
theorem along_of {P Q : σ → χ → Prop} {J : σ → Prop}
    (hJ : ∀ s c s', P s c → step s c = some s' → J s → J s')
    (hQ : ∀ s c s', P s c → step s c = some s' → J s → Q s c) :
    ∀ {cs : List χ} {s s' : σ}, Along step P cs s → cs.foldlM step s = some s' → J s → Along step Q cs s
  | [], _, _, _, _, _ => trivial
  | c :: cs, s, s', ⟨hP, hA⟩, h, hs => by
    obtain ⟨t, ht, h⟩ := foldlM_cons_some.mp h
    refine ⟨hQ s c t hP ht hs, fun u hu => ?_⟩
    obtain rfl : u = t := Option.some.inj (hu.symm.trans ht)
    exact along_of hJ hQ (hA u hu) h (hJ s c u hP ht hs)

/-- A condition on states, and one on the commands alone. -/
theorem Along.and {P : σ → χ → Prop} {Q : χ → Prop} : ∀ {cs : List χ} {s : σ}, Along step P cs s →
    (∀ c ∈ cs, Q c) → Along step (fun s c => P s c ∧ Q c) cs s
  | [], _, _, _ => trivial
  | _ :: _, _, ⟨hP, hA⟩, hQ => ⟨⟨hP, hQ _ List.mem_cons_self⟩,
      fun s' hs' => (hA s' hs').and fun c hc => hQ c (List.mem_cons_of_mem _ hc)⟩

theorem along_true : ∀ (cs : List χ) (s : σ), Along step (fun _ _ => True) cs s
  | [], _ => trivial
  | _ :: cs, _ => ⟨trivial, fun s' _ => along_true cs s'⟩

/-- `foldlM_keeps`, of what every command keeps. -/
theorem foldlM_keeps_all {J : σ → Prop} (hJ : ∀ s c s', step s c = some s' → J s → J s')
    {cs : List χ} {s s' : σ} (h : cs.foldlM step s = some s') (hs : J s) : J s' :=
  foldlM_keeps (fun s c s' _ => hJ s c s') (along_true cs s) h hs

/-- The commands of a list that succeeds, with the states they run in. -/
def trace (step : σ → χ → Option σ) : List χ → σ → List (σ × χ)
  | [], _ => []
  | c :: cs, s => (s, c) :: (step s c).elim [] (trace step cs)

/-- What each command keeps of what came before it and of the state, a list of them does. -/
theorem trace_keeps {J : List (σ × χ) → σ → Prop}
    (hJ : ∀ h s c s', step s c = some s' → J h s → J (h ++ [(s, c)]) s') {cs : List χ} {s s' : σ}
    {h : List (σ × χ)} (hcs : cs.foldlM step s = some s') (hs : J h s) : J (h ++ trace step cs s) s' := by
  induction cs generalizing s h with
  | nil =>
    cases (hcs : some s = some s')
    rwa [trace, List.append_nil]
  | cons c cs ih =>
    obtain ⟨t, ht, hcs⟩ := foldlM_cons_some.mp hcs
    have hstep := ih hcs (hJ h s c t ht hs)
    rw [List.append_assoc, List.singleton_append] at hstep
    rw [trace, ht]
    exact hstep

end Commands

/-- Transactions `T` on worlds `W`, of commands `C` on states `S`. -/
structure System (W S T C : Type) where
  start : W → T → S
  commands : T → List C
  step : S → C → Option S
  finish : S → Option W

namespace System

variable {W S T C : Type} (Y : System W S T C)

/-- The world after a transaction that goes through. -/
def exec (w : W) (t : T) : Option W := ((Y.commands t).foldlM Y.step (Y.start w t)).bind Y.finish

def next (w : W) (t : T) : W := (Y.exec w t).getD w

def run (w : W) (ts : List T) : W := ts.foldl Y.next w

/-- `P` holds of every command of the transactions that go through. -/
def Meets (P : S → C → Prop) : List T → W → Prop
  | [], _ => True
  | t :: ts, w => ((Y.exec w t).isSome → Along Y.step P (Y.commands t) (Y.start w t)) ∧
      Meets P ts (Y.next w t)

instance Meets.decidable {P : S → C → Prop} [∀ s c, Decidable (P s c)] :
    ∀ (ts : List T) (w : W), Decidable (Y.Meets P ts w)
  | [], _ => .isTrue trivial
  | t :: ts, w =>
    haveI : Decidable (Y.Meets P ts (Y.next w t)) := Meets.decidable ts (Y.next w t)
    inferInstanceAs (Decidable (((Y.exec w t).isSome → Along Y.step P (Y.commands t) (Y.start w t)) ∧
      Y.Meets P ts (Y.next w t)))

theorem exec_some {w w' : W} {t : T} (h : Y.exec w t = some w') :
    ∃ s, (Y.commands t).foldlM Y.step (Y.start w t) = some s ∧ Y.finish s = some w' :=
  Option.bind_eq_some_iff.mp h

/-- A transaction of one command. -/
theorem exec_single {w : W} {t : T} {c : C} {s : S} (ht : Y.commands t = [c])
    (hs : Y.step (Y.start w t) c = some s) :
    Y.exec w t = Y.finish s := by
  rw [exec, ht, foldlM_cons_some.mpr ⟨s, hs, rfl⟩]
  rfl

/-- A transaction keeps what starting it, its commands and ending it do. -/
theorem next_keeps {P : S → C → Prop} {I : W → Prop} {J : S → Prop} {w : W} {t : T}
    (h₀ : I w → J (Y.start w t))
    (hJ : ∀ s c s', P s c → Y.step s c = some s' → J s → J s') (h₁ : ∀ s w, J s → Y.finish s = some w → I w)
    (hP : (Y.exec w t).isSome → Along Y.step P (Y.commands t) (Y.start w t)) (hw : I w) :
    I (Y.next w t) := by
  rw [next]
  cases h : Y.exec w t with
  | none => exact hw
  | some w' =>
    obtain ⟨s, hs, hf⟩ := Y.exec_some h
    exact h₁ s w' (foldlM_keeps hJ (hP (by rw [h]; rfl)) hs (h₀ hw)) hf

/-- A run that meets `P` keeps what starting a transaction, its commands and ending it do. -/
theorem run_keeps {P : S → C → Prop} {I : W → Prop} {J : S → Prop}
    (h₀ : ∀ w t, I w → J (Y.start w t)) (hJ : ∀ s c s', P s c → Y.step s c = some s' → J s → J s')
    (h₁ : ∀ s w, J s → Y.finish s = some w → I w) :
    ∀ {ts : List T} {w : W}, Y.Meets P ts w → I w → I (Y.run w ts)
  | [], _, _, hw => hw
  | t :: ts, w, ⟨ht, hts⟩, hw =>
    show I (Y.run (Y.next w t) ts) from run_keeps h₀ hJ h₁ hts (Y.next_keeps (h₀ w t) hJ h₁ ht hw)

/-- An invariant that a transaction which goes through keeps exactly when it meets `P` holds in every world that a run
reaches exactly when the run meets `P`. -/
theorem run_take_iff {P : S → C → Prop} {I : W → Prop} {J : S → Prop} (h₀ : ∀ w t, I w → J (Y.start w t))
    (hJ : ∀ s c s', P s c → Y.step s c = some s' → J s → J s') (h₁ : ∀ s w, J s → Y.finish s = some w → I w)
    (hP : ∀ w t w', I w → Y.exec w t = some w' → I w' → Along Y.step P (Y.commands t) (Y.start w t))
    {ts : List T}
    {w : W} (hw : I w) : (∀ n, I (Y.run w (ts.take n))) ↔ Y.Meets P ts w := by
  induction ts generalizing w with
  | nil =>
    constructor
    · intro _
      trivial
    · intro _ n
      rwa [List.take_nil]
  | cons t ts ih =>
    constructor
    · intro h
      have hnext : I (Y.next w t) := h 1
      refine ⟨fun hsome => ?_, (ih hnext).mp fun n => h (n + 1)⟩
      obtain ⟨w', hw'⟩ := Option.isSome_iff_exists.mp hsome
      rw [next, hw'] at hnext
      exact hP w t w' hw hw' hnext
    · rintro ⟨ht, hts⟩ n
      have hnext := Y.next_keeps (h₀ w t) hJ h₁ ht hw
      cases n with
      | zero => exact hw
      | succ n => exact (ih hnext).mpr hts n

theorem meets_true : ∀ (ts : List T) (w : W), Y.Meets (fun _ _ => True) ts w
  | [], _ => trivial
  | _ :: ts, _ => ⟨fun _ => along_true _ _, meets_true ts _⟩

/-- `run_keeps`, of what every command keeps, and what starting each transaction of the run does. -/
theorem run_keeps_mem {I : W → Prop} {J : S → Prop} {ts : List T} (h₀ : ∀ t ∈ ts, ∀ w, I w → J (Y.start w t))
    (hJ : ∀ s c s', Y.step s c = some s' → J s → J s') (h₁ : ∀ s w, J s → Y.finish s = some w → I w)
    {w : W} (hw : I w) : I (Y.run w ts) := by
  induction ts generalizing w with
  | nil => exact hw
  | cons t ts ih =>
    obtain ⟨ht, hts⟩ := List.forall_mem_cons.mp h₀
    exact ih hts (Y.next_keeps (ht w) (fun s c s' _ => hJ s c s') h₁ (fun _ => along_true _ _) hw)

/-- `run_keeps_mem`, of what starting any transaction keeps. -/
theorem run_keeps_all {I : W → Prop} {J : S → Prop} (h₀ : ∀ w t, I w → J (Y.start w t))
    (hJ : ∀ s c s', Y.step s c = some s' → J s → J s') (h₁ : ∀ s w, J s → Y.finish s = some w → I w)
    {ts : List T} {w : W} (hw : I w) : I (Y.run w ts) :=
  Y.run_keeps_mem (fun t _ w => h₀ w t) hJ h₁ hw

/-- A transaction with a command that fails changes nothing. -/
theorem next_of_step_none {w : W} {t : T} {cs ds : List C} {c : C} {s : S}
    (ht : Y.commands t = cs ++ c :: ds) (hs : cs.foldlM Y.step (Y.start w t) = some s)
    (h : Y.step s c = none) : Y.next w t = w := by
  rw [next]
  cases hw : Y.exec w t with
  | none => rfl
  | some w' =>
    obtain ⟨u, hu, -⟩ := Y.exec_some hw
    rw [ht] at hu
    obtain ⟨s₁, h₁, hu⟩ := foldlM_append_some.mp hu
    obtain rfl := Option.some.inj (hs.symm.trans h₁)
    obtain ⟨v, hv, -⟩ := foldlM_cons_some.mp hu
    rw [h] at hv
    cases hv

/-- What holds of each command that meets `P` in a state that satisfies the
invariant holds along the run. -/
theorem meets_of {P Q : S → C → Prop} {I : W → Prop} {J : S → Prop}
    (h₀ : ∀ w t, I w → J (Y.start w t)) (hJ : ∀ s c s', P s c → Y.step s c = some s' → J s → J s')
    (h₁ : ∀ s w, J s → Y.finish s = some w → I w)
    (hQ : ∀ s c s', P s c → Y.step s c = some s' → J s → Q s c) :
    ∀ {ts : List T} {w : W}, Y.Meets P ts w → I w → Y.Meets Q ts w
  | [], _, _, _ => trivial
  | t :: ts, w, ⟨ht, hts⟩, hw => by
    refine ⟨fun hsome => ?_, meets_of h₀ hJ h₁ hQ hts (Y.next_keeps (h₀ w t) hJ h₁ ht hw)⟩
    obtain ⟨w', hw'⟩ := Option.isSome_iff_exists.mp hsome
    obtain ⟨s, hs, -⟩ := Y.exec_some hw'
    exact along_of hJ hQ (ht hsome) hs (h₀ w t hw)

/-- What holds of each command that meets `P` and goes through holds along the run. -/
theorem meets_imp {P Q : S → C → Prop} (hQ : ∀ s c s', P s c → Y.step s c = some s' → Q s c) {ts : List T}
    {w : W} (h : Y.Meets P ts w) : Y.Meets Q ts w :=
  Y.meets_of (I := fun _ => True) (J := fun _ => True) (fun _ _ _ => trivial) (fun _ _ _ _ _ _ => trivial)
    (fun _ _ _ _ => trivial) (fun s c s' hP hs _ => hQ s c s' hP hs) h trivial

/-- The commands of the transactions of a run that go through, with the states they run in. -/
def history : List T → W → List (S × C)
  | [], _ => []
  | t :: ts, w => (Y.exec w t).elim [] (fun _ => trace Y.step (Y.commands t) (Y.start w t)) ++
      history ts (Y.next w t)

section History

variable {I : List (S × C) → W → Prop} {J : List (S × C) → S → Prop}

/-- `run_keeps_all`, of what is said of the history, too. -/
theorem history_keeps (h₀ : ∀ h w t, I h w → J h (Y.start w t))
    (hJ : ∀ h s c s', Y.step s c = some s' → J h s → J (h ++ [(s, c)]) s')
    (h₁ : ∀ h s w, J h s → Y.finish s = some w → I h w) {ts : List T} {w : W} {h : List (S × C)}
    (hw : I h w) :
    I (h ++ Y.history ts w) (Y.run w ts) := by
  induction ts generalizing w h with
  | nil => rwa [history, List.append_nil]
  | cons t ts ih =>
    have hnext : I (h ++ (Y.exec w t).elim [] (fun _ => trace Y.step (Y.commands t) (Y.start w t)))
      (Y.next w t) := by
      rw [next]
      cases hexec : Y.exec w t with
      | none => rwa [Option.elim_none, List.append_nil]
      | some w' =>
        obtain ⟨s, hs, hf⟩ := Y.exec_some hexec
        exact h₁ _ s w' (trace_keeps hJ hs (h₀ h w t hw)) hf
    have hrest := ih hnext
    rwa [List.append_assoc] at hrest

/-- In every place of a history the command goes through, from a state that satisfies the invariant with what came
before. -/
theorem history_at (h₀ : ∀ h w t, I h w → J h (Y.start w t))
    (hJ : ∀ h s c s', Y.step s c = some s' → J h s → J (h ++ [(s, c)]) s')
    (h₁ : ∀ h s w, J h s → Y.finish s = some w → I h w) {ts : List T} {w : W} (hw : I [] w)
    {before after : List (S × C)} {e : S × C} (h : Y.history ts w = before ++ e :: after) :
    J before e.1 ∧ ∃ s', Y.step e.1 e.2 = some s' := by
  let Places (h : List (S × C)) : Prop :=
    ∀ before e after, h = before ++ e :: after → J before e.1 ∧ ∃ s', Y.step e.1 e.2 = some s'
  have hkeeps : I ([] ++ Y.history ts w) (Y.run w ts) ∧ Places ([] ++ Y.history ts w) :=
    Y.history_keeps (I := fun h w => I h w ∧ Places h) (J := fun h s => J h s ∧ Places h)
      (fun h w t hI => ⟨h₀ h w t hI.1, hI.2⟩)
      (fun h s c s' hs hh => ⟨hJ h s c s' hs hh.1, fun before e after heq => ?_⟩)
      (fun h s w hh hf => ⟨h₁ h s w hh.1 hf, hh.2⟩) ⟨hw, fun before e after heq => ?_⟩
  · exact hkeeps.2 before e after h
  · rcases List.eq_nil_or_concat after with rfl | ⟨after, last, rfl⟩
    · obtain ⟨rfl, rfl⟩ := List.append_inj' heq rfl |>.imp_right List.singleton_inj.mp
      exact ⟨hh.1, s', hs⟩
    · rw [List.concat_eq_append, ← List.cons_append, ← List.append_assoc] at heq
      exact hh.2 before e after (List.append_inj' heq rfl).1
  · simp at heq

end History

theorem meets_and {P : S → C → Prop} {Q : C → Prop} : ∀ {ts : List T} {w : W}, Y.Meets P ts w →
    (∀ t ∈ ts, ∀ c ∈ Y.commands t, Q c) → Y.Meets (fun s c => P s c ∧ Q c) ts w
  | [], _, _, _ => trivial
  | _ :: _, _, ⟨ht, hts⟩, hQ => ⟨fun h => (ht h).and (hQ _ List.mem_cons_self),
      meets_and hts fun t h => hQ t (List.mem_cons_of_mem _ h)⟩

end System

end SuiPq
