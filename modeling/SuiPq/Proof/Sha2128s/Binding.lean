import SuiPq.Proof.Sha2128s.Verify

/-!
# The on-chain 128s verifier: every byte of a signature is bound

Two different FORS signatures with one public key (`fors_binding`), or two
different XMSS signatures with one root (`xmss_binding`), have collided: in
what the two calls hash there are inputs of one length under one address with
the same truncated hash. `signature_binding` has both.
-/

namespace SuiPq.Proof.Sha2128s

open SuiPq.Impl SuiPq.Impl.MoveBytes SuiPq.Impl.Sha2128s SuiPq.Move SuiPq.HashSig
open SuiPq.Spec.Slh128s (Adrs params input digits forsIndex forsSig xmssSig length_thash)

/-- Among what two calls hash, two different inputs of one length, under one
prefix and one address, with the same truncated hash. -/
def TruncCollision (H : Hash) (pre : Bytes) (L L' : List Bytes) : Prop :=
  ∃ a u v : Bytes, a.length = 22 ∧ u ≠ v ∧ u.length = v.length ∧ pre ++ a ++ u ∈ L ∧ pre ++ a ++ v ∈ L' ∧
    (H (pre ++ a ++ u)).take 16 = (H (pre ++ a ++ v)).take 16

variable {H : Hash} {pre : Bytes}

/-- Colliding evaluations hash colliding inputs. -/
theorem TruncCollision.of_collides {E E' : List (Eval Bytes)} (h : Collides (T H pre) E E')
    (hE : ∀ e ∈ E, Shaped params (·.length = 16) e) (hE' : ∀ e ∈ E', Shaped params (·.length = 16) e) :
    TruncCollision H pre (E.map (input pre)) (E'.map (input pre)) := by
  obtain ⟨n, xs, ys, hx, hy, hne, hl, hxs, hys, he⟩ := h.shaped hE hE'
  refine ⟨(Spec.Slh128s.adrs n).bytes, xs.flatten, ys.flatten, Adrs.length_bytes _,
    fun e => hne (flatten_inj hl hxs hys e), by rw [length_flatten_of hxs, length_flatten_of hys, hl], ?_⟩
  rw [← input_eq, ← input_eq]
  exact ⟨List.mem_map_of_mem hx, List.mem_map_of_mem hy, he⟩

/-! ## FORS -/

/-- `extractForsIndices` reads 21 bytes. -/
theorem extractForsIndices_ok {md : Bytes} {out : List Nat} (h : (extractForsIndices md).res = .ok out) :
    21 ≤ md.length := by
  rw [extractForsIndices] at h
  obtain ⟨_, h, -⟩ := Comp.bind_ok h
  have hR : ∀ (k : Nat) (s s' : Nat × List Nat), k < K → s.1 = 12 * k → (do
      let v ← whileLt 64 0 A 0 fun b v => do
        let bitIdx ← Move.add 64 s.1 b
        let x ← borrow md (← shr 64 bitIdx 3)
        let t ← sub 7 (← Move.cast 8 (bitIdx &&& 7))
        let bit := (← shr 8 x.toNat t) &&& 1
        let v ← shl 32 v 1
        pure (v ||| bit)
      let bitOff ← Move.add 64 s.1 A
      pure (bitOff, s.2 ++ [v]) : MoveFn (Nat × List Nat)).res = .ok s' → s'.1 = 12 * (k + 1) := by
    intro k s s' hk hs hb
    replace hk : k < 14 := hk
    obtain ⟨v, -, hb⟩ := Comp.bind_ok hb
    rw [hs, add_eq (by simp; omega), pure_bind] at hb
    cases hb
    rfl
  obtain ⟨s, s', hs, hb⟩ := whileLt_ok (fun k s => s.1 = 12 * k) rfl hR h (show 13 < K by decide)
  obtain ⟨v, hb, -⟩ := Comp.bind_ok hb
  obtain ⟨v, v', -, hb⟩ := whileLt_ok (fun _ _ => True) trivial (fun _ _ _ _ _ _ => trivial) hb
    (show 11 < A by decide)
  rw [hs, add_eq (by decide), pure_bind, shr_eq (by decide), pure_bind] at hb
  obtain ⟨x, hx, -⟩ := Comp.bind_ok hb
  exact borrow_ok hx

/-- Different FORS signatures differ in a secret or a sibling. -/
theorem forsSig_ne {s s' : Bytes} (hs : s.length = 2912) (hs' : s'.length = 2912) (h : s ≠ s') :
    ∃ i < 14, (forsSig s).sk i ≠ (forsSig s').sk i ∨
      ∃ j < 12, (forsSig s).auth i j ≠ (forsSig s').auth i j := by
  obtain ⟨i, hi, hne⟩ := exists_window_ne (w := 16) (k := 182) hs hs' h
  refine ⟨i / 13, by omega, ?_⟩
  by_cases hr : i % 13 = 0
  · rw [show i * 16 = i / 13 * 208 by omega] at hne
    exact .inl hne
  · rw [show i * 16 = i / 13 * 208 + 16 + (i % 13 - 1) * 16 by omega] at hne
    exact .inr ⟨i % 13 - 1, by omega, hne⟩

theorem forsSig_shaped {s : Bytes} (hs : s.length = 2912) (l t kp : Nat) (idx : Nat → Nat) :
    ∀ e ∈ forsEvals params (T H pre) l t kp idx (forsSig s), Shaped params (·.length = 16) e :=
  forsEvals_shaped length_thash (fun i hi => length_window (by have : i < 14 := hi; omega))
    fun i hi j hj => length_window (by have : i < 14 := hi; have : j < 12 := hj; omega)

/-- Different FORS signatures of one message digest with one public key have collided. -/
theorem fors_binding {md adrs s s' r : Bytes} (ha : adrs.length = 22) (hs : s.length = 2912)
    (hs' : s'.length = 2912) (hne : s ≠ s')
    (h : (Sha2128s.forsPkFromSig H s md pre adrs).res = .ok r)
    (h' : (Sha2128s.forsPkFromSig H s' md pre adrs).res = .ok r) :
    TruncCollision H pre (Sha2128s.forsPkFromSig H s md pre adrs).log
      (Sha2128s.forsPkFromSig H s' md pre adrs).log := by
  obtain ⟨⟨l, t, ty, kp, th, ti⟩, rfl⟩ := Spec.Slh128s.exists_adrs ha
  have hmd : 21 ≤ md.length := by
    have h := h
    rw [Sha2128s.forsPkFromSig] at h
    obtain ⟨_, -, h⟩ := Comp.bind_ok h
    obtain ⟨_, -, h⟩ := Comp.bind_ok h
    obtain ⟨_, h, -⟩ := Comp.bind_ok h
    exact extractForsIndices_ok h
  rw [forsPkFromSig_eq hmd (Nat.le_of_eq hs.symm)] at h ⊢
  rw [forsPkFromSig_eq hmd (Nat.le_of_eq hs'.symm)] at h' ⊢
  refine .of_collides (fors_collides (forsSig_ne hs hs' hne) ?_) (forsSig_shaped hs _ _ _ _)
    (forsSig_shaped hs' _ _ _ _)
  exact (Except.ok.inj h).trans (Except.ok.inj h').symm

/-! ## XMSS -/

/-- Different XMSS signatures differ in a chain's value or a sibling. -/
theorem xmssSig_ne {s s' : Bytes} (hs : s.length = 704) (hs' : s'.length = 704) (h : s ≠ s') :
    (∃ i < 35, (xmssSig s).wots i ≠ (xmssSig s').wots i) ∨
      ∃ j < 9, (xmssSig s).auth j ≠ (xmssSig s').auth j := by
  obtain ⟨i, hi, hne⟩ := exists_window_ne (w := 16) (k := 44) hs hs' h
  by_cases hr : i < 35
  · exact .inl ⟨i, hr, hne⟩
  · rw [show i * 16 = 560 + (i - 35) * 16 by omega] at hne
    exact .inr ⟨i - 35, by omega, hne⟩

theorem xmssSig_shaped {s : Bytes} (hs : s.length = 704) (l t kp : Nat) (dig : Nat → Nat) :
    ∀ e ∈ xmssEvals params (T H pre) l t kp dig (xmssSig s), Shaped params (·.length = 16) e :=
  xmssEvals_shaped length_thash (fun i hi => length_window (by have : i < 35 := hi; omega))
    fun j hj => length_window (by have : j < 9 := hj; omega)

/-- Different XMSS signatures of one message at one leaf with one root have collided. -/
theorem xmss_binding {idx : Nat} {msg adrs s s' r b b' : Bytes} (ha : adrs.length = 22)
    (hmsg : msg.length = 16) (hs : s.length = 704) (hs' : s'.length = 704) (hne : s ≠ s')
    (h : (Sha2128s.xmssPkFromSig H idx s msg pre adrs).res = .ok (r, b))
    (h' : (Sha2128s.xmssPkFromSig H idx s' msg pre adrs).res = .ok (r, b')) :
    TruncCollision H pre (Sha2128s.xmssPkFromSig H idx s msg pre adrs).log
      (Sha2128s.xmssPkFromSig H idx s' msg pre adrs).log := by
  obtain ⟨⟨l, t, ty, kp, th, ti⟩, rfl⟩ := Spec.Slh128s.exists_adrs ha
  rw [xmssPkFromSig_eq hmsg (Nat.le_of_eq hs.symm) (s := xmssSig s) (fun _ _ => rfl) fun _ _ => rfl]
    at h ⊢
  rw [xmssPkFromSig_eq hmsg (Nat.le_of_eq hs'.symm) (s := xmssSig s') (fun _ _ => rfl) fun _ _ => rfl]
    at h' ⊢
  refine .of_collides (xmss_collides (xmssSig_ne hs hs' hne) ?_) (xmssSig_shaped hs _ _ _ _)
    (xmssSig_shaped hs' _ _ _ _)
  exact (congrArg Prod.fst (Except.ok.inj h)).trans (congrArg Prod.fst (Except.ok.inj h')).symm

/-! ## Both -/

/-- No byte of a FORS or an XMSS signature is ignored. -/
theorem signature_binding (H : Hash) (pre : Bytes) {adrs : Bytes} (ha : adrs.length = 22) :
    (∀ md s s' r : Bytes, s.length = 2912 → s'.length = 2912 → s ≠ s' →
      (Sha2128s.forsPkFromSig H s md pre adrs).res = .ok r →
      (Sha2128s.forsPkFromSig H s' md pre adrs).res = .ok r →
      TruncCollision H pre (Sha2128s.forsPkFromSig H s md pre adrs).log
        (Sha2128s.forsPkFromSig H s' md pre adrs).log) ∧
    (∀ (idx : Nat) (msg s s' r b b' : Bytes), idx < 2 ^ 9 → msg.length = 16 → s.length = 704 →
      s'.length = 704 → s ≠ s' →
      (Sha2128s.xmssPkFromSig H idx s msg pre adrs).res = .ok (r, b) →
      (Sha2128s.xmssPkFromSig H idx s' msg pre adrs).res = .ok (r, b') →
      TruncCollision H pre (Sha2128s.xmssPkFromSig H idx s msg pre adrs).log
        (Sha2128s.xmssPkFromSig H idx s' msg pre adrs).log) :=
  ⟨fun _ _ _ _ hs hs' hne h h' => fors_binding ha hs hs' hne h h',
    fun _ _ _ _ _ _ _ _ hmsg hs hs' hne h h' => xmss_binding ha hmsg hs hs' hne h h'⟩

/-- Under the hash that is zero everywhere, two FORS signatures and two XMSS
signatures that lead to zero. -/
theorem signature_binding_zero :
    let adrs : Bytes := List.replicate 22 0
    TruncCollision Hash.zero []
      (Sha2128s.forsPkFromSig Hash.zero (List.replicate 2912 0) (List.replicate 21 0) [] adrs).log
      (Sha2128s.forsPkFromSig Hash.zero (List.replicate 2912 1) (List.replicate 21 0) [] adrs).log ∧
    TruncCollision Hash.zero []
      (Sha2128s.xmssPkFromSig Hash.zero 0 (List.replicate 704 0) (List.replicate 16 0) [] adrs).log
      (Sha2128s.xmssPkFromSig Hash.zero 0 (List.replicate 704 1) (List.replicate 16 0) [] adrs).log := by
  have hadrs : List.replicate 22 0 = Adrs.bytes ⟨0, 0, 0, 0, 0, 0⟩ := rfl
  have hfors : ∀ x : UInt8, (Sha2128s.forsPkFromSig Hash.zero (List.replicate 2912 x)
      (List.replicate 21 0) [] (List.replicate 22 0)).res = .ok (List.replicate 16 0) := fun x => by
    rw [hadrs, forsPkFromSig_eq (by simp) (Nat.le_of_eq List.length_replicate.symm)]
    rfl
  have hxmss : ∀ x : UInt8, (Sha2128s.xmssPkFromSig Hash.zero 0 (List.replicate 704 x)
      (List.replicate 16 0) [] (List.replicate 22 0)).res =
        .ok (List.replicate 16 0, Adrs.bytes ⟨0, 0, 2, 0, 9, 0⟩) := fun x => by
    rw [hadrs, xmssPkFromSig_eq (by simp) (Nat.le_of_eq List.length_replicate.symm)
      (s := xmssSig (List.replicate 704 x)) (fun _ _ => rfl) fun _ _ => rfl]
    rfl
  obtain ⟨hf, hx⟩ := signature_binding Hash.zero []
    (show (List.replicate 22 0 : Bytes).length = 22 from List.length_replicate)
  have hne : ∀ n : Nat, List.replicate (n + 1) (0 : UInt8) ≠ List.replicate (n + 1) 1 := fun n h => by
    cases h
  exact ⟨hf _ _ _ _ List.length_replicate List.length_replicate (hne 2911) (hfors 0) (hfors 1),
    hx _ _ _ _ _ _ _ (by decide) List.length_replicate List.length_replicate List.length_replicate
      (hne 703) (hxmss 0) (hxmss 1)⟩

end SuiPq.Proof.Sha2128s
