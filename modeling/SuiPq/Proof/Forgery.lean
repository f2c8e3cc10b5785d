import SuiPq.Framework.HashSig.Forgery
import SuiPq.Proof.LiteInterop
import SuiPq.Proof.WotsReduction

/-!
# Two accepted signatures

What a verifier accepts at a leaf, it accepts no second signature for, unless
the two runs have collided or the second inverts a chain of the first:
`sha2128s_binding` for `sha2_128s`, where a digest selects the leaf, and
`lite_binding` for `slh_dsa`, where the message does, so that the first
signature may be the signer's (`forgery_breaks`).
-/

namespace SuiPq.Proof.Forgery

open SuiPq.Impl SuiPq.HashSig

/-! ## `sha2_128s` -/

section Sha2128s

open SuiPq.Spec.Slh128s (params thash digits forsIndex forsSig xmssSig htSig pkPrefix input
  selection length_thash)
open SuiPq.Proof.Sha2128s (TruncCollision forsSig_ne xmssSig_ne)

variable {H : Hash} {pk msg msg' sig sig' ctx ctx' : Bytes}

/-- What layer `l` of a signature signs. -/
def signedAt (H : Hash) (pk msg sig ctx : Bytes) (l : Nat) : Bytes :=
  let T := thash H (pkPrefix (window pk 0 16))
  let sel := selection H pk msg sig ctx
  htRoot params T digits sel.tree sel.leaf
    (forsPkFromSig params T 0 sel.tree sel.leaf (forsIndex sel.md) (forsSig (window sig 16 2912)))
    (htSig (window sig 2928 4928)) l

/-- The step below the value that `sig` discloses of a chain, to that value, is among what is hashed. -/
def ChainInverted (H : Hash) (pk msg sig ctx : Bytes) (L : List Bytes) : Prop :=
  let sel := selection H pk msg sig ctx
  ∃ l < 7, ∃ i < 35, ∃ j u, u.length = 16 ∧ digits (signedAt H pk msg sig ctx l) i = j + 1 ∧
    let y := input (pkPrefix (window pk 0 16))
      (.wotsStep l (treeAt params sel.tree l) (leafAt params sel.tree sel.leaf l) i j, [u])
    y ∈ L ∧ (H y).take 16 = window sig (2928 + l * 704 + i * 16) 16

theorem length_layer {l : Nat} (hsig : sig.length = 7856) (hl : l < 7) :
    (window (window sig 2928 4928) (l * 704) 704).length = 704 :=
  length_window (by rw [length_window (by omega)]; omega)

theorem evals_shaped (hsig : sig.length = 7856) :
    ∀ e ∈ Spec.Slh128s.evals H pk msg sig ctx, Shaped params (·.length = 16) e := by
  refine rootEvals_shaped length_thash (fun i hi => ?_) (fun i hi h hh => ?_)
    (fun l hl i hi => ?_) fun l hl j hj => ?_
  · replace hi : i < 14 := hi
    exact length_window (by rw [length_window (by omega)]; omega)
  · replace hi : i < 14 := hi
    replace hh : h < 12 := hh
    exact length_window (by rw [length_window (by omega)]; omega)
  · replace hi : i < 35 := hi
    exact length_window (by rw [length_layer hsig hl]; omega)
  · replace hj : j < 9 := hj
    exact length_window (by rw [length_layer hsig hl]; omega)

/-- Signatures with the same parts are the same behind the randomizer. -/
theorem drop_eq_of_agree (hsig : sig.length = 7856) (hsig' : sig'.length = 7856)
    (hfors : (forsSig (window sig 16 2912)).Agree params (forsSig (window sig' 16 2912)))
    (hht : ∀ l < 7, (htSig (window sig 2928 4928) l).Agree params (htSig (window sig' 2928 4928) l)) :
    sig.drop 16 = sig'.drop 16 := by
  have hlen {s : Bytes} (hs : s.length = 7856) : (window s 16 2912).length = 2912 ∧
    (window s 2928 4928).length = 4928 :=
    ⟨length_window (by omega), length_window (by omega)⟩
  have hdrop {s : Bytes} (hs : s.length = 7856) : s.drop 16 = window s 16 2912 ++ window s 2928 4928 := by
    rw [← window_add s 16 2912 4928, window, List.take_of_length_le (by rw [List.length_drop]; omega)]
  have hf : window sig 16 2912 = window sig' 16 2912 := by
    by_contra hne
    obtain ⟨i, hi, hne⟩ := forsSig_ne (hlen hsig).1 (hlen hsig').1 hne
    obtain ⟨hsk, hauth⟩ := hfors i hi
    exact hne.elim (fun hne => hne hsk) fun ⟨j, hj, hne⟩ => hne (hauth j hj)
  have hh : window sig 2928 4928 = window sig' 2928 4928 := by
    refine eq_of_windows (w := 704) (k := 7) (hlen hsig).2 (hlen hsig').2 fun l hl => ?_
    by_contra hne
    rcases xmssSig_ne (length_layer hsig hl) (length_layer hsig' hl) hne with ⟨i, hi, hne⟩ | ⟨j, hj, hne⟩
    · exact hne ((hht l hl).1 i hi)
    · exact hne ((hht l hl).2 j hj)
  rw [hdrop hsig, hdrop hsig', hf, hh]

/-- What an accepted signature is, and what was hashed to see it. -/
theorem accepted (hpk : pk.length = 32) (hmsg : msg.length + 257 < 2 ^ 64)
    (h : (Sha2128s.verifyWithContext H pk msg sig ctx).res = .ok true) :
    sig.length = 7856 ∧ Spec.Slh128s.root H pk msg sig ctx = window pk 16 16 ∧
      ∀ e ∈ Spec.Slh128s.evals H pk msg sig ctx,
        input (pkPrefix (window pk 0 16)) e ∈ (Sha2128s.verifyWithContext H pk msg sig ctx).log := by
  rw [Sha2128s.verifyWithContext_eq hpk hmsg] at h ⊢
  obtain ⟨hw, hroot⟩ := of_decide_eq_true (Except.ok.inj h)
  refine ⟨hw.1, hroot, fun e he => ?_⟩
  rw [Comp.log_ret, if_pos hw, Spec.Slh128s.hashed]
  exact List.mem_append_right _ (List.mem_map_of_mem he)

/-- Two accepted signatures whose digests select the same are the same behind the
randomizer, or have collided, or the second inverts a chain of the first. -/
theorem sha2128s_binding (H : Hash) (hpk : pk.length = 32) (hmsg : msg.length + 257 < 2 ^ 64)
    (hmsg' : msg'.length + 257 < 2 ^ 64) (h : (Sha2128s.verifyWithContext H pk msg sig ctx).res = .ok true)
    (h' : (Sha2128s.verifyWithContext H pk msg' sig' ctx').res = .ok true)
    (hsel : selection H pk msg sig ctx = selection H pk msg' sig' ctx') :
    sig.drop 16 = sig'.drop 16 ∨
      TruncCollision H (pkPrefix (window pk 0 16)) (Sha2128s.verifyWithContext H pk msg sig ctx).log
        (Sha2128s.verifyWithContext H pk msg' sig' ctx').log ∨
      ChainInverted H pk msg sig ctx (Sha2128s.verifyWithContext H pk msg' sig' ctx').log := by
  obtain ⟨hsig, hroot, hlog⟩ := accepted hpk hmsg h
  obtain ⟨hsig', hroot', hlog'⟩ := accepted hpk hmsg' h'
  have hshape : ∀ e ∈ Spec.Slh128s.evals H pk msg sig ctx, Shaped params (·.length = 16) e :=
    evals_shaped hsig
  have hshape' : ∀ e ∈ Spec.Slh128s.evals H pk msg' sig' ctx', Shaped params (·.length = 16) e :=
    evals_shaped hsig'
  have heq := hroot.trans hroot'.symm
  rw [Spec.Slh128s.evals] at hlog hlog' hshape hshape'
  rw [Spec.Slh128s.root, Spec.Slh128s.root, ← hsel] at heq
  rw [← hsel] at hlog' hshape'
  rcases rootFromSig_collides_or_inverts (P := fun x : Bytes => x.length = 16) length_thash
    (fun x i _ => Spec.Slh128s.digits_lt x i) (fun _ _ => Spec.Slh128s.exists_digits_lt) heq with
    hcoll | ⟨l, hl, i, hi, j, u, hd, he, hu⟩ | ⟨hfors, hht⟩
  · obtain ⟨a, u, v, ha, hne, hlen, hx, hy, hH⟩ := TruncCollision.of_collides hcoll hshape hshape'
    obtain ⟨e, he, hx⟩ := List.mem_map.mp hx
    obtain ⟨e', he', hy⟩ := List.mem_map.mp hy
    exact .inr (.inl ⟨a, u, v, ha, hne, hlen, hx ▸ hlog e he, hy ▸ hlog' e' he', hH⟩)
  · replace hl : l < 7 := hl
    replace hi : i < 35 := hi
    refine .inr (.inr ⟨l, hl, i, hi, j, u, (hshape' _ he).values u (List.mem_singleton_self u),
      hd, hlog' _ he, ?_⟩)
    refine hu.trans ?_
    show window (window (window sig 2928 4928) (l * 704) 704) (i * 16) 16 = _
    rw [window_window _ (by omega), window_window _ (by omega), Nat.add_assoc]
  · exact .inl (drop_eq_of_agree hsig hsig' hfors hht)

theorem sha2128s_binding_zero :
    let pk : Bytes := List.replicate 32 0
    let sig : Bytes := List.replicate 7856 0
    let sig' : Bytes := List.replicate 7856 1
    sig.drop 16 = sig'.drop 16 ∨
      TruncCollision Hash.zero (pkPrefix (window pk 0 16))
        (Sha2128s.verifyWithContext Hash.zero pk [] sig []).log
        (Sha2128s.verifyWithContext Hash.zero pk [] sig' []).log ∨
      ChainInverted Hash.zero pk [] sig [] (Sha2128s.verifyWithContext Hash.zero pk [] sig' []).log := by
  have hpk : (List.replicate 32 0 : Bytes).length = 32 := List.length_replicate
  have hmsg : ([] : Bytes).length + 257 < 2 ^ 64 := by decide
  have hok : ∀ x : UInt8, (Sha2128s.verifyWithContext Hash.zero (List.replicate 32 0) []
    (List.replicate 7856 x) []).res =
      .ok true := fun x => by
    rw [Sha2128s.verifyWithContext_eq hpk hmsg, Comp.res_ret, Spec.Slh128s.verify, decide_eq_true]
    exact ⟨⟨List.length_replicate, by decide⟩, rfl⟩
  exact sha2128s_binding Hash.zero hpk hmsg hmsg (hok 0) (hok 1) rfl

end Sha2128s

/-! ## `slh_dsa` -/

section Lite

open SuiPq.Spec.SlhLite (params thash forsSig xmssSig htSig input payload selection length_thash)
open SuiPq.Spec.WotsPlus (digits)
open SuiPq.Proof.WotsReduction (Collision)

variable {H : Hash} {seed root msg sig sig' : Bytes}

/-- What layer `l` of a signature signs. -/
def liteSignedAt (H : Hash) (seed msg sig : Bytes) (l : Nat) : Bytes :=
  let T := thash H seed
  let sel := selection H seed msg
  htRoot params T digits sel.tree sel.leaf
    (forsPkFromSig params T 0 sel.tree sel.leaf sel.fors (forsSig (window sig 0 512))) (htSig sig) l

/-- The step below the value that `sig` discloses of a chain, to that value, is among what is hashed. -/
def LiteChainInverted (H : Hash) (seed msg sig : Bytes) (L : List Bytes) : Prop :=
  let sel := selection H seed msg
  ∃ l < 2, ∃ i < 67, ∃ j u, u.length = 32 ∧ digits (liteSignedAt H seed msg sig l) i = j + 1 ∧
    let y := input seed (.wotsStep l (treeAt params sel.tree l) (leafAt params sel.tree sel.leaf l) i j, [u])
    y ∈ L ∧ H y = window sig (512 + l * 2272 + i * 32) 32

theorem payload_eq {n : Node} {xs : List Bytes} (h : ∀ x ∈ xs, x.length = 32) :
    payload n xs = xs.flatten := by
  cases n with
  | wotsPk =>
    rw [payload, ← List.flatMap_id]
    exact List.flatMap_congr fun x hx => Spec.SlhLite.pad32_eq (h x hx)
  | _ => rfl

theorem input_flatten (n : Node) {xs : List Bytes} (h : ∀ x ∈ xs, x.length = 32) :
    seed ++ (Spec.SlhLite.adrs n).bytes ++ xs.flatten = input seed (n, xs) := by
  rw [input, payload_eq h]

/-- Colliding evaluations hash colliding inputs. -/
theorem collision_of_collides {E E' : List (Eval Bytes)} (h : Collides (thash H seed) E E')
    (hE : ∀ e ∈ E, Shaped params (·.length = 32) e) (hE' : ∀ e ∈ E', Shaped params (·.length = 32) e) :
    Collision H seed (E.map (input seed)) (E'.map (input seed)) := by
  obtain ⟨n, xs, ys, hx, hy, hne, hl, hxs, hys, he⟩ := h.shaped hE hE'
  refine ⟨(Spec.SlhLite.adrs n).bytes, xs.flatten, ys.flatten, Spec.SlhLite.Adrs.length_bytes _,
    fun e => hne (flatten_inj hl hxs hys e), by rw [length_flatten_of hxs, length_flatten_of hys, hl], ?_⟩
  rw [input_flatten n hxs, input_flatten n hys]
  exact ⟨List.mem_map_of_mem hx, List.mem_map_of_mem hy, he⟩

theorem lite_evals_shaped (hsig : sig.length = 5056) :
    ∀ e ∈ Spec.SlhLite.evals H seed msg sig, Shaped params (·.length = 32) e := by
  refine rootEvals_shaped length_thash (fun i hi => ?_) (fun i hi h hh => ?_)
    (fun l hl i hi => ?_) fun l hl j hj => ?_
  · replace hi : i < 4 := hi
    exact length_window (by rw [length_window (by omega)]; omega)
  · replace hi : i < 4 := hi
    replace hh : h < 3 := hh
    exact length_window (by rw [length_window (by rw [length_window (by omega)]; omega)]; omega)
  · replace hl : l < 2 := hl
    replace hi : i < 67 := hi
    exact length_window (by rw [length_window (by omega)]; omega)
  · replace hl : l < 2 := hl
    replace hj : j < 4 := hj
    exact length_window (by rw [length_window (by omega)]; omega)

/-- Signatures with the same parts are the same. -/
theorem eq_of_agree (hsig : sig.length = 5056) (hsig' : sig'.length = 5056)
    (hfors : (forsSig (window sig 0 512)).Agree params (forsSig (window sig' 0 512)))
    (hht : ∀ l < 2, (htSig sig l).Agree params (htSig sig' l)) : sig = sig' := by
  -- a signature is 158 cells of 32 bytes: 16 of FORS, then 67 chains and 4 siblings for each layer
  refine eq_of_windows (w := 32) (k := 158) hsig hsig' fun c hc => ?_
  by_cases hfc : c < 16
  · obtain ⟨hsk, hauth⟩ := hfors (c / 4) (show c / 4 < 4 by omega)
    by_cases h0 : c % 4 = 0
    · replace hsk : window (window sig 0 512) (c / 4 * 128) 32 =
        window (window sig' 0 512) (c / 4 * 128) 32 := hsk
      rwa [window_window _ (by omega), window_window _ (by omega), Nat.zero_add,
        show c / 4 * 128 = c * 32 by omega] at hsk
    · have h := hauth (c % 4 - 1) (show c % 4 - 1 < 3 by omega)
      replace h : window (window (window sig 0 512) (c / 4 * 128 + 32) 96) ((c % 4 - 1) * 32) 32 =
        window (window (window sig' 0 512) (c / 4 * 128 + 32) 96) ((c % 4 - 1) * 32) 32 := h
      rwa [window_window _ (by omega), window_window _ (by omega), window_window _ (by omega),
        window_window _ (by omega), show 0 + (c / 4 * 128 + 32 + (c % 4 - 1) * 32) = c * 32 by omega] at h
  · obtain ⟨l, r, hl, hr, hcell⟩ : ∃ l r, l < 2 ∧ r < 71 ∧ c * 32 = 512 + l * 2272 + r * 32 :=
      ⟨(c - 16) / 71, (c - 16) % 71, by omega, by omega, by omega⟩
    rw [hcell]
    by_cases hr' : r < 67
    · have h := (hht l hl).1 r hr'
      replace h : window (window sig (512 + l * 2272) 2144) (r * 32) 32 =
        window (window sig' (512 + l * 2272) 2144) (r * 32) 32 := h
      rwa [window_window _ (by omega), window_window _ (by omega)] at h
    · have h := (hht l hl).2 (r - 67) (show r - 67 < 4 by omega)
      replace h : window (window sig (512 + l * 2272 + 2144) 128) ((r - 67) * 32) 32 =
        window (window sig' (512 + l * 2272 + 2144) 128) ((r - 67) * 32) 32 := h
      rwa [window_window _ (by omega), window_window _ (by omega),
        show 512 + l * 2272 + 2144 + (r - 67) * 32 = 512 + l * 2272 + r * 32 by omega] at h

section Key

variable (hseed : seed.length = 32) (hroot : root.length = 32) (hmsg : msg.length < 2 ^ 64)

include hseed hroot hmsg

/-- What an accepted signature is, and what was hashed to see it. -/
theorem lite_accepted (h : (Verifier.verify H (seed ++ root) msg sig).res = .ok true) :
    sig.length = 5056 ∧ Spec.SlhLite.root H seed msg sig = root ∧
      ∀ e ∈ Spec.SlhLite.evals H seed msg sig,
        input seed e ∈ (Verifier.verify H (seed ++ root) msg sig).log := by
  have hres := LiteInterop.move_res (H := H) hseed hmsg hroot sig
  obtain ⟨hsig, hr⟩ := of_decide_eq_true (Except.ok.inj (hres.symm.trans h))
  refine ⟨hsig, hr, fun e he => ?_⟩
  rw [Verifier.verify_eq (by simp [hseed, hroot]) hmsg, Comp.log_ret, if_pos hsig,
    LiteInterop.window_seed hseed]
  exact List.mem_cons_of_mem _ (List.mem_map_of_mem he)

/-- Two accepted signatures of one message are the same, or have collided, or the
second inverts a chain of the first. -/
theorem lite_binding (h : (Verifier.verify H (seed ++ root) msg sig).res = .ok true)
    (h' : (Verifier.verify H (seed ++ root) msg sig').res = .ok true) :
    sig = sig' ∨ Collision H seed (Verifier.verify H (seed ++ root) msg sig).log
        (Verifier.verify H (seed ++ root) msg sig').log ∨
      LiteChainInverted H seed msg sig (Verifier.verify H (seed ++ root) msg sig').log := by
  obtain ⟨hsig, hr, hlog⟩ := lite_accepted hseed hroot hmsg h
  obtain ⟨hsig', hr', hlog'⟩ := lite_accepted hseed hroot hmsg h'
  have hshape' : ∀ e ∈ Spec.SlhLite.evals H seed msg sig', Shaped Spec.SlhLite.params (·.length = 32) e :=
    lite_evals_shaped hsig'
  rcases rootFromSig_collides_or_inverts (P := fun x : Bytes => x.length = 32) length_thash
    (fun x i _ => Spec.WotsPlus.digits_lt x i) (fun _ _ => Spec.WotsPlus.exists_digits_lt)
      (hr.trans hr'.symm) with
    hcoll | ⟨l, hl, i, hi, j, u, hd, he, hu⟩ | ⟨hfors, hht⟩
  · obtain ⟨a, u, v, ha, hne, hlen, hx, hy, hH⟩ := collision_of_collides hcoll
      (lite_evals_shaped hsig) hshape'
    obtain ⟨e, he, hx⟩ := List.mem_map.mp hx
    obtain ⟨e', he', hy⟩ := List.mem_map.mp hy
    exact .inr (.inl ⟨a, u, v, ha, hne, hlen, hx ▸ hlog e he, hy ▸ hlog' e' he', hH⟩)
  · replace hl : l < 2 := hl
    replace hi : i < 67 := hi
    refine .inr (.inr ⟨l, hl, i, hi, j, u, (hshape' _ he).values u (List.mem_singleton_self u),
      hd, hlog' _ he, ?_⟩)
    refine hu.trans ?_
    show window (window sig (512 + l * 2272) 2144) (i * 32) 32 = _
    rw [window_window _ (by omega)]
  · exact .inl (eq_of_agree hsig hsig' hfors hht)

end Key

/-- Under a key from `keygen`, a signature that is accepted on-chain is the signer's, or
has collided with it, or inverts a chain of it. -/
theorem forgery_breaks (H : Hash) {skSeed : Bytes} {pk : SlhDsaRef.PublicKey} {sk : SlhDsaRef.SecretKey}
    (hseed : seed.length = 32) (hmsg : msg.length < 2 ^ 64)
      (hk : (SlhDsaRef.keygen H seed skSeed).res = .ok (pk, sk))
    (h : (Verifier.verify H (pk.seed ++ pk.root) msg sig).res = .ok true) :
    ∃ signed, (do SlhDsaRef.packSignature (← SlhDsaRef.sign H sk msg)).res = .ok signed ∧
      (sig = signed ∨
        Collision H seed (Verifier.verify H (pk.seed ++ pk.root) msg signed).log
          (Verifier.verify H (pk.seed ++ pk.root) msg sig).log ∨
        LiteChainInverted H seed msg signed (Verifier.verify H (pk.seed ++ pk.root) msg sig).log) := by
  rw [SlhDsaRef.keygen_eq, Comp.res_ret] at hk
  obtain ⟨rfl, rfl⟩ := Prod.mk.inj (Except.ok.inj hk)
  have hroot : (SlhDsaRef.rootOf H seed skSeed).length = 32 := SlhDsaRef.length_xmssTree _ _
  refine ⟨SlhDsaRef.packedOf H seed skSeed msg, ?_, ?_⟩
  · rw [SlhDsaRef.sign_eq, Comp.ret_bind, SlhDsaRef.packSignature_eq]
    rfl
  · have hsigned : (Verifier.verify H (seed ++ SlhDsaRef.rootOf H seed skSeed) msg
        (SlhDsaRef.packedOf H seed skSeed msg)).res = .ok true := by
      rw [LiteInterop.move_res hseed hmsg hroot,
        decide_eq_true ⟨SlhDsaRef.length_packedOf msg, SlhDsaRef.root_packedOf msg⟩]
    exact (lite_binding hseed hroot hmsg hsigned h).imp_left Eq.symm

theorem forgery_breaks_zero :
    ∃ pk sk, (SlhDsaRef.keygen Hash.zero (List.replicate 32 0) (List.replicate 32 0)).res = .ok (pk, sk) ∧
      ∃ signed, (do SlhDsaRef.packSignature (← SlhDsaRef.sign Hash.zero sk [])).res = .ok signed ∧
        (List.replicate 5056 1 = signed ∨
          Collision Hash.zero (List.replicate 32 0)
          (Verifier.verify Hash.zero (pk.seed ++ pk.root) [] signed).log
            (Verifier.verify Hash.zero (pk.seed ++ pk.root) [] (List.replicate 5056 1)).log ∨
          LiteChainInverted Hash.zero (List.replicate 32 0) [] signed
            (Verifier.verify Hash.zero (pk.seed ++ pk.root) [] (List.replicate 5056 1)).log) := by
  have hseed : (List.replicate 32 0 : Bytes).length = 32 := List.length_replicate
  have hk : (SlhDsaRef.keygen Hash.zero (List.replicate 32 0) (List.replicate 32 0)).res =
      .ok (⟨List.replicate 32 0, List.replicate 32 0⟩, ⟨List.replicate 32 0, List.replicate 32 0⟩) := by
    rw [SlhDsaRef.keygen_eq]
    rfl
  refine ⟨_, _, hk, forgery_breaks Hash.zero hseed (by decide) hk ?_⟩
  rw [LiteInterop.move_res hseed (by decide) List.length_replicate, decide_eq_true]
  exact ⟨List.length_replicate, rfl⟩

end Lite

end SuiPq.Proof.Forgery
