import SuiPq.Framework.HashSig.Placement
import SuiPq.Proof.PqGuard
import SuiPq.Proof.SlhDsaRef.Sign
import SuiPq.Proof.Verifier

/-!
# The message digest and the tweakable hash of SLH-DSA-LITE

Both are one SHA-256 behind the same seed, and nothing marks which of the two
an input is for. So the digest of a message that reads as an address and what
is hashed there is a value of the tweakable hash (`no_seed_separates`). Other
messages are separated from every call that the on-chain `verify` or `sign`
makes (`digest_separated`), those of `pq_guard` among them
(`unlockMessage_separated`).
-/

namespace SuiPq.Proof.DigestSeparation

open SuiPq.Impl SuiPq.HashSig
open SuiPq.Spec.SlhLite (params adrs payload input secretInput)
open SuiPq.Proof.SlhDsaRef (T secret inputs eventsOf)

/-- The calls of the tweakable hash, address and payload, that are made under
a seed: by the on-chain verifier on a signature, or by the signer. -/
inductive Call (H : Hash) (seed : Bytes) : Bytes → Bytes → Prop
  | verify {msg sig : Bytes} {e : Eval Bytes} (length : sig.length = 5056)
      (mem : e ∈ Spec.SlhLite.evals H seed msg sig) : Call H seed (adrs e.1).bytes (payload e.1 e.2)
  | sign {skSeed msg : Bytes} {e : Eval Bytes} (mem : .eval e ∈ eventsOf H seed skSeed msg) :
      Call H seed (adrs e.1).bytes (payload e.1 e.2)

/-- The on-chain `verify` hashes its message, and the rest are calls. -/
theorem verify_log {H : Hash} {seed root msg : Bytes} (hseed : seed.length = 32) (hroot : root.length = 32)
    (hmsg : msg.length < 2 ^ 64) (sig : Bytes) :
    ∃ rest, (Verifier.verify H (seed ++ root) msg sig).log = (seed ++ msg) :: rest ∧
      ∀ y ∈ rest, ∃ a x, Call H seed a x ∧ y = seed ++ a ++ x := by
  have hpk : (seed ++ root).length = 64 := by rw [List.length_append, hseed, hroot]
  have hwin : window (seed ++ root) 0 32 = seed := by rw [window, List.drop_zero, ← hseed, List.take_left]
  rw [Verifier.verify_eq hpk hmsg, Comp.log_ret, hwin]
  split
  · refine ⟨_, rfl, fun y hy => ?_⟩
    obtain ⟨e, he, rfl⟩ := List.mem_map.mp hy
    exact ⟨_, _, .verify ‹_› he, rfl⟩
  · exact ⟨[], rfl, nofun⟩

/-- `sign` hashes its message and derives secrets, and the rest are calls. -/
theorem sign_log (H : Hash) (seed skSeed msg : Bytes) :
    ∃ rest, (SlhDsaRef.sign H ⟨seed, skSeed⟩ msg).log = (seed ++ msg) :: rest ∧
      ∀ y ∈ rest, (∃ s, y = secretInput skSeed s) ∨ ∃ a x, Call H seed a x ∧ y = seed ++ a ++ x := by
  rw [SlhDsaRef.sign_eq, Comp.log_ret]
  refine ⟨_, rfl, fun y hy => ?_⟩
  obtain ⟨e, he, rfl⟩ := List.mem_map.mp hy
  cases e with
  | derive s => exact .inl ⟨s, rfl⟩
  | eval e => exact .inr ⟨_, _, .sign he, rfl⟩

/-! ## Calls are placed -/

/-- A message that is the address of a position of the structure, followed by
as many bytes as are hashed there. -/
def Addressed (msg : Bytes) : Prop :=
  ∃ n x, n.Valid params ∧ x.length = params.arity n * 32 ∧ msg = (adrs n).bytes ++ x

theorem length_payload {e : Eval Bytes} (h : Shaped params (fun x : Bytes => x.length = 32) e) :
    (payload e.1 e.2).length = params.arity e.1 * 32 := by
  obtain ⟨n, xs⟩ := e
  rw [← h.arity]
  cases n with
  | wotsPk =>
    show (xs.flatMap Spec.SlhLite.pad32).length = xs.length * 32
    rw [List.flatMap_def, length_flatten_of fun y hy => ?_, List.length_map]
    obtain ⟨x, hx, rfl⟩ := List.mem_map.mp hy
    exact Spec.SlhLite.length_pad32 (Nat.le_of_eq (h.values x hx))
  | _ => exact length_flatten_of h.values

theorem placed_addressed {e : Eval Bytes} (h : Placed params (fun x : Bytes => x.length = 32) e) :
    Addressed ((adrs e.1).bytes ++ payload e.1 e.2) :=
  ⟨e.1, _, h.valid, length_payload h.shaped, rfl⟩

theorem call_addressed {H : Hash} {seed a x : Bytes} (h : Call H seed a x) : Addressed (a ++ x) := by
  have hT (n : Node) (xs : List Bytes) : (T H seed n xs).length = 32 := Spec.SlhLite.length_thash n xs
  cases h with
  | @verify msg sig e length mem =>
    refine placed_addressed (rootEvals_placed hT (Spec.SlhLite.tree_lt _) (Spec.SlhLite.leaf_lt _)
      (fun i _ => Spec.SlhLite.fors_lt _ i) (fun i hi => ?_) (fun i hi h hh => ?_) (fun l hl i hi => ?_)
      (fun l hl j hj => ?_) e mem)
    all_goals simp only [params] at *
    · rw [Spec.SlhLite.forsSig, length_window]
      rw [length_window (by omega)]
      omega
    · rw [Spec.SlhLite.forsSig, length_window]
      rw [length_window]
      · omega
      · rw [length_window (by omega)]
        omega
    · rw [Spec.SlhLite.htSig, Spec.SlhLite.xmssSig, length_window]
      rw [length_window (by omega)]
      omega
    · rw [Spec.SlhLite.htSig, Spec.SlhLite.xmssSig, length_window]
      rw [length_window (by omega)]
      omega
  | @sign skSeed msg e mem =>
    have hsk (s : Secret) : (secret H skSeed s).length = 32 := SlhDsaRef.length_secret s
    have hdigits (x : Bytes) (i : Nat) (_ : i < params.len) : Spec.WotsPlus.digits x i ≤ params.w - 1 :=
      Nat.le_sub_one_of_lt (Spec.WotsPlus.digits_lt x i)
    exact placed_addressed (signEvents_placed hT hsk (Spec.SlhLite.tree_lt _) (Spec.SlhLite.leaf_lt _)
      (fun i _ => Spec.SlhLite.fors_lt _ i) hdigits e mem)

/-! ## Separation -/

/-- A verifier hashes the roots of its FORS trees, at the address of their compression. -/
theorem verify_calls (H : Hash) (seed msg : Bytes) {sig : Bytes} (hsig : sig.length = 5056) :
    ∃ a x, Call H seed a x := by
  obtain ⟨e, he⟩ : ∃ e, e ∈ Spec.SlhLite.evals H seed msg sig :=
    ⟨_, List.mem_append_left _ (List.mem_append_right _ (List.mem_singleton_self _))⟩
  exact ⟨_, _, .verify hsig he⟩

theorem Addressed.length {msg : Bytes} (h : Addressed msg) : ∃ n : Node,
    msg.length = 32 + params.arity n * 32 := by
  obtain ⟨n, x, -, hx, rfl⟩ := h
  exact ⟨n, by rw [List.length_append, Spec.SlhLite.Adrs.length_bytes, hx]⟩

/-- The on-chain `verify` hashes the message it is given, and all else that it
hashes are calls of the tweakable hash; `sign` derives secrets besides. The
digest's input of a message that is not an address followed by what is hashed
there is no call's, under any seed. -/
theorem digest_separated (H : Hash) {seed msg : Bytes} (hmsg : ¬ Addressed msg) :
    (∀ root m sig, seed.length = 32 → root.length = 32 → m.length < 2 ^ 64 →
      ∃ rest, (Verifier.verify H (seed ++ root) m sig).log = (seed ++ m) :: rest ∧
        ∀ y ∈ rest, ∃ a x, Call H seed a x ∧ y = seed ++ a ++ x) ∧
    (∀ skSeed m, ∃ rest, (SlhDsaRef.sign H ⟨seed, skSeed⟩ m).log = (seed ++ m) :: rest ∧
      ∀ y ∈ rest, (∃ s, y = secretInput skSeed s) ∨ ∃ a x, Call H seed a x ∧ y = seed ++ a ++ x) ∧
    ∀ a x, Call H seed a x → seed ++ msg ≠ seed ++ a ++ x := by
  refine ⟨fun root m sig hseed hroot hm => verify_log hseed hroot hm sig, sign_log H seed,
    fun a x hcall h => ?_⟩
  rw [List.append_assoc] at h
  exact hmsg (List.append_cancel_left h ▸ call_addressed hcall)

/-- 64 bytes, as many as an address and one value, which start as no address of a position does. -/
def sampleMessage : Bytes := List.replicate 64 255

theorem sampleMessage_not_addressed : ¬ Addressed sampleMessage := by
  rintro ⟨n, x, hvalid, -, h⟩
  have hlayer : be 4 (2 ^ 32 - 1) = be 4 (adrs n).layer := by
    have htake := congrArg (List.take 4) h
    rwa [Spec.SlhLite.Adrs.bytes, List.append_assoc, List.append_assoc, List.append_assoc, List.append_assoc,
      List.append_assoc, List.take_left' (length_be 4 _)] at htake
  have hlt : (adrs n).layer < 2 := by
    cases n with
    | wotsStep | wotsPk | merkle => exact hvalid.1.1
    | forsNode | forsRoots => exact hvalid.1.1 ▸ Nat.zero_lt_two
  have := be_inj (by decide) (Nat.lt_trans hlt (by decide)) hlayer
  omega

theorem digest_separated_sample : ∃ rest,
    (Verifier.verify .zero (List.replicate 32 7 ++ List.replicate 32 0) [] (List.replicate 5056 0)).log =
      (List.replicate 32 7 ++ []) :: rest ∧ ∀ y ∈ rest, List.replicate 32 7 ++ sampleMessage ≠ y := by
  obtain ⟨hverify, -, hcalls⟩ :=
    @digest_separated .zero (List.replicate 32 7) _ sampleMessage_not_addressed
  obtain ⟨rest, hlog, hrest⟩ := hverify (List.replicate 32 0) [] (List.replicate 5056 0) List.length_replicate
    List.length_replicate (by decide)
  refine ⟨rest, hlog, fun y hy => ?_⟩
  obtain ⟨a, x, hcall, rfl⟩ := hrest y hy
  exact hcalls a x hcall

/-- The messages of `pq_guard` are separated from every call. -/
theorem unlockMessage_separated (H : Hash) {seed a x actionDigest : Bytes} (hd : actionDigest.length = 32)
    (sender : Address) (nonce : Nat) (hcall : Call H seed a x) :
    seed ++ PqGuard.unlockMessage sender nonce actionDigest ≠ seed ++ a ++ x := by
  intro h
  rw [List.append_assoc] at h
  obtain ⟨n, hn⟩ := (List.append_cancel_left h ▸ call_addressed hcall).length
  have htag : (Move.ascii "PQ_GUARD:UNLOCK:v1").length = 18 := by decide
  simp only [PqGuard.unlockMessage, List.length_append, htag, sender.length_bytes, length_be, hd] at hn
  omega

/-- Under no hash and seed are all messages separated from the calls. -/
theorem no_seed_separates : ¬ ∃ (H : Hash) (seed : Bytes), ∀ msg a x, Call H seed a x →
    seed ++ msg ≠ seed ++ a ++ x := by
  rintro ⟨H, seed, h⟩
  obtain ⟨a, x, hcall⟩ := verify_calls H seed [] (List.length_replicate (n := 5056) (a := 0))
  exact h (a ++ x) a x hcall (List.append_assoc ..).symm

end SuiPq.Proof.DigestSeparation
