import SuiPq.Proof.MoveVm.Verifier

/-!
# The verifier in the strict semantics

On inputs of the sizes that the verifier's functions are for (`Sized`), no run
of their bytecodes does what a Move VM aborts on: `strict_agrees`.
-/

namespace SuiPq.Proof.MoveVm

set_option maxRecDepth 100000

open SuiPq.Impl SuiPq.Impl.MoveVm SuiPq.Spec.StrictVm

/-- The bytecodes and the states in which they are run on inputs of their sizes. A string may be longer
than what is read of it. The fuel of a million opcodes bounds the loops that end at an argument. -/
inductive Sized : Bytecode → State → Prop
  /-- As many digits as the message has, two for each byte. -/
  | baseW {msg : Bytes} {outlen : Nat} : outlen ≤ 2 * msg.length → outlen ≤ 2 ^ 14 →
    Sized BaseWReal.baseWRealBytecode (BaseWReal.initialState msg outlen)
  /-- 32 base-16 digits. -/
  | wotsChecksum {digits : List UInt32} : 32 ≤ digits.length → (∀ d ∈ digits, d.toNat ≤ 15) →
    Sized WotsChecksumReal.wotsChecksumRealBytecode (WotsChecksumReal.initialState digits)
  /-- A value of 16 bytes at an offset of a vector, and steps that are numbers of their type. -/
  | chain {src : Bytes} {srcOff iStart steps : Nat} {pre adrsBytes : Bytes} : srcOff + 16 ≤ src.length →
    src.length < 2 ^ 64 → iStart + steps < 2 ^ 32 → steps ≤ 2 ^ 11 → 22 ≤ adrsBytes.length →
    Sized ChainReal.chainRealBytecode (ChainReal.initialState src srcOff iStart steps pre adrsBytes)
  /-- A signature of 35 values, and a message of 16 bytes. -/
  | wotsPkFromSig {sig msgN pre adrsBytes : Bytes} : 560 ≤ sig.length → 16 ≤ msgN.length →
    22 ≤ adrsBytes.length →
    Sized WotsPkFromSigReal.wotsPkFromSigRealBytecode (WotsPkFromSigReal.initialState sig msgN pre adrsBytes)
  /-- A signature of 35 values and 9 nodes. -/
  | xmssPkFromSig {idx : Nat} {sig msgN pre adrsBytes : Bytes} : 704 ≤ sig.length → 16 ≤ msgN.length →
    22 ≤ adrsBytes.length →
    Sized XmssPkFromSigReal.xmssPkFromSigRealBytecode
      (XmssPkFromSigReal.initialState idx sig msgN pre adrsBytes)
  /-- Seven of these signatures. -/
  | htRootFromSig {sigHt msgN : Bytes} {treeIdx leafIdx : Nat} {pre : Bytes} : 4928 ≤ sigHt.length →
    16 ≤ msgN.length →
    Sized HtRootFromSigReal.htRootFromSigRealBytecode
      (HtRootFromSigReal.initialState sigHt msgN treeIdx leafIdx pre)
  /-- A signature of 14 leaves, each with 12 nodes, and 14 indices of 12 bits. -/
  | forsPkFromSig {sigFors md pre adrsBytes : Bytes} : 2912 ≤ sigFors.length → 21 ≤ md.length →
    22 ≤ adrsBytes.length →
    Sized ForsPkFromSigReal.forsPkFromSigRealBytecode
      (ForsPkFromSigReal.initialState sigFors md pre adrsBytes)
  | splitDigest {digest : Bytes} : 30 ≤ digest.length →
    Sized SplitDigestReal.splitDigestRealBytecode (SplitDigestReal.initialState digest)

open Contract

/-- A byte string that is long enough. -/
theorem known_bytes {n : Nat} {v : Bytes} (h : n ≤ v.length) : Known 0 (some (bytes n)) (.vecU8 v) :=
  known_some (.vecU8 h)

theorem known_any {v : Bytes} : Known 0 (some (bytes 0)) (.vecU8 v) := known_bytes (Nat.zero_le _)

theorem known_u32 {n : UInt32} : Known 0 (some anyU32) (.u32 n) :=
  known_some (.int rfl (Range.upTo_holds (Nat.le_of_lt_succ n.toNat_lt)))

theorem known_u64 {n : UInt64} : Known 0 (some anyU64) (.u64 n) :=
  known_some (.int rfl (Range.upTo_holds (Nat.le_of_lt_succ n.toNat_lt)))

/-- The VM never hides an abort on inputs of their sizes: the strict runs end without an error, and in the
states in which the VM's end. -/
theorem strict_agrees (H : Hash) {code : Bytecode} {s : State} (h : Sized code s) : Agrees H code s := by
  cases h with
  | baseW hlen hout => exact baseW_agrees H hlen hout
  | wotsChecksum hlen hdigits =>
    exact agrees_of_args (wotsChecksum_holds (d := .val (digits 32)) (by decide))
      (.cons (known_some (.vecU32 hlen hdigits)) .nil) .nil
  | chain hsrc hlen hsum hsteps hadrs => exact chain_agrees H _ hsrc hlen hsum hsteps hadrs
  | wotsPkFromSig hsig hmsg hadrs =>
    exact agrees_of_args (wotsPkFromSig_holds false false)
      (.cons (known_bytes hsig) (.cons (known_bytes hmsg)
        (.cons known_any (.cons (known_some .locRef) .nil))))
      (.cons (known_bytes hadrs) .nil)
  | xmssPkFromSig hsig hmsg hadrs =>
    exact agrees_of_args (xmssPkFromSig_holds false)
      (.cons known_u32 (.cons (known_bytes hsig) (.cons (known_bytes hmsg) (.cons known_any
        (.cons (known_some .locRef) .nil))))) (.cons (known_bytes hadrs) .nil)
  | htRootFromSig hsig hmsg =>
    exact agrees_of_args htRootFromSig_holds (.cons (known_bytes hsig) (.cons (known_bytes hmsg)
      (.cons known_u64 (.cons known_u32 (.cons known_any .nil))))) .nil
  | forsPkFromSig hsig hmd hadrs =>
    exact agrees_of_args forsPkFromSig_holds (.cons (known_bytes hsig) (.cons (known_bytes hmd)
      (.cons known_any (.cons (known_some .locRef) .nil)))) (.cons (known_bytes hadrs) .nil)
  | splitDigest hlen =>
    exact agrees_of_args splitDigest_holds (.cons (known_bytes hlen) .nil) .nil

/-- The sizes are those of the verifier's own calls, here on zeros. -/
theorem strict_agrees_zeros :
    Agrees Hash.zero BaseWReal.baseWRealBytecode (BaseWReal.initialState (.replicate 16 0) 32) ∧
    Agrees Hash.zero WotsChecksumReal.wotsChecksumRealBytecode
      (WotsChecksumReal.initialState (.replicate 32 0)) ∧
    Agrees Hash.zero ChainReal.chainRealBytecode
      (ChainReal.initialState (.replicate 560 0) 544 3 12 (.replicate 64 0) (.replicate 22 0)) ∧
    Agrees Hash.zero WotsPkFromSigReal.wotsPkFromSigRealBytecode
      (WotsPkFromSigReal.initialState (.replicate 560 0) (.replicate 16 0) (.replicate 64 0)
        (.replicate 22 0)) ∧
    Agrees Hash.zero XmssPkFromSigReal.xmssPkFromSigRealBytecode
      (XmssPkFromSigReal.initialState 5 (.replicate 704 0) (.replicate 16 0) (.replicate 64 0)
        (.replicate 22 0)) ∧
    Agrees Hash.zero HtRootFromSigReal.htRootFromSigRealBytecode
      (HtRootFromSigReal.initialState (.replicate 4928 0) (.replicate 16 0) 7 5 (.replicate 64 0)) ∧
    Agrees Hash.zero ForsPkFromSigReal.forsPkFromSigRealBytecode
      (ForsPkFromSigReal.initialState (.replicate 2912 0) (.replicate 21 0) (.replicate 64 0)
        (.replicate 22 0)) ∧
    Agrees Hash.zero SplitDigestReal.splitDigestRealBytecode
      (SplitDigestReal.initialState (.replicate 30 0)) := by
  have hlen : ∀ {n}, n ≤ (List.replicate n (0 : UInt8)).length := List.length_replicate.ge
  refine ⟨strict_agrees _ (.baseW (by simp) (by decide)),
    strict_agrees _ (.wotsChecksum List.length_replicate.ge fun d hd => ?_),
    strict_agrees _ (.chain hlen (by rw [List.length_replicate]; decide) (by decide) (by decide) hlen),
    strict_agrees _ (.wotsPkFromSig hlen hlen hlen), strict_agrees _ (.xmssPkFromSig hlen hlen hlen),
    strict_agrees _ (.htRootFromSig hlen hlen), strict_agrees _ (.forsPkFromSig hlen hlen hlen),
    strict_agrees _ (.splitDigest hlen)⟩
  rw [List.eq_of_mem_replicate hd]
  decide

end SuiPq.Proof.MoveVm
