import SuiPq.Impl.Sponsor

/-!
# Requests to a sponsor

The client encodes a request's two byte arrays itself and leaves the gated
call to JSON. `decoded_iff`: the server decodes the request that was sent
exactly if JSON has the values in its gated call, that is, if no argument is a
bigint or a byte array and every number is finite.
-/

namespace SuiPq.Proof.Sponsor

open SuiPq.Js SuiPq.Impl.Sponsor
open JsString (lit)

/-! ## Byte arrays -/

theorem put_end {out : Bytes} {i n : Nat} (h : out.length = i) (x : UInt8) :
    put (out ++ zeros (n + 1)) i x.toNat = out ++ [x] ++ zeros n := by
  rw [put, UInt8.ofNat_toNat, List.set_append_right _ _ (by omega), h, Nat.sub_self, zeros,
    List.replicate_succ, List.set_cons_zero, List.append_assoc]
  rfl

theorem base64_roundTrips (b : Bytes) : base64ToBytes (bytesToBase64 b) = pure b := by
  rw [base64ToBytes, bytesToBase64, atob, JsString.text_lit, Base64.atob_btoa, pure_bind]
  refine (forLt_zero_pure (fun i => b.take i ++ zeros (b.length - i)) (by simp) fun i hi => ?_).trans ?_
  · rw [get_eq hi, pure_bind, show b.length - i = b.length - (i + 1) + 1 by omega,
      put_end (by rw [List.length_take]; omega), ← List.take_append_getElem hi]
  · rw [List.take_length, Nat.sub_self]
    exact congrArg pure (List.append_nil b)

/-! ## What JSON has -/

def Finite (x : Number) : Prop := ∃ q, x = .finite q

/-- The argument is no bigint and no byte array, and its numbers are finite. -/
def InJson : Argument → Prop
  | .object _ | .pure (.address _) | .pure (.bool _) => True
  | .pure (.u8 x) | .pure (.u32 x) => Finite x
  | .pure (.u64 _) | .pure (.u128 _) | .pure (.vectorBytes _) => False
  | .pure (.vectorNumbers xs) => ∀ x ∈ xs, Finite x

theorem plain_number {x : Number} : JSON.plain (.number x) ↔ Finite x := by
  cases x with
  | finite q => exact ⟨fun _ => ⟨q, rfl⟩, fun _ => rfl⟩
  | nan | infinity _ => exact ⟨nofun, fun ⟨_, h⟩ => by cases h⟩

theorem plainElements_map {α : Type} (f : α → JsValue) (xs : List α) :
    JSON.plainElements (xs.map f) ↔ ∀ x ∈ xs, JSON.plain (f x) := by
  induction xs with
  | nil => exact ⟨fun _ => nofun, fun _ => rfl⟩
  | cons x xs ih =>
    rw [List.map_cons, JSON.plainElements, Bool.and_eq_true, ih, List.forall_mem_cons]

theorem plain_argument (a : Argument) : JSON.plain a.toValue ↔ InJson a := by
  cases a with
  | object id => exact ⟨fun _ => trivial, fun _ => rfl⟩
  | pure p =>
    have hfields : JSON.plain (Argument.pure p).toValue = JSON.plain p.value := Bool.and_true _
    rw [hfields]
    cases p with
    | address s => exact ⟨fun _ => trivial, fun _ => rfl⟩
    | bool b => exact ⟨fun _ => trivial, fun _ => rfl⟩
    | u8 x => exact plain_number
    | u32 x => exact plain_number
    | u64 i => exact ⟨nofun, nofun⟩
    | u128 i => exact ⟨nofun, nofun⟩
    | vectorBytes b => exact ⟨nofun, nofun⟩
    | vectorNumbers xs =>
      exact (plainElements_map _ xs).trans (forall₂_congr fun _ _ => plain_number)

theorem plain_gatedCall (c : GatedCall) :
    JSON.plain c.toValue ↔ Finite c.witnessArgIndex ∧ ∀ a ∈ c.arguments, InJson a := by
  have htypes : JSON.plainFields (c.typeArguments.toList.map fun ts =>
      (lit "typeArguments", .array (ts.map .string))) = true := by
    cases c.typeArguments with
    | none => rfl
    | some ts =>
      refine Bool.and_eq_true_iff.mpr ⟨?_, rfl⟩
      exact (plainElements_map _ ts).mpr fun _ _ => rfl
  have hfields : JSON.plain c.toValue = (JSON.plainElements (c.arguments.map Argument.toValue) &&
      (JSON.plain (.number c.witnessArgIndex) && JSON.plainFields (c.typeArguments.toList.map fun ts =>
        (lit "typeArguments", .array (ts.map .string))))) := Bool.true_and _
  rw [hfields, htypes, Bool.and_true, Bool.and_eq_true, plain_number, plainElements_map, and_comm]
  simp only [plain_argument]

/-! ## Requests -/

variable {req : SponsoredOpRequest JsValue}

/-- What is posted for a request with a gated call that JSON has. -/
def body (req : SponsoredOpRequest JsValue) (gatedCall : Json) : Json :=
  .object [(lit "pqIdentityId", .string req.pqIdentityId),
    (lit "actionDigest", .string (bytesToBase64 req.actionDigest)),
    (lit "pqSignature", .string (bytesToBase64 req.pqSignature)), (lit "gatedCall", gatedCall)]

theorem submit_eq {j : Json} (h : JSON.stringify req.gatedCall = pure (some j)) :
    submit req = pure (body req j) := by
  rw [submit]
  simp only [JSON.stringify, JSON.stringifyFields, h, pure_bind]
  rfl

/-- The body that is posted has what is written for the gated call. -/
theorem submit_ok {fs : List (JsString × JsValue)} (hobj : req.gatedCall = .object fs) {b : Json}
    (h : (submit req).res = .ok b) :
    ∃ j, (JSON.stringify req.gatedCall).res = .ok (some j) ∧ b = body req j := by
  rw [submit] at h
  obtain ⟨o, ho, h⟩ := Comp.bind_ok h
  simp only [JSON.stringify, JSON.stringifyFields, pure_bind] at ho
  obtain ⟨fs₁, h₁, ho⟩ := Comp.bind_ok ho
  obtain ⟨fs₂, h₂, h₁⟩ := Comp.bind_ok h₁
  obtain ⟨fs₃, h₃, h₂⟩ := Comp.bind_ok h₂
  obtain ⟨fs₄, h₄, h₃⟩ := Comp.bind_ok h₃
  obtain ⟨oj, hj, h₄⟩ := Comp.bind_ok h₄
  obtain ⟨j, rfl⟩ : ∃ j, oj = some j := by
    rw [hobj, JSON.stringify] at hj
    obtain ⟨js, -, hj⟩ := Comp.bind_ok hj
    exact ⟨_, (Except.ok.inj hj).symm⟩
  refine ⟨j, hj, ?_⟩
  rw [← Except.ok.inj ho, ← Except.ok.inj h₁, ← Except.ok.inj h₂, ← Except.ok.inj h₃,
    ← Except.ok.inj h₄] at h
  exact (Except.ok.inj h).symm

/-- The request in a body: the one that was sent, but for what JSON made of the gated call. -/
theorem requested_eq (j : Json) :
    requested (body req j) = pure { req with gatedCall := JSON.parse j } := by
  rw [requested]
  simp only [body, JSON.parse, JSON.parseFields, JsValue.prop, JsValue.field, List.reverse_cons,
    List.reverse_nil, List.nil_append, List.cons_append, List.lookup_cons, JsString.lit_beq,
    String.reduceBEq, Option.getD_some, pure_bind, JsValue.toString, base64_roundTrips]

/-- The properties of a gated call. -/
theorem prop_gatedCall (c : GatedCall) : c.toValue.prop (lit "target") = pure (.string c.target) ∧
    c.toValue.prop (lit "arguments") = pure (.array (c.arguments.map Argument.toValue)) ∧
    c.toValue.prop (lit "witnessArgIndex") = pure (.number c.witnessArgIndex) := by
  cases h : c.typeArguments <;>
    simp only [GatedCall.toValue, h, Option.toList, List.map_nil, List.map_cons, JsValue.prop, JsValue.field,
      List.reverse_cons, List.reverse_nil, List.nil_append, List.cons_append, List.append_nil,
      List.lookup_cons, JsString.lit_beq, String.reduceBEq, Option.getD_some, and_self]

theorem postSponsor_eq {Arg : Type} (tx : TxBuilder Arg) (guardPackageId : JsString)
    {allowedTargets : Option (List JsString)} {b : Json} {c : GatedCall} (hb : requested b = pure req)
    (hc : req.gatedCall = c.toValue) (h : ∀ ts ∈ allowedTargets, c.target ∈ ts) :
    postSponsor tx guardPackageId allowedTargets b = do
      let (unlock, gated) ← sponsorPqOperation tx guardPackageId req
      return .calls unlock gated := by
  rw [postSponsor, hb, pure_bind]
  cases allowedTargets with
  | none => rfl
  | some ts =>
    have hmem : ts.any (JsValue.string c.target).isString = true :=
      List.any_eq_true.mpr ⟨_, h ts rfl, beq_self_eq_true c.target⟩
    simp only [hc, (prop_gatedCall c).1, pure_bind, hmem]
    rfl

/-! ## Requests of the type -/

/-- The body posted for a request is decoded to it, and the server makes the calls that would be made
from it locally, if their target is allowed. -/
def Decoded (req : SponsoredOpRequest GatedCall) : Prop :=
  ∃ b, (submit req.toValue).res = .ok b ∧ (requested b).res = .ok req.toValue ∧
    ∀ (Arg : Type) (tx : TxBuilder Arg) (guardPackageId : JsString) (allowedTargets : Option (List JsString)),
      (∀ ts ∈ allowedTargets, req.gatedCall.target ∈ ts) →
        postSponsor tx guardPackageId allowedTargets b = do
          let (unlock, gated) ← sponsorPqOperation tx guardPackageId req.toValue
          return .calls unlock gated

theorem decoded_of_plain {req : SponsoredOpRequest GatedCall} (h : JSON.plain req.gatedCall.toValue) :
    Decoded req := by
  obtain ⟨j, hj, hp⟩ := JSON.stringify_plain h
  have hreq : requested (body req.toValue j) = pure req.toValue := by
    rw [requested_eq, hp]
    rfl
  refine ⟨body req.toValue j, ?_, by rw [hreq, Comp.res_pure], fun Arg tx pkg allowed hallowed => ?_⟩
  · rw [submit_eq hj, Comp.res_pure]
  · exact postSponsor_eq tx pkg hreq rfl hallowed

theorem plain_of_decoded {req : SponsoredOpRequest GatedCall} (h : Decoded req) :
    JSON.plain req.gatedCall.toValue := by
  obtain ⟨b, hb, hreq, -⟩ := h
  obtain ⟨j, hj, rfl⟩ := submit_ok rfl hb
  rw [requested_eq, Comp.res_pure] at hreq
  exact JSON.roundTrips_iff.mp ⟨j, hj, congrArg SponsoredOpRequest.gatedCall (Except.ok.inj hreq)⟩

/-- A request is decoded to itself exactly if no argument is a bigint or a byte array and every number
is finite. -/
theorem decoded_iff (req : SponsoredOpRequest GatedCall) :
    Decoded req ↔ Finite req.gatedCall.witnessArgIndex ∧ ∀ a ∈ req.gatedCall.arguments, InJson a := by
  rw [← plain_gatedCall]
  exact ⟨plain_of_decoded, decoded_of_plain⟩

/-- A withdrawal with the argument `p` and the witness before it. -/
def withdraw (p : PureArgument) : SponsoredOpRequest GatedCall where
  pqIdentityId := lit "0x1"
  actionDigest := List.replicate 32 7
  pqSignature := [1, 2, 3]
  gatedCall :=
    { target := lit "0x2::vault::withdraw"
      arguments := [.object (lit "0x3"), .pure p]
      witnessArgIndex := .finite (.nat 1 (by decide))
      typeArguments := none }

/-- An amount is a bigint, for which no body is posted, and the bytes of an array come back as an object. -/
theorem withdraw_not_decoded :
    ((submit (withdraw (.u64 5)).toValue).res = .error (.error "Do not know how to serialize a BigInt") ∧
      ¬ Decoded (withdraw (.u64 5))) ∧ ¬ Decoded (withdraw (.vectorBytes [1, 2])) := by
  refine ⟨⟨rfl, fun h => ?_⟩, fun h => ?_⟩
  · obtain ⟨-, hargs⟩ := (plain_gatedCall _).mp (plain_of_decoded h)
    exact hargs (.pure (.u64 5)) (by simp [withdraw])
  · obtain ⟨-, hargs⟩ := (plain_gatedCall _).mp (plain_of_decoded h)
    exact hargs (.pure (.vectorBytes [1, 2])) (by simp [withdraw])

end SuiPq.Proof.Sponsor
