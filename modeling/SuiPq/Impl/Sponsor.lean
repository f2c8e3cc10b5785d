import SuiPq.Framework.Base64
import SuiPq.Framework.Json

/-!
# `sponsor.ts` and `sponsor-server.ts`

Requests to a sponsor (`packages/pqc/src/sponsor.ts`), the server that
receives them (`apps/cli/src/sponsor-server.ts`) and the calls that
`sponsorPqOperation` puts into the transaction. A request's gated call is a
value like any other when the code runs; `GatedCall` are those of its type,
with arguments of the types that `sponsorPqOperation` casts them to. What a
transaction makes of its inputs is a parameter (`TxBuilder`).
-/

namespace SuiPq.Impl.Sponsor

open SuiPq.Js
open JsString (lit)

/-! ## Requests -/

/-- A pure argument: the value, by its `type`. -/
inductive PureArgument where
  | address (s : JsString)
  | u8 (x : Number)
  | u32 (x : Number)
  | u64 (i : Int)
  | u128 (i : Int)
  | bool (b : Bool)
  | vectorBytes (b : Bytes)
  | vectorNumbers (xs : List Number)

namespace PureArgument

def type : PureArgument → JsString
  | address _ => lit "address"
  | u8 _ => lit "u8"
  | u32 _ => lit "u32"
  | u64 _ => lit "u64"
  | u128 _ => lit "u128"
  | bool _ => lit "bool"
  | vectorBytes _ | vectorNumbers _ => lit "vector<u8>"

def value : PureArgument → JsValue
  | address s => .string s
  | u8 x | u32 x => .number x
  | u64 i | u128 i => .bigint i
  | bool b => .bool b
  | vectorBytes b => .bytes b
  | vectorNumbers xs => .array (xs.map .number)

end PureArgument

inductive Argument where
  | object (id : JsString)
  | pure (p : PureArgument)

def Argument.toValue : Argument → JsValue
  | object id => .object [(lit "kind", .string (lit "object")), (lit "id", .string id)]
  | pure p =>
    .object [(lit "kind", .string (lit "pure")), (lit "type", .string p.type), (lit "value", p.value)]

structure GatedCall where
  target : JsString
  arguments : List Argument
  witnessArgIndex : Number
  typeArguments : Option (List JsString)

def GatedCall.toValue (c : GatedCall) : JsValue :=
  .object ([(lit "target", .string c.target),
    (lit "arguments", .array (c.arguments.map Argument.toValue)),
    (lit "witnessArgIndex", .number c.witnessArgIndex)] ++
    c.typeArguments.toList.map fun ts => (lit "typeArguments", .array (ts.map .string)))

/-- A request, whose gated call is a `G`. -/
structure SponsoredOpRequest (G : Type) where
  pqIdentityId : JsString
  actionDigest : Bytes
  pqSignature : Bytes
  gatedCall : G

/-- A request of the type, as a value. -/
def SponsoredOpRequest.toValue (req : SponsoredOpRequest GatedCall) : SponsoredOpRequest JsValue :=
  { req with gatedCall := req.gatedCall.toValue }

/-! ## The client -/

/-- The characters with the codes `b` are the string that `btoa` encodes. -/
def bytesToBase64 (b : Bytes) : JsString := lit (Base64.btoa b)

def atob (s : JsString) : Js Bytes :=
  match Base64.atob s.text with
  | some bin => pure bin
  | none => Comp.stop (.error "InvalidCharacterError")

def base64ToBytes (s : JsString) : Js Bytes := do
  let bin ← atob s
  forLt 0 bin.length (zeros bin.length) fun i out => do return put out i (← get bin i).toNat

/-- The body that `PqSponsoredClient.submit` posts. -/
def submit (req : SponsoredOpRequest JsValue) : Js Json := do
  let payload := JsValue.object
    [(lit "pqIdentityId", .string req.pqIdentityId),
      (lit "actionDigest", .string (bytesToBase64 req.actionDigest)),
      (lit "pqSignature", .string (bytesToBase64 req.pqSignature)),
      (lit "gatedCall", req.gatedCall)]
  match ← JSON.stringify payload with
  | some body => pure body
  | none => Comp.stop .undefined

/-! ## The operation -/

/-- `tx.object`, `tx.pure` by type, and the first result of the first command. -/
structure TxBuilder (Arg : Type) where
  object : JsValue → Js Arg
  pure : String → JsValue → Js Arg
  result : Arg

structure MoveCall (Arg : Type) where
  target : JsValue
  typeArguments : JsValue
  arguments : List Arg

variable {Arg : Type}

/-- The call to `unlock`. -/
def addPqGuardUnlock (tx : TxBuilder Arg) (guardPackageId identityId : JsString)
    (actionDigest signature : Bytes) :
    Js (MoveCall Arg) := do
  let arrayFrom (b : Bytes) := JsValue.array (b.map fun x => .number (.ofNat x.toNat))
  return {
    target := .string (guardPackageId ++ lit "::pq_guard::unlock")
    typeArguments := .undefined
    arguments := [← tx.object (.string identityId), ← tx.pure "vector<u8>" (arrayFrom actionDigest),
      ← tx.pure "vector<u8>" (arrayFrom signature)] }

def argument (tx : TxBuilder Arg) (a : JsValue) : Js Arg := do
  if (← a.prop (lit "kind")).isString (lit "object") then
    tx.object (← a.prop (lit "id"))
  else
    let type ← a.prop (lit "type")
    let value ← a.prop (lit "value")
    if type.isString (lit "address") then tx.pure "address" value
    else if type.isString (lit "u8") then tx.pure "u8" value
    else if type.isString (lit "u32") then tx.pure "u32" value
    else if type.isString (lit "u64") then tx.pure "u64" value
    else if type.isString (lit "u128") then tx.pure "u128" value
    else if type.isString (lit "bool") then tx.pure "bool" value
    else if type.isString (lit "vector<u8>") then tx.pure "vector<u8>" value
    else
      let type ← type.toString
      Comp.stop (.error ("unsupported pure type " ++ type.text ++ " in sponsored request"))

/-- A round of the loop over the arguments, whose state is `i`, `args` and `argIdx`. -/
def argumentRound (tx : TxBuilder Arg) (arguments witnessArgIndex : JsValue) :
    ℕ × List Arg × ℕ → Js (ℕ × List Arg × ℕ)
  | (i, args, argIdx) => do
    if witnessArgIndex.isIndex i then
      return (i + 1, args ++ [tx.result], argIdx)
    else
      let a ← arguments.elem argIdx
      return (i + 1, args ++ [← argument tx a], argIdx + 1)

/-- The loop, of `fuel` rounds at most: there are never more than `arguments.size + 2`. -/
def argumentLoop (tx : TxBuilder Arg) (arguments witnessArgIndex : JsValue) (fuel : ℕ) : Js (List Arg) := do
  let bound ← (← arguments.prop (lit "length")).succ
  let (_, args, _) ← Comp.whileFuel .fuel (fun s => bound.above s.1)
    (argumentRound tx arguments witnessArgIndex) fuel (0, [], 0)
  return args

/-- The calls of the transaction: `unlock`, and the gated one with what the loop makes of its arguments. -/
def sponsorPqOperation (tx : TxBuilder Arg) (guardPackageId : JsString)
    (req : SponsoredOpRequest JsValue) : Js (MoveCall Arg × MoveCall Arg) := do
  if req.actionDigest.length ≠ 32 then Comp.stop (.error "actionDigest must be 32 bytes")
  let unlock ← addPqGuardUnlock tx guardPackageId req.pqIdentityId req.actionDigest req.pqSignature
  let arguments ← req.gatedCall.prop (lit "arguments")
  let witnessArgIndex ← req.gatedCall.prop (lit "witnessArgIndex")
  let args ← argumentLoop tx arguments witnessArgIndex (arguments.size + 2)
  let typeArguments ← req.gatedCall.prop (lit "typeArguments")
  return (unlock, {
    target := ← req.gatedCall.prop (lit "target")
    typeArguments := match typeArguments with
      | .undefined | .null => .array []
      | ts => ts
    arguments := args })

/-! ## The server -/

/-- The request in a body. -/
def requested (body : Json) : Js (SponsoredOpRequest JsValue) := do
  let body := JSON.parse body
  return {
    pqIdentityId := ← (← body.prop (lit "pqIdentityId")).toString
    actionDigest := ← base64ToBytes (← (← body.prop (lit "actionDigest")).toString)
    pqSignature := ← base64ToBytes (← (← body.prop (lit "pqSignature")).toString)
    gatedCall := ← body.prop (lit "gatedCall") }

inductive Response (Arg : Type) where
  | forbidden (error : JsString)
  | calls (unlock gated : MoveCall Arg)

/-- `POST /sponsor`, up to signing. -/
def postSponsor (tx : TxBuilder Arg) (guardPackageId : JsString) (allowedTargets : Option (List JsString))
    (body : Json) : Js (Response Arg) := do
  let requested ← requested body
  if let some allowedTargets := allowedTargets then
    let target ← requested.gatedCall.prop (lit "target")
    if !allowedTargets.any target.isString then
      return .forbidden (lit "target " ++ (← target.toString) ++ lit " not on allowlist")
  let (unlock, gated) ← sponsorPqOperation tx guardPackageId requested
  return .calls unlock gated

end SuiPq.Impl.Sponsor
