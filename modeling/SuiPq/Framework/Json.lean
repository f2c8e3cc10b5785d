import SuiPq.Framework.JsValue

/-!
# Values in JSON

JSON texts (`Json`, the trees that the texts spell), `JSON.stringify` and
`JSON.parse`. A value comes back from its text exactly if it has no bigint, no
byte array, nothing undefined and no number but the finite ones in it
(`roundTrips_iff`).
-/

namespace SuiPq

/-- A text. A number is the decimal that it spells, and an object may have a name twice. -/
inductive Json where
  | null
  | bool (b : Bool)
  | number (q : ℚ)
  | string (s : JsString)
  | array (js : List Json)
  | object (fs : List (JsString × Json))

namespace JSON

/-! ## Writing -/

/-- The properties of a byte array. -/
def indexed (b : Bytes) : List (JsString × Json) :=
  b.zipIdx.map fun (x, i) => (JsValue.index i, .number x.toNat)

mutual

/-- `JSON.stringify(v)`, which is not a text for `undefined`. -/
def stringify : JsValue → Js (Option Json)
  | .undefined => pure none
  | .null => pure (some .null)
  | .bool b => pure (some (.bool b))
  | .number (.finite x) => pure (some (.number x.decimal))
  | .number _ => pure (some .null)
  | .bigint _ => Comp.stop (.error "Do not know how to serialize a BigInt")
  | .string s => pure (some (.string s))
  | .bytes b => pure (some (.object (indexed b)))
  | .array vs => do return some (.array (← stringifyElements vs))
  | .object fs => do return some (.object (← stringifyFields fs))

def stringifyElements : List JsValue → Js (List Json)
  | [] => pure []
  | v :: vs => do
    let j ← stringify v
    return j.getD .null :: (← stringifyElements vs)

def stringifyFields : List (JsString × JsValue) → Js (List (JsString × Json))
  | [] => pure []
  | (k, v) :: fs => do
    match ← stringify v with
    | none => stringifyFields fs
    | some j => return (k, j) :: (← stringifyFields fs)

end

/-! ## Reading -/

mutual

/-- `JSON.parse` of the text. -/
def parse : Json → JsValue
  | .null => .null
  | .bool b => .bool b
  | .number q => .number (.ofRat q)
  | .string s => .string s
  | .array js => .array (parseElements js)
  | .object fs => .object (parseFields fs)

def parseElements : List Json → List JsValue
  | [] => []
  | j :: js => parse j :: parseElements js

def parseFields : List (JsString × Json) → List (JsString × JsValue)
  | [] => []
  | (k, j) :: fs => (k, parse j) :: parseFields fs

end

/-! ## The round trip -/

def RoundTrips (v : JsValue) : Prop := ∃ j, (stringify v).res = .ok (some j) ∧ parse j = v

mutual

/-- Values that JSON has. -/
def plain : JsValue → Bool
  | .undefined | .bigint _ | .bytes _ => false
  | .number (.finite _) => true
  | .number _ => false
  | .null | .bool _ | .string _ => true
  | .array vs => plainElements vs
  | .object fs => plainFields fs

def plainElements : List JsValue → Bool
  | [] => true
  | v :: vs => plain v && plainElements vs

def plainFields : List (JsString × JsValue) → Bool
  | [] => true
  | (_, v) :: fs => plain v && plainFields fs

end

mutual

theorem stringify_plain : ∀ {v : JsValue}, plain v → ∃ j, stringify v = pure (some j) ∧ parse j = v
  | .null, _ => ⟨.null, rfl, rfl⟩
  | .bool b, _ => ⟨.bool b, rfl, rfl⟩
  | .number (.finite x), _ => ⟨.number x.decimal, rfl, congrArg JsValue.number (Number.ofRat_decimal x)⟩
  | .string s, _ => ⟨.string s, rfl, rfl⟩
  | .array vs, h => by
    obtain ⟨js, hjs, hp⟩ := stringifyElements_plain h
    refine ⟨.array js, ?_, by rw [parse, hp]⟩
    rw [stringify, hjs, pure_bind]
  | .object fs, h => by
    obtain ⟨js, hjs, hp⟩ := stringifyFields_plain h
    refine ⟨.object js, ?_, by rw [parse, hp]⟩
    rw [stringify, hjs, pure_bind]

theorem stringifyElements_plain : ∀ {vs : List JsValue}, plainElements vs →
    ∃ js, stringifyElements vs = pure js ∧ parseElements js = vs
  | [], _ => ⟨[], rfl, rfl⟩
  | v :: vs, h => by
    obtain ⟨hv, hvs⟩ := Bool.and_eq_true_iff.mp h
    obtain ⟨j, hj, hp⟩ := stringify_plain hv
    obtain ⟨js, hjs, hps⟩ := stringifyElements_plain hvs
    refine ⟨j :: js, ?_, by rw [parseElements, hp, hps]⟩
    rw [stringifyElements, hj, pure_bind, hjs, pure_bind, Option.getD_some]

theorem stringifyFields_plain : ∀ {fs : List (JsString × JsValue)}, plainFields fs →
    ∃ js, stringifyFields fs = pure js ∧ parseFields js = fs
  | [], _ => ⟨[], rfl, rfl⟩
  | (k, v) :: fs, h => by
    obtain ⟨hv, hfs⟩ := Bool.and_eq_true_iff.mp h
    obtain ⟨j, hj, hp⟩ := stringify_plain hv
    obtain ⟨js, hjs, hps⟩ := stringifyFields_plain hfs
    refine ⟨(k, j) :: js, ?_, by rw [parseFields, hp, hps]⟩
    rw [stringifyFields, hj, pure_bind]
    show (do return (k, j) :: (← stringifyFields fs) : Js _) = _
    rw [hjs, pure_bind]

end

/-- No more properties are written than there are. -/
theorem length_stringifyFields : ∀ {fs : List (JsString × JsValue)} {js : List (JsString × Json)},
    (stringifyFields fs).res = .ok js → js.length ≤ fs.length
  | [], _, h => by
    rw [← Except.ok.inj h]
    rfl
  | (k, v) :: fs, js, h => by
    rw [stringifyFields] at h
    obtain ⟨o, -, h⟩ := Comp.bind_ok h
    cases o with
    | none => exact Nat.le_succ_of_le (length_stringifyFields h)
    | some j =>
      obtain ⟨js', hjs, h⟩ := Comp.bind_ok h
      rw [← Except.ok.inj h]
      exact Nat.succ_le_succ (length_stringifyFields hjs)

theorem length_parseFields : ∀ js : List (JsString × Json), (parseFields js).length = js.length
  | [] => rfl
  | (_, _) :: js => congrArg Nat.succ (length_parseFields js)

mutual

theorem plain_of_parse : ∀ {v : JsValue} {j : Json}, (stringify v).res = .ok (some j) → parse j = v → plain v
  | .null, _, _, _ => rfl
  | .bool _, _, _, _ => rfl
  | .number (.finite _), _, _, _ => rfl
  | .string _, _, _, _ => rfl
  | .number .nan, _, h, hp => by
    rw [← Option.some.inj (Except.ok.inj h)] at hp
    cases hp
  | .number (.infinity _), _, h, hp => by
    rw [← Option.some.inj (Except.ok.inj h)] at hp
    cases hp
  | .bytes _, _, h, hp => by
    rw [← Option.some.inj (Except.ok.inj h)] at hp
    cases hp
  | .array vs, _, h, hp => by
    rw [stringify] at h
    obtain ⟨js, hjs, h⟩ := Comp.bind_ok h
    rw [← Option.some.inj (Except.ok.inj h), parse] at hp
    exact plainElements_of_parse hjs (JsValue.array.inj hp)
  | .object fs, _, h, hp => by
    rw [stringify] at h
    obtain ⟨js, hjs, h⟩ := Comp.bind_ok h
    rw [← Option.some.inj (Except.ok.inj h), parse] at hp
    exact plainFields_of_parse hjs (JsValue.object.inj hp)

theorem plainElements_of_parse : ∀ {vs : List JsValue} {js : List Json}, (stringifyElements vs).res = .ok js →
    parseElements js = vs → plainElements vs
  | [], _, _, _ => rfl
  | v :: vs, js, h, hp => by
    rw [stringifyElements] at h
    obtain ⟨o, ho, h⟩ := Comp.bind_ok h
    obtain ⟨js', hjs, h⟩ := Comp.bind_ok h
    rw [← Except.ok.inj h, parseElements] at hp
    obtain ⟨hv, hvs⟩ := List.cons.inj hp
    refine Bool.and_eq_true_iff.mpr ⟨?_, plainElements_of_parse hjs hvs⟩
    cases o with
    | some j => exact plain_of_parse ho hv
    | none =>
      -- what is written for `undefined` is read as `null`
      rw [← show JsValue.null = v from hv] at ho
      cases ho

theorem plainFields_of_parse : ∀ {fs : List (JsString × JsValue)} {js : List (JsString × Json)},
    (stringifyFields fs).res = .ok js → parseFields js = fs → plainFields fs
  | [], _, _, _ => rfl
  | (k, v) :: fs, js, h, hp => by
    rw [stringifyFields] at h
    obtain ⟨o, ho, h⟩ := Comp.bind_ok h
    cases o with
    | some j =>
      obtain ⟨js', hjs, h⟩ := Comp.bind_ok h
      rw [← Except.ok.inj h, parseFields] at hp
      obtain ⟨hv, hfs⟩ := List.cons.inj hp
      exact Bool.and_eq_true_iff.mpr ⟨plain_of_parse ho (Prod.mk.inj hv).2, plainFields_of_parse hjs hfs⟩
    | none =>
      -- a property is missing
      have hlt := length_stringifyFields h
      rw [← length_parseFields, hp, List.length_cons] at hlt
      exact absurd hlt (Nat.not_succ_le_self _)

end

theorem roundTrips_iff {v : JsValue} : RoundTrips v ↔ plain v := by
  constructor
  · rintro ⟨j, hj, hp⟩
    exact plain_of_parse hj hp
  · intro h
    obtain ⟨j, hj, hp⟩ := stringify_plain h
    exact ⟨j, by rw [hj, Comp.res_pure], hp⟩

end JSON

end SuiPq
