import Webfang.Library.Checks
import Webfang.Library.Json

/-!
# Record validation and the meaning of a schema

The schema-subset validator of `domain/llm/validation.rs`: `validate_schema` walks a schema,
`validate_record` walks a record beside it. The two walks descend by recursion on the schema. Beside
them, what it is for a value to conform to a schema.
-/
namespace Webfang.Llm

open Library

inductive SchemaError where
  | typeMismatch (path expected actual : String)
  | missingRequired (path field : String)
  | notInEnum (path : String)
  | itemsTypeMismatch (path : String) (idx : Nat)
  | invalidSchema (msg : String)
  deriving DecidableEq, Repr

def SchemaError.display : SchemaError → String
  | .typeMismatch path expected actual =>
    "tipo inválido en " ++ path ++ ": se esperaba " ++ expected ++ ", se recibió " ++ actual
  | .missingRequired path field => "falta el campo requerido '" ++ field ++ "' en " ++ path
  | .notInEnum path => "valor fuera de enum en " ++ path
  | .itemsTypeMismatch path idx =>
    "elemento [" ++ toString idx ++ "] de " ++ path ++ " tiene tipo inválido"
  | .invalidSchema msg => "esquema inválido: " ++ msg

/-- `schema.get("type").and_then(Value::as_str)`. -/
def typeName (schema : Json) : Option String := (schema.get "type").bind Json.asStr

/-- `schema.get("properties").and_then(Value::as_object)`. -/
def properties (schema : Json) : Option (List (String × Json)) :=
  (schema.get "properties").bind Json.asObject

/-- The string entries of `required`; other entries are passed over. -/
def requiredNames (schema : Json) : List String :=
  (((schema.get "required").bind Json.asArray).getD []).filterMap Json.asStr

theorem sizeOf_property {schema : Json} {fields : List (String × Json)} {field : String × Json}
    (found : properties schema = some fields) (member : field ∈ fields) :
    sizeOf field.2 < sizeOf schema := by
  simp only [properties, Option.bind_eq_some_iff, Json.asObject_eq_some] at found
  obtain ⟨_, under, rfl⟩ := found
  have inner := Json.sizeOf_field member
  have outer := Json.sizeOf_get under
  omega

/-! ### The schema -/

def walkSchema (node : Json) (path : String) : Except SchemaError Unit :=
  match typeName node with
  | none => .error (.invalidSchema ("el campo 'type' es obligatorio en " ++ path))
  | some ty => do
    match ty with
    | "object" =>
      match found : properties node with
      | some props =>
        props.attach.forM fun ⟨(key, sub), member⟩ =>
          have := sizeOf_property found member
          walkSchema sub (path ++ "." ++ key)
      | none => .ok ()
    | "array" =>
      match found : node.get "items" with
      | some items =>
        have := Json.sizeOf_get found
        walkSchema items (path ++ ".items")
      | none => .ok ()
    | "string" | "number" | "integer" | "boolean" | "null" => .ok ()
    | other =>
      .error (.invalidSchema ("tipo no soportado '" ++ other ++ "' en " ++ path))
    if (node.get "enum").any fun allowed => allowed.asArray.isNone then
      .error (.invalidSchema ("'enum' debe ser un array en " ++ path))
    else .ok ()
termination_by sizeOf node

def validateSchema (schema : Json) : Except SchemaError Unit := walkSchema schema "$"

/-! ### The record -/

def actualType : Json → String
  | .null => "null"
  | .bool _ => "boolean"
  | .int _ | .float _ => "number"
  | .str _ => "string"
  | .arr _ => "array"
  | .obj _ => "object"

def typeMatches (value : Json) (expected : String) : Bool :=
  match expected with
  | "string" => value.asStr.isSome
  | "number" => match value with
    | .int _ | .float _ => true
    | _ => false
  | "integer" => value.asI64.isSome || value.asU64.isSome
  | "boolean" => match value with
    | .bool _ => true
    | _ => false
  | "null" => match value with
    | .null => true
    | _ => false
  | "array" => value.asArray.isSome
  | "object" => value.asObject.isSome
  | _ => false

def mismatch (value : Json) (expected path : String) : SchemaError :=
  .typeMismatch path expected (actualType value)

def checkRequired (value schema : Json) (path : String) : Except SchemaError Unit :=
  (requiredNames schema).forM fun name =>
    if (value.get name).isSome then .ok () else .error (.missingRequired path name)

/-- The elements of an array are compared with the bare type of `items`. -/
def checkItems (items : List Json) (schema : Json) (path : String) : Except SchemaError Unit :=
  match (schema.get "items").bind typeName with
  | some expected =>
    items.zipIdx.forM fun (item, idx) =>
      if typeMatches item expected then .ok () else .error (.itemsTypeMismatch path idx)
  | none => .ok ()

def checkEnum (value schema : Json) (path : String) : Except SchemaError Unit :=
  match (schema.get "enum").bind Json.asArray with
  | some vals => if vals.any (· == value) then .ok () else .error (.notInEnum path)
  | none => .ok ()

def walkRecord (value schema : Json) (path : String) : Except SchemaError Unit := do
  let ty := (typeName schema).getD "null"
  match ty with
  | "object" =>
    if value.asObject.isNone then .error (mismatch value "object" path)
    checkRequired value schema path
    match found : properties schema with
    | some props =>
      props.attach.forM fun ⟨(key, sub), member⟩ =>
        have := sizeOf_property found member
        match value.get key with
        | some v => walkRecord v sub (path ++ "." ++ key)
        | none => .ok ()
    | none => .ok ()
  | "array" =>
    match value.asArray with
    | none => .error (mismatch value "array" path)
    | some items => checkItems items schema path
  | simple =>
    if typeMatches value simple then .ok () else .error (mismatch value ty path)
  checkEnum value schema path
termination_by sizeOf schema

def validateRecord (record schema : Json) : Except SchemaError Unit :=
  walkRecord record schema "$"

end Webfang.Llm

/-! ### The meaning of a schema

What it is for a value to conform to a schema, by the rules of JSON Schema for `type`,
`required`, `properties`, `items` and `enum`. The record walk decides all of it but the elements
of arrays, of which it looks at the type alone. -/

namespace Webfang.Llm

open Library

/-- The types of JSON Schema. An integer is what `serde_json` holds as an `i64` or a `u64`. -/
inductive HasType : String → Json → Prop
  | string (s : String) : HasType "string" (.str s)
  | numberInt (n : Int) : HasType "number" (.int n)
  | numberFloat (bits : UInt64) : HasType "number" (.float bits)
  | integer {n : Int} (low : -2 ^ 63 ≤ n) (high : n < 2 ^ 64) : HasType "integer" (.int n)
  | boolean (b : Bool) : HasType "boolean" (.bool b)
  | null : HasType "null" .null
  | array (items : List Json) : HasType "array" (.arr items)
  | object (fields : List (String × Json)) : HasType "object" (.obj fields)

/-- `type`. -/
def OfType (schema value : Json) : Prop := ∃ name, typeName schema = some name ∧ HasType name value

/-- `required` speaks of objects. -/
def HasRequired (schema value : Json) : Prop :=
  ∀ fields, value = .obj fields → ∀ name ∈ requiredNames schema, (value.get name).isSome = true

/-- `enum`. -/
def InEnum (schema value : Json) : Prop :=
  ∀ vals, (schema.get "enum").bind Json.asArray = some vals →
    ∃ allowed ∈ vals, (allowed == value) = true

/-- `properties`: a member of an object and the schema it is held to. -/
def Member (schema value sub inner : Json) : Prop :=
  ∃ props key, properties schema = some props ∧ (key, sub) ∈ props ∧ value.get key = some inner

/-- `items`: an element of an array and the schema it is held to. -/
def Element (schema value sub inner : Json) : Prop :=
  ∃ items, schema.get "items" = some sub ∧ value = .arr items ∧ inner ∈ items

/-- The recursive meaning of a schema. -/
inductive Conforms : Json → Json → Prop
  | mk {schema value : Json} (ofType : OfType schema value) (required : HasRequired schema value)
    (allowed : InEnum schema value)
    (members : ∀ sub inner, Member schema value sub inner → Conforms sub inner)
    (elements : ∀ sub inner, Element schema value sub inner → Conforms sub inner) :
    Conforms schema value

/-- The same down through objects alone: an element need only have the type its schema names. -/
inductive ConformsOutside : Json → Json → Prop
  | mk {schema value : Json} (ofType : OfType schema value) (required : HasRequired schema value)
    (allowed : InEnum schema value)
    (members : ∀ sub inner, Member schema value sub inner → ConformsOutside sub inner)
    (elements : ∀ sub inner, Element schema value sub inner →
      ∀ name, typeName sub = some name → HasType name inner) :
    ConformsOutside schema value

/-- The elements of every array that is met on the way down through objects conform in full. -/
inductive ItemsConform : Json → Json → Prop
  | mk {schema value : Json}
    (members : ∀ sub inner, Member schema value sub inner → ItemsConform sub inner)
    (elements : ∀ sub inner, Element schema value sub inner → Conforms sub inner) :
    ItemsConform schema value

variable {schema value : Json}

theorem Conforms.ofType (conforms : Conforms schema value) : OfType schema value := by
  cases conforms
  assumption

/-- The meaning of a schema is what it says of objects and what it says of array elements. -/
theorem conforms_iff :
    Conforms schema value ↔ ConformsOutside schema value ∧ ItemsConform schema value := by
  constructor
  · intro conforms
    induction conforms with
    | mk ofType required allowed _ elements members _ =>
      refine ⟨.mk ofType required allowed (fun sub inner at_ => (members sub inner at_).1) ?_,
        .mk (fun sub inner at_ => (members sub inner at_).2) elements⟩
      intro sub inner element name named
      obtain ⟨_, found, has⟩ := (elements sub inner element).ofType
      cases found.symm.trans named
      exact has
  · rintro ⟨outside, items⟩
    induction outside with
    | mk ofType required allowed _ _ members =>
      cases items with
      | mk within elements =>
        exact .mk ofType required allowed
          (fun sub inner member => members sub inner member (within sub inner member)) elements

/-! ### The type test -/

theorem integer_iff {n : Int} : (((Json.int n).asI64.isSome || (Json.int n).asU64.isSome) = true) ↔
      -2 ^ 63 ≤ n ∧ n < 2 ^ 64 := by
  simp only [Json.asI64, Json.asU64, Option.isSome_ite, Bool.or_eq_true]
  omega

theorem typeMatches_iff {name : String} : typeMatches value name = true ↔ HasType name value := by
  constructor
  · intro found
    unfold typeMatches at found
    split at found
    case h_3 =>
      cases value with
      | int n =>
        obtain ⟨low, high⟩ := integer_iff.mp found
        exact .integer low high
      | _ => cases found
    all_goals cases value <;> cases found <;> constructor
  · intro has
    cases has with
    | integer low high => exact integer_iff.mpr ⟨low, high⟩
    | _ => rfl

theorem hasType_object : HasType "object" value ↔ ∃ fields, value = .obj fields := by
  rw [← typeMatches_iff]
  cases value <;> simp [typeMatches, Json.asObject]

theorem hasType_array : HasType "array" value ↔ ∃ items, value = .arr items := by
  rw [← typeMatches_iff]
  cases value <;> simp [typeMatches, Json.asArray]

/-! ### What the two walks pass -/

/-- What an accepted schema is known to hold at each level that the record walk reaches. -/
theorem walkSchema_ok {path : String} (accepted : walkSchema schema path = .ok ()) :
    ∃ name, typeName schema = some name ∧
      ∀ props, properties schema = some props → name = "object" →
        ∀ key sub, (key, sub) ∈ props → ∃ path, walkSchema sub path = .ok () := by
  rw [walkSchema] at accepted
  cases named : typeName schema with
  | none => simp [named] at accepted
  | some name =>
    refine ⟨name, rfl, ?_⟩
    rintro props found rfl key sub member
    simp only [named] at accepted
    split at accepted
    next props' found' =>
      cases found.symm.trans found'
      obtain ⟨walked, -⟩ := Checks.then_eq_ok.mp accepted
      exact ⟨_, Checks.forM_eq_ok.mp walked ⟨(key, sub), member⟩ (List.mem_attach ..)⟩
    next absent => cases found.symm.trans absent

theorem checkRequired_ok_iff {path : String} :
    checkRequired value schema path = .ok () ↔
      ∀ name ∈ requiredNames schema, (value.get name).isSome = true := by
  unfold checkRequired
  rw [Checks.forM_eq_ok]
  simp only [Checks.guard_eq_ok]

theorem checkEnum_ok_iff {path : String} :
    checkEnum value schema path = .ok () ↔ InEnum schema value := by
  unfold checkEnum InEnum
  split
  next vals found => simp [found, List.any_eq_true]
  next absent => simp [absent]

theorem checkItems_ok_iff {items : List Json} {path : String} :
    checkItems items schema path = .ok () ↔
      ∀ name, (schema.get "items").bind typeName = some name →
        ∀ item ∈ items, HasType name item := by
  unfold checkItems
  split
  next expected found =>
    rw [Checks.forM_eq_ok]
    simp only [Checks.guard_eq_ok, typeMatches_iff, found, Option.some.injEq, forall_eq']
    constructor
    · intro checked item member
      obtain ⟨idx, bound, rfl⟩ := List.getElem_of_mem member
      exact checked (items[idx], idx) (List.mk_mem_zipIdx_iff_getElem?.mpr (by simp [bound]))
    · rintro all ⟨item, idx⟩ member
      exact all item (List.fst_mem_of_mem_zipIdx member)
  next absent => simp [absent]

/-! ### One level of the meaning, by the kind of the type -/

theorem Member.isObject {sub inner : Json} (member : Member schema value sub inner) :
    ∃ fields, value = .obj fields := by
  obtain ⟨_, key, -, -, under⟩ := member
  cases value with
  | obj fields => exact ⟨fields, rfl⟩
  | _ => cases under

theorem outside_object_iff (named : typeName schema = some "object") :
    ConformsOutside schema value ↔
      (∃ fields, value = .obj fields) ∧
        (∀ name ∈ requiredNames schema, (value.get name).isSome = true) ∧
        (∀ sub inner, Member schema value sub inner → ConformsOutside sub inner) ∧
        InEnum schema value := by
  constructor
  · rintro ⟨⟨_, found, has⟩, required, allowed, members, -⟩
    cases named.symm.trans found
    obtain ⟨fields, rfl⟩ := hasType_object.mp has
    exact ⟨⟨fields, rfl⟩, required fields rfl, members, allowed⟩
  · rintro ⟨⟨fields, rfl⟩, required, members, allowed⟩
    refine .mk ⟨_, named, .object fields⟩ (fun _ _ => required) allowed members ?_
    rintro _ _ ⟨_, -, isArray, -⟩
    cases isArray

theorem outside_array_iff (named : typeName schema = some "array") :
    ConformsOutside schema value ↔
      ∃ items, value = .arr items ∧
        (∀ name, (schema.get "items").bind typeName = some name →
          ∀ item ∈ items, HasType name item) ∧
        InEnum schema value := by
  constructor
  · rintro ⟨⟨_, found, has⟩, -, allowed, -, elements⟩
    cases named.symm.trans found
    obtain ⟨items, rfl⟩ := hasType_array.mp has
    refine ⟨items, rfl, fun name typed item member => ?_, allowed⟩
    obtain ⟨sub, under, typed⟩ := Option.bind_eq_some_iff.mp typed
    exact elements sub item ⟨items, under, rfl, member⟩ name typed
  · rintro ⟨items, rfl, elements, allowed⟩
    refine .mk ⟨_, named, .array items⟩ nofun allowed
      (fun _ _ member => absurd member.isObject nofun) ?_
    rintro sub inner ⟨_, under, isArray, member⟩ name typed
    cases isArray
    exact elements name (by simp [under, typed]) inner member

theorem outside_simple_iff {name : String} (named : typeName schema = some name)
    (notObject : name ≠ "object") (notArray : name ≠ "array") :
    ConformsOutside schema value ↔ HasType name value ∧ InEnum schema value := by
  constructor
  · rintro ⟨⟨_, found, has⟩, -, allowed, -, -⟩
    cases named.symm.trans found
    exact ⟨has, allowed⟩
  · rintro ⟨has, allowed⟩
    -- a value of such a type has neither members nor elements
    have plain : (∀ fields, value ≠ .obj fields) ∧ ∀ items, value ≠ .arr items := by
      cases has with
      | array => exact absurd rfl notArray
      | object => exact absurd rfl notObject
      | _ => exact ⟨nofun, nofun⟩
    refine .mk ⟨name, named, has⟩ (fun fields isObject => absurd isObject (plain.1 fields))
      allowed ?_ ?_
    · intro sub inner member
      obtain ⟨fields, isObject⟩ := member.isObject
      exact absurd isObject (plain.1 fields)
    · rintro sub inner ⟨items, -, isArray, -⟩
      exact absurd isArray (plain.2 items)

/-! ### The record walk, by the kind of the type -/

variable {path : String}

theorem walkRecord_object_iff (named : typeName schema = some "object") :
    walkRecord value schema path = .ok () ↔
      (∃ fields, value = .obj fields) ∧ checkRequired value schema path = .ok () ∧
        (∀ props, properties schema = some props → ∀ key sub, (key, sub) ∈ props →
          ∀ inner, value.get key = some inner →
            walkRecord inner sub (path ++ "." ++ key) = .ok ()) ∧
        checkEnum value schema path = .ok () := by
  have isObject : value.asObject.isNone = true ↔ ¬ ∃ fields, value = .obj fields := by
    cases value <;> simp [Json.asObject]
  rw [walkRecord]
  simp only [named, Option.getD_some]
  split
  next wrong =>
    simp only [isObject.mp wrong, false_and, iff_false]
    rintro ⟨⟩
  next object =>
    have object := not_not.mp (mt isObject.mpr object)
    simp only [object, true_and]
    rw [Checks.then_eq_ok]
    refine and_congr_right fun _ => ?_
    split
    next props found =>
      -- each property that the record has is walked under its own schema
      rw [Checks.then_eq_ok, Checks.forM_eq_ok]
      refine and_congr_left fun _ => ?_
      simp only [found, Option.some.injEq, forall_eq']
      constructor
      · intro walked key sub member inner under
        have here := walked ⟨(key, sub), member⟩ (List.mem_attach ..)
        simpa only [under] using here
      · rintro walked ⟨⟨key, sub⟩, member⟩ -
        split
        next inner under => exact walked key sub member inner under
        next => rfl
    next absent =>
      simp only [absent, reduceCtorEq, false_implies, implies_true, true_and]
      exact Iff.rfl

theorem walkRecord_array_iff (named : typeName schema = some "array") :
    walkRecord value schema path = .ok () ↔
      ∃ items, value = .arr items ∧ checkItems items schema path = .ok () ∧
        checkEnum value schema path = .ok () := by
  rw [walkRecord]
  simp only [named, Option.getD_some]
  split
  next absent =>
    constructor
    · nofun
    · rintro ⟨items, rfl, -⟩
      cases absent
  next items found =>
    cases Json.asArray_eq_some.mp found
    simp only [Json.arr.injEq, exists_eq_left']
    exact Checks.then_eq_ok

theorem walkRecord_simple_iff {name : String} (named : typeName schema = some name)
    (notObject : name ≠ "object") (notArray : name ≠ "array") :
    walkRecord value schema path = .ok () ↔
      typeMatches value name = true ∧ checkEnum value schema path = .ok () := by
  rw [walkRecord]
  simp only [named, Option.getD_some]
  split
  next matched =>
    simp only [matched, true_and]
    exact Iff.rfl
  next fails => exact ⟨nofun, fun ⟨matched, _⟩ => absurd matched fails⟩

/-- Under an accepted schema the record walk passes the values that conform outside their
array elements. -/
theorem walkRecord_ok_iff {value schema : Json} {path : String}
    (accepted : ∃ at_, walkSchema schema at_ = .ok ()) :
    walkRecord value schema path = .ok () ↔ ConformsOutside schema value := by
  obtain ⟨_, accepted⟩ := accepted
  obtain ⟨name, named, below⟩ := walkSchema_ok accepted
  by_cases isObject : name = "object"
  · subst isObject
    rw [walkRecord_object_iff named, outside_object_iff named, checkRequired_ok_iff,
      checkEnum_ok_iff]
    refine and_congr_right fun _ => and_congr_right fun _ => and_congr_left fun _ => ?_
    constructor
    · rintro walked sub inner ⟨props, key, found, member, under⟩
      have := sizeOf_property found member
      exact (walkRecord_ok_iff (below props found rfl key sub member)).mp
        (walked props found key sub member inner under)
    · intro conforms props found key sub member inner under
      have := sizeOf_property found member
      exact (walkRecord_ok_iff (below props found rfl key sub member)).mpr
        (conforms sub inner ⟨props, key, found, member, under⟩)
  by_cases isArray : name = "array"
  · subst isArray
    simp only [walkRecord_array_iff named, outside_array_iff named, checkItems_ok_iff,
      checkEnum_ok_iff]
  · rw [walkRecord_simple_iff named isObject isArray, outside_simple_iff named isObject isArray,
      typeMatches_iff, checkEnum_ok_iff]
termination_by sizeOf schema

theorem validateRecord_ok_iff (accepted : validateSchema schema = .ok ()) :
    validateRecord value schema = .ok () ↔ ConformsOutside schema value :=
  walkRecord_ok_iff ⟨"$", accepted⟩

end Webfang.Llm
