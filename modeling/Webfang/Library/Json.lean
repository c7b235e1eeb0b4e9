import Mathlib.Algebra.Order.Ring.Int

/-!
# JSON values

A parsed JSON document with the accessors of `serde_json::Value`. A number is kept as
`serde_json` keeps it: an integer of the 64-bit range, or the bits of a double.
-/
namespace Library

inductive Json where
  | null
  | bool (value : Bool)
  | int (value : Int)
  | float (bits : UInt64)
  | str (value : String)
  | arr (items : List Json)
  | obj (fields : List (String × Json))
  deriving Repr

namespace Json

/-- A parsed object holds each key once, so the first entry of a key is its only one. -/
def get (value : Json) (key : String) : Option Json :=
  match value with
  | .obj fields => (fields.find? fun field => field.1 == key).map Prod.snd
  | _ => none

def asStr : Json → Option String
  | .str s => some s
  | _ => none

def asU64 : Json → Option UInt64
  | .int n => if 0 ≤ n ∧ n < 2 ^ 64 then some (UInt64.ofNat n.toNat) else none
  | _ => none

def asI64 : Json → Option Int64
  | .int n => if -2 ^ 63 ≤ n ∧ n < 2 ^ 63 then some (Int64.ofInt n) else none
  | _ => none

def asU32 : Json → Option UInt32
  | .int n => if 0 ≤ n ∧ n < 2 ^ 32 then some (UInt32.ofNat n.toNat) else none
  | _ => none

def asArray : Json → Option (List Json)
  | .arr items => some items
  | _ => none

def asObject : Json → Option (List (String × Json))
  | .obj fields => some fields
  | _ => none

/-- The name of a unit variant: a bare string, or an object of one key over `null`. -/
def asUnitVariant : Json → Option String
  | .str name => some name
  | .obj [(name, .null)] => some name
  | _ => none

/-- An optional field of a derived decoder: absent and `null` both mean `None`. -/
def asOption {α : Type} (decode : Json → Option α) : Option Json → Option (Option α)
  | none => some none
  | some .null => some none
  | some value => (decode value).map some

def ofOption {α : Type} (encode : α → Json) : Option α → Json
  | none => .null
  | some a => encode a

/-- Two doubles of a document are equal: their bits, or both are a zero. -/
def eqFloat (a b : UInt64) : Bool := a == b || (a <<< 1 == 0 && b <<< 1 == 0)

mutual

/-- Equality of values: that of maps on objects, whatever the order of their fields. -/
def eqv : Json → Json → Bool
  | .null, .null => true
  | .bool a, .bool b => a == b
  | .int a, .int b => a == b
  | .float a, .float b => eqFloat a b
  | .str a, .str b => a == b
  | .arr a, .arr b => eqvItems a b
  | .obj a, .obj b => a.length == b.length && eqvFields a b
  | _, _ => false

def eqvItems : List Json → List Json → Bool
  | [], [] => true
  | a :: as, b :: bs => eqv a b && eqvItems as bs
  | _, _ => false

def eqvFields : List (String × Json) → List (String × Json) → Bool
  | [], _ => true
  | (key, a) :: as, fields =>
    ((fields.find? fun field => field.1 == key).any fun field => eqv a field.2) &&
      eqvFields as fields

end

instance : BEq Json := ⟨eqv⟩

/-! ### Descending into a value -/

theorem asArray_eq_some {value : Json} {items : List Json} :
    value.asArray = some items ↔ value = .arr items := by
  cases value <;> simp [asArray]

theorem asObject_eq_some {value : Json} {fields : List (String × Json)} :
    value.asObject = some fields ↔ value = .obj fields := by
  cases value <;> simp [asObject]

theorem sizeOf_field {fields : List (String × Json)} {field : String × Json}
    (member : field ∈ fields) : sizeOf field.2 < sizeOf (Json.obj fields) := by
  have inList := List.sizeOf_lt_of_mem member
  obtain ⟨key, value⟩ := field
  simp only [Prod.mk.sizeOf_spec, obj.sizeOf_spec] at inList ⊢
  omega

/-- What stands under a key is smaller than the object. -/
theorem sizeOf_get {value sub : Json} {key : String} (found : value.get key = some sub) :
    sizeOf sub < sizeOf value := by
  cases value with
  | obj fields =>
    simp only [get, Option.map_eq_some_iff] at found
    obtain ⟨field, first, rfl⟩ := found
    exact sizeOf_field (List.mem_of_find?_eq_some first)
  | _ => simp [get] at found

theorem asI64_int (n : Int64) : (Json.int n.toInt).asI64 = some n := by
  have low := n.le_toInt
  have high := n.toInt_lt
  simp only [asI64]
  rw [if_pos ⟨by simpa using low, by simpa using high⟩, Int64.ofInt_toInt]

theorem asU32_int (n : UInt32) : (Json.int n.toNat).asU32 = some n := by
  have high := n.toNat_lt
  simp only [asU32]
  rw [if_pos ⟨by omega, by omega⟩]
  simp

theorem asU64_int (n : UInt64) : (Json.int n.toNat).asU64 = some n := by
  have high := n.toNat_lt
  simp only [asU64]
  rw [if_pos ⟨by omega, by omega⟩]
  simp

/-- A decoder that reads back what the encoder writes, and never reads `null`, still
does so for an optional field. -/
theorem asOption_ofOption {α : Type} (encode : α → Json) {decode : Json → Option α}
    (roundTrip : ∀ a, decode (encode a) = some a) (notNull : ∀ a, encode a ≠ .null)
    (value : Option α) : asOption decode (some (ofOption encode value)) = some value := by
  cases value with
  | none => rfl
  | some a =>
    simp only [ofOption]
    unfold asOption
    split
    next absent => cases absent
    next isNull => exact absurd (Option.some.inj isNull) (notNull a)
    next value _ present =>
      cases present
      simp [roundTrip]

end Json

end Library
