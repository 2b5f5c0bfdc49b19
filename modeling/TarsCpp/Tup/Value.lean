import TarsCpp.Tup.Stream

/-!
# Wire types and their values

`WireType` lists the types for which `Tars.h` has a `write` and a `read`
overload; `Value` is what they read and write.  A set or map type carries its
comparator, the template argument `Cmp`, and a struct type carries the fields
its generated `readFrom` visits.  `HasType` relates the two; its clauses are
the invariants of the C++ types themselves (a `std::set` is strictly sorted by
its comparator) together with the limits of the wire format.
-/

namespace TarsCpp.Tup

/-- `TARS_MAX_STRING_LENGTH`. -/
def maxStringLength : Nat := 100 * 1024 * 1024

inductive Value
  | bool (b : Bool)
  | char (n : BitVec 8)
  | uint8 (n : BitVec 8)
  | short (n : BitVec 16)
  | uint16 (n : BitVec 16)
  | int32 (n : BitVec 32)
  | uint32 (n : BitVec 32)
  | int64 (n : BitVec 64)
  | float (word : BitVec 32)
  | double (word : BitVec 64)
  | string (s : List UInt8)
  | charVector (v : List UInt8)
  | vector (items : List Value)
  | set (items : List Value)
  | map (entries : List (Value × Value))
  | struct (fields : List (UInt8 × Value))

/-- The elements of a vector or set. -/
def Value.items : Value → List Value
  | .vector items => items
  | .set items => items
  | _ => []

/-- The comparator of an ordered container. -/
abbrev Less := Value → Value → Bool

mutual

inductive WireType
  | bool
  | char
  | uint8
  | short
  | uint16
  | int32
  | uint32
  | int64
  | float
  | double
  | string
  | charVector
  | vector (elem : WireType)
  | set (less : Less) (elem : WireType)
  | map (less : Less) (key value : WireType)
  | struct (fields : FieldTypes)

/-- The fields of a struct in the order of its `readFrom`: tag, `isRequire`,
the declared default, and the type. -/
inductive FieldTypes
  | nil
  | cons (tag : UInt8) (isRequire : Bool) (declared : Value)
      (type : WireType) (rest : FieldTypes)

end

mutual

/-- What `resetDefautlt` stores in a member: containers are cleared, structs
reset in turn, anything else gets its declared default. -/
def WireType.reset : WireType → Value → Value
  | .charVector, _ => .charVector []
  | .vector _, _ => .vector []
  | .set _ _, _ => .set []
  | .map _ _ _, _ => .map []
  | .struct fields, _ => .struct fields.resetDefault
  | _, declared => declared

/-- `resetDefautlt`, which is also what the constructor calls. -/
def FieldTypes.resetDefault : FieldTypes → List (UInt8 × Value)
  | .nil => []
  | .cons tag _ declared type rest =>
      (tag, type.reset declared) :: rest.resetDefault

end

/-- The default-constructed value of a type. -/
def WireType.default : WireType → Value
  | .bool => .bool false
  | .char => .char 0
  | .uint8 => .uint8 0
  | .short => .short 0
  | .uint16 => .uint16 0
  | .int32 => .int32 0
  | .uint32 => .uint32 0
  | .int64 => .int64 0
  | .float => .float 0
  | .double => .double 0
  | .string => .string []
  | .charVector => .charVector []
  | .vector _ => .vector []
  | .set _ _ => .set []
  | .map _ _ _ => .map []
  | .struct fields => .struct fields.resetDefault

/-- A target whose stale content no read can leave behind: a vector keeps its
old elements as targets and a set is inserted into, everything else is
overwritten or cleared. -/
def WireType.Fresh : WireType → Value → Prop
  | .vector elem, target => ∀ item ∈ target.items, elem.Fresh item
  | .set _ _, target => target.items = []
  | _, _ => True

theorem WireType.fresh_default (type : WireType) :
    type.Fresh type.default := by
  cases type with
  | vector elem =>
      intro item membership
      cases membership
  | set less elem => rfl
  | _ => trivial

theorem WireType.fresh_reset (type : WireType) (declared : Value) :
    type.Fresh (type.reset declared) := by
  cases type with
  | vector elem =>
      intro item membership
      rw [WireType.reset] at membership
      cases membership
  | set less elem => rfl
  | _ => trivial

mutual

/-- `value` is a value of the type that the wire format can carry. -/
inductive WireType.HasType : WireType → Value → Prop
  | bool (b) : WireType.HasType .bool (.bool b)
  | char (n) : WireType.HasType .char (.char n)
  | uint8 (n) : WireType.HasType .uint8 (.uint8 n)
  | short (n) : WireType.HasType .short (.short n)
  | uint16 (n) : WireType.HasType .uint16 (.uint16 n)
  | int32 (n) : WireType.HasType .int32 (.int32 n)
  | uint32 (n) : WireType.HasType .uint32 (.uint32 n)
  | int64 (n) : WireType.HasType .int64 (.int64 n)
  | float (word) : WireType.HasType .float (.float word)
  | double (word) : WireType.HasType .double (.double word)
  | string {s} : s.length ≤ maxStringLength →
      WireType.HasType .string (.string s)
  | charVector {v} : v.length < 2 ^ 32 →
      WireType.HasType .charVector (.charVector v)
  | vector {elem items} : items.length < 2 ^ 32 →
      (∀ item ∈ items, WireType.HasType elem item) →
      WireType.HasType (.vector elem) (.vector items)
  | set {less elem items} : items.length < 2 ^ 32 →
      items.Pairwise (fun a b => less a b) →
      (∀ item ∈ items, WireType.HasType elem item) →
      WireType.HasType (.set less elem) (.set items)
  | map {less key value entries} : entries.length < 2 ^ 31 →
      entries.Pairwise (fun a b => less a.1 b.1) →
      (∀ entry ∈ entries, WireType.HasType key entry.1) →
      (∀ entry ∈ entries, WireType.HasType value entry.2) →
      WireType.HasType (.map less key value) (.map entries)
  | struct {types fields} : FieldTypes.HasFields types fields →
      WireType.HasType (.struct types) (.struct fields)

inductive FieldTypes.HasFields : FieldTypes → List (UInt8 × Value) → Prop
  | nil : FieldTypes.HasFields .nil []
  | cons {tag isRequire declared type rest value fields} :
      WireType.HasType type value → FieldTypes.HasFields rest fields →
      FieldTypes.HasFields (.cons tag isRequire declared type rest)
        ((tag, value) :: fields)

end

end TarsCpp.Tup
