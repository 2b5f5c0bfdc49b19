import TarsCpp.Tup.Evolution

/-!
# What a successful write says about a value

`write` checks nothing but the lengths of strings.  A value of a type whose
encoding is shorter than `2 ^ 32` bytes is within all limits of the wire format,
since everything that is counted there takes at least a byte.
-/

namespace TarsCpp.Tup

mutual

/-- `value` is a value of the C++ type, of any size. -/
inductive WireType.IsValue : WireType → Value → Prop
  | bool (b) : WireType.IsValue .bool (.bool b)
  | char (n) : WireType.IsValue .char (.char n)
  | uint8 (n) : WireType.IsValue .uint8 (.uint8 n)
  | short (n) : WireType.IsValue .short (.short n)
  | uint16 (n) : WireType.IsValue .uint16 (.uint16 n)
  | int32 (n) : WireType.IsValue .int32 (.int32 n)
  | uint32 (n) : WireType.IsValue .uint32 (.uint32 n)
  | int64 (n) : WireType.IsValue .int64 (.int64 n)
  | float (word) : WireType.IsValue .float (.float word)
  | double (word) : WireType.IsValue .double (.double word)
  | string (s) : WireType.IsValue .string (.string s)
  | charVector (v) : WireType.IsValue .charVector (.charVector v)
  | vector {elem items} : (∀ item ∈ items, WireType.IsValue elem item) →
      WireType.IsValue (.vector elem) (.vector items)
  | set {less elem items} : items.Pairwise (fun a b => less a b) →
      (∀ item ∈ items, WireType.IsValue elem item) →
      WireType.IsValue (.set less elem) (.set items)
  | map {less key value entries} :
      entries.Pairwise (fun a b => less a.1 b.1) →
      (∀ entry ∈ entries, WireType.IsValue key entry.1) →
      (∀ entry ∈ entries, WireType.IsValue value entry.2) →
      WireType.IsValue (.map less key value) (.map entries)
  | struct {types fields} : FieldTypes.AreFields types fields →
      WireType.IsValue (.struct types) (.struct fields)

inductive FieldTypes.AreFields : FieldTypes → List (UInt8 × Value) → Prop
  | nil : FieldTypes.AreFields .nil []
  | cons {tag isRequire declared type rest value fields} :
      WireType.IsValue type value → FieldTypes.AreFields rest fields →
      FieldTypes.AreFields (.cons tag isRequire declared type rest)
        ((tag, value) :: fields)

end

theorem bind_ok {ε α β : Type} {call : Except ε α} {next : α → Except ε β}
    {result : β} (done : call >>= next = .ok result) :
    ∃ value, call = .ok value ∧ next value = .ok result := by
  cases call with
  | error exception => cases done
  | ok value => exact ⟨value, rfl, done⟩

theorem writeItems_part {items : List Value} {content : List UInt8}
    (written : writeItems items = .ok content) {item : Value}
    (member : item ∈ items) :
    ∃ bytes, write item 0 = .ok bytes ∧ bytes.length ≤ content.length := by
  induction items generalizing content with
  | nil => cases member
  | cons first items induction =>
      rw [writeItems] at written
      obtain ⟨front, writtenFirst, done⟩ := bind_ok written
      obtain ⟨rest, writtenRest, done⟩ := bind_ok done
      cases done
      rw [List.length_append]
      rcases List.mem_cons.mp member with rfl | member
      · exact ⟨front, writtenFirst, by omega⟩
      · obtain ⟨bytes, writtenItem, short⟩ := induction writtenRest member
        exact ⟨bytes, writtenItem, by omega⟩

theorem writeEntries_part {entries : List (Value × Value)}
    {content : List UInt8} (written : writeEntries entries = .ok content)
    {entry : Value × Value} (member : entry ∈ entries) :
    ∃ key value, write entry.1 0 = .ok key ∧ write entry.2 1 = .ok value ∧
      key.length + value.length ≤ content.length := by
  induction entries generalizing content with
  | nil => cases member
  | cons first entries induction =>
      obtain ⟨key, value⟩ := first
      rw [writeEntries] at written
      obtain ⟨front, writtenKey, done⟩ := bind_ok written
      obtain ⟨second, writtenValue, done⟩ := bind_ok done
      obtain ⟨rest, writtenRest, done⟩ := bind_ok done
      cases done
      simp only [List.length_append]
      rcases List.mem_cons.mp member with rfl | member
      · exact ⟨front, second, writtenKey, writtenValue, by omega⟩
      · obtain ⟨key', value', writtenKey', writtenValue', short⟩ :=
          induction writtenRest member
        exact ⟨key', value', writtenKey', writtenValue', by omega⟩

/-- Items take a byte each. -/
theorem length_le_encodeItems (items : List Value) :
    items.length ≤ (encodeItems items).length := by
  rw [encodeItems_eq]
  exact length_le_flatMap items _ fun item => encode_length_pos item 0

/-- Entries take two bytes each. -/
theorem length_le_encodeEntries (entries : List (Value × Value)) :
    2 * entries.length ≤ (encodeEntries entries).length := by
  rw [encodeEntries_eq_encodeFields, encodeFields_eq, Nat.mul_comm,
    ← length_taggedEntries]
  exact length_le_flatMap _ _ fun field => encode_length_pos field.2 field.1

theorem writeTo_cons_ok {tag : UInt8} {value : Value}
    {fields : List (UInt8 × Value)} {body : List UInt8}
    (written : writeTo ((tag, value) :: fields) = .ok body) :
    ∃ first rest, write value tag = .ok first ∧
      writeTo fields = .ok rest ∧ body = first ++ rest := by
  rw [writeTo] at written
  obtain ⟨first, head, done⟩ := bind_ok written
  obtain ⟨rest, tail, done⟩ := bind_ok done
  exact ⟨first, rest, head, tail, (Except.ok.inj done).symm⟩

theorem write_of_mem {tag : UInt8} {value : Value}
    {fields : List (UInt8 × Value)} {body : List UInt8}
    (written : writeTo fields = .ok body) (member : (tag, value) ∈ fields) :
    ∃ bytes, write value tag = .ok bytes ∧ bytes.length ≤ body.length := by
  induction fields generalizing body with
  | nil => cases member
  | cons field fields induction =>
      obtain ⟨first, rest, head, tail, rfl⟩ := writeTo_cons_ok written
      rw [List.length_append]
      cases member with
      | head => exact ⟨first, head, Nat.le_add_right _ _⟩
      | tail _ later =>
          obtain ⟨bytes, success, bound⟩ := induction tail later
          exact ⟨bytes, success, Nat.le_add_left_of_le bound⟩

theorem length_le_of_writeString {s : List UInt8} {tag : UInt8}
    {bytes : List UInt8} (written : write (.string s) tag = .ok bytes) :
    s.length ≤ maxStringLength := by
  by_contra long
  have limit : maxStringLength = 100 * 1024 * 1024 := rfl
  rw [write, writeString, if_pos (by omega), if_pos (by omega)] at written
  cases written

theorem length_le_of_writeCharVector {v : List UInt8} {tag : UInt8}
    {bytes : List UInt8} (written : write (.charVector v) tag = .ok bytes) :
    v.length ≤ bytes.length := by
  rw [write] at written
  rw [← Except.ok.inj written, writeCharVector, List.length_append]
  exact Nat.le_add_left _ _

/-- Values of one type take a byte each. -/
theorem items_of_written {elem : WireType} {items : List Value}
    {content : List UInt8} (written : writeItems items = .ok content)
    (small : content.length < 2 ^ 32)
    (each : ∀ item ∈ items, ∀ bytes, write item 0 = .ok bytes →
      bytes.length < 2 ^ 32 → elem.HasType item) :
    items.length ≤ content.length ∧ ∀ item ∈ items, elem.HasType item := by
  have typed : ∀ item ∈ items, elem.HasType item := by
    intro item member
    obtain ⟨part, writtenItem, short⟩ := writeItems_part written member
    exact each item member part writtenItem (by omega)
  refine ⟨?_, typed⟩
  have encoded := writeItems_eq fun item member =>
    write_eq_encode (typed item member) 0
  rw [written] at encoded
  cases encoded
  exact length_le_encodeItems items

theorem entries_of_written {key value : WireType}
    {entries : List (Value × Value)} {content : List UInt8}
    (written : writeEntries entries = .ok content)
    (keys : ∀ entry ∈ entries, key.HasType entry.1)
    (values : ∀ entry ∈ entries, value.HasType entry.2) :
    2 * entries.length ≤ content.length := by
  have encoded := writeEntries_eq
    (fun entry member => write_eq_encode (keys entry member) 0)
    (fun entry member => write_eq_encode (values entry member) 1)
  rw [written] at encoded
  cases encoded
  exact length_le_encodeEntries entries

mutual

/-- A value whose encoding is short enough is within the limits. -/
theorem hasType_of_written {type : WireType} {value : Value} {tag : UInt8}
    {bytes : List UInt8} (is_ : type.IsValue value)
    (written : write value tag = .ok bytes) (small : bytes.length < 2 ^ 32) :
    type.HasType value := by
  cases is_ with
  | bool b => exact .bool b
  | char n => exact .char n
  | uint8 n => exact .uint8 n
  | short n => exact .short n
  | uint16 n => exact .uint16 n
  | int32 n => exact .int32 n
  | uint32 n => exact .uint32 n
  | int64 n => exact .int64 n
  | float word => exact .float word
  | double word => exact .double word
  | string s => exact .string (length_le_of_writeString written)
  | charVector v =>
      have short := length_le_of_writeCharVector written
      exact .charVector (by omega)
  | @vector elem items each =>
      rw [write] at written
      obtain ⟨content, writtenItems, done⟩ := bind_ok written
      cases done
      simp only [List.length_append] at small
      obtain ⟨few, typed⟩ := items_of_written writtenItems (by omega)
        fun item member _ => hasType_of_written (each item member)
      exact .vector (by omega) typed
  | @set less elem items sorted each =>
      rw [write] at written
      obtain ⟨content, writtenItems, done⟩ := bind_ok written
      cases done
      simp only [List.length_append] at small
      obtain ⟨few, typed⟩ := items_of_written writtenItems (by omega)
        fun item member _ => hasType_of_written (each item member)
      exact .set (by omega) sorted typed
  | @map less key value entries sorted keys values =>
      rw [write] at written
      obtain ⟨content, writtenEntries, done⟩ := bind_ok written
      cases done
      simp only [List.length_append] at small
      have typedKeys : ∀ entry ∈ entries, key.HasType entry.1 := by
        intro entry member
        obtain ⟨first, second, writtenKey, _, short⟩ :=
          writeEntries_part writtenEntries member
        exact hasType_of_written (keys entry member) writtenKey (by omega)
      have typedValues : ∀ entry ∈ entries, value.HasType entry.2 := by
        intro entry member
        obtain ⟨first, second, _, writtenValue, short⟩ :=
          writeEntries_part writtenEntries member
        exact hasType_of_written (values entry member) writtenValue (by omega)
      have few := entries_of_written writtenEntries typedKeys typedValues
      exact .map (by omega) sorted typedKeys typedValues
  | struct are =>
      rw [write] at written
      obtain ⟨content, writtenFields, done⟩ := bind_ok written
      cases done
      simp only [List.length_append] at small
      exact .struct (hasFields_of_written are writtenFields (by omega))

theorem hasFields_of_written {types : FieldTypes}
    {fields : List (UInt8 × Value)} {bytes : List UInt8}
    (are : types.AreFields fields) (written : writeTo fields = .ok bytes)
    (small : bytes.length < 2 ^ 32) : types.HasFields fields := by
  cases are with
  | nil => exact .nil
  | cons is_ are =>
      obtain ⟨first, rest, head, tail, rfl⟩ := writeTo_cons_ok written
      rw [List.length_append] at small
      exact .cons (hasType_of_written is_ head (by omega))
        (hasFields_of_written are tail (by omega))

end

end TarsCpp.Tup
