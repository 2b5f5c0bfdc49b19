import TarsCpp.Tup.Value

/-!
# Writing values and the wire format

The `write` overloads of `TarsOutputStream`.  Scalars cannot fail, so their
overloads are the bytes they append; an over-long string makes `write` throw,
and with it every container around the string.

What the encoder means, without its case distinctions: an encoding is a head
followed by a payload, and the payload does not depend on the tag.  All
integer overloads share one form, because the width that `write` narrows to is
determined by the integer alone.  `write_eq_encode` connects this description
to the overloads of `TarsOutputStream`.
-/

namespace TarsCpp.Tup

open ByteOrder

/-- `TarsWriteToHead`. -/
def writeToHead (headType : HeadType) (tag : UInt8) : List UInt8 :=
  if tag < 15 then
    [headType.code + (tag <<< 4)]
  else
    [headType.code + 240, tag]

def writeChar (n : BitVec 8) (tag : UInt8) : List UInt8 :=
  if n = 0 then
    writeToHead .zeroTag tag
  else
    writeToHead .char tag ++ bigEndian 1 n.toNat

def writeShort (n : BitVec 16) (tag : UInt8) : List UInt8 :=
  if n.toInt ≥ -128 ∧ n.toInt ≤ 127 then
    writeChar (n.setWidth 8) tag
  else
    writeToHead .short tag ++ bigEndian 2 n.toNat

def writeInt32 (n : BitVec 32) (tag : UInt8) : List UInt8 :=
  if n.toInt ≥ -32768 ∧ n.toInt ≤ 32767 then
    writeShort (n.setWidth 16) tag
  else
    writeToHead .int32 tag ++ bigEndian 4 n.toNat

def writeInt64 (n : BitVec 64) (tag : UInt8) : List UInt8 :=
  if n.toInt ≥ -2147483648 ∧ n.toInt ≤ 2147483647 then
    writeInt32 (n.setWidth 32) tag
  else
    writeToHead .int64 tag ++ bigEndian 8 n.toNat

def writeFloat (word : BitVec 32) (tag : UInt8) : List UInt8 :=
  writeToHead .float tag ++ bigEndian 4 word.toNat

def writeDouble (word : BitVec 64) (tag : UInt8) : List UInt8 :=
  writeToHead .double tag ++ bigEndian 8 word.toNat

/-- The count in front of a container: `Int32 n = (Int32)v.size()`. -/
def writeCount (count : Nat) : List UInt8 :=
  writeInt32 (BitVec.ofNat 32 count) 0

def writeString (s : List UInt8) (tag : UInt8) :
    Except TarsDecodeException (List UInt8) :=
  if s.length > 255 then
    if s.length > maxStringLength then
      .error (.invalidValue (snprintf 128
        s!"invalid string size, tag: {tag}, size: {s.length % 2 ^ 32}"))
    else
      .ok (writeToHead .string4 tag ++ bigEndian 4 s.length ++ s)
  else
    .ok (writeToHead .string1 tag ++ bigEndian 1 s.length ++ s)

def writeCharVector (v : List UInt8) (tag : UInt8) : List UInt8 :=
  writeToHead .simpleList tag ++ writeToHead .char 0 ++
    writeCount v.length ++ v

mutual

def write : Value → UInt8 → Except TarsDecodeException (List UInt8)
  | .bool b, tag => .ok (writeChar (if b then 1 else 0) tag)
  | .char n, tag => .ok (writeChar n tag)
  | .uint8 n, tag => .ok (writeShort (n.setWidth 16) tag)
  | .short n, tag => .ok (writeShort n tag)
  | .uint16 n, tag => .ok (writeInt32 (n.setWidth 32) tag)
  | .int32 n, tag => .ok (writeInt32 n tag)
  | .uint32 n, tag => .ok (writeInt64 (n.setWidth 64) tag)
  | .int64 n, tag => .ok (writeInt64 n tag)
  | .float word, tag => .ok (writeFloat word tag)
  | .double word, tag => .ok (writeDouble word tag)
  | .string s, tag => writeString s tag
  | .charVector v, tag => .ok (writeCharVector v tag)
  | .vector items, tag => do
      let content ← writeItems items
      pure (writeToHead .list tag ++ writeCount items.length ++ content)
  | .set items, tag => do
      let content ← writeItems items
      pure (writeToHead .list tag ++ writeCount items.length ++ content)
  | .map entries, tag => do
      let content ← writeEntries entries
      pure (writeToHead .map tag ++ writeCount entries.length ++ content)
  | .struct fields, tag => do
      let content ← writeTo fields
      pure (writeToHead .structBegin tag ++ content ++
        writeToHead .structEnd 0)

def writeItems : List Value → Except TarsDecodeException (List UInt8)
  | [] => pure []
  | item :: items => do
      let first ← write item 0
      let rest ← writeItems items
      pure (first ++ rest)

def writeEntries :
    List (Value × Value) → Except TarsDecodeException (List UInt8)
  | [] => pure []
  | (key, value) :: entries => do
      let first ← write key 0
      let second ← write value 1
      let rest ← writeEntries entries
      pure (first ++ second ++ rest)

/-- The generated `writeTo` of a struct. -/
def writeTo : List (UInt8 × Value) → Except TarsDecodeException (List UInt8)
  | [] => pure []
  | (tag, value) :: fields => do
      let first ← write value tag
      let rest ← writeTo fields
      pure (first ++ rest)

end

/-- Bytes of the narrowest two's-complement form; zero needs none. -/
def intWidth (n : Int) : Nat :=
  if n = 0 then 0
  else if -128 ≤ n ∧ n ≤ 127 then 1
  else if -32768 ≤ n ∧ n ≤ 32767 then 2
  else if -2147483648 ≤ n ∧ n ≤ 2147483647 then 4
  else 8

def intHead (n : Int) : HeadType :=
  match intWidth n with
  | 0 => .zeroTag
  | 1 => .char
  | 2 => .short
  | 4 => .int32
  | _ => .int64

def intPayload (n : Int) : List UInt8 :=
  bigEndian (intWidth n) (n % 256 ^ intWidth n).toNat

def encodeInt (n : Int) (tag : UInt8) : List UInt8 :=
  writeToHead (intHead n) tag ++ intPayload n

@[simp] theorem length_intPayload (n : Int) :
    (intPayload n).length = intWidth n := by
  simp [intPayload]

private theorem toNat_eq_emod {bits : Nat} (n : BitVec bits) :
    n.toNat = (n.toInt % (2 ^ bits : Nat)).toNat := by
  rw [BitVec.toInt_eq_toNat_bmod, Int.bmod_emod, ← Int.natCast_mod,
    Int.toNat_natCast, Nat.mod_eq_of_lt n.isLt]

/-- The word of a payload's own width denotes the integer again. -/
theorem toInt_ofBigEndian_intPayload {n : Int} {width : Nat}
    (narrowest : intWidth n = width)
    (lower : -2 ^ (8 * width) ≤ 2 * n) (upper : 2 * n < 2 ^ (8 * width)) :
    (BitVec.ofNat (8 * width) (ofBigEndian (intPayload n))).toInt = n := by
  have capacity : (256 : Nat) ^ width = 2 ^ (8 * width) := by
    rw [Nat.pow_mul]
  have positive : (0 : Int) < 2 ^ (8 * width) := by positivity
  have residue : ((n % 256 ^ width).toNat : Int) = n % 2 ^ (8 * width) := by
    have capacity' : (256 : Int) ^ width = 2 ^ (8 * width) := by
      exact_mod_cast capacity
    rw [capacity']
    exact Int.toNat_of_nonneg (Int.emod_nonneg _ positive.ne')
  have bound : (n % 256 ^ width).toNat < 256 ^ width := by
    rw [capacity]
    have := Int.emod_lt_of_pos n positive
    zify
    rw [residue]
    exact this
  rw [intPayload, narrowest, ofBigEndian_bigEndian bound,
    BitVec.toInt_ofNat', residue]
  have cast : (2 : Int) ^ (8 * width) = ((2 ^ (8 * width) : Nat) : Int) := by
    norm_cast
  rw [cast, Int.emod_bmod]
  apply Int.bmod_eq_of_le_mul_two
  · omega
  · omega

theorem writeChar_eq (n : BitVec 8) (tag : UInt8) :
    writeChar n tag = encodeInt n.toInt tag := by
  have upper := BitVec.toInt_lt (x := n)
  have lower := BitVec.le_toInt (x := n)
  unfold writeChar encodeInt intHead intPayload
  by_cases zero : n = 0
  · subst zero
    simp [intWidth, bigEndian]
  · have nonzero : n.toInt ≠ 0 := by
      intro isZero
      exact zero (BitVec.eq_of_toInt_eq (by simpa using isZero))
    have width : intWidth n.toInt = 1 := by
      rw [intWidth, if_neg nonzero, if_pos (by omega)]
    rw [if_neg zero, width, toNat_eq_emod n]
    norm_num

/-- A narrowing conversion that keeps the value in range keeps the value. -/
private theorem toInt_setWidth {bits bits' : Nat} (n : BitVec bits)
    (narrower : bits' ≤ bits) (lower : -2 ^ bits' ≤ 2 * n.toInt)
    (upper : 2 * n.toInt < 2 ^ bits') :
    (n.setWidth bits').toInt = n.toInt := by
  have divides : (2 ^ bits' : Nat) ∣ 2 ^ bits := Nat.pow_dvd_pow 2 narrower
  have same : ((n.toNat : Int)).bmod (2 ^ bits') =
      n.toInt.bmod (2 ^ bits') := by
    rw [BitVec.toInt_eq_toNat_bmod, Int.bmod_bmod_of_dvd divides]
  have bound : ((2 ^ bits' : Nat) : Int) = 2 ^ bits' := by norm_cast
  rw [BitVec.toInt_setWidth, same]
  apply Int.bmod_eq_of_le_mul_two <;> omega

theorem writeShort_eq (n : BitVec 16) (tag : UInt8) :
    writeShort n tag = encodeInt n.toInt tag := by
  unfold writeShort
  split_ifs with inChar
  · rw [writeChar_eq, toInt_setWidth n] <;> omega
  · have upper := BitVec.toInt_lt (x := n)
    have lower := BitVec.le_toInt (x := n)
    have width : intWidth n.toInt = 2 := by
      rw [intWidth, if_neg, if_neg, if_pos] <;> omega
    rw [encodeInt, intHead, intPayload, width, toNat_eq_emod n]
    norm_num

theorem writeInt32_eq (n : BitVec 32) (tag : UInt8) :
    writeInt32 n tag = encodeInt n.toInt tag := by
  unfold writeInt32
  split_ifs with inShort
  · rw [writeShort_eq, toInt_setWidth n] <;> omega
  · have upper := BitVec.toInt_lt (x := n)
    have lower := BitVec.le_toInt (x := n)
    have width : intWidth n.toInt = 4 := by
      rw [intWidth, if_neg, if_neg, if_neg, if_pos] <;> omega
    rw [encodeInt, intHead, intPayload, width, toNat_eq_emod n]
    norm_num

theorem writeInt64_eq (n : BitVec 64) (tag : UInt8) :
    writeInt64 n tag = encodeInt n.toInt tag := by
  unfold writeInt64
  split_ifs with inInt32
  · rw [writeInt32_eq, toInt_setWidth n] <;> omega
  · have width : intWidth n.toInt = 8 := by
      rw [intWidth, if_neg, if_neg, if_neg, if_neg] <;> omega
    rw [encodeInt, intHead, intPayload, width, toNat_eq_emod n]
    norm_num

private theorem toInt_zeroExtend {bits bits' : Nat} (n : BitVec bits)
    (wider : bits < bits') : (n.setWidth bits').toInt = n.toNat := by
  rw [BitVec.toInt_setWidth]
  have doubled : 2 * 2 ^ bits ≤ 2 ^ bits' := by
    calc
      2 * 2 ^ bits = 2 ^ (bits + 1) := by rw [Nat.pow_succ, Nat.mul_comm]
      _ ≤ 2 ^ bits' := Nat.pow_le_pow_right (by omega) wider
  have := n.isLt
  apply Int.bmod_eq_of_le_mul_two <;> omega

def Value.head : Value → HeadType
  | .bool b => intHead b.toNat
  | .char n => intHead n.toInt
  | .uint8 n => intHead n.toNat
  | .short n => intHead n.toInt
  | .uint16 n => intHead n.toNat
  | .int32 n => intHead n.toInt
  | .uint32 n => intHead n.toNat
  | .int64 n => intHead n.toInt
  | .float _ => .float
  | .double _ => .double
  | .string s => if s.length > 255 then .string4 else .string1
  | .charVector _ => .simpleList
  | .vector _ => .list
  | .set _ => .list
  | .map _ => .map
  | .struct _ => .structBegin

mutual

def Value.payload : Value → List UInt8
  | .bool b => intPayload b.toNat
  | .char n => intPayload n.toInt
  | .uint8 n => intPayload n.toNat
  | .short n => intPayload n.toInt
  | .uint16 n => intPayload n.toNat
  | .int32 n => intPayload n.toInt
  | .uint32 n => intPayload n.toNat
  | .int64 n => intPayload n.toInt
  | .float word => bigEndian 4 word.toNat
  | .double word => bigEndian 8 word.toNat
  | .string s => bigEndian (if s.length > 255 then 4 else 1) s.length ++ s
  | .charVector v => writeToHead .char 0 ++ (writeCount v.length ++ v)
  | .vector items => writeCount items.length ++ encodeItems items
  | .set items => writeCount items.length ++ encodeItems items
  | .map entries => writeCount entries.length ++ encodeEntries entries
  | .struct fields => encodeFields fields ++ writeToHead .structEnd 0

def encodeItems : List Value → List UInt8
  | [] => []
  | item :: items =>
      writeToHead item.head 0 ++ item.payload ++ encodeItems items

def encodeEntries : List (Value × Value) → List UInt8
  | [] => []
  | (key, value) :: entries =>
      writeToHead key.head 0 ++ key.payload ++
        (writeToHead value.head 1 ++ value.payload) ++ encodeEntries entries

def encodeFields : List (UInt8 × Value) → List UInt8
  | [] => []
  | (tag, value) :: fields =>
      writeToHead value.head tag ++ value.payload ++ encodeFields fields

end

def encode (value : Value) (tag : UInt8) : List UInt8 :=
  writeToHead value.head tag ++ value.payload

theorem length_writeToHead {tag : UInt8} (short : tag < 15)
    (headType : HeadType) : (writeToHead headType tag).length = 1 := by
  rw [writeToHead, if_pos short, List.length_singleton]

theorem encodeItems_eq (items : List Value) :
    encodeItems items = items.flatMap (encode · 0) := by
  induction items with
  | nil => rfl
  | cons item items induction =>
      rw [encodeItems, induction, List.flatMap_cons, encode]

theorem encodeEntries_eq (entries : List (Value × Value)) :
    encodeEntries entries =
      entries.flatMap (fun entry => encode entry.1 0 ++ encode entry.2 1) := by
  induction entries with
  | nil => rfl
  | cons entry entries induction =>
      rw [encodeEntries, induction, List.flatMap_cons, encode, encode]

theorem encodeFields_eq (fields : List (UInt8 × Value)) :
    encodeFields fields =
      fields.flatMap (fun field => encode field.2 field.1) := by
  induction fields with
  | nil => rfl
  | cons field fields induction =>
      rw [encodeFields, induction, List.flatMap_cons, encode]

theorem writeItems_eq {items : List Value}
    (each : ∀ item ∈ items, write item 0 = .ok (encode item 0)) :
    writeItems items = .ok (encodeItems items) := by
  induction items with
  | nil => rfl
  | cons item items induction =>
      rw [List.forall_mem_cons] at each
      rw [writeItems, each.1, induction each.2]
      rfl

theorem writeEntries_eq {entries : List (Value × Value)}
    (keys : ∀ entry ∈ entries, write entry.1 0 = .ok (encode entry.1 0))
    (values : ∀ entry ∈ entries, write entry.2 1 = .ok (encode entry.2 1)) :
    writeEntries entries = .ok (encodeEntries entries) := by
  induction entries with
  | nil => rfl
  | cons entry entries induction =>
      rw [List.forall_mem_cons] at keys values
      rw [writeEntries, keys.1, values.1, induction keys.2 values.2]
      rfl

theorem write_map_eq {entries : List (Value × Value)}
    (keys : ∀ entry ∈ entries, write entry.1 0 = .ok (encode entry.1 0))
    (values : ∀ entry ∈ entries, write entry.2 1 = .ok (encode entry.2 1))
    (tag : UInt8) :
    write (.map entries) tag = .ok (encode (.map entries) tag) := by
  rw [write, writeEntries_eq keys values]
  simp [encode, Value.head, Value.payload, pure, bind, Except.pure,
    Except.bind]

mutual

/-- On a value the wire format can carry, `write` succeeds and appends the
encoding. -/
theorem write_eq_encode {type : WireType} {value : Value}
    (typed : type.HasType value) (tag : UInt8) :
    write value tag = .ok (encode value tag) := by
  cases typed with
  | bool b =>
      cases b <;> rw [write, writeChar_eq] <;> rfl
  | char n => rw [write, writeChar_eq]; rfl
  | uint8 n =>
      rw [write, writeShort_eq, toInt_zeroExtend n (by decide)]
      rfl
  | short n => rw [write, writeShort_eq]; rfl
  | uint16 n =>
      rw [write, writeInt32_eq, toInt_zeroExtend n (by decide)]
      rfl
  | int32 n => rw [write, writeInt32_eq]; rfl
  | uint32 n =>
      rw [write, writeInt64_eq, toInt_zeroExtend n (by decide)]
      rfl
  | int64 n => rw [write, writeInt64_eq]; rfl
  | float word => rw [write]; rfl
  | double word => rw [write]; rfl
  | string short =>
      rw [write, writeString, encode, Value.head, Value.payload]
      split_ifs with long tooLong
      · omega
      · rw [List.append_assoc]
      · rw [List.append_assoc]
  | charVector few =>
      rw [write, writeCharVector, encode, Value.head, Value.payload]
      simp only [List.append_assoc]
  | vector few each =>
      rw [write, writeItems_eq fun item membership =>
        write_eq_encode (each item membership) 0]
      simp [encode, Value.head, Value.payload, pure, bind, Except.pure,
        Except.bind]
  | set few sorted each =>
      rw [write, writeItems_eq fun item membership =>
        write_eq_encode (each item membership) 0]
      simp [encode, Value.head, Value.payload, pure, bind, Except.pure,
        Except.bind]
  | map few sorted keys values =>
      exact write_map_eq
        (fun entry membership => write_eq_encode (keys entry membership) 0)
        (fun entry membership => write_eq_encode (values entry membership) 1)
        tag
  | struct typedFields =>
      rw [write, writeTo_eq_encodeFields typedFields]
      simp [encode, Value.head, Value.payload, pure, bind, Except.pure,
        Except.bind]

theorem writeTo_eq_encodeFields {types : FieldTypes}
    {fields : List (UInt8 × Value)} (typed : types.HasFields fields) :
    writeTo fields = .ok (encodeFields fields) := by
  cases typed with
  | nil => rw [writeTo]; rfl
  | cons typedValue typedRest =>
      rw [writeTo, write_eq_encode typedValue,
        writeTo_eq_encodeFields typedRest]
      rfl

end

end TarsCpp.Tup
