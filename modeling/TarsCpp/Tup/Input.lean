import TarsCpp.Tup.Head
import TarsCpp.Tup.Value

/-!
# Reading values

The `read` overloads of `TarsInputStream`.  Each is `readVia` around the
`switch` over the head types that the overload accepts; the overload for a
narrow or unsigned type passes a wider signed variable on and converts back.
`read` selects the overload by the static type of the target, as overload
resolution does.  The old content of the target matters in three places: an
optional field that is absent leaves it alone, a vector keeps its elements
through `resize`, and a set is inserted into.
-/

namespace TarsCpp.Tup

open ByteOrder PrefixDecoding

def typeMismatch (capacity : Nat) (name : String) (tag : UInt8)
    (headType : HeadType) : TarsDecodeException :=
  .mismatch (snprintf capacity
    s!"read '{name}' type mismatch, tag: {tag}, get type: {headType.code}.")

def readCharBody (tag : UInt8) (headType : HeadType) (_ : UInt8) :
    Decode (BitVec 8) :=
  match headType with
  | .zeroTag => pure 0
  | .char => readSigned 8 1
  | _ => throw (.throws (typeMismatch 64 "Char" tag headType))

def readShortBody (tag : UInt8) (headType : HeadType) (_ : UInt8) :
    Decode (BitVec 16) :=
  match headType with
  | .zeroTag => pure 0
  | .char => readSigned 16 1
  | .short => readSigned 16 2
  | _ => throw (.throws (typeMismatch 64 "Short" tag headType))

def readInt32Body (tag : UInt8) (headType : HeadType) (_ : UInt8) :
    Decode (BitVec 32) :=
  match headType with
  | .zeroTag => pure 0
  | .char => readSigned 32 1
  | .short => readSigned 32 2
  | .int32 => readSigned 32 4
  | _ => throw (.throws (typeMismatch 64 "Int32" tag headType))

/-- `tars_ntohf` and `tars_ntohd` on a word as it lies in the buffer. -/
def readWord (width : Nat) : Decode (BitVec (8 * width)) := do
  let bytes ← readTypeBuf width
  pure (BitVec.ofNat (8 * width) (ofBigEndian bytes))

def readFloatBody (tag : UInt8) (headType : HeadType) (headTag : UInt8) :
    Decode (BitVec 32) :=
  match headType with
  | .zeroTag => pure 0
  | .float => readWord 4
  | _ => throw (.throws (.mismatch (snprintf 96
      (s!"read 'Float' type mismatch, tag: {tag}, " ++
        s!"get type: {headType.code}, headTag: {headTag}"))))

/-- Conversion of a single-precision word sets the quiet bit of a NaN. -/
def quietNaN (word : BitVec 32) : BitVec 32 :=
  if word.toNat / 2 ^ 23 % 256 = 255 ∧ word.toNat % 2 ^ 23 ≠ 0 then
    word ||| 0x00400000
  else
    word

/-- The double-precision word of the same number. -/
def doubleOfFloat (word : BitVec 32) : BitVec 64 :=
  let sign := word.toNat / 2 ^ 31 * 2 ^ 63
  let exponent := word.toNat / 2 ^ 23 % 256
  let fraction := (quietNaN word).toNat % 2 ^ 23
  if exponent = 255 then
    BitVec.ofNat 64 (sign + 2047 * 2 ^ 52 + fraction * 2 ^ 29)
  else if exponent ≠ 0 then
    BitVec.ofNat 64 (sign + (exponent + 896) * 2 ^ 52 + fraction * 2 ^ 29)
  else if fraction = 0 then
    BitVec.ofNat 64 sign
  else
    -- a subnormal number is normal in the wider format
    let top := Nat.log2 fraction
    BitVec.ofNat 64
      (sign + (top + 874) * 2 ^ 52 + (fraction - 2 ^ top) * 2 ^ (52 - top))

/-- A `Float` payload read into a `Double`: the bytes become a number before
they are put into host order, and only then is the result widened. -/
def readFloatAsDouble : Decode (BitVec 64) := do
  let bytes ← readTypeBuf 4
  let stored := quietNaN (BitVec.ofNat 32 (ofBigEndian bytes.reverse))
  let hostOrder := ofBigEndian (bigEndian 4 stored.toNat).reverse
  pure (doubleOfFloat (BitVec.ofNat 32 hostOrder))

def readDoubleBody (tag : UInt8) (headType : HeadType) (headTag : UInt8) :
    Decode (BitVec 64) :=
  match headType with
  | .zeroTag => pure 0
  | .float => readFloatAsDouble
  | .double => readWord 8
  | _ => throw (.throws (.mismatch (snprintf 96
      (s!"read 'Double' type mismatch, tag: {tag}, " ++
        s!"get type: {headType.code}, headType: {headTag}."))))

/-- An unsigned count shown with `%d`. -/
def signedCount (size : Nat) : Int := (BitVec.ofNat 32 size).toInt

def readStringBody (tag : UInt8) (headType : HeadType) (headTag : UInt8) :
    Decode (List UInt8) :=
  match headType with
  | .string1 => do
      let length ← readTypeBuf 1
      readTypeBuf (ofBigEndian length)
  | .string4 => do
      let length ← readTypeBuf 4
      let strLength := ofBigEndian length
      if strLength > maxStringLength then
        throw (.throws (.invalidValue (snprintf 128
          (s!"invalid string size, tag: {tag}, " ++
            s!"size: {signedCount strLength}, headTag: {headTag}"))))
      else
        readTypeBuf strLength
  | _ => throw (.throws (.mismatch (snprintf 64
      (s!"read 'string' type mismatch, tag: {tag}, " ++
        s!"get type: {headType.code}, tag: {headTag}."))))

/-- What a `read` of the type throws when a required field is absent; the
integer overload for `Int32` starts its locals from 1. -/
def missingField (type : WireType) (tag : UInt8) : TarsDecodeException :=
  match type with
  | .bool | .char => .requireNotExist (snprintf 64
      s!"require field not exist, tag: {tag}, headTag: 0.")
  | .uint16 | .int32 => .requireNotExist (snprintf 64
      s!"require field not exist, tag: {tag} headType: 1, headTag: 1")
  | .string | .set _ _ => .requireNotExist (snprintf 64
      s!"require field not exist, tag: {tag}")
  | .charVector => requireNotExist 128 tag 0
  | _ => requireNotExist 64 tag 0

/-- The element count of a container, `read(size, 0)`, with the guard against
counts that exceed the size of the whole buffer. -/
def readCount (invalid : Nat → String) : Decode Nat := do
  let size ← readUInt32Via (tarsSkipToTag 0) 0 0 true
  let stream ← get
  if size.toNat > stream.size then
    throw (.throws (.invalidValue (snprintf 128 (invalid size.toNat))))
  else
    pure size.toNat

def readCharItem (done : List UInt8) : Decode (List UInt8) := do
  let c ← readVia (tarsSkipToTag 0) (missingField .char 0) (readCharBody 0)
    0 true
  pure (done ++ [UInt8.ofBitVec c])

def readCharVectorBody (tag : UInt8) (headType : HeadType) (_ : UInt8) :
    Decode (List UInt8) :=
  match headType with
  | .simpleList => do
      let (hheadType, hheadTag) ← readFromHead
      if hheadType ≠ .char then
        throw (.throws (.mismatch (snprintf 128
          (s!"type mismatch, tag: {tag}, type: {headType.code}, " ++
            s!"{hheadType.code}, {hheadTag}"))))
      else
        let size ← readCount fun size =>
          s!"invalid size, tag: {tag}, type: {headType.code}, " ++
            s!"{hheadType.code}, size: {signedCount size}"
        readBuf size
  | .list => do
      let size ← readCount fun size =>
        s!"invalid size, tag: {tag}, type: {headType.code}, " ++
          s!"size: {signedCount size}"
      forCount readCharItem size []
  | _ => throw (.throws (.mismatch (snprintf 128
      s!"type mismatch, tag: {tag}, type: {headType.code}")))

/-- `std::set::insert`. -/
def insertItem (less : Less) (item : Value) : List Value → List Value
  | [] => [item]
  | first :: rest =>
      if less first item then
        first :: insertItem less item rest
      else if less item first then
        item :: first :: rest
      else
        first :: rest

/-- `std::map::insert`. -/
def insertEntry (less : Less) (entry : Value × Value) :
    List (Value × Value) → List (Value × Value)
  | [] => [entry]
  | first :: rest =>
      if less first.1 entry.1 then
        first :: insertEntry less entry rest
      else if less entry.1 first.1 then
        entry :: first :: rest
      else
        first :: rest

/-- `invalid size`, in the wording of vectors and sets. -/
def invalidSize (tag : UInt8) (headType : HeadType) (headTag : UInt8)
    (size : Nat) : String :=
  s!"invalid size, tag: {tag}, type: {headType.code}, " ++
    s!"size: {signedCount size}, headTag: {headTag}"

/-- `read(v[i], 0)` after `resize`: old elements stay as targets, new ones
are default-constructed. -/
def readVectorItem (readElem : Value → Decode Value) (fresh : Value)
    (old : List Value) (done : List Value) : Decode (List Value) := do
  let item ← readElem (old.getD done.length fresh)
  pure (done ++ [item])

def readVectorBody (readElem : Value → Decode Value) (fresh : Value)
    (old : List Value) (tag : UInt8) (headType : HeadType)
    (headTag : UInt8) : Decode (List Value) :=
  match headType with
  | .list => do
      let size ← readCount (invalidSize tag headType headTag)
      forCount (readVectorItem readElem fresh old) size []
  | _ => throw (.throws (typeMismatch 64 "vector" tag headType))

def readSetItem (less : Less) (readElem : Decode Value)
    (items : List Value) : Decode (List Value) := do
  let item ← readElem
  pure (insertItem less item items)

def readSetBody (less : Less) (readElem : Decode Value) (old : List Value)
    (tag : UInt8) (headType : HeadType) (headTag : UInt8) :
    Decode (List Value) :=
  match headType with
  | .list => do
      let size ← readCount (invalidSize tag headType headTag)
      forCount (readSetItem less readElem) size old
  | _ => throw (.throws (typeMismatch 64 "set" tag headType))

def readMapEntry (less : Less) (readKey readValue : Decode Value)
    (entries : List (Value × Value)) : Decode (List (Value × Value)) := do
  let key ← readKey
  let value ← readValue
  pure (insertEntry less (key, value) entries)

def readMapBody (less : Less) (readKey readValue : Decode Value)
    (tag : UInt8) (headType : HeadType) (headTag : UInt8) :
    Decode (List (Value × Value)) :=
  match headType with
  | .map => do
      let size ← readCount fun size =>
        s!"invalid map, tag: {tag}, size: {signedCount size}, " ++
          s!"headTag: {headTag}"
      forCount (readMapEntry less readKey readValue) size []
  | _ => throw (.throws (typeMismatch 64 "map" tag headType))

def readStructBody (readFields : Decode (List (UInt8 × Value)))
    (tag : UInt8) (headType : HeadType) (headTag : UInt8) :
    Decode (List (UInt8 × Value)) :=
  if headType = .structBegin then do
    let fields ← readFields
    skipToStructEnd
    pure fields
  else
    let shownType := Char.ofNat headType.code.toNat
    let shownTag := Char.ofNat headTag.toNat
    throw (.throws (.mismatch (snprintf 64
      (s!"read 'struct' type mismatch, tag: {tag}, " ++
        s!"get type: {shownType}, headTag: {shownTag}."))))

mutual

/-- What `read` does behind the head of a field it has found. -/
def readBody :
    WireType → Value → UInt8 → HeadType → UInt8 → Decode Value
  | .bool, _, tag, headType, headTag =>
      (fun c => .bool (c != 0)) <$> readCharBody tag headType headTag
  | .char, _, tag, headType, headTag =>
      .char <$> readCharBody tag headType headTag
  | .uint8, _, tag, headType, headTag =>
      (fun i => .uint8 (i.setWidth 8)) <$> readShortBody tag headType headTag
  | .short, _, tag, headType, headTag =>
      .short <$> readShortBody tag headType headTag
  | .uint16, _, tag, headType, headTag =>
      (fun i => .uint16 (i.setWidth 16)) <$>
        readInt32Body tag headType headTag
  | .int32, _, tag, headType, headTag =>
      .int32 <$> readInt32Body tag headType headTag
  | .uint32, _, tag, headType, headTag =>
      (fun i => .uint32 (i.setWidth 32)) <$>
        readInt64Body tag headType headTag
  | .int64, _, tag, headType, headTag =>
      .int64 <$> readInt64Body tag headType headTag
  | .float, _, tag, headType, headTag =>
      .float <$> readFloatBody tag headType headTag
  | .double, _, tag, headType, headTag =>
      .double <$> readDoubleBody tag headType headTag
  | .string, _, tag, headType, headTag =>
      .string <$> readStringBody tag headType headTag
  | .charVector, _, tag, headType, headTag =>
      .charVector <$> readCharVectorBody tag headType headTag
  | .vector elem, target, tag, headType, headTag =>
      .vector <$> readVectorBody
        (fun old => readVia (tarsSkipToTag 0) (missingField elem 0)
          (readBody elem old 0) old true)
        elem.default target.items tag headType headTag
  | .set less elem, target, tag, headType, headTag =>
      .set <$> readSetBody less
        (readVia (tarsSkipToTag 0) (missingField elem 0)
          (readBody elem elem.default 0) elem.default true)
        target.items tag headType headTag
  | .map less key value, _, tag, headType, headTag =>
      .map <$> readMapBody less
        (readVia (tarsSkipToTag 0) (missingField key 0)
          (readBody key key.default 0) key.default true)
        (readVia (tarsSkipToTag 1) (missingField value 1)
          (readBody value value.default 1) value.default true)
        tag headType headTag
  | .struct types, _, tag, headType, headTag =>
      .struct <$> readStructBody (readFrom types) tag headType headTag

/-- The generated `readFrom`: every field starts from its reset value. -/
def readFrom : FieldTypes → Decode (List (UInt8 × Value))
  | .nil => pure []
  | .cons tag isRequire declared type rest => do
      let value ← readVia (tarsSkipToTag tag) (missingField type tag)
        (readBody type (type.reset declared) tag) (type.reset declared)
        isRequire
      let fields ← readFrom rest
      pure ((tag, value) :: fields)

end

/-- `read(target, tag, isRequire)` for a target of the given static type. -/
def read (type : WireType) (target : Value) (tag : UInt8)
    (isRequire : Bool) : Decode Value :=
  readVia (tarsSkipToTag tag) (missingField type tag)
    (readBody type target tag) target isRequire

end TarsCpp.Tup
