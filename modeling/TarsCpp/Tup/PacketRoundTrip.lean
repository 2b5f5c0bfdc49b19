import TarsCpp.Tup.PacketRuns
import TarsCpp.Tup.Written

/-!
# A packet comes back

The bytes of a packet have their length in front, decode to its header and to
attributes with the same contents, and are the same in whatever way, and however
often, they are asked for, as long as they fit: strings into what the codec
takes, and the length into its four bytes.  An empty string that was put with
`putUnknown` is the only value that does not come back.
-/

namespace TarsCpp.Tup

open Authentication ByteOrder NetworkBuffer PrefixDecoding

variable {writer : TWriter}

/-- `write` takes the string, if it is one. -/
def Value.Short : Value → Prop
  | .string s => s.length ≤ maxStringLength
  | _ => True

namespace UniPacket

/-- What `writeTo` writes of a packet. -/
def wireFields (packet : UniPacket writer) : List (UInt8 × Value) :=
  RequestPacket.fields { packet.header with
    sBuffer := Tup.encode packet.attributes.data.toValue 0 }

/-- The strings are as short as the codec wants them. -/
structure Short (packet : UniPacket writer) : Prop where
  servant : packet.header.sServantName.length ≤ maxStringLength
  function : packet.header.sFuncName.length ≤ maxStringLength
  context : ∀ entry ∈ packet.header.context, entry.1.Short ∧ entry.2.Short
  status : ∀ entry ∈ packet.header.status, entry.1.Short ∧ entry.2.Short
  names : ∀ entry ∈ packet.attributes.data.entries,
    entry.1.length ≤ maxStringLength

/-- Four bytes can count the whole packet, too. -/
structure Fits (packet : UniPacket writer) : Prop extends Short packet where
  size : 4 + (encodeFields packet.wireFields).length < 2 ^ 32

end UniPacket

theorem write_string_eq {s : List UInt8} (short : s.length ≤ maxStringLength)
    (tag : UInt8) : write (.string s) tag = .ok (encode (.string s) tag) :=
  write_eq_encode (.string short) tag

theorem write_charVector_eq (v : List UInt8) (tag : UInt8) :
    write (.charVector v) tag = .ok (encode (.charVector v) tag) := by
  rw [write, writeCharVector, encode, Value.head, Value.payload]
  simp only [List.append_assoc]

theorem writeTo_eq_of_each {fields : List (UInt8 × Value)}
    (each : ∀ field ∈ fields,
      write field.2 field.1 = .ok (encode field.2 field.1)) :
    writeTo fields = .ok (encodeFields fields) := by
  induction fields with
  | nil => rfl
  | cons field fields induction =>
      rw [List.forall_mem_cons] at each
      rw [writeTo, each.1, induction each.2]
      rfl

theorem write_stringMap_eq {entries : List (Value × Value)}
    (is_ : stringMap.IsValue (.map entries))
    (short : ∀ entry ∈ entries, entry.1.Short ∧ entry.2.Short)
    (tag : UInt8) :
    write (.map entries) tag = .ok (encode (.map entries) tag) := by
  cases is_ with
  | map sorted keys values =>
      refine write_map_eq ?_ ?_ tag
      · rintro ⟨key, value⟩ member
        cases keys _ member with
        | string s => exact write_string_eq (short _ member).1 0
      · rintro ⟨key, value⟩ member
        cases values _ member with
        | string s => exact write_string_eq (short _ member).2 1

theorem write_toValue_eq {data : Attributes}
    (names : ∀ entry ∈ data.entries, entry.1.length ≤ maxStringLength) :
    write data.toValue 0 = .ok (encode data.toValue 0) := by
  refine write_map_eq ?_ ?_ 0
  · intro entry member
    obtain ⟨stored, within, rfl⟩ := List.mem_map.mp member
    exact write_string_eq (names stored within) 0
  · intro entry member
    obtain ⟨stored, within, rfl⟩ := List.mem_map.mp member
    exact write_charVector_eq _ 1

theorem writeEntries_of_write {entries : List (Value × Value)} {tag : UInt8}
    {bytes : List UInt8} (written : write (.map entries) tag = .ok bytes) :
    ∃ content, writeEntries entries = .ok content ∧
      content.length ≤ bytes.length := by
  rw [write] at written
  obtain ⟨content, inner, done⟩ := bind_ok written
  cases done
  refine ⟨content, inner, ?_⟩
  simp only [List.length_append]
  omega

theorem Value.short_of_write {value : Value} {tag : UInt8} {bytes : List UInt8}
    (written : write value tag = .ok bytes) : value.Short := by
  cases value with
  | string s => exact length_le_of_writeString written
  | _ => trivial

theorem short_of_write_map {entries : List (Value × Value)} {tag : UInt8}
    {bytes : List UInt8} (written : write (.map entries) tag = .ok bytes) :
    ∀ entry ∈ entries, entry.1.Short ∧ entry.2.Short := by
  intro entry member
  obtain ⟨content, inner, _⟩ := writeEntries_of_write written
  obtain ⟨key, value, writtenKey, writtenValue, _⟩ :=
    writeEntries_part inner member
  exact ⟨Value.short_of_write writtenKey, Value.short_of_write writtenValue⟩

namespace Attributes

theorem sorted_copy (data : Attributes) : SortedEntries.Sorted
    (data.entries.map fun entry => (entry.1, ofContent entry.2.content)) := by
  unfold SortedEntries.Sorted
  rw [List.pairwise_map]
  exact data.sorted

/-- The attributes in storage of their own. -/
def copy (data : Attributes) : Attributes := ⟨_, sorted_copy data⟩

theorem find_copy (name : List UInt8) (data : Attributes) :
    (copy data).find? name =
      (data.find? name).map fun v => ofContent v.content := by
  unfold OrderedMap.find? copy
  dsimp only
  induction data.entries with
  | nil => rfl
  | cons entry entries induction =>
      rw [List.map_cons, SortedEntries.find?, SortedEntries.find?, induction]
      split
      · rfl
      · rfl

end Attributes

theorem isValue_toValue (data : Attributes) :
    Attributes.type.IsValue data.toValue := by
  refine .map ?_ ?_ ?_
  · rw [List.pairwise_map]
    refine data.sorted.imp ?_
    intro first second less
    exact decide_eq_true less
  · intro entry member
    obtain ⟨stored, within, rfl⟩ := List.mem_map.mp member
    exact .string _
  · intro entry member
    obtain ⟨stored, within, rfl⟩ := List.mem_map.mp member
    exact .charVector _

/-- The fields of a request are of their types. -/
theorem areFields_request (request : RequestPacket)
    (context : stringMap.IsValue (.map request.context))
    (status : stringMap.IsValue (.map request.status)) :
    RequestPacket.types.AreFields request.fields :=
  .cons (.short _) <| .cons (.char _) <| .cons (.int32 _) <|
    .cons (.int32 _) <| .cons (.string _) <| .cons (.string _) <|
    .cons (.charVector _) <| .cons (.int32 _) <| .cons context <|
    .cons status .nil

namespace UniPacket

/-- The header is a request whose maps are maps of strings. -/
structure Typed (packet : UniPacket writer) : Prop where
  context : stringMap.IsValue (.map packet.header.context)
  status : stringMap.IsValue (.map packet.header.status)

section Body

variable {packet : UniPacket writer}

theorem Short.writes (fits : packet.Short) (typed : packet.Typed) :
    writeTo packet.wireFields = .ok (encodeFields packet.wireFields) := by
  refine writeTo_eq_of_each ?_
  simp only [wireFields, RequestPacket.fields, List.forall_mem_cons,
    List.not_mem_nil, false_implies, implies_true, and_true]
  exact ⟨write_eq_encode (.short _) 1, write_eq_encode (.char _) 2,
    write_eq_encode (.int32 _) 3, write_eq_encode (.int32 _) 4,
    write_string_eq fits.servant 5, write_string_eq fits.function 6,
    write_charVector_eq _ 7, write_eq_encode (.int32 _) 8,
    write_stringMap_eq typed.context fits.context 9,
    write_stringMap_eq typed.status fits.status 10⟩

/-- The encoded attributes are a part of the packet. -/
theorem length_toValue_le {bytes : List UInt8}
    (written : writeTo packet.wireFields = .ok bytes) :
    (Tup.encode packet.attributes.data.toValue 0).length ≤ bytes.length := by
  obtain ⟨part, writtenPart, short⟩ := @write_of_mem 7
    (.charVector (Tup.encode packet.attributes.data.toValue 0)) _ _ written
    (by simp [wireFields, RequestPacket.fields])
  exact (length_le_of_writeCharVector writtenPart).trans short

theorem Fits.body (fits : packet.Fits) (typed : packet.Typed) :
    packet.body = .ok (encodeFields packet.wireFields) := by
  have writes := fits.toShort.writes typed
  have size := fits.size
  have inner := length_toValue_le writes
  have first : packet.written =
      .ok (Tup.encode packet.attributes.data.toValue 0) := by
    unfold written bounded
    rw [write_toValue_eq fits.names]
    exact if_pos (by omega)
  have second : bounded (writeTo packet.wireFields) =
      .ok (encodeFields packet.wireFields) := by
    unfold bounded
    rw [writes]
    exact if_pos (by omega)
  unfold UniPacket.body
  rw [first]
  exact second

/-- Conversely, what has been written is as short as the codec wants it. -/
theorem of_body (typed : packet.Typed) {bytes : List UInt8}
    (returned : packet.body = .ok bytes) :
    packet.Short ∧ bytes = encodeFields packet.wireFields := by
  unfold UniPacket.body at returned
  obtain ⟨data, first, second⟩ := bind_ok returned
  have writtenData := (of_bounded first).1
  have writtenFields := (of_bounded second).1
  have part : ∀ {tag : UInt8} {value : Value},
      (tag, value) ∈ RequestPacket.fields
          { packet.header with sBuffer := data } →
        ∃ written, write value tag = .ok written := by
    intro tag value member
    obtain ⟨written, success, _⟩ := write_of_mem writtenFields member
    exact ⟨written, success⟩
  obtain ⟨_, servant⟩ := @part 5 (.string packet.header.sServantName)
    (by simp [RequestPacket.fields])
  obtain ⟨_, function⟩ := @part 6 (.string packet.header.sFuncName)
    (by simp [RequestPacket.fields])
  obtain ⟨_, context⟩ := @part 9 (.map packet.header.context)
    (by simp [RequestPacket.fields])
  obtain ⟨_, status⟩ := @part 10 (.map packet.header.status)
    (by simp [RequestPacket.fields])
  have names : ∀ entry ∈ packet.attributes.data.entries,
      entry.1.length ≤ maxStringLength := by
    intro entry member
    have short := short_of_write_map writtenData
      (.string entry.1, .charVector entry.2.content)
      (List.mem_map.mpr ⟨entry, member, rfl⟩)
    exact short.1
  have short : packet.Short := ⟨length_le_of_writeString servant,
    length_le_of_writeString function, short_of_write_map context,
    short_of_write_map status, names⟩
  refine ⟨short, ?_⟩
  rw [write_toValue_eq names] at writtenData
  rw [← Except.ok.inj writtenData] at writtenFields
  exact (Except.ok.inj ((short.writes typed).symm.trans writtenFields)).symm

end Body

/-- `readFromBuffer` of an encoding. -/
theorem readFromBuffer_of_reads {α : Type} {decode : Decode α}
    {bytes : List UInt8} {result : α} (reads : Reads decode bytes result)
    (small : bytes.length < 2 ^ 32) :
    UniAttribute.readFromBuffer decode bytes = .ok result := by
  have fits : bytes.length < sizeLimit := by
    unfold sizeLimit
    omega
  have facing : (BufferReader.setBuffer bytes fits).Facing (bytes ++ []) :=
    ⟨Nat.zero_le _, (List.append_nil bytes).symm⟩
  unfold UniAttribute.readFromBuffer
  rw [dif_pos fits, reads _ [] facing]

theorem ofValue_toValue (data : Attributes) :
    Attributes.ofValue data.toValue = data.copy := by
  rw [← OrderedMap.ofList_entries (Attributes.copy data)]
  refine congrArg OrderedMap.ofList ?_
  unfold Attributes.copy
  dsimp only
  rw [List.filterMap_map, ← List.filterMap_eq_map]
  rfl

/-- The attributes of a decoded packet. -/
theorem decode_frame {packet : UniPacket writer} (typed : packet.Typed)
    (fits : packet.Fits) {writer' : TWriter} (target : UniPacket writer') :
    ∃ decoded : UniPacket writer',
      decode (frame (encodeFields packet.wireFields)) target = .ok decoded ∧
        decoded.header = { packet.header with sBuffer := [] } ∧
        decoded.attributes.data = packet.attributes.data.copy := by
  have size := fits.size
  have writes := fits.toShort.writes typed
  have inner := length_toValue_le writes
  have header : UniAttribute.readFromBuffer (readFrom RequestPacket.types)
      (encodeFields packet.wireFields) = .ok packet.wireFields :=
    readFromBuffer_of_reads (reads_readFrom
      (hasFields_of_written
        (areFields_request _ typed.context typed.status) writes (by omega)))
      (by omega)
  have sBuffer : (RequestPacket.ofFields packet.wireFields).sBuffer =
      Tup.encode packet.attributes.data.toValue 0 := rfl
  have data : UniAttribute.readFromBuffer
      (read Attributes.type (.map []) 0 true)
      (Tup.encode packet.attributes.data.toValue 0) =
        .ok packet.attributes.data.toValue :=
    readFromBuffer_of_reads (reads_read
      (hasType_of_written (isValue_toValue packet.attributes.data)
        (write_toValue_eq fits.names) (by omega)) trivial 0 true) (by omega)
  have length : ¬ (frame (encodeFields packet.wireFields)).length < 4 := by
    unfold frame
    rw [List.length_append, length_bigEndian]
    omega
  have rest : (frame (encodeFields packet.wireFields)).drop 4 =
      encodeFields packet.wireFields :=
    List.drop_left' (length_bigEndian 4 _)
  refine ⟨{
    header := { packet.header with sBuffer := [] }
    sBuffer := Attributes.ofContent
      (Tup.encode packet.attributes.data.toValue 0)
    attributes := {
      data := Attributes.ofValue packet.attributes.data.toValue
      iVer := packet.header.iVersion
      os := target.attributes.os } }, ?_, rfl, ofValue_toValue _⟩
  unfold decode
  rw [if_neg length, rest, header]
  dsimp only
  rw [sBuffer, data]
  rfl

end UniPacket

/-- A value is put as a value of its type. -/
def Put.Typed : Put → Prop
  | value type t => type.IsValue t
  | unknown _ => True

namespace UniAttribute

/-- What was last put under a name is what a call gets back. -/
structure Answers (calls : List PutCall) (u : UniAttribute writer) : Prop where
  value : ∀ {name type t}, lastPut name calls = some (.value type t) →
    u.get type name = .ok t
  unknown : ∀ {name s}, lastPut name calls = some (.unknown s) →
    u.getUnknown name = .ok s

/-- The bytes of what was last put under a name are stored there. -/
def Stored (calls : List PutCall) (u : UniAttribute writer) : Prop :=
  ∀ name put, lastPut name calls = some put → ∃ v,
    u.data.find? name = some v ∧ put.bytes = .ok v.content ∧
      v.size = v.content.length ∧ v.content.length < 2 ^ 32

variable {u : UniAttribute writer} {name : List UInt8} {v : Container}

theorem get_of_find {type : WireType} {t : Value}
    (found : u.data.find? name = some v) (is_ : type.IsValue t)
    (bytes : Put.bytes (.value type t) = .ok v.content)
    (small : v.content.length < 2 ^ 32) : u.get type name = .ok t := by
  have written := (@of_bounded (write t 0) _ bytes).1
  have typed := hasType_of_written is_ written small
  have encoded : v.content = encode t 0 :=
    Except.ok.inj (written.symm.trans (write_eq_encode typed 0))
  have reads : readFromBuffer (read type type.default 0 true) v.content =
      .ok t := by
    rw [encoded] at small ⊢
    exact UniPacket.readFromBuffer_of_reads
      (reads_read typed type.fresh_default 0 true) small
  unfold get
  rw [found]
  dsimp only
  rw [reads]

/-- `size() > 2` leaves the empty string out. -/
theorem getUnknown_of_find {s : List UInt8}
    (found : u.data.find? name = some v)
    (bytes : Put.bytes (.unknown s) = .ok v.content)
    (size : v.size = v.content.length) :
    u.getUnknown name =
      if s = [] then .error (notFound name) else .ok s := by
  have content : v.content = 10 :: (s ++ [11]) :=
    (Except.ok.inj (@of_bounded (.ok _) _ bytes).1).symm
  have length : v.size = s.length + 2 := by
    rw [size, content]
    simp
  unfold getUnknown
  rw [found]
  dsimp only
  rw [content]
  cases s with
  | nil => rw [if_neg (by rw [length]; simp), if_pos rfl]
  | cons byte bytes =>
      rw [if_pos (by rw [length]; simp), if_neg (by simp), length]
      congr 1
      exact List.take_left' (by simp)

theorem Answers.not_empty {calls : List PutCall} (answers : u.Answers calls)
    (stored : u.Stored calls) :
    lastPut name calls ≠ some (.unknown []) := by
  intro last
  obtain ⟨v, found, bytes, size, _⟩ := stored _ _ last
  have given := getUnknown_of_find found bytes size
  rw [answers.unknown last, if_pos rfl] at given
  cases given

theorem Stored.answers {calls : List PutCall} (stored : u.Stored calls)
    (typed : ∀ call ∈ calls, call.put.Typed)
    (nonempty : ∀ name, lastPut name calls ≠ some (.unknown [])) :
    u.Answers calls where
  value := by
    intro name type t last
    obtain ⟨v, found, bytes, _, small⟩ := stored _ _ last
    obtain ⟨call, member, same⟩ := mem_of_lastPut last
    have is_ := typed call member
    rw [same] at is_
    exact get_of_find found is_ bytes small
  unknown := by
    intro name s last
    obtain ⟨v, found, bytes, size, _⟩ := stored _ _ last
    have given := getUnknown_of_find found bytes size
    rw [if_neg] at given
    · exact given
    · rintro rfl
      exact nonempty name last

end UniAttribute

/-- A copy answers what the original answers. -/
theorem UniAttribute.Stored.copy {calls : List PutCall}
    {u : UniAttribute writer} (stored : u.Stored calls) {writer' : TWriter}
    {copy : UniAttribute writer'}
    (same : copy.data = u.data.copy) :
    copy.Stored calls := by
  intro name put last
  obtain ⟨v, found, bytes, size, small⟩ := stored _ _ last
  have content : (Attributes.ofContent v.content).content = v.content :=
    List.take_of_length_le (Nat.le_refl _)
  refine ⟨Attributes.ofContent v.content, ?_, ?_, ?_, ?_⟩
  · rw [same, Attributes.find_copy, found]
    rfl
  · rw [content]
    exact bytes
  · rw [content]
    rfl
  · rw [content]
    exact small

namespace UniPacket

/-- One call of `encode`. -/
structure EncodeCall where
  first : Emission
  second : Emission
  overload : Encode

/-- Every call gives the same bytes and keeps header and attributes. -/
def EncodesTo (wire : List UInt8) : List EncodeCall → UniPacket writer → Prop
  | [], _ => True
  | call :: calls, packet => ∃ packet',
      packet.encode call.first call.second call.overload =
        .ok (.ok wire, packet') ∧
      packet'.header = packet.header ∧
      packet'.attributes.data = packet.attributes.data ∧
      EncodesTo wire calls packet'

/-- The bytes, what they decode to, and what the attributes answer before and
after. -/
def RoundTrips (calls : List PutCall) (packet : UniPacket writer) : Prop :=
  ∃ wire : List UInt8, wire.length = ofBigEndian (wire.take 4) ∧
    (∀ encodes : List EncodeCall,
      (∀ call ∈ encodes, call.overload.Roomy wire.length) →
        EncodesTo wire encodes packet) ∧
    packet.attributes.Answers calls ∧
    ∀ {writer' : TWriter} (target : UniPacket writer'), ∃ decoded,
      decode wire target = .ok decoded ∧
      decoded.header = { packet.header with sBuffer := [] } ∧
      decoded.attributes.Answers calls

theorem length_frame (bytes : List UInt8) :
    (frame bytes).length = 4 + bytes.length := by
  rw [frame, List.length_append, length_bigEndian]

theorem encodesTo_frame {packet : UniPacket writer} (works : packet.Works)
    (servant : packet.header.sServantName ≠ [])
    (function : packet.header.sFuncName ≠ []) {bytes : List UInt8}
    (returned : packet.body = .ok bytes) (encodes : List EncodeCall)
    (roomy : ∀ call ∈ encodes,
      call.overload.Roomy (frame bytes).length) :
    EncodesTo (frame bytes) encodes packet := by
  induction encodes generalizing packet with
  | nil => trivial
  | cons call encodes induction =>
      rw [List.forall_mem_cons] at roomy
      obtain ⟨result, packet', ran, keeps, given⟩ :=
        encode_spec works servant function call.first call.second call.overload
      have result_ : result = .ok (frame bytes) := by
        rw [given, returned]
        · rfl
        · intro bytes' returned'
          rw [← length_frame, Except.ok.inj (returned'.symm.trans returned)]
          exact roomy.1
      rw [result_] at ran
      refine ⟨packet', ran, keeps.header, keeps.data, ?_⟩
      refine induction keeps.works ?_ ?_ ?_ roomy.2
      · rw [keeps.header]
        exact servant
      · rw [keeps.header]
        exact function
      · unfold body written at returned ⊢
        rw [keeps.header, keeps.data]
        exact returned

theorem length_content_le {data : Attributes} {name : List UInt8}
    {v : Container} (member : (name, v) ∈ data.entries)
    (names : ∀ entry ∈ data.entries, entry.1.length ≤ maxStringLength) :
    v.content.length ≤ (Tup.encode data.toValue 0).length := by
  obtain ⟨content, inner, short⟩ :=
    writeEntries_of_write (write_toValue_eq names)
  obtain ⟨_, value, _, writtenValue, part⟩ :=
    writeEntries_part inner (List.mem_map_of_mem member)
  have own : v.content.length ≤ value.length :=
    length_le_of_writeCharVector writtenValue
  omega

theorem Fits.stored {packet : UniPacket writer} (fits : packet.Fits)
    (typed : packet.Typed) (works : packet.attributes.Works)
    {calls : List PutCall}
    (found : ∀ {name put}, lastPut name calls = some put → ∃ v,
      packet.attributes.data.find? name = some v ∧
        put.bytes = .ok v.content) :
    packet.attributes.Stored calls := by
  intro name put last
  obtain ⟨v, here, bytes⟩ := found last
  have member := OrderedMap.mem_entries.mpr here
  have size := (works.data _ member).content_length
  have part := length_content_le member fits.names
  have inner := length_toValue_le (fits.toShort.writes typed)
  have whole := fits.size
  exact ⟨v, here, bytes, size.symm, by omega⟩

theorem ofBigEndian_frame (bytes : List UInt8) :
    ofBigEndian ((frame bytes).take 4) = (4 + bytes.length) % 2 ^ 32 := by
  rw [frame, List.take_left' (length_bigEndian 4 _),
    ofBigEndian_bigEndian_mod]
  exact Nat.mod_mod _ _

/-- An encoder that writes everything with one call. -/
def atOnce : Emission where
  fresh := ⟨fun _ => 0, 0⟩
  chunks := fun bytes => [(⟨fun _ => 0, 0⟩, bytes)]
  whole := List.append_nil
  started := []
  started_lt := Nat.two_pow_pos 62

section RoundTrip

variable {packet : UniPacket writer} {calls : List PutCall}
variable (works : packet.Works) (typed : packet.Typed)
  (servant : packet.header.sServantName ≠ [])
  (function : packet.header.sFuncName ≠ [])
include works typed servant function

theorem RoundTrips.fits (trips : packet.RoundTrips calls) : packet.Fits := by
  obtain ⟨wire, length, encodes, _, _⟩ := trips
  let emission := atOnce
  let overload : Encode := .vector { block := [] } (Nat.le_refl 0)
  obtain ⟨_, given, _⟩ := encodes [⟨emission, emission, overload⟩]
    (by rw [List.forall_mem_singleton]; trivial)
  obtain ⟨result, packet', ran, _, success⟩ :=
    encode_spec works servant function emission emission overload
  have same := ran.symm.trans given
  rw [success fun _ _ => trivial] at same
  cases returned : packet.body with
  | error exception =>
      rw [returned] at same
      cases same
  | ok bytes =>
      rw [returned] at same
      cases same
      obtain ⟨short, encoded⟩ := of_body typed returned
      refine ⟨short, ?_⟩
      rw [length_frame, ofBigEndian_frame] at length
      rw [← encoded]
      omega

theorem Fits.roundTrips (fits : packet.Fits)
    (answers : packet.attributes.Answers calls)
    (copies : ∀ {writer' : TWriter} {copy : UniAttribute writer'},
      copy.data = packet.attributes.data.copy →
      copy.Answers calls) : packet.RoundTrips calls := by
  have size := fits.size
  refine ⟨frame (encodeFields packet.wireFields), ?_, ?_, answers, ?_⟩
  · rw [length_frame, ofBigEndian_frame]
    omega
  · intro encodes roomy
    exact encodesTo_frame works servant function (fits.body typed) encodes
      roomy
  · intro writer' target
    obtain ⟨decoded, done, header, data⟩ :=
      decode_frame typed fits target
    exact ⟨decoded, done, header, copies data⟩

end RoundTrip

end UniPacket

open UniPacket in
/-- A packet comes back if and only if it fits and no name was last put with an
empty string. -/
theorem tup_roundTrip_iff (calls : List PutCall) (header : RequestPacket)
    (sBuffer : Container) (typed : ∀ call ∈ calls, call.put.Typed)
    (context : stringMap.IsValue (.map header.context))
    (status : stringMap.IsValue (.map header.status))
    (servant : header.sServantName ≠ []) (function : header.sFuncName ≠ [])
    (sized : sBuffer.Sized 0) :
    ∃ attributes : UniAttribute writer,
      putAll calls (init writer).attributes = .ok attributes ∧
      (RoundTrips calls ⟨header, sBuffer, attributes⟩ ↔
        Fits ⟨header, sBuffer, attributes⟩ ∧
          ∀ name, lastPut name calls ≠ some (.unknown [])) := by
  obtain ⟨attributes, built, works, found⟩ :=
    putAll_spec calls (@works_init writer)
  refine ⟨attributes, built, ?_⟩
  have headerTyped : Typed ⟨header, sBuffer, attributes⟩ := ⟨context, status⟩
  have packetWorks : Works ⟨header, sBuffer, attributes⟩ := ⟨works, sized⟩
  have stored : Fits ⟨header, sBuffer, attributes⟩ →
      attributes.Stored calls := by
    intro fits
    refine fits.stored headerTyped works ?_
    intro name put last
    have here := found name
    rw [last] at here
    exact here
  constructor
  · intro trips
    have fits := trips.fits packetWorks headerTyped servant function
    obtain ⟨_, _, _, answers, _⟩ := trips
    exact ⟨fits, fun name => answers.not_empty (stored fits)⟩
  · rintro ⟨fits, nonempty⟩
    refine fits.roundTrips packetWorks headerTyped servant function
      ((stored fits).answers typed nonempty) ?_
    intro writer' copy same
    exact ((stored fits).copy same).answers typed nonempty

open UniPacket in
/-- A name is put twice, and one is put with bytes as they are. -/
def someCalls : List PutCall :=
  [⟨atOnce, [107], .value .int32 (.int32 7)⟩,
    ⟨atOnce, [117], .unknown [1, 2]⟩,
    ⟨atOnce, [107], .value .short (.short 8)⟩]

open UniPacket in
set_option maxRecDepth 4000 in
theorem tup_roundTrip_iff_overwritten :
    ∃ attributes : UniAttribute .bufferWriterVector,
      putAll someCalls (init .bufferWriterVector).attributes =
        .ok attributes ∧
      RoundTrips someCalls
        ⟨{ sServantName := [97], sFuncName := [98] }, { block := [] },
          attributes⟩ := by
  have noStrings : stringMap.IsValue (.map []) :=
    .map .nil (by simp) (by simp)
  obtain ⟨attributes, built, trips⟩ :=
    @tup_roundTrip_iff .bufferWriterVector someCalls
      { sServantName := [97], sFuncName := [98] } { block := [] }
      (by simp [someCalls, Put.Typed, WireType.IsValue.int32,
        WireType.IsValue.short]) noStrings noStrings
      (by simp) (by simp) (Nat.le_refl 0)
  have names : attributes.data.entries.map Prod.fst = [[107], [117]] := by
    cases built
    rfl
  have value : attributes.data.toValue =
      .map [(.string [107], .charVector [0, 8]),
        (.string [117], .charVector [10, 1, 2, 11])] := by
    cases built
    rfl
  refine ⟨attributes, built, trips.mpr ⟨⟨⟨?_, ?_, ?_, ?_, ?_⟩, ?_⟩, ?_⟩⟩
  · exact Nat.le_of_ble_eq_true rfl
  · exact Nat.le_of_ble_eq_true rfl
  · simp
  · simp
  · intro entry member
    have name := List.mem_map_of_mem (f := Prod.fst) member
    rw [names] at name
    rcases List.mem_pair.mp name with name | name <;> rw [name] <;>
      exact Nat.le_of_ble_eq_true rfl
  · unfold wireFields
    dsimp only
    rw [value]
    exact Nat.lt_of_sub_eq_succ rfl
  · intro name last
    obtain ⟨call, member, same⟩ := mem_of_lastPut last
    simp only [someCalls, List.mem_cons, List.not_mem_nil, or_false] at member
    rcases member with rfl | rfl | rfl <;> cases same

end TarsCpp.Tup
