import TarsCpp.Servant.Response
import TarsCpp.Tup.Omitted
import TarsCpp.Tup.Writing

/-!
# Packets of a response as bytes

When the packets of a response can be written, how many bytes they take, and
that the client reads them back.
-/

namespace TarsCpp.Servant

open Authentication ByteOrder Tup

def numberSize (n : ℤ) : ℕ := 1 + intWidth n

/-- A number of elements is written as an `Int32`. -/
def countSize (count : ℕ) : ℕ := numberSize (BitVec.ofNat 32 count).toInt

def textSize (text : List UInt8) : ℕ :=
  (if text.length > 255 then 5 else 2) + text.length

def bufferSize (buffer : List UInt8) : ℕ :=
  2 + countSize buffer.length + buffer.length

def Texts.size (texts : Texts) : ℕ :=
  1 + countSize texts.entries.length +
    (texts.entries.map fun entry => textSize entry.1 + textSize entry.2).sum

/-- An empty map is not written. -/
def Texts.optionalSize (texts : Texts) : ℕ :=
  if texts.entries ≠ [] then texts.size else 0

/-- With the four bytes in front. -/
def ResponsePacket.size (packet : ResponsePacket) : ℕ :=
  4 + numberSize packet.iVersion.toInt + numberSize packet.cPacketType.toInt +
    numberSize packet.iRequestId.toInt + numberSize packet.iMessageType.toInt +
    numberSize packet.iRet.toInt + bufferSize packet.sBuffer +
    packet.status.size +
    (if packet.sResultDesc ≠ [] then textSize packet.sResultDesc else 0) +
    packet.context.optionalSize

theorem length_encode_string (text : List UInt8) {tag : UInt8}
    (small : tag < 15) :
    (encode (.string text) tag).length = textSize text := by
  rw [length_encode small, Value.payload, textSize, List.length_append,
    length_bigEndian]
  split <;> omega

theorem length_encode_charVector (buffer : List UInt8) {tag : UInt8}
    (small : tag < 15) :
    (encode (.charVector buffer) tag).length = bufferSize buffer := by
  have zero : (0 : UInt8) < 15 := by decide
  rw [length_encode small, Value.payload, bufferSize, countSize, numberSize]
  simp only [List.length_append, length_writeToHead zero, length_writeCount]
  omega

theorem length_encode_texts (texts : Texts) {tag : UInt8}
    (small : tag < 15) :
    (encode (.map texts.values) tag).length = texts.size := by
  have entrySize : ∀ entry : List UInt8 × List UInt8,
      2 + (Texts.entryValue entry).1.payload.length +
        (Texts.entryValue entry).2.payload.length =
      textSize entry.1 + textSize entry.2 := by
    intro entry
    have zero : (0 : UInt8) < 15 := by decide
    have key := length_encode_string entry.1 zero
    have value := length_encode_string entry.2 zero
    rw [length_encode zero] at key value
    rw [← key, ← value]
    change 2 + (Value.string entry.1).payload.length +
      (Value.string entry.2).payload.length = _
    omega
  rw [length_encode small, Value.payload, List.length_append,
    length_writeCount, length_encodeEntries, Texts.values, List.map_map,
    List.length_map, Texts.size, countSize, numberSize]
  have same : ((fun entry : Value × Value => 2 + entry.1.payload.length +
      entry.2.payload.length) ∘ Texts.entryValue) =
      fun entry => textSize entry.1 + textSize entry.2 :=
    funext entrySize
  rw [same]
  omega

theorem ResponsePacket.length_written (packet : ResponsePacket) :
    (encodeFields packet.written).length + 4 = packet.size := by
  have described : (encodeFields (if packet.sResultDesc ≠ [] then
      [(8, Value.string packet.sResultDesc)] else [])).length =
      if packet.sResultDesc ≠ [] then textSize packet.sResultDesc else 0 := by
    split
    · rw [encodeFields, encodeFields, List.append_nil]
      exact length_encode_string _ (by decide)
    · rfl
  have context : (encodeFields (if packet.context.entries ≠ [] then
      [(9, Value.map packet.context.values)] else [])).length =
      packet.context.optionalSize := by
    rw [Texts.optionalSize]
    split
    · rw [encodeFields, encodeFields, List.append_nil]
      exact length_encode_texts _ (by decide)
    · rfl
  rw [encodeFields_eq] at described context
  rw [ResponsePacket.written, ResponsePacket.size, encodeFields_eq,
    List.flatMap_append, List.flatMap_append, List.length_append,
    List.length_append, described, context, ResponsePacket.required]
  simp only [List.flatMap_cons, List.flatMap_nil, List.append_nil,
    List.length_append]
  rw [length_encode_texts _ (by decide), length_encode_charVector _ (by decide),
    length_encode (by decide), length_encode (by decide),
    length_encode (by decide), length_encode (by decide),
    length_encode (by decide)]
  simp only [Value.payload, length_intPayload, numberSize]
  omega

def Texts.Short (texts : Texts) : Prop :=
  ∀ entry ∈ texts.entries, entry.1.length ≤ maxStringLength ∧
    entry.2.length ≤ maxStringLength

namespace Texts

theorem ofValues_values (texts : Texts) : ofValues texts.values = texts := by
  have same : texts.values.filterMap ofValue = texts.entries := by
    rw [values, List.filterMap_map]
    exact List.filterMap_some
  rw [ofValues, same]
  exact OrderedMap.ofList_entries texts

theorem parts_decided (texts : Texts) :
    ∀ entry ∈ texts.values, entry.1.Decided ∧ entry.2.Decided := by
  intro entry among
  obtain ⟨pair, _, rfl⟩ := List.mem_map.mp among
  exact ⟨string_decided _, string_decided _⟩

theorem decided (texts : Texts) : (Value.map texts.values).Decided :=
  map_decided texts.parts_decided

theorem succeeds_iff (texts : Texts) :
    (Value.map texts.values).Succeeds ↔ texts.Short := by
  rw [map_succeeds_iff texts.parts_decided, values, List.forall_mem_map]
  simp only [entryValue, string_succeeds_iff]
  rfl

theorem four_mul_length_le (texts : Texts) :
    4 * texts.entries.length ≤ texts.size := by
  have each : 4 * texts.entries.length ≤
      (texts.entries.map fun entry =>
        textSize entry.1 + textSize entry.2).sum := by
    induction texts.entries with
    | nil => exact Nat.zero_le _
    | cons entry entries ih =>
        rw [List.map_cons, List.sum_cons, List.length_cons, textSize, textSize]
        split <;> split <;> omega
  rw [size]
  omega

theorem hasType {texts : Texts} (short : texts.Short)
    (small : texts.size < 2 ^ 32) :
    stringMap.HasType (.map texts.values) := by
  have count := texts.four_mul_length_le
  refine .map ?_ ?_ ?_ ?_
  · rw [values, List.length_map]
    omega
  · rw [values, List.pairwise_map]
    refine texts.sorted.imp ?_
    intro first second less
    exact decide_eq_true less
  · rw [values, List.forall_mem_map]
    intro entry among
    exact .string (short entry among).1
  · rw [values, List.forall_mem_map]
    intro entry among
    exact .string (short entry among).2

theorem short_of_entries_eq_nil {texts : Texts} (none : texts.entries = []) :
    texts.Short := by
  intro entry among
  rw [none] at among
  cases among

end Texts

namespace ResponsePacket

structure Short (packet : ResponsePacket) : Prop where
  status : packet.status.Short
  sResultDesc : packet.sResultDesc.length ≤ maxStringLength
  context : packet.context.Short

theorem forall_written {packet : ResponsePacket}
    {holds : UInt8 × Value → Prop} :
    (∀ field ∈ packet.written, holds field) ↔
      (∀ field ∈ packet.required, holds field) ∧
      (packet.sResultDesc ≠ [] → holds (8, .string packet.sResultDesc)) ∧
      (packet.context.entries ≠ [] →
        holds (9, .map packet.context.values)) := by
  rw [written, List.forall_mem_append, List.forall_mem_append, and_assoc]
  refine and_congr_right fun _ => and_congr ?_ ?_
  · split
    · next described => simp [described]
    · next described => simp [described]
  · split
    · next some => simp [some]
    · next some => simp [some]

theorem required_decided (packet : ResponsePacket) :
    ∀ field ∈ packet.required, field.2.Decided := by
  simp only [required, List.forall_mem_cons]
  refine ⟨.inl (WireType.HasType.short _).succeeds,
    .inl (WireType.HasType.char _).succeeds,
    .inl (WireType.HasType.int32 _).succeeds,
    .inl (WireType.HasType.int32 _).succeeds,
    .inl (WireType.HasType.int32 _).succeeds,
    .inl (charVector_succeeds _), packet.status.decided, ?_⟩
  intro field among
  cases among

theorem required_succeeds_iff (packet : ResponsePacket) :
    (∀ field ∈ packet.required, field.2.Succeeds) ↔ packet.status.Short := by
  simp only [required, List.forall_mem_cons]
  constructor
  · intro succeeds
    exact packet.status.succeeds_iff.mp succeeds.2.2.2.2.2.2.1
  · intro short
    refine ⟨(WireType.HasType.short _).succeeds,
      (WireType.HasType.char _).succeeds, (WireType.HasType.int32 _).succeeds,
      (WireType.HasType.int32 _).succeeds, (WireType.HasType.int32 _).succeeds,
      charVector_succeeds _, packet.status.succeeds_iff.mpr short, ?_⟩
    intro field among
    cases among

theorem decided (packet : ResponsePacket) :
    ∀ field ∈ packet.written, field.2.Decided := by
  rw [forall_written]
  refine ⟨packet.required_decided, ?_, ?_⟩
  · intro described
    exact string_decided _
  · intro some
    exact packet.context.decided

theorem succeeds_iff (packet : ResponsePacket) :
    (∀ field ∈ packet.written, field.2.Succeeds) ↔ packet.Short := by
  rw [forall_written, required_succeeds_iff, string_succeeds_iff,
    packet.context.succeeds_iff]
  constructor
  · rintro ⟨status, described, context⟩
    refine ⟨status, ?_, ?_⟩
    · by_cases none : packet.sResultDesc = []
      · rw [none]
        exact Nat.zero_le _
      · exact described none
    · by_cases none : packet.context.entries = []
      · exact Texts.short_of_entries_eq_nil none
      · exact context none
  · intro short
    exact ⟨short.status, fun _ => short.sResultDesc, fun _ => short.context⟩

theorem size_parts (packet : ResponsePacket) :
    packet.sBuffer.length ≤ packet.size ∧ packet.status.size ≤ packet.size ∧
      (packet.context.entries ≠ [] → packet.context.size ≤ packet.size) := by
  rw [size, bufferSize, Texts.optionalSize]
  refine ⟨by omega, by omega, ?_⟩
  intro some
  rw [if_pos some]
  omega

/-- The fields in the order of `readFrom`, less those that are not written. -/
theorem types_written {packet : ResponsePacket} (short : packet.Short)
    (small : packet.size < 2 ^ 32) :
    types.Written (packet.required ++ [(8, .string packet.sResultDesc),
      (9, .map packet.context.values)]) packet.written := by
  obtain ⟨buffer, status, context⟩ := packet.size_parts
  have last : (FieldTypes.cons 9 false (.map []) stringMap .nil).Written
      [(9, .map packet.context.values)]
      (if packet.context.entries ≠ [] then
        [(9, .map packet.context.values)] else []) := by
    split
    · next some =>
        exact .cons (Texts.hasType short.context
          (Nat.lt_of_le_of_lt (context some) small)) .nil
    · next none =>
        have empty : packet.context.values = [] := by
          rw [Texts.values, Decidable.of_not_not none]
          rfl
        rw [empty]
        exact .omitted .nil (by simp)
  have described : (FieldTypes.cons 8 false (.string []) .string
      (.cons 9 false (.map []) stringMap .nil)).Written
      [(8, .string packet.sResultDesc), (9, .map packet.context.values)]
      ((if packet.sResultDesc ≠ [] then [(8, .string packet.sResultDesc)]
        else []) ++ (if packet.context.entries ≠ [] then
        [(9, .map packet.context.values)] else [])) := by
    by_cases none : packet.sResultDesc = []
    · rw [if_neg (not_not_intro none), none]
      refine .omitted last ?_
      intro field among
      split at among
      · rw [List.mem_singleton.mp among]
        exact UInt8.lt_iff_toNat_lt.mpr (Nat.lt_succ_self 8)
      · cases among
    · rw [if_pos none]
      exact .cons (.string short.sResultDesc) last
  rw [written, List.append_assoc]
  exact .cons (.short _) <| .cons (.char _) <| .cons (.int32 _) <|
    .cons (.int32 _) <| .cons (.int32 _) <|
    .cons (.charVector (Nat.lt_of_le_of_lt buffer small)) <|
    .cons (Texts.hasType short.status (Nat.lt_of_le_of_lt status small))
      described

theorem decode_written {packet : ResponsePacket} (short : packet.Short)
    (small : packet.size < 2 ^ 32) :
    decode (encodeFields packet.written) = some packet := by
  have length := packet.length_written
  have fits : (encodeFields packet.written).length < sizeLimit := by
    rw [sizeLimit]
    omega
  have facing : (BufferReader.setBuffer _ fits).Facing
      (encodeFields packet.written) := ⟨Nat.zero_le _, rfl⟩
  rw [decode, dif_pos fits,
    readFrom_written (types_written short small) facing]
  simp only [required, List.cons_append, List.nil_append, ofFields,
    Texts.ofValues_values]

end ResponsePacket

section RequestPackets

variable {packet : RequestPacket} {context status : Texts}

def requestSize (packet : RequestPacket) (context status : Texts) : ℕ :=
  4 + numberSize packet.iVersion.toInt + numberSize packet.cPacketType.toInt +
    numberSize packet.iMessageType.toInt + numberSize packet.iRequestId.toInt +
    textSize packet.sServantName + textSize packet.sFuncName +
    bufferSize packet.sBuffer + numberSize packet.iTimeout.toInt +
    context.size + status.size

structure ShortRequest (packet : RequestPacket) (context status : Texts) :
    Prop where
  sServantName : packet.sServantName.length ≤ maxStringLength
  sFuncName : packet.sFuncName.length ≤ maxStringLength
  context : context.Short
  status : status.Short

theorem length_fields (contexts : packet.context = context.values)
    (statuses : packet.status = status.values) :
    (encodeFields packet.fields).length + 4 =
      requestSize packet context status := by
  rw [RequestPacket.fields, requestSize, encodeFields_eq, contexts, statuses]
  simp only [List.flatMap_cons, List.flatMap_nil, List.append_nil,
    List.length_append]
  rw [length_encode_texts _ (by decide), length_encode_texts _ (by decide),
    length_encode_charVector _ (by decide),
    length_encode_string _ (by decide), length_encode_string _ (by decide),
    length_encode (by decide), length_encode (by decide),
    length_encode (by decide), length_encode (by decide),
    length_encode (by decide)]
  simp only [Value.payload, length_intPayload, numberSize]
  omega

theorem fields_decided (contexts : packet.context = context.values)
    (statuses : packet.status = status.values) :
    ∀ field ∈ packet.fields, field.2.Decided := by
  rw [RequestPacket.fields, contexts, statuses]
  simp only [List.forall_mem_cons]
  refine ⟨.inl (WireType.HasType.short _).succeeds,
    .inl (WireType.HasType.char _).succeeds,
    .inl (WireType.HasType.int32 _).succeeds,
    .inl (WireType.HasType.int32 _).succeeds, string_decided _,
    string_decided _, .inl (charVector_succeeds _),
    .inl (WireType.HasType.int32 _).succeeds, context.decided,
    status.decided, ?_⟩
  intro field among
  cases among

theorem fields_succeed_iff (contexts : packet.context = context.values)
    (statuses : packet.status = status.values) :
    (∀ field ∈ packet.fields, field.2.Succeeds) ↔
      ShortRequest packet context status := by
  rw [RequestPacket.fields, contexts, statuses]
  simp only [List.forall_mem_cons, string_succeeds_iff, Texts.succeeds_iff]
  constructor
  · rintro ⟨_, _, _, _, servant, function, _, _, contextShort, statusShort, _⟩
    exact ⟨servant, function, contextShort, statusShort⟩
  · intro short
    refine ⟨(WireType.HasType.short _).succeeds,
      (WireType.HasType.char _).succeeds, (WireType.HasType.int32 _).succeeds,
      (WireType.HasType.int32 _).succeeds, short.sServantName,
      short.sFuncName, charVector_succeeds _,
      (WireType.HasType.int32 _).succeeds, short.context, short.status, ?_⟩
    intro field among
    cases among

theorem decode_fields (contexts : packet.context = context.values)
    (statuses : packet.status = status.values)
    (short : ShortRequest packet context status)
    (small : requestSize packet context status < 2 ^ 32) :
    RequestPacket.decode (encodeFields packet.fields) = some packet := by
  have length := length_fields contexts statuses
  have fits : (encodeFields packet.fields).length < sizeLimit := by
    rw [sizeLimit]
    omega
  have parts : packet.sBuffer.length < 2 ^ 32 ∧ context.size < 2 ^ 32 ∧
      status.size < 2 ^ 32 := by
    rw [requestSize, bufferSize] at small
    omega
  have typed : RequestPacket.types.HasFields packet.fields := by
    rw [RequestPacket.fields, contexts, statuses]
    exact .cons (.short _) <| .cons (.char _) <| .cons (.int32 _) <|
      .cons (.int32 _) <| .cons (.string short.sServantName) <|
      .cons (.string short.sFuncName) <| .cons (.charVector parts.1) <|
      .cons (.int32 _) <| .cons (Texts.hasType short.context parts.2.1) <|
      .cons (Texts.hasType short.status parts.2.2) .nil
  have facing : (BufferReader.setBuffer _ fits).Facing
      (encodeFields packet.fields ++ []) :=
    ⟨Nat.zero_le _, (List.append_nil _).symm⟩
  rw [RequestPacket.decode, dif_pos fits, reads_readFrom typed _ [] facing]
  rfl

end RequestPackets

theorem writeFrame_eq_ok_iff {fields : List (UInt8 × Value)}
    (decided : ∀ field ∈ fields, field.2.Decided) {frame : List UInt8} :
    writeFrame fields = .ok frame ↔
      (∀ field ∈ fields, field.2.Succeeds) ∧
        bigEndian 4 ((encodeFields fields).length + 4) ++ encodeFields fields =
          frame := by
  rw [writeFrame]
  cases success : writeTo fields with
  | error exception =>
      constructor
      · intro written
        cases written
      · rintro ⟨each, _⟩
        rw [(writeTo_eq_ok_iff decided).mpr ⟨each, rfl⟩] at success
        cases success
  | ok body =>
      obtain ⟨each, rfl⟩ := (writeTo_eq_ok_iff decided).mp success
      constructor
      · intro written
        exact ⟨each, Except.ok.inj written⟩
      · rintro ⟨_, same⟩
        exact congrArg Except.ok same

/-- The length in front counts modulo 2 ^ 32. -/
theorem prefix_eq_length_iff (body : List UInt8) :
    ofBigEndian ((bigEndian 4 (body.length + 4) ++ body).take 4) =
        (bigEndian 4 (body.length + 4) ++ body).length ↔
      body.length + 4 < 2 ^ 32 := by
  have front : (bigEndian 4 (body.length + 4) ++ body).take 4 =
      bigEndian 4 (body.length + 4) :=
    List.take_left' (length_bigEndian 4 _)
  rw [front, ofBigEndian_bigEndian_mod, List.length_append, length_bigEndian]
  omega

end TarsCpp.Servant
