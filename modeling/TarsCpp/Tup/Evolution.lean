import TarsCpp.Tup.RoundTrip

/-!
# Skipping and schema evolution

Skipping walks over an encoding without knowing its type, so it has to agree
with the encoder on the length of every payload.  With that, a reader that
knows only some of the fields of a struct, or more of them, gets every field
that both sides know and finds the end of the struct.
-/

namespace TarsCpp.Tup

open ByteOrder PrefixDecoding

theorem reads_readTypeBuf_length {width : Nat} {bytes : List UInt8}
    (length : bytes.length = width) : Reads (readTypeBuf width) bytes bytes := by
  subst length
  exact reads_readTypeBuf bytes

theorem reads_readHeadSkip_length {width : Nat} {bytes : List UInt8}
    (length : bytes.length = width) : Reads (readHeadSkip width) bytes () := by
  subst length
  exact reads_readHeadSkip bytes

private theorem reads_skipInteger {fuel : Nat} (enough : 0 < fuel) (n : Int) :
    Reads (skipFieldWith fuel (intHead n)) (intPayload n) () := by
  obtain ⟨fuel, rfl⟩ := Nat.exists_eq_add_of_le' enough
  have length := length_intPayload n
  rcases intForm n with ⟨rfl, head, payload⟩ | ⟨width, head, _⟩ |
    ⟨width, head, _⟩ | ⟨width, head, _⟩ | ⟨width, head, _⟩
  · rw [head, payload, skipFieldWith]
    exact Reads.pure ()
  all_goals
    rw [head, skipFieldWith]
    exact reads_readHeadSkip_length (length.trans width)

private theorem reads_skipString {fuel : Nat} (enough : 0 < fuel)
    {s : List UInt8} (short : s.length ≤ maxStringLength) :
    Reads (skipFieldWith fuel (Value.string s).head) (Value.string s).payload
      () := by
  have limit : maxStringLength < 256 ^ 4 := by decide
  obtain ⟨fuel, rfl⟩ := Nat.exists_eq_add_of_le' enough
  rw [Value.head, Value.payload]
  split_ifs with long
  · rw [skipFieldWith]
    refine (reads_readTypeBuf_length (length_bigEndian 4 s.length)).bind ?_
    rw [ofBigEndian_bigEndian (by omega)]
    exact reads_readHeadSkip s
  · rw [skipFieldWith]
    refine (reads_readTypeBuf_length (length_bigEndian 1 s.length)).bind ?_
    rw [ofBigEndian_bigEndian (by omega)]
    exact reads_readHeadSkip s

/-- The count that `skipField` reads at the front of a container. -/
private theorem reads_skipCount {fuel : Nat} (enough : 0 < fuel)
    (count : Nat) :
    Reads (readUInt32Via (skipToTagLoop fuel 0) 0 0 true) (writeCount count)
      (BitVec.ofNat 32 count) :=
  reads_readUInt32Via (fun opens => reads_skipToTagLoop opens 0 enough) count

private theorem reads_skipBytes {fuel : Nat} (enough : 2 ≤ fuel)
    {v : List UInt8} (few : v.length < 2 ^ 32) :
    Reads (skipFieldWith fuel .simpleList) (Value.charVector v).payload
      () := by
  obtain ⟨fuel, rfl⟩ := Nat.exists_eq_add_of_le' enough
  have known : HeadType.char.Known := trivial
  rw [skipFieldWith, Value.payload]
  refine Reads.bind (reads_readFromHead known 0) ?_
  refine Reads.bind (reads_skipCount (Nat.succ_pos _) v.length) ?_
  rw [BitVec.toNat_ofNat, Nat.mod_eq_of_lt few]
  exact reads_readHeadSkip v

/-- Skipping `count` items one after another, each behind its own head. -/
private theorem reads_skipItems {fuel count : Nat}
    {items : List (UInt8 × Value)} (counted : count = items.length)
    (each : ∀ item ∈ items,
      Reads (skipFieldWith fuel item.2.head) item.2.payload ()) :
    Reads (forCount (fun _ => do
        let headType ← readFromHeadNoTag
        skipFieldWith fuel headType) count ())
      (encodeFields items) () := by
  rw [encodeFields_eq, counted]
  apply Reads.forCount (fun _ => ())
  intro done item later split
  have membership : item ∈ items := by
    rw [split]
    exact List.mem_append_right _ List.mem_cons_self
  exact (reads_readFromHeadNoTag item.2.head_opens.known item.1).bind
    (each item membership)

private theorem payload_length_lt_encodeFields {item : UInt8 × Value}
    {items : List (UInt8 × Value)} (membership : item ∈ items) :
    item.2.payload.length < (encodeFields items).length := by
  obtain ⟨before, after, rfl⟩ := List.append_of_mem membership
  have positive := writeToHead_length_pos item.2.head item.1
  rw [encodeFields_eq]
  simp only [List.flatMap_append, List.flatMap_cons, List.length_append,
    encode]
  omega

/-- Vectors and sets are items under tag 0, maps alternate tags 0 and 1; the
skipping code does not look at those tags. -/
def taggedItems (items : List Value) : List (UInt8 × Value) :=
  items.map ((0, ·))

def taggedEntries (entries : List (Value × Value)) : List (UInt8 × Value) :=
  entries.flatMap fun entry => [(0, entry.1), (1, entry.2)]

theorem encodeItems_eq_encodeFields (items : List Value) :
    encodeItems items = encodeFields (taggedItems items) := by
  rw [encodeItems_eq, encodeFields_eq, taggedItems, List.flatMap_map]

theorem encodeEntries_eq_encodeFields (entries : List (Value × Value)) :
    encodeEntries entries = encodeFields (taggedEntries entries) := by
  rw [encodeEntries_eq, encodeFields_eq, taggedEntries,
    List.flatMap_assoc]
  simp

theorem length_taggedEntries (entries : List (Value × Value)) :
    (taggedEntries entries).length = entries.length * 2 := by
  simp [taggedEntries, List.length_flatMap]

theorem length_taggedItems (items : List Value) :
    (taggedItems items).length = items.length := List.length_map _

private theorem toNat_doubled {count : Nat} (few : count < 2 ^ 31) :
    (BitVec.ofNat 32 count * 2).toNat = count * 2 := by
  have two : (2 : BitVec 32).toNat = 2 := rfl
  rw [BitVec.toNat_mul, BitVec.toNat_ofNat, two]
  omega

mutual

/-- `skipField` behind the head of an encoding consumes its payload. -/
theorem reads_skipFieldWith {type : WireType} {value : Value}
    (typed : type.HasType value) {fuel : Nat}
    (enough : 2 * value.payload.length + 3 ≤ fuel) :
    Reads (skipFieldWith fuel value.head) value.payload () := by
  have positive : 0 < fuel := by omega
  cases typed with
  | float word =>
      obtain ⟨fuel, rfl⟩ := Nat.exists_eq_add_of_le' positive
      rw [Value.head, Value.payload, skipFieldWith]
      exact reads_readHeadSkip_length (length_bigEndian _ _)
  | double word =>
      obtain ⟨fuel, rfl⟩ := Nat.exists_eq_add_of_le' positive
      rw [Value.head, Value.payload, skipFieldWith]
      exact reads_readHeadSkip_length (length_bigEndian _ _)
  | string short => exact reads_skipString positive short
  | charVector few =>
      exact reads_skipBytes (by omega) few
  | @vector elem items few each =>
      obtain ⟨fuel, rfl⟩ := Nat.exists_eq_add_of_le' positive
      rw [Value.payload, List.length_append,
        encodeItems_eq_encodeFields] at enough
      rw [Value.head, Value.payload, skipFieldWith,
        encodeItems_eq_encodeFields]
      refine (reads_skipCount (by omega) items.length).bind ?_
      rw [BitVec.toNat_ofNat, Nat.mod_eq_of_lt few]
      refine reads_skipItems (length_taggedItems items).symm ?_
      intro item membership
      obtain ⟨element, origin, rfl⟩ := List.mem_map.mp membership
      have shorter : element.payload.length < _ :=
        payload_length_lt_encodeFields membership
      exact reads_skipFieldWith (each element origin) (by omega)
  | @set less elem items few sorted each =>
      obtain ⟨fuel, rfl⟩ := Nat.exists_eq_add_of_le' positive
      rw [Value.payload, List.length_append,
        encodeItems_eq_encodeFields] at enough
      rw [Value.head, Value.payload, skipFieldWith,
        encodeItems_eq_encodeFields]
      refine (reads_skipCount (by omega) items.length).bind ?_
      rw [BitVec.toNat_ofNat, Nat.mod_eq_of_lt few]
      refine reads_skipItems (length_taggedItems items).symm ?_
      intro item membership
      obtain ⟨element, origin, rfl⟩ := List.mem_map.mp membership
      have shorter : element.payload.length < _ :=
        payload_length_lt_encodeFields membership
      exact reads_skipFieldWith (each element origin) (by omega)
  | @map less key value entries few sorted keys values =>
      obtain ⟨fuel, rfl⟩ := Nat.exists_eq_add_of_le' positive
      rw [Value.payload, List.length_append,
        encodeEntries_eq_encodeFields] at enough
      rw [Value.head, Value.payload, skipFieldWith,
        encodeEntries_eq_encodeFields]
      refine (reads_skipCount (by omega) entries.length).bind ?_
      rw [toNat_doubled few]
      refine reads_skipItems (length_taggedEntries entries).symm ?_
      intro item membership
      obtain ⟨entry, origin, which⟩ := List.mem_flatMap.mp membership
      rcases List.mem_pair.mp which with rfl | rfl
      · have shorter : entry.1.payload.length < _ :=
          payload_length_lt_encodeFields membership
        exact reads_skipFieldWith (keys entry origin) (by omega)
      · have shorter : entry.2.payload.length < _ :=
          payload_length_lt_encodeFields membership
        exact reads_skipFieldWith (values entry origin) (by omega)
  | @struct types fields typedFields =>
      obtain ⟨fuel, rfl⟩ := Nat.exists_eq_add_of_le' positive
      have closing := writeToHead_length_pos .structEnd 0
      rw [Value.payload, List.length_append] at enough
      rw [Value.head, Value.payload, skipFieldWith]
      exact reads_skipFields typedFields (by omega)
  | _ => exact reads_skipInteger positive _

theorem reads_skipFields {types : FieldTypes}
    {fields : List (UInt8 × Value)} (typed : types.HasFields fields)
    {fuel : Nat} (enough : 2 * (encodeFields fields).length + 4 ≤ fuel) :
    Reads (skipToStructEndWith fuel)
      (encodeFields fields ++ writeToHead .structEnd 0) () := by
  cases typed with
  | nil => exact reads_skipToStructEndWith (by omega)
  | @cons tag isRequire declared type rest value fields typedValue
      typedRest =>
      obtain ⟨fuel, rfl⟩ := Nat.exists_eq_add_of_le' (Nat.le_trans
        (Nat.le_add_left 1 _) enough)
      have positive := writeToHead_length_pos value.head tag
      rw [encodeFields] at enough ⊢
      simp only [List.length_append] at enough
      rw [skipToStructEndWith]
      simp only [List.append_assoc]
      refine (reads_readFromHeadNoTag value.head_opens.known tag).bind ?_
      refine (reads_skipFieldWith typedValue (by omega)).bind ?_
      rw [if_neg value.head_opens.ne_structEnd]
      exact reads_skipFields typedRest (by omega)

end

/-- Every field holds a value of some wire type. -/
def WellTyped (fields : List (UInt8 × Value)) : Prop :=
  ∀ field ∈ fields, ∃ type : WireType, type.HasType field.2

/-- The search passes over every field with a smaller tag and then does what
it does in front of what follows them. -/
theorem readsBefore_skipToTagLoop {tag : UInt8}
    {front follow : List UInt8} {result : Option (HeadType × UInt8)}
    (stops : ∀ fuel, 0 < fuel →
      ReadsBefore (skipToTagLoop fuel tag) front follow result)
    {before : List (UInt8 × Value)} (typed : WellTyped before)
    (below : ∀ field ∈ before, field.1 < tag) {fuel : Nat}
    (enough : 2 * (encodeFields before).length + 4 ≤ fuel) :
    ReadsBefore (skipToTagLoop fuel tag) (encodeFields before ++ front)
      follow result := by
  induction before generalizing fuel with
  | nil => exact stops fuel (by omega)
  | cons field before induction =>
      obtain ⟨fuel, rfl⟩ := Nat.exists_eq_add_of_le' (Nat.le_trans
        (Nat.le_add_left 1 _) enough)
      rw [WellTyped, List.forall_mem_cons] at typed
      rw [List.forall_mem_cons] at below
      obtain ⟨⟨type, typedValue⟩, typedRest⟩ := typed
      have positive := writeToHead_length_pos field.2.head field.1
      rw [encodeFields] at enough ⊢
      simp only [List.length_append] at enough
      have later : ReadsBefore (skipToTagLoop fuel tag)
          (encodeFields before ++ front) follow result :=
        induction typedRest below.2 (by omega)
      have skipped : Reads (skipFieldWith fuel field.2.head)
          field.2.payload () :=
        reads_skipFieldWith typedValue (by omega)
      have passed : ReadsBefore (do
            readHeadSkip (writeToHead field.2.head field.1).length
            skipFieldWith fuel field.2.head
            skipToTagLoop fuel tag)
          (writeToHead field.2.head field.1 ++
            (field.2.payload ++ (encodeFields before ++ front)))
          follow result :=
        (reads_readHeadSkip _).bindBefore (skipped.bindBefore later)
      intro state rest facing
      simp only [List.append_assoc] at facing ⊢
      have notAbove : ¬tag < field.1 := UInt8.lt_asymm below.1
      have different : tag ≠ field.1 := (UInt8.ne_of_lt below.1).symm
      rw [skipToTagLoop, EStateM.run_bind, hasEnd_run_head facing]
      simp only [Bool.false_eq_true, if_false]
      rw [EStateM.run_bind, peekFromHead_run field.2.head_opens.known facing]
      simp only [field.2.head_opens.ne_structEnd, notAbove, different,
        or_self, if_false]
      exact passed state rest (by simpa only [List.append_assoc] using facing)

/-- In front of a larger tag, or of the end of the struct, the search finds
nothing and stays. -/
theorem readsBefore_skipToTagLoop_none {headType : HeadType}
    (known : headType.Known) {tag next : UInt8}
    (beyond : headType = .structEnd ∨ tag < next) {fuel : Nat}
    (enough : 0 < fuel) :
    ReadsBefore (skipToTagLoop fuel tag) [] (writeToHead headType next)
      none := by
  intro state rest facing
  obtain ⟨fuel, rfl⟩ := Nat.exists_eq_add_of_le' enough
  rw [skipToTagLoop, EStateM.run_bind, hasEnd_run_head facing]
  simp only [Bool.false_eq_true, if_false]
  rw [EStateM.run_bind, peekFromHead_run known facing]
  simp only [beyond, if_true]
  rfl

theorem readsBefore_tarsSkipToTag {tag : UInt8}
    {front follow : List UInt8} {result : Option (HeadType × UInt8)}
    (stops : ∀ fuel, 0 < fuel →
      ReadsBefore (skipToTagLoop fuel tag) front follow result)
    {before : List (UInt8 × Value)} (typed : WellTyped before)
    (below : ∀ field ∈ before, field.1 < tag) :
    ReadsBefore (tarsSkipToTag tag) (encodeFields before ++ front) follow
      result := by
  intro state rest facing
  have total := BufferReader.Facing.length facing
  simp only [List.length_append] at total
  have enough : 2 * (encodeFields before).length + 4 ≤ budget state := by
    unfold budget
    omega
  unfold tarsSkipToTag
  rw [EStateM.run_bind, EStateM.run_get]
  exact readsBefore_skipToTagLoop stops typed below enough state rest facing

/-- A field behind fields with smaller tags is found and read. -/
theorem reads_present {type : WireType} {value target : Value}
    (typed : type.HasType value) (fresh : type.Fresh target) {tag : UInt8}
    (isRequire : Bool) {before : List (UInt8 × Value)}
    (typedBefore : WellTyped before)
    (below : ∀ field ∈ before, field.1 < tag) :
    Reads (read type target tag isRequire)
      (encodeFields before ++ encode value tag) value := by
  have stops : ∀ fuel, 0 < fuel → ReadsBefore (skipToTagLoop fuel tag)
      (writeToHead value.head tag) [] (some (value.head, tag)) := by
    intro fuel enough
    exact reads_skipToTagLoop value.head_opens tag enough
  have search : Reads (tarsSkipToTag tag)
      (encodeFields before ++ writeToHead value.head tag)
      (some (value.head, tag)) :=
    readsBefore_tarsSkipToTag stops typedBefore below
  rw [encode, ← List.append_assoc]
  exact reads_readVia search (reads_readBody typed fresh tag tag)

/-- An optional field that is absent leaves its target alone, and the cursor
in front of the first field with a larger tag. -/
theorem readsBefore_absent (type : WireType) (target : Value) {tag : UInt8}
    {before : List (UInt8 × Value)} (typedBefore : WellTyped before)
    (below : ∀ field ∈ before, field.1 < tag) {headType : HeadType}
    (known : headType.Known) {next : UInt8}
    (beyond : headType = .structEnd ∨ tag < next) :
    ReadsBefore (read type target tag false) (encodeFields before)
      (writeToHead headType next) target := by
  intro state rest facing
  have search := readsBefore_tarsSkipToTag
    (fun fuel => readsBefore_skipToTagLoop_none known beyond)
    typedBefore below state rest
  rw [List.append_nil] at search
  unfold read readVia
  rw [EStateM.run_bind, catchDecode_run, search facing]
  rfl

end TarsCpp.Tup
