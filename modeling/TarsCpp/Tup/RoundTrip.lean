import TarsCpp.Tup.Head
import TarsCpp.Tup.Input

/-!
# Reading back what was written

Every overload of `read`, started in front of an encoding of its own type,
returns the encoded value and stops exactly behind it.  Containers need more
than their own bytes: the guard of `readCount` compares the count with the
size of the buffer, and passes because every element takes at least a byte.
-/

namespace TarsCpp.Tup

open ByteOrder PrefixDecoding

/-- The five forms of an encoded integer and the range of each. -/
theorem intForm (n : Int) :
    (n = 0 ∧ intHead n = .zeroTag ∧ intPayload n = []) ∨
    (intWidth n = 1 ∧ intHead n = .char ∧ -128 ≤ n ∧ n ≤ 127) ∨
    (intWidth n = 2 ∧ intHead n = .short ∧ ¬(-128 ≤ n ∧ n ≤ 127) ∧
      -32768 ≤ n ∧ n ≤ 32767) ∨
    (intWidth n = 4 ∧ intHead n = .int32 ∧ ¬(-32768 ≤ n ∧ n ≤ 32767) ∧
      -2147483648 ≤ n ∧ n ≤ 2147483647) ∨
    (intWidth n = 8 ∧ intHead n = .int64 ∧
      ¬(-2147483648 ≤ n ∧ n ≤ 2147483647)) := by
  unfold intPayload intHead intWidth
  split_ifs with zero inChar inShort inInt32
  · exact .inl ⟨zero, rfl, rfl⟩
  · exact .inr (.inl ⟨rfl, rfl, inChar⟩)
  · exact .inr (.inr (.inl ⟨rfl, rfl, inChar, inShort⟩))
  · exact .inr (.inr (.inr (.inl ⟨rfl, rfl, inShort, inInt32⟩)))
  · exact .inr (.inr (.inr (.inr ⟨rfl, rfl, inInt32⟩)))

/-- A payload is sign-extended to the width of the variable. -/
theorem reads_readSigned {n : Int} (bits : Nat) {width : Nat}
    (narrowest : intWidth n = width)
    (lower : -2 ^ (8 * width) ≤ 2 * n) (upper : 2 * n < 2 ^ (8 * width)) :
    Reads (readSigned bits width) (intPayload n) (BitVec.ofInt bits n) := by
  have length := length_intPayload n
  rw [narrowest] at length
  have bytes := reads_readTypeBuf (intPayload n)
  rw [length] at bytes
  refine bytes.bind_pure ?_
  have value := toInt_ofBigEndian_intPayload narrowest lower upper
  rw [BitVec.signExtend, value]
  exact Reads.pure _

theorem reads_readCharBody {n : Int} (lower : -128 ≤ n) (upper : n ≤ 127)
    (tag headTag : UInt8) :
    Reads (readCharBody tag (intHead n) headTag) (intPayload n)
      (BitVec.ofInt 8 n) := by
  rcases intForm n with ⟨rfl, head, payload⟩ | ⟨width, head, _⟩ |
    ⟨width, head, wide, _⟩ | ⟨width, head, wide, _⟩ | ⟨width, head, wide⟩
  · rw [head, payload]
    exact Reads.pure _
  · rw [head]
    exact reads_readSigned 8 width (by omega) (by omega)
  all_goals omega

theorem reads_readShortBody {n : Int} (lower : -32768 ≤ n)
    (upper : n ≤ 32767) (tag headTag : UInt8) :
    Reads (readShortBody tag (intHead n) headTag) (intPayload n)
      (BitVec.ofInt 16 n) := by
  rcases intForm n with ⟨rfl, head, payload⟩ | ⟨width, head, _⟩ |
    ⟨width, head, _⟩ | ⟨width, head, wide, _⟩ | ⟨width, head, wide⟩
  · rw [head, payload]
    exact Reads.pure _
  · rw [head]
    exact reads_readSigned 16 width (by omega) (by omega)
  · rw [head]
    exact reads_readSigned 16 width (by omega) (by omega)
  all_goals omega

theorem reads_readInt32Body {n : Int} (lower : -2147483648 ≤ n)
    (upper : n ≤ 2147483647) (tag headTag : UInt8) :
    Reads (readInt32Body tag (intHead n) headTag) (intPayload n)
      (BitVec.ofInt 32 n) := by
  rcases intForm n with ⟨rfl, head, payload⟩ | ⟨width, head, _⟩ |
    ⟨width, head, _⟩ | ⟨width, head, _⟩ | ⟨width, head, wide⟩
  · rw [head, payload]
    exact Reads.pure _
  · rw [head]
    exact reads_readSigned 32 width (by omega) (by omega)
  · rw [head]
    exact reads_readSigned 32 width (by omega) (by omega)
  · rw [head]
    exact reads_readSigned 32 width (by omega) (by omega)
  · omega

theorem reads_readInt64Body {n : Int} (lower : -2 ^ 63 ≤ n)
    (upper : n < 2 ^ 63) (tag headTag : UInt8) :
    Reads (readInt64Body tag (intHead n) headTag) (intPayload n)
      (BitVec.ofInt 64 n) := by
  rcases intForm n with ⟨rfl, head, payload⟩ | ⟨width, head, _⟩ |
    ⟨width, head, _⟩ | ⟨width, head, _⟩ | ⟨width, head, _⟩
  · rw [head, payload]
    exact Reads.pure _
  all_goals
    rw [head]
    exact reads_readSigned 64 width (by omega) (by omega)

private theorem setWidth_ofInt (n : BitVec 32) :
    (BitVec.ofInt 64 n.toInt).setWidth 32 = n := by
  apply BitVec.eq_of_toInt_eq
  have lower := BitVec.le_toInt (x := n)
  have upper := BitVec.toInt_lt (x := n)
  rw [BitVec.toInt_setWidth, BitVec.toNat_ofInt]
  have residue : ((n.toInt % (2 ^ 64 : Nat)).toNat : Int).bmod (2 ^ 32) =
      n.toInt.bmod (2 ^ 32) := by
    rw [Int.toNat_of_nonneg (Int.emod_nonneg _ (by decide)),
      ← Int.emod_bmod, Int.emod_emod_of_dvd _ (by decide), Int.emod_bmod]
  rw [residue]
  apply Int.bmod_eq_of_le_mul_two <;> omega

/-- The count of a container is read back whatever search is used for its
tag, as long as that search stops behind a head with tag 0. -/
theorem reads_readUInt32Via {search : Decode (Option (HeadType × UInt8))}
    (finds : ∀ {headType : HeadType}, headType.Opens →
      Reads search (writeToHead headType 0) (some (headType, 0)))
    (count : Nat) :
    Reads (readUInt32Via search 0 0 true) (writeCount count)
      (BitVec.ofNat 32 count) := by
  have lower := BitVec.le_toInt (x := BitVec.ofNat 32 count)
  have upper := BitVec.toInt_lt (x := BitVec.ofNat 32 count)
  have body := reads_readInt64Body
    (n := (BitVec.ofNat 32 count).toInt) (by omega) (by omega) 0 0
  rw [writeCount, writeInt32_eq]
  refine Reads.bind_pure (reads_readVia (finds (intHead_opens _)) body) ?_
  rw [setWidth_ofInt]
  exact Reads.pure _

/-- The guard of `readCount` passes when as many bytes follow. -/
theorem reads_readCount (invalid : Nat → String) {count : Nat}
    {follow : List UInt8} (fits : count < 2 ^ 32)
    (enough : count ≤ follow.length) :
    ReadsBefore (readCount invalid) (writeCount count) follow count := by
  intro state rest facing
  have total := BufferReader.Facing.length facing
  simp only [List.length_append] at total
  have size := reads_readUInt32Via (fun opens => reads_tarsSkipToTag opens 0)
    count state _ facing
  have value : (BitVec.ofNat 32 count).toNat = count := by
    rw [BitVec.toNat_ofNat, Nat.mod_eq_of_lt fits]
  unfold readCount
  rw [EStateM.run_bind, size]
  simp only
  rw [EStateM.run_bind, EStateM.run_get]
  simp only [value]
  rw [if_neg]
  · rfl
  · change ¬count > state.size
    omega

theorem reads_readWord {width : Nat} (word : BitVec (8 * width)) :
    Reads (readWord width) (bigEndian width word.toNat) word := by
  have bytes := reads_readTypeBuf (bigEndian width word.toNat)
  rw [length_bigEndian] at bytes
  refine bytes.bind_pure ?_
  rw [ofNat_ofBigEndian_toNat (Nat.le_refl _)]
  exact Reads.pure _

theorem reads_readStringBody {s : List UInt8}
    (short : s.length ≤ maxStringLength) (tag headTag : UInt8) :
    Reads (readStringBody tag (Value.string s).head headTag)
      (Value.string s).payload s := by
  have limit : maxStringLength < 256 ^ 4 := by decide
  rw [Value.head, Value.payload]
  split_ifs with long
  · have length := reads_readTypeBuf (bigEndian 4 s.length)
    rw [length_bigEndian] at length
    refine length.bind ?_
    rw [ofBigEndian_bigEndian (by omega)]
    simp only
    rw [if_neg (by omega)]
    exact reads_readTypeBuf s
  · have length := reads_readTypeBuf (bigEndian 1 s.length)
    rw [length_bigEndian] at length
    refine length.bind ?_
    rw [ofBigEndian_bigEndian (by omega)]
    exact reads_readTypeBuf s

theorem reads_readBuf (bytes : List UInt8) :
    Reads (readBuf bytes.length) bytes bytes := by
  intro state rest facing
  have total := BufferReader.Facing.length facing
  rw [List.length_append] at total
  have bound : sizeT (state.cur + bytes.length) ≤ state.size := by
    rw [sizeT_of_le_size state (by omega)]
    omega
  have checked : (checkSkip bytes.length).run state = .ok () state := by
    unfold checkSkip
    rw [EStateM.run_bind, EStateM.run_get]
    simp only
    rw [if_neg (not_not_intro ⟨by omega, bound⟩)]
    rfl
  unfold readBuf
  rw [EStateM.run_bind, checked]
  exact reads_readTypeBuf bytes state rest facing

theorem reads_readCharVectorBody {v : List UInt8} (few : v.length < 2 ^ 32)
    (tag headTag : UInt8) :
    Reads (readCharVectorBody tag .simpleList headTag)
      (Value.charVector v).payload v := by
  rw [Value.payload]
  have known : HeadType.char.Known := trivial
  refine Reads.bind (reads_readFromHead known 0) ?_
  exact (reads_readCount _ few (Nat.le_refl _)).bind (reads_readBuf v)

theorem insertItem_last {less : Less} {item : Value} {items : List Value}
    (above : ∀ other ∈ items, less other item) :
    insertItem less item items = items ++ [item] := by
  induction items with
  | nil => rfl
  | cons first rest induction =>
      rw [List.forall_mem_cons] at above
      rw [insertItem, if_pos above.1, induction above.2, List.cons_append]

theorem insertEntry_last {less : Less} {entry : Value × Value}
    {entries : List (Value × Value)}
    (above : ∀ other ∈ entries, less other.1 entry.1) :
    insertEntry less entry entries = entries ++ [entry] := by
  induction entries with
  | nil => rfl
  | cons first rest induction =>
      rw [List.forall_mem_cons] at above
      rw [insertEntry, if_pos above.1, induction above.2, List.cons_append]

theorem encode_length_pos (value : Value) (tag : UInt8) :
    0 < (encode value tag).length := by
  rw [encode, List.length_append]
  exact Nat.add_pos_left (writeToHead_length_pos _ _) _

/-- Items that take at least a byte each are not more than their bytes. -/
theorem length_le_flatMap {ι : Type} (items : List ι)
    (bytes : ι → List UInt8) (positive : ∀ item, 0 < (bytes item).length) :
    items.length ≤ (items.flatMap bytes).length := by
  induction items with
  | nil => exact Nat.le_refl 0
  | cons item items induction =>
      have first := positive item
      rw [List.flatMap_cons, List.length_append, List.length_cons]
      omega

theorem reads_readVectorBody {readElem : Value → Decode Value}
    {fresh : Value} {old items : List Value}
    (few : items.length < 2 ^ 32)
    (each : ∀ item ∈ items, ∀ target ∈ fresh :: old,
      Reads (readElem target) (encode item 0) item)
    (tag headTag : UInt8) :
    Reads (readVectorBody readElem fresh old tag .list headTag)
      (writeCount items.length ++ encodeItems items) items := by
  have enough := length_le_flatMap items (encode · 0)
    fun item => encode_length_pos item 0
  rw [encodeItems_eq]
  refine (reads_readCount _ few enough).bind ?_
  apply Reads.forCount id
  intro done item later split
  have target : old.getD done.length fresh ∈ fresh :: old := by
    rw [List.getD_eq_getElem?_getD]
    cases found : old[done.length]? with
    | none => exact List.mem_cons_self
    | some stale =>
        exact List.mem_cons_of_mem _ (List.mem_of_getElem? found)
  have membership : item ∈ items := by
    rw [split]
    exact List.mem_append_right _ List.mem_cons_self
  exact (each item membership _ target).bind_pure (Reads.pure _)

theorem reads_readSetBody {less : Less} {readElem : Decode Value}
    {items : List Value} (few : items.length < 2 ^ 32)
    (sorted : items.Pairwise (fun a b => less a b))
    (each : ∀ item ∈ items, Reads readElem (encode item 0) item)
    (tag headTag : UInt8) :
    Reads (readSetBody less readElem [] tag .list headTag)
      (writeCount items.length ++ encodeItems items) items := by
  have enough := length_le_flatMap items (encode · 0)
    fun item => encode_length_pos item 0
  rw [encodeItems_eq]
  refine (reads_readCount _ few enough).bind ?_
  apply Reads.forCount id
  intro done item later split
  rw [split] at sorted each
  have above := (List.pairwise_append.mp sorted).2.2
  refine (each item (List.mem_append_right _ List.mem_cons_self)).bind_pure ?_
  have last := insertItem_last fun other member =>
    above other member item List.mem_cons_self
  exact (Reads.pure _).of_eq rfl last

theorem reads_readMapBody {less : Less} {readKey readValue : Decode Value}
    {entries : List (Value × Value)} (few : entries.length < 2 ^ 32)
    (sorted : entries.Pairwise (fun a b => less a.1 b.1))
    (keys : ∀ entry ∈ entries, Reads readKey (encode entry.1 0) entry.1)
    (values : ∀ entry ∈ entries, Reads readValue (encode entry.2 1) entry.2)
    (tag headTag : UInt8) :
    Reads (readMapBody less readKey readValue tag .map headTag)
      (writeCount entries.length ++ encodeEntries entries) entries := by
  have enough := length_le_flatMap entries
    (fun entry => encode entry.1 0 ++ encode entry.2 1) fun entry => by
      rw [List.length_append]
      exact Nat.add_pos_left (encode_length_pos entry.1 0) _
  rw [encodeEntries_eq]
  refine (reads_readCount _ few enough).bind ?_
  apply Reads.forCount id
  intro done entry later split
  rw [split] at sorted keys values
  have membership : entry ∈ done ++ entry :: later :=
    List.mem_append_right _ List.mem_cons_self
  have above := (List.pairwise_append.mp sorted).2.2
  refine (keys entry membership).bind ?_
  refine (values entry membership).bind_pure ?_
  have last := insertEntry_last fun other member =>
    above other member entry List.mem_cons_self
  exact (Reads.pure _).of_eq rfl last

/-- The closing `StructEnd` ends the skipping at once. -/
theorem reads_skipToStructEndWith {fuel : Nat} (enough : 2 ≤ fuel) :
    Reads (skipToStructEndWith fuel) (writeToHead .structEnd 0) () := by
  obtain ⟨fuel, rfl⟩ := Nat.exists_eq_add_of_le' enough
  have known : HeadType.structEnd.Known := trivial
  rw [skipToStructEndWith]
  refine (reads_readFromHeadNoTag known 0).bind_pure ?_
  rw [skipFieldWith]
  exact Reads.pure ()

theorem reads_skipToStructEnd :
    Reads skipToStructEnd (writeToHead .structEnd 0) () := by
  intro state rest facing
  have enough : 2 ≤ budget state := Nat.le_add_left_of_le (by decide)
  unfold skipToStructEnd
  rw [EStateM.run_bind, EStateM.run_get]
  exact reads_skipToStructEndWith enough state rest facing

mutual

theorem reads_readBody {type : WireType} {value target : Value}
    (typed : type.HasType value) (fresh : type.Fresh target)
    (tag headTag : UInt8) :
    Reads (readBody type target tag value.head headTag) value.payload
      value := by
  cases typed with
  | bool b =>
      rw [readBody]
      have body := reads_readCharBody (n := b.toNat)
        (by cases b <;> decide) (by cases b <;> decide) tag headTag
      exact (body.map _).of_eq rfl (by cases b <;> rfl)
  | char n =>
      have lower := BitVec.le_toInt (x := n)
      have upper := BitVec.toInt_lt (x := n)
      rw [readBody]
      have body := reads_readCharBody (n := n.toInt) (by omega) (by omega)
        tag headTag
      exact (body.map _).of_eq rfl (by rw [BitVec.ofInt_toInt])
  | uint8 n =>
      have upper := n.isLt
      rw [readBody]
      have body := reads_readShortBody (n := n.toNat) (by omega) (by omega)
        tag headTag
      exact (body.map _).of_eq rfl (by simp)
  | short n =>
      have lower := BitVec.le_toInt (x := n)
      have upper := BitVec.toInt_lt (x := n)
      rw [readBody]
      have body := reads_readShortBody (n := n.toInt) (by omega) (by omega)
        tag headTag
      exact (body.map _).of_eq rfl (by rw [BitVec.ofInt_toInt])
  | uint16 n =>
      have upper := n.isLt
      rw [readBody]
      have body := reads_readInt32Body (n := n.toNat) (by omega) (by omega)
        tag headTag
      exact (body.map _).of_eq rfl (by simp)
  | int32 n =>
      have lower := BitVec.le_toInt (x := n)
      have upper := BitVec.toInt_lt (x := n)
      rw [readBody]
      have body := reads_readInt32Body (n := n.toInt) (by omega) (by omega)
        tag headTag
      exact (body.map _).of_eq rfl (by rw [BitVec.ofInt_toInt])
  | uint32 n =>
      have upper := n.isLt
      rw [readBody]
      have body := reads_readInt64Body (n := n.toNat) (by omega) (by omega)
        tag headTag
      exact (body.map _).of_eq rfl (by simp)
  | int64 n =>
      have lower := BitVec.le_toInt (x := n)
      have upper := BitVec.toInt_lt (x := n)
      rw [readBody]
      have body := reads_readInt64Body (n := n.toInt) (by omega) (by omega)
        tag headTag
      exact (body.map _).of_eq rfl (by rw [BitVec.ofInt_toInt])
  | float word =>
      rw [readBody]
      exact (@reads_readWord 4 word).map _
  | double word =>
      rw [readBody]
      exact (@reads_readWord 8 word).map _
  | string short =>
      rw [readBody]
      exact (reads_readStringBody short tag headTag).map _
  | charVector few =>
      rw [readBody]
      exact (reads_readCharVectorBody few tag headTag).map _
  | vector few each =>
      rw [readBody, Value.payload]
      refine Reads.map _ (reads_readVectorBody few ?_ tag headTag)
      intro item membership stale origin
      have freshElem := List.forall_mem_cons.mpr
        ⟨WireType.fresh_default _, fresh⟩
      exact reads_readVia (reads_tarsSkipToTag item.head_opens 0)
        (reads_readBody (each item membership) (freshElem stale origin) 0 0)
  | set few sorted each =>
      rw [readBody, Value.payload, fresh]
      refine Reads.map _ (reads_readSetBody few sorted ?_ tag headTag)
      intro item membership
      exact reads_readVia (reads_tarsSkipToTag item.head_opens 0)
        (reads_readBody (each item membership) (WireType.fresh_default _) 0 0)
  | map few sorted keys values =>
      rw [readBody, Value.payload]
      refine Reads.map _
        (reads_readMapBody (by omega) sorted ?_ ?_ tag headTag)
      · intro entry membership
        exact reads_readVia (reads_tarsSkipToTag entry.1.head_opens 0)
          (reads_readBody (keys entry membership)
            (WireType.fresh_default _) 0 0)
      · intro entry membership
        exact reads_readVia (reads_tarsSkipToTag entry.2.head_opens 1)
          (reads_readBody (values entry membership)
            (WireType.fresh_default _) 1 1)
  | struct typedFields =>
      rw [readBody, Value.payload]
      refine Reads.map _ ?_
      exact (reads_readFrom typedFields).bind
        (reads_skipToStructEnd.bind_pure (Reads.pure _))

theorem reads_readFrom {types : FieldTypes} {fields : List (UInt8 × Value)}
    (typed : types.HasFields fields) :
    Reads (readFrom types) (encodeFields fields) fields := by
  cases typed with
  | nil =>
      rw [readFrom]
      exact Reads.pure _
  | @cons tag isRequire declared type rest value fields typedValue
      typedRest =>
      rw [readFrom]
      refine Reads.bind (reads_readVia
        (reads_tarsSkipToTag value.head_opens tag)
        (reads_readBody typedValue (WireType.fresh_reset _ _) tag tag)) ?_
      exact (reads_readFrom typedRest).bind_pure (Reads.pure _)

end

/-- In front of an encoding of its own type and tag, `read` into a fresh
target returns the value and stops exactly behind the encoding. -/
theorem reads_read {type : WireType} {value target : Value}
    (typed : type.HasType value) (fresh : type.Fresh target) (tag : UInt8)
    (isRequire : Bool) :
    Reads (read type target tag isRequire) (encode value tag) value :=
  reads_readVia (reads_tarsSkipToTag value.head_opens tag)
    (reads_readBody typed fresh tag tag)

/-- Decoding `write(value, tag)` followed by anything gives the value back and
leaves the cursor on the first byte of what follows. -/
theorem read_write {type : WireType} {value : Value}
    (typed : type.HasType value) (tag : UInt8) (isRequire : Bool) :
    ∃ bytes, write value tag = .ok bytes ∧
      ∀ (stream : BufferReader) (suffix : List UInt8),
        stream.Facing (bytes ++ suffix) →
        (read type type.default tag isRequire).run stream =
            .ok value (stream.moveTo (stream.cur + bytes.length)) ∧
          (stream.moveTo (stream.cur + bytes.length)).Facing suffix := by
  refine ⟨encode value tag, write_eq_encode typed tag, ?_⟩
  intro stream suffix facing
  have decoded := reads_read typed type.fresh_default tag isRequire stream
    suffix facing
  exact ⟨decoded, facing.moveTo⟩

/-- A struct with a signed member and a vector of unsigned ones. -/
theorem read_write_struct :
    let type := WireType.struct
      (.cons 1 true (.int32 0) .int32
        (.cons 17 false (.vector []) (.vector .uint32) .nil))
    let value := Value.struct
      [(1, .int32 (-300)), (17, .vector [.uint32 7, .uint32 0xFFFFFFFF])]
    let bytes := [170, 17, 254, 212, 249, 17, 0, 2, 0, 7,
      3, 0, 0, 0, 0, 255, 255, 255, 255, 11]
    write value 10 = .ok bytes ∧
      ∀ fits : (bytes ++ [42]).length < sizeLimit,
        (read type type.default 10 true).run
            (BufferReader.setBuffer (bytes ++ [42]) fits) =
          .ok value ((BufferReader.setBuffer (bytes ++ [42]) fits).moveTo 20)
    := by
  intro type value bytes
  have typed : type.HasType value := by
    refine .struct (.cons (.int32 _) (.cons (.vector (by decide) ?_) .nil))
    intro item membership
    rcases List.mem_pair.mp membership with rfl | rfl <;> exact .uint32 _
  obtain ⟨written, success, decodes⟩ := read_write typed 10 true
  have evaluated : write value 10 = .ok bytes := by rfl
  obtain rfl : written = bytes := by
    rw [success] at evaluated
    exact Except.ok.inj evaluated
  refine ⟨success, fun fits => ?_⟩
  exact (decodes (BufferReader.setBuffer (bytes ++ [42]) fits) [42]
    ⟨Nat.zero_le _, rfl⟩).1

end TarsCpp.Tup
