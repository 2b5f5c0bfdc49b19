import TarsCpp.Tup.Evolution

/-!
# Streams that end early

A required field of which the last bytes are missing makes `read` throw: the
search does not find it, or its payload is too short.
-/

namespace TarsCpp.Tup

open ByteOrder PrefixDecoding

/-- Not all of `bytes` has arrived. -/
def Cut (front bytes : List UInt8) : Prop :=
  ∃ missing, missing ≠ [] ∧ front ++ missing = bytes

theorem Cut.length_lt {front bytes : List UInt8} (cut : Cut front bytes) :
    front.length < bytes.length := by
  obtain ⟨missing, something, rfl⟩ := cut
  have positive := List.length_pos_iff.mpr something
  rw [List.length_append]
  omega

theorem not_cut_nil (front : List UInt8) : ¬ Cut front [] := by
  intro cut
  exact Nat.not_lt_zero _ cut.length_lt

theorem Cut.singleton {front : List UInt8} {byte : UInt8}
    (cut : Cut front [byte]) : front = [] := by
  have short := cut.length_lt
  rw [List.length_singleton] at short
  exact List.length_eq_zero_iff.mp (Nat.lt_one_iff.mp short)

/-- The cut is in the first or in the second part. -/
theorem cut_append {front first second : List UInt8}
    (cut : Cut front (first ++ second)) :
    Cut front first ∨ ∃ back, front = first ++ back ∧ Cut back second := by
  obtain ⟨missing, something, whole⟩ := cut
  rcases List.append_eq_append_iff.mp whole with
    ⟨between, split, rest⟩ | ⟨back, split, rest⟩
  · by_cases nothing : between = []
    · rw [nothing, List.nil_append] at rest
      rw [nothing, List.append_nil] at split
      right
      refine ⟨[], ?_, missing, something, ?_⟩
      · rw [List.append_nil, split]
      · rw [List.nil_append, rest]
    · exact .inl ⟨between, nothing, split.symm⟩
  · exact .inr ⟨back, split, missing, something, rest.symm⟩

/-- On a stream that ends behind `bytes` the decoder throws. -/
def Fails {α : Type} (decoder : Decode α) (bytes : List UInt8) : Prop :=
  ∀ stream : BufferReader, stream.size < 2 ^ 62 → stream.Facing bytes →
    ∃ exception stream',
      decoder.run stream = .error (.throws exception) stream'

/-- The search throws or finds nothing on such a stream. -/
def Misses (search : Decode (Option (HeadType × UInt8)))
    (bytes : List UInt8) : Prop :=
  ∀ stream : BufferReader, stream.size < 2 ^ 62 → stream.Facing bytes →
    (∃ stream', search.run stream = .ok none stream') ∨
      ∃ exception stream',
        search.run stream = .error (.throws exception) stream'

section Combinators

variable {α β : Type} {decoder : Decode α} {next : α → Decode β}
  {bytes front back : List UInt8}

theorem fails_throw (exception : TarsDecodeException) :
    Fails (throw (.throws exception) : Decode α) bytes := by
  intro stream _ _
  exact ⟨exception, stream, rfl⟩

theorem Fails.bind (fails : Fails decoder bytes) :
    Fails (decoder >>= next) bytes := by
  intro stream small facing
  obtain ⟨exception, stream', run⟩ := fails stream small facing
  exact ⟨exception, stream', by rw [EStateM.run_bind, run]⟩

theorem Fails.map (fails : Fails decoder bytes) (convert : α → β) :
    Fails (convert <$> decoder) bytes := by
  rw [map_eq_pure_bind]
  exact fails.bind

theorem bind_fails {value : α} (reads : Reads decoder front value)
    (fails : Fails (next value) back) :
    Fails (decoder >>= next) (front ++ back) := by
  intro stream small facing
  obtain ⟨exception, stream', run⟩ :=
    fails (stream.moveTo (stream.cur + front.length)) small facing.moveTo
  refine ⟨exception, stream', ?_⟩
  rw [EStateM.run_bind, reads stream back facing]
  exact run

theorem Misses.fails {search : Decode (Option (HeadType × UInt8))}
    (misses : Misses search bytes) (missing : TarsDecodeException)
    (body : HeadType → UInt8 → Decode α) (target : α) :
    Fails (readVia search missing body target true) bytes := by
  intro stream small facing
  rw [readVia, EStateM.run_bind, catchDecode_run]
  rcases misses stream small facing with
    ⟨stream', run⟩ | ⟨exception, stream', run⟩
  · rw [run]
    exact ⟨missing, stream', rfl⟩
  · rw [run]
    exact ⟨missing, stream', rfl⟩

theorem fails_readVia {search : Decode (Option (HeadType × UInt8))}
    {missing : TarsDecodeException} {body : HeadType → UInt8 → Decode α}
    {target : α} {isRequire : Bool} {headType : HeadType} {tag : UInt8}
    (finds : Reads search front (some (headType, tag)))
    (fails : Fails (body headType tag) back) :
    Fails (readVia search missing body target isRequire) (front ++ back) :=
  bind_fails (reads_catchDecode finds) fails

end Combinators

theorem fails_readTypeBuf {bytes : List UInt8} {len : Nat}
    (short : bytes.length < len) (small : len < 2 ^ 62) :
    Fails (readTypeBuf len) bytes := by
  intro stream bounded facing
  have total := facing.length
  have exact' : sizeT (stream.cur + 0 + len) = stream.cur + len := by
    unfold sizeT sizeLimit
    omega
  have beyond : (checkPeek 0 len).run stream =
      .error (.throws (peekOverflow stream)) stream := by
    unfold checkPeek
    rw [EStateM.run_bind, EStateM.run_get]
    simp only
    rw [exact', if_pos (by omega)]
    rfl
  refine ⟨peekOverflow stream, stream, ?_⟩
  rw [readTypeBuf, EStateM.run_bind, peekBuf, EStateM.run_bind, beyond]

theorem fails_readFromHead_nil : Fails readFromHead [] := by
  have peeks : Fails (peekByte 0) [] := by
    intro stream small facing
    obtain ⟨exception, stream', run⟩ := fails_readTypeBuf
      (Nat.zero_lt_one) (by decide) stream small facing
    rw [readTypeBuf, EStateM.run_bind] at run
    refine ⟨exception, stream', ?_⟩
    rw [peekByte, EStateM.run_bind]
    cases peeked : (peekBuf 1 0).run stream with
    | ok bytes stream'' =>
        rw [peeked] at run
        cases run
    | error fault stream'' =>
        rw [peeked] at run
        obtain ⟨rfl, rfl⟩ := EStateM.Result.error.inj run
        rfl
  exact Fails.bind (Fails.bind peeks)

theorem fails_readSigned {n : Int} {bytes : List UInt8}
    (cut : Cut bytes (intPayload n)) (bits : Nat) {width : Nat}
    (narrowest : intWidth n = width) (small : width < 2 ^ 62) :
    Fails (readSigned bits width) bytes := by
  have short := cut.length_lt
  rw [length_intPayload, narrowest] at short
  exact (fails_readTypeBuf short small).bind

theorem fails_readInt32Body {n : Int} {bytes : List UInt8}
    (cut : Cut bytes (intPayload n)) (tag headTag : UInt8) :
    Fails (readInt32Body tag (intHead n) headTag) bytes := by
  rcases intForm n with ⟨rfl, head, payload⟩ | ⟨width, head, _⟩ |
    ⟨width, head, _⟩ | ⟨width, head, _⟩ | ⟨width, head, _⟩
  · rw [payload] at cut
    exact absurd cut (not_cut_nil _)
  · rw [head]
    exact fails_readSigned cut 32 width (by decide)
  · rw [head]
    exact fails_readSigned cut 32 width (by decide)
  · rw [head]
    exact fails_readSigned cut 32 width (by decide)
  · rw [head]
    exact fails_throw _

theorem fails_readInt64Body {n : Int} {bytes : List UInt8}
    (cut : Cut bytes (intPayload n)) (tag headTag : UInt8) :
    Fails (readInt64Body tag (intHead n) headTag) bytes := by
  rcases intForm n with ⟨rfl, head, payload⟩ | ⟨width, head, _⟩ |
    ⟨width, head, _⟩ | ⟨width, head, _⟩ | ⟨width, head, _⟩
  · rw [payload] at cut
    exact absurd cut (not_cut_nil _)
  all_goals
    rw [head]
    exact fails_readSigned cut 64 width (by decide)

theorem fails_readStringBody {s bytes : List UInt8}
    (short : s.length ≤ maxStringLength)
    (cut : Cut bytes (Value.string s).payload) (tag headTag : UInt8) :
    Fails (readStringBody tag (Value.string s).head headTag) bytes := by
  have limit : maxStringLength < 256 ^ 4 := by decide
  rw [Value.payload] at cut
  rw [Value.head]
  split_ifs at cut ⊢ with long
  · rcases cut_append cut with cut | ⟨back, rfl, rest⟩
    · have missing := cut.length_lt
      rw [length_bigEndian] at missing
      exact (fails_readTypeBuf missing (by decide)).bind
    · have length := reads_readTypeBuf (bigEndian 4 s.length)
      rw [length_bigEndian] at length
      apply bind_fails length
      rw [ofBigEndian_bigEndian (by omega)]
      simp only
      rw [if_neg (by omega)]
      exact fails_readTypeBuf rest.length_lt (by omega)
  · rcases cut_append cut with cut | ⟨back, rfl, rest⟩
    · have missing := cut.length_lt
      rw [length_bigEndian] at missing
      exact (fails_readTypeBuf missing (by decide)).bind
    · have length := reads_readTypeBuf (bigEndian 1 s.length)
      rw [length_bigEndian] at length
      apply bind_fails length
      rw [ofBigEndian_bigEndian (by omega)]
      exact fails_readTypeBuf rest.length_lt (by omega)

/-- At the end of the stream there is nothing to find. -/
theorem misses_nil (tag : UInt8) : Misses (tarsSkipToTag tag) [] := by
  intro stream _ facing
  have total := facing.length
  rw [List.length_nil] at total
  have ended : hasEnd.run stream = .ok true stream := by
    rw [hasEnd, EStateM.run_bind, EStateM.run_get]
    simp only
    rw [if_neg (by omega), EStateM.run_pure, decide_eq_true (by omega)]
  left
  refine ⟨stream, ?_⟩
  rw [tarsSkipToTag, EStateM.run_bind, EStateM.run_get]
  simp only [budget]
  rw [skipToTagLoop, EStateM.run_bind, ended]
  rfl

/-- A field of which the head or the payload is cut. -/
theorem fails_field {α : Type} {value : Value} {tag : UInt8}
    (short : tag < 15) {missing : TarsDecodeException}
    {body : HeadType → UInt8 → Decode α} {target : α}
    (fails : ∀ back, Cut back value.payload →
      Fails (body value.head tag) back)
    {bytes : List UInt8} (cut : Cut bytes (encode value tag)) :
    Fails (readVia (tarsSkipToTag tag) missing body target true) bytes := by
  rw [encode] at cut
  rcases cut_append cut with cut | ⟨back, rfl, rest⟩
  · have length := cut.length_lt
    rw [length_writeToHead short] at length
    obtain rfl : bytes = [] :=
      List.length_eq_zero_iff.mp (Nat.lt_one_iff.mp length)
    exact (misses_nil tag).fails _ _ _
  · exact fails_readVia (reads_tarsSkipToTag value.head_opens tag)
      (fails back rest)

theorem fails_readUInt32Via {count : Nat} {bytes : List UInt8}
    (cut : Cut bytes (writeCount count)) :
    Fails (readUInt32Via (tarsSkipToTag 0) 0 0 true) bytes := by
  rw [writeCount, writeInt32_eq, encodeInt] at cut
  apply Fails.bind
  rcases cut_append cut with cut | ⟨back, rfl, rest⟩
  · have length := cut.length_lt
    rw [length_writeToHead (by decide)] at length
    obtain rfl : bytes = [] :=
      List.length_eq_zero_iff.mp (Nat.lt_one_iff.mp length)
    exact (misses_nil 0).fails _ _ _
  · exact fails_readVia (reads_tarsSkipToTag (intHead_opens _) 0)
      (fails_readInt64Body rest 0 0)

theorem fails_readBuf {bytes : List UInt8} {len : Nat}
    (short : bytes.length < len) (small : len < 2 ^ 62) :
    Fails (readBuf len) bytes := by
  intro stream bounded facing
  have total := facing.length
  have whole : sizeT (stream.cur + len) = stream.cur + len := by
    unfold sizeT sizeLimit
    omega
  have beyond : (checkSkip len).run stream =
      .error (.throws (skipOverflow stream)) stream := by
    unfold checkSkip
    rw [EStateM.run_bind, EStateM.run_get]
    simp only
    rw [whole, if_pos (by omega)]
    rfl
  refine ⟨skipOverflow stream, stream, ?_⟩
  rw [readBuf, EStateM.run_bind, beyond]

/-- Whether or not the guard of the count already stops it. -/
theorem fails_readCount_readBuf (invalid : Nat → String) {count : Nat}
    (few : count < 2 ^ 32) {back : List UInt8} (short : back.length < count) :
    Fails (readCount invalid >>= readBuf) (writeCount count ++ back) := by
  have reads := reads_readUInt32Via
    (fun opens => reads_tarsSkipToTag opens 0) count
  have value : (BitVec.ofNat 32 count).toNat = count :=
    (BitVec.toNat_ofNat _ _).trans (Nat.mod_eq_of_lt few)
  rw [readCount, bind_assoc]
  apply bind_fails reads
  intro stream small facing
  rw [bind_assoc, EStateM.run_bind, EStateM.run_get]
  simp only [value]
  by_cases guarded : count > stream.size
  · rw [if_pos guarded]
    exact ⟨_, stream, rfl⟩
  · rw [if_neg guarded]
    exact fails_readBuf short (by omega) stream small facing

theorem fails_readCharVectorBody {v bytes : List UInt8}
    (few : v.length < 2 ^ 32) (cut : Cut bytes (Value.charVector v).payload)
    (tag headTag : UInt8) :
    Fails (readCharVectorBody tag .simpleList headTag) bytes := by
  have known : HeadType.char.Known := trivial
  rw [Value.payload] at cut
  rw [readCharVectorBody]
  rcases cut_append cut with cut | ⟨back, rfl, rest⟩
  · obtain rfl : bytes = [] := cut.singleton
    exact fails_readFromHead_nil.bind
  · apply bind_fails (reads_readFromHead known 0)
    simp only [ne_eq, not_true_eq_false, if_false]
    rcases cut_append rest with inCount | ⟨bytes, rfl, inBytes⟩
    · exact (Fails.bind (fails_readUInt32Via inCount)).bind
    · exact fails_readCount_readBuf _ few inBytes.length_lt

/-- The payload of the value cannot be read from a stream that ends in it. -/
def Breaks (type : WireType) (value : Value) : Prop :=
  ∀ (target : Value) (tag : UInt8) (bytes : List UInt8),
    Cut bytes value.payload →
      Fails (readBody type target tag value.head tag) bytes

theorem breaks_int32 (n : BitVec 32) : Breaks .int32 (.int32 n) := by
  intro target tag bytes cut
  rw [readBody]
  exact (fails_readInt32Body cut tag tag).map _

theorem breaks_string {s : List UInt8} (short : s.length ≤ maxStringLength) :
    Breaks .string (.string s) := by
  intro target tag bytes cut
  rw [readBody]
  exact (fails_readStringBody short cut tag tag).map _

theorem breaks_charVector {v : List UInt8} (few : v.length < 2 ^ 32) :
    Breaks .charVector (.charVector v) := by
  intro target tag bytes cut
  rw [readBody]
  exact (fails_readCharVectorBody few cut tag tag).map _

theorem breaks_map_nil (less : Less) (key value : WireType) :
    Breaks (.map less key value) (.map []) := by
  intro target tag bytes cut
  have payload : (Value.map []).payload = writeCount 0 := by
    rw [Value.payload, encodeEntries, List.append_nil, List.length_nil]
  rw [payload] at cut
  rw [readBody]
  exact Fails.map (Fails.bind (Fails.bind (fails_readUInt32Via cut))) _

/-- Required fields with short tags that cannot be read in part. -/
inductive Brittle : FieldTypes → List (UInt8 × Value) → Prop
  | nil : Brittle .nil []
  | cons {tag declared type rest value fields} :
      tag < 15 → type.HasType value → Breaks type value →
      Brittle rest fields →
      Brittle (.cons tag true declared type rest) ((tag, value) :: fields)

theorem Brittle.hasFields {types : FieldTypes}
    {fields : List (UInt8 × Value)} (brittle : Brittle types fields) :
    types.HasFields fields := by
  induction brittle with
  | nil => exact .nil
  | cons _ typed _ _ induction => exact .cons typed induction

/-- A struct of such fields cannot be read from a stream that ends in it. -/
theorem Brittle.fails {types : FieldTypes} {fields : List (UInt8 × Value)}
    (brittle : Brittle types fields) {bytes : List UInt8}
    (cut : Cut bytes (encodeFields fields)) : Fails (readFrom types) bytes := by
  induction brittle generalizing bytes with
  | nil => exact absurd cut (not_cut_nil _)
  | @cons tag declared type rest value fields short typed breaks _ induction =>
      rw [readFrom]
      rcases cut_append cut with cut | ⟨back, rfl, rest⟩
      · exact (fails_field short (breaks _ tag) cut).bind
      · exact bind_fails (reads_readVia
          (reads_tarsSkipToTag value.head_opens tag)
          (reads_readBody typed (WireType.fresh_reset _ _) tag tag))
          (induction rest).bind

end TarsCpp.Tup
