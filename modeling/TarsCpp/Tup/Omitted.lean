import TarsCpp.Tup.Evolution

/-!
# Fields that are not written

A generated `writeTo` leaves out an optional field that holds its default.
`readFrom` finds a field with a larger tag in its place, or the end of the
buffer, and both times keeps what `resetDefautlt` has stored.
-/

namespace TarsCpp.Tup

open PrefixDecoding

theorem tarsSkipToTag_end {stream : BufferReader} (facing : stream.Facing [])
    (tag : UInt8) : (tarsSkipToTag tag).run stream = .ok none stream := by
  have atEnd := facing.length
  rw [List.length_nil, Nat.add_zero] at atEnd
  have ended : hasEnd.run stream = .ok true stream := by
    unfold hasEnd
    rw [EStateM.run_bind, EStateM.run_get]
    simp only
    rw [if_neg (by omega), decide_eq_true (by omega)]
    rfl
  unfold tarsSkipToTag
  rw [EStateM.run_bind, EStateM.run_get]
  simp only [budget]
  rw [skipToTagLoop, EStateM.run_bind, ended]
  rfl

/-- A required field that is missing makes the decoder throw. -/
theorem readVia_missing {α : Type} {stream : BufferReader}
    (facing : stream.Facing []) (tag : UInt8)
    (missing : TarsDecodeException) (body : HeadType → UInt8 → Decode α)
    (target : α) :
    (readVia (tarsSkipToTag tag) missing body target true).run stream =
      .error (.throws missing) stream := by
  unfold readVia
  rw [EStateM.run_bind, catchDecode_run, tarsSkipToTag_end facing]
  rfl

theorem readVia_end {α : Type} {stream : BufferReader}
    (facing : stream.Facing []) (tag : UInt8)
    (missing : TarsDecodeException) (body : HeadType → UInt8 → Decode α)
    (target : α) :
    (readVia (tarsSkipToTag tag) missing body target false).run stream =
      .ok target stream := by
  unfold readVia
  rw [EStateM.run_bind, catchDecode_run, tarsSkipToTag_end facing]
  rfl

private theorem run_bind_ok {α β : Type} {first : Decode α}
    {next : α → Decode β} {stream stream' : BufferReader} {value : α}
    (succeeds : first.run stream = .ok value stream') :
    (first >>= next).run stream = (next value).run stream' := by
  rw [EStateM.run_bind, succeeds]

/-- The fields of a struct, and those that are written: all but some optional
ones that hold their default. -/
inductive FieldTypes.Written : FieldTypes → List (UInt8 × Value) →
    List (UInt8 × Value) → Prop
  | nil : FieldTypes.Written .nil [] []
  | cons {tag isRequire declared type rest value fields written} :
      WireType.HasType type value → FieldTypes.Written rest fields written →
      FieldTypes.Written (.cons tag isRequire declared type rest)
        ((tag, value) :: fields) ((tag, value) :: written)
  | omitted {tag declared type rest fields written} :
      FieldTypes.Written rest fields written →
      (∀ field ∈ written, tag < field.1) →
      FieldTypes.Written (.cons tag false declared type rest)
        ((tag, type.reset declared) :: fields) written

/-- In front of nothing but larger tags an optional field keeps its value. -/
theorem readVia_beyond {stream : BufferReader} {tag : UInt8}
    {written : List (UInt8 × Value)}
    (facing : stream.Facing (encodeFields written))
    (beyond : ∀ field ∈ written, tag < field.1) (type : WireType)
    (target : Value) :
    (readVia (tarsSkipToTag tag) (missingField type tag)
      (readBody type target tag) target false).run stream =
        .ok target stream := by
  cases written with
  | nil => exact readVia_end facing tag _ _ target
  | cons field written =>
      have before : WellTyped [] := by simp [WellTyped]
      have absent := readsBefore_absent type target before (by simp)
        field.2.head_opens.known (.inr (beyond field List.mem_cons_self))
      refine absent stream (field.2.payload ++ encodeFields written) ?_
      rw [encodeFields, List.append_assoc] at facing
      exact facing

/-- `readFrom` at the end of the buffer gives back the omitted fields too. -/
theorem readFrom_written {types : FieldTypes}
    {fields written : List (UInt8 × Value)}
    (fieldsWritten : types.Written fields written) :
    ∀ {stream : BufferReader}, stream.Facing (encodeFields written) →
      (readFrom types).run stream = .ok fields
        (stream.moveTo (stream.cur + (encodeFields written).length)) := by
  induction fieldsWritten with
  | nil =>
      intro stream facing
      rw [readFrom]
      rfl
  | @cons tag isRequire declared type rest value fields written typed
      restWritten ih =>
      intro stream facing
      have first : Reads (readVia (tarsSkipToTag tag)
          (missingField type tag) (readBody type (type.reset declared) tag)
          (type.reset declared) isRequire) (encode value tag) value :=
        reads_readVia (reads_tarsSkipToTag value.head_opens tag)
          (reads_readBody typed (type.fresh_reset declared) tag tag)
      have moved := BufferReader.Facing.moveTo facing
      have last := ih moved
      rw [readFrom]
      refine (run_bind_ok (first stream _ facing)).trans ?_
      refine (run_bind_ok last).trans ?_
      simp only [encodeFields, List.length_append, BufferReader.moveTo_cur,
        BufferReader.moveTo_moveTo, Nat.add_assoc]
      rfl
  | @omitted tag declared type rest fields written restWritten beyond ih =>
      intro stream facing
      rw [readFrom]
      refine (run_bind_ok (readVia_beyond facing beyond _ _)).trans ?_
      exact run_bind_ok (ih facing)

end TarsCpp.Tup
