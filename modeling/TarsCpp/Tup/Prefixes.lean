import TarsCpp.Tup.Input

/-!
# More bytes in the buffer

What a decoder reads from a buffer it reads in the same way when more bytes
follow: only the end of the buffer can make a difference, and then a required
field is missing or an exception is thrown.
-/

namespace TarsCpp.Tup

open ByteOrder PrefixDecoding

/-- The second buffer starts with the first one, and the cursors agree. -/
structure Longer (short long : BufferReader) : Prop where
  buf : short.buf <+: long.buf
  cur : long.cur = short.cur

/-- What the first decoder returns on a buffer, the second one returns on a
longer buffer. -/
def Extends {α : Type} (decoder decoder' : Decode α) : Prop :=
  ∀ short long, Longer short long → ∀ value after,
    decoder.run short = .ok value after →
    ∃ after', decoder'.run long = .ok value after' ∧ Longer after after'

/-- The same for what a search finds. -/
def Finds {α : Type} (search search' : Decode (Option α)) : Prop :=
  ∀ short long, Longer short long → ∀ found after,
    search.run short = .ok (some found) after →
    ∃ after', search'.run long = .ok (some found) after' ∧ Longer after after'

section Steps

variable {α β : Type} {short long : BufferReader}

theorem Longer.size_le (longer : Longer short long) :
    short.size ≤ long.size :=
  longer.buf.length_le

theorem Longer.moveTo (longer : Longer short long) (cur : Nat) :
    Longer (short.moveTo cur) (long.moveTo cur) :=
  ⟨longer.buf, rfl⟩

theorem Extends.pure (value : α) :
    Extends (Pure.pure value : Decode α) (Pure.pure value) := by
  intro short long longer value' after ran
  cases ran
  exact ⟨long, rfl, longer⟩

theorem Extends.throw (fault : Fault) (decoder : Decode α) :
    Extends (throw fault : Decode α) decoder := by
  intro short long longer value after ran
  cases ran

theorem Extends.bind {decoder decoder' : Decode α}
    {next next' : α → Decode β} (first : Extends decoder decoder')
    (later : ∀ value, Extends (next value) (next' value)) :
    Extends (decoder >>= next) (decoder' >>= next') := by
  intro short long longer value after ran
  rw [EStateM.run_bind] at ran
  cases here : decoder.run short with
  | error fault middle =>
      rw [here] at ran
      cases ran
  | ok found middle =>
      rw [here] at ran
      obtain ⟨middle', here', longer'⟩ := first _ _ longer _ _ here
      obtain ⟨after', there, last⟩ := later found _ _ longer' _ _ ran
      refine ⟨after', ?_, last⟩
      rw [EStateM.run_bind, here']
      exact there

theorem Extends.map {decoder decoder' : Decode α} (convert : α → β)
    (first : Extends decoder decoder') :
    Extends (convert <$> decoder) (convert <$> decoder') := by
  rw [map_eq_pure_bind, map_eq_pure_bind]
  exact first.bind fun value => Extends.pure _

theorem Extends.forCount {body body' : α → Decode α}
    (each : ∀ acc, Extends (body acc) (body' acc)) (count : Nat) (acc : α) :
    Extends (forCount body count acc) (forCount body' count acc) := by
  induction count generalizing acc with
  | zero => exact Extends.pure acc
  | succ count ih => exact (each acc).bind ih

theorem extends_readHeadSkip (len : Nat) :
    Extends (readHeadSkip len) (readHeadSkip len) := by
  intro short long longer value after ran
  cases ran
  refine ⟨long.moveTo (sizeT (long.cur + len)), rfl, ?_⟩
  rw [longer.cur]
  exact longer.moveTo _

theorem extends_checkPeek (offset len : Nat) :
    Extends (checkPeek offset len) (checkPeek offset len) := by
  intro short long longer value after ran
  rw [checkPeek, EStateM.run_bind, EStateM.run_get] at ran ⊢
  simp only [longer.cur] at ran ⊢
  have size := longer.size_le
  by_cases beyond : sizeT (short.cur + offset + len) > short.size
  · rw [if_pos beyond] at ran
    cases ran
  · rw [if_neg beyond] at ran
    cases ran
    rw [if_neg (by omega)]
    exact ⟨long, rfl, longer⟩

theorem extends_bytesAt (index count : Nat) :
    Extends (bytesAt index count) (bytesAt index count) := by
  intro short long longer value after ran
  rw [bytesAt, EStateM.run_bind, EStateM.run_get] at ran ⊢
  simp only at ran ⊢
  have size := longer.size_le
  by_cases inside : count = 0 ∨ index + count ≤ short.size
  · rw [if_pos inside] at ran
    cases ran
    rw [if_pos (inside.imp_right fun le => le.trans size)]
    refine ⟨long, ?_, longer⟩
    obtain ⟨more, whole⟩ := longer.buf
    have same : (long.buf.drop index).take count =
        (short.buf.drop index).take count := by
      rcases inside with rfl | le
      · rfl
      · unfold BufferReader.size at le
        rw [← whole, List.drop_append_of_le_length (by omega),
          List.take_append_of_le_length (by rw [List.length_drop]; omega)]
    rw [same]
    rfl
  · rw [if_neg inside] at ran
    cases ran

theorem extends_peekBuf (len offset : Nat) :
    Extends (peekBuf len offset) (peekBuf len offset) := by
  refine (extends_checkPeek offset len).bind fun _ => ?_
  intro short long longer value after ran
  rw [EStateM.run_bind, EStateM.run_get] at ran ⊢
  simp only [longer.cur] at ran ⊢
  exact extends_bytesAt _ _ _ _ longer _ _ ran

theorem extends_readTypeBuf (len : Nat) :
    Extends (readTypeBuf len) (readTypeBuf len) :=
  (extends_peekBuf len 0).bind fun _ =>
    (extends_readHeadSkip len).bind fun _ => Extends.pure _

theorem extends_peekByte (offset : Nat) :
    Extends (peekByte offset) (peekByte offset) :=
  (extends_peekBuf 1 offset).bind fun _ => Extends.pure _

theorem extends_peekFromHead : Extends peekFromHead peekFromHead := by
  refine (extends_peekByte 0).bind fun typeTag => ?_
  simp only
  split_ifs
  · exact (extends_peekByte 1).bind fun _ => Extends.pure _
  · exact Extends.pure _

theorem extends_readFromHead : Extends readFromHead readFromHead :=
  extends_peekFromHead.bind fun _ =>
    (extends_readHeadSkip _).bind fun _ => Extends.pure _

theorem extends_readFromHeadNoTag :
    Extends readFromHeadNoTag readFromHeadNoTag := by
  refine (extends_peekByte 0).bind fun typeTag => ?_
  simp only
  split_ifs
  · exact (extends_checkPeek 1 1).bind fun _ =>
      (extends_readHeadSkip 2).bind fun _ => Extends.pure _
  · exact (extends_readHeadSkip 1).bind fun _ => Extends.pure _

theorem extends_readSigned (bits width : Nat) :
    Extends (readSigned bits width) (readSigned bits width) :=
  (extends_readTypeBuf width).bind fun _ => Extends.pure _

/-- A required field is found, or there is no answer. -/
theorem extends_readVia {search search' : Decode (Option (HeadType × UInt8))}
    (finds : Finds search search') {body : HeadType → UInt8 → Decode α}
    (bodies : ∀ headType tag, Extends (body headType tag) (body headType tag))
    (missing : TarsDecodeException) (target : α) :
    Extends (readVia search missing body target true)
      (readVia search' missing body target true) := by
  intro short long longer value after ran
  rw [readVia, EStateM.run_bind, catchDecode_run] at ran ⊢
  cases searched : search.run short with
  | error fault middle =>
      rw [searched] at ran
      cases fault <;> cases ran
  | ok found middle =>
      rw [searched] at ran
      cases found with
      | none => cases ran
      | some head =>
          obtain ⟨middle', searched', longer'⟩ := finds _ _ longer _ _ searched
          rw [searched']
          exact bodies head.1 head.2 _ _ longer' _ _ ran

theorem extends_readUInt32Via
    {search search' : Decode (Option (HeadType × UInt8))}
    (finds : Finds search search') (n : BitVec 32) (tag : UInt8) :
    Extends (readUInt32Via search n tag true)
      (readUInt32Via search' n tag true) := by
  refine Extends.bind (extends_readVia finds ?_ _ _) fun _ => Extends.pure _
  intro headType headTag
  unfold readInt64Body
  split
  · exact Extends.pure _
  · exact extends_readSigned 64 1
  · exact extends_readSigned 64 2
  · exact extends_readSigned 64 4
  · exact extends_readSigned 64 8
  · exact Extends.throw _ _

end Steps

/-- The recursion with more fuel. -/
structure SkipsAlike (fuel fuel' : Nat) : Prop where
  search : ∀ tag, Finds (skipToTagLoop fuel tag) (skipToTagLoop fuel' tag)
  field : ∀ type, Extends (skipFieldWith fuel type) (skipFieldWith fuel' type)
  structEnd : Extends (skipToStructEndWith fuel) (skipToStructEndWith fuel')

section Recursion

variable {fuel fuel' : Nat} (alike : SkipsAlike fuel fuel')

include alike

theorem SkipsAlike.search_succ (tag : UInt8) :
    Finds (skipToTagLoop (fuel + 1) tag) (skipToTagLoop (fuel' + 1) tag) := by
  intro short long longer found after ran
  have size := longer.size_le
  rw [skipToTagLoop, EStateM.run_bind, hasEnd, EStateM.run_bind,
    EStateM.run_get] at ran ⊢
  simp only [longer.cur] at ran ⊢
  by_cases beyond : short.cur > short.size
  · rw [if_pos beyond] at ran
    cases ran
  rw [if_neg beyond, EStateM.run_pure] at ran
  simp only at ran
  by_cases atEnd : short.cur ≥ short.size
  · rw [decide_eq_true atEnd, if_pos rfl] at ran
    cases ran
  rw [decide_eq_false atEnd, if_neg (by decide), EStateM.run_bind] at ran
  rw [if_neg (by omega), EStateM.run_pure]
  simp only
  rw [decide_eq_false (by omega), if_neg (by decide), EStateM.run_bind]
  cases peeked : peekFromHead.run short with
  | error fault middle =>
      rw [peeked] at ran
      cases ran
  | ok head middle =>
      obtain ⟨nextHeadType, nextHeadTag, len⟩ := head
      obtain ⟨middle', peeked', longer'⟩ := extends_peekFromHead _ _ longer _ _ peeked
      rw [peeked] at ran
      rw [peeked']
      simp only at ran ⊢
      by_cases stops : nextHeadType = .structEnd ∨ tag < nextHeadTag
      · rw [if_pos stops] at ran
        cases ran
      rw [if_neg stops] at ran ⊢
      by_cases same : tag = nextHeadTag
      · rw [if_pos same] at ran ⊢
        exact (extends_readHeadSkip len).bind
          (fun _ => Extends.pure _) _ _ longer' _ _ ran
      · rw [if_neg same] at ran ⊢
        rw [EStateM.run_bind] at ran
        cases skipped : (readHeadSkip len).run middle with
        | error fault inner =>
            rw [skipped] at ran
            cases ran
        | ok _ inner =>
            rw [skipped] at ran
            obtain ⟨inner', skipped', longer''⟩ :=
              extends_readHeadSkip len _ _ longer' _ _ skipped
            rw [EStateM.run_bind, skipped']
            simp only at ran ⊢
            rw [EStateM.run_bind] at ran ⊢
            cases passed : (skipFieldWith fuel nextHeadType).run inner with
            | error fault last =>
                rw [passed] at ran
                cases ran
            | ok _ last =>
                rw [passed] at ran
                obtain ⟨last', passed', longest⟩ :=
                  alike.field nextHeadType _ _ longer'' _ _ passed
                rw [passed']
                exact alike.search tag _ _ longest _ _ ran

theorem SkipsAlike.items (count : Nat) :
    Extends (forCount (fun _ => do
        let headType ← readFromHeadNoTag
        skipFieldWith fuel headType) count ())
      (forCount (fun _ => do
        let headType ← readFromHeadNoTag
        skipFieldWith fuel' headType) count ()) :=
  Extends.forCount
    (fun _ => extends_readFromHeadNoTag.bind fun type => alike.field type) _ _

theorem SkipsAlike.field_succ (type : HeadType) :
    Extends (skipFieldWith (fuel + 1) type)
      (skipFieldWith (fuel' + 1) type) := by
  have size := extends_readUInt32Via (alike.search 0) 0 0
  cases type with
  | char => exact extends_readHeadSkip 1
  | short => exact extends_readHeadSkip 2
  | int32 => exact extends_readHeadSkip 4
  | int64 => exact extends_readHeadSkip 8
  | float => exact extends_readHeadSkip 4
  | double => exact extends_readHeadSkip 8
  | string1 =>
      exact (extends_readTypeBuf 1).bind fun len => extends_readHeadSkip _
  | string4 =>
      exact (extends_readTypeBuf 4).bind fun len => extends_readHeadSkip _
  | map => exact size.bind fun size => alike.items _
  | list => exact size.bind fun size => alike.items _
  | simpleList =>
      refine extends_readFromHead.bind fun head => ?_
      obtain ⟨headType, headTag⟩ := head
      simp only
      split_ifs
      · exact Extends.throw _ _
      · exact size.bind fun size => extends_readHeadSkip _
  | structBegin => exact alike.structEnd
  | structEnd => exact Extends.pure _
  | zeroTag => exact Extends.pure _
  | unknown code => exact Extends.throw _ _

theorem SkipsAlike.structEnd_succ :
    Extends (skipToStructEndWith (fuel + 1))
      (skipToStructEndWith (fuel' + 1)) := by
  rw [skipToStructEndWith, skipToStructEndWith]
  refine extends_readFromHeadNoTag.bind fun type => ?_
  refine (alike.field type).bind fun _ => ?_
  split_ifs
  · exact Extends.pure _
  · exact alike.structEnd

end Recursion

theorem skipsAlike {fuel fuel' : Nat} (more : fuel ≤ fuel') :
    SkipsAlike fuel fuel' := by
  induction fuel generalizing fuel' with
  | zero =>
      refine ⟨fun tag => ?_, fun type => ?_, ?_⟩
      · intro short long longer found after ran
        cases ran
      · exact Extends.throw _ _
      · exact Extends.throw _ _
  | succ fuel ih =>
      obtain ⟨fuel', rfl⟩ := Nat.exists_eq_succ_of_ne_zero
        (Nat.ne_of_gt (Nat.zero_lt_of_lt more))
      have alike := ih (Nat.le_of_succ_le_succ more)
      exact ⟨alike.search_succ, alike.field_succ, alike.structEnd_succ⟩

theorem finds_tarsSkipToTag (tag : UInt8) :
    Finds (tarsSkipToTag tag) (tarsSkipToTag tag) := by
  intro short long longer found after ran
  rw [tarsSkipToTag, EStateM.run_bind, EStateM.run_get] at ran ⊢
  simp only at ran ⊢
  have more : budget short ≤ budget long := by
    have size := longer.size_le
    unfold budget
    omega
  exact (skipsAlike more).search tag _ _ longer _ _ ran

theorem extends_readCharBody (tag : UInt8) (headType : HeadType)
    (headTag : UInt8) : Extends (readCharBody tag headType headTag)
      (readCharBody tag headType headTag) := by
  unfold readCharBody
  split
  · exact Extends.pure _
  · exact extends_readSigned 8 1
  · exact Extends.throw _ _

theorem extends_readShortBody (tag : UInt8) (headType : HeadType)
    (headTag : UInt8) : Extends (readShortBody tag headType headTag)
      (readShortBody tag headType headTag) := by
  unfold readShortBody
  split
  · exact Extends.pure _
  · exact extends_readSigned 16 1
  · exact extends_readSigned 16 2
  · exact Extends.throw _ _

theorem extends_readInt32Body (tag : UInt8) (headType : HeadType)
    (headTag : UInt8) : Extends (readInt32Body tag headType headTag)
      (readInt32Body tag headType headTag) := by
  unfold readInt32Body
  split
  · exact Extends.pure _
  · exact extends_readSigned 32 1
  · exact extends_readSigned 32 2
  · exact extends_readSigned 32 4
  · exact Extends.throw _ _

end TarsCpp.Tup
