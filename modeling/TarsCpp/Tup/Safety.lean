import TarsCpp.Tup.Input

/-!
# Decoding hostile input

No decoding step looks outside the buffer or runs out of its recursion bound,
whatever the bytes are, as long as the arithmetic on the cursor does not wrap
around.  The cursor may run past the end of the buffer, because strings and
simple lists are skipped unchecked, but by less than 2^32 bytes, and the next
access is refused.  Every step that consumes a head leaves fewer bytes, which
bounds the recursion and every loop over a count from the wire.
-/

namespace TarsCpp.Tup

open ByteOrder PrefixDecoding

/-- How far one step can move the cursor. -/
structure Reaches (before after : BufferReader) : Prop where
  buf : after.buf = before.buf
  forward : before.cur ≤ after.cur
  bounded : after.cur ≤ max before.cur (before.size + 2 ^ 32)

theorem Reaches.size {before after : BufferReader}
    (reaches : Reaches before after) : after.size = before.size :=
  congrArg List.length reaches.buf

instance : IsPreorder BufferReader Reaches where
  refl _ := ⟨rfl, Nat.le_refl _, Nat.le_max_left _ _⟩
  trans first second third before after := by
    have size := before.size
    have bounded := before.bounded
    have bounded' := after.bounded
    refine ⟨after.buf.trans before.buf,
      Nat.le_trans before.forward after.forward, ?_⟩
    omega

/-- The cursor is so far from wrapping that no guard can wrap either. -/
def Roomy (stream : BufferReader) : Prop :=
  max stream.cur (stream.size + 2 ^ 32) + 8 < sizeLimit

theorem Reaches.roomy {before after : BufferReader}
    (reaches : Reaches before after) (roomy : Roomy before) :
    Roomy after := by
  have size := reaches.size
  have bounded := reaches.bounded
  unfold Roomy at roomy ⊢
  omega

/-- The only fault that the callers of a decoder can see and catch. -/
def Thrown : Fault → Prop
  | .throws _ => True
  | _ => False

/-- A decoder that, from `stream`, only throws and only moves forward. -/
abbrev Safe {α : Type} (decoder : Decode α) (stream : BufferReader)
    (post : α → BufferReader → Prop) : Prop :=
  Keeps Reaches Thrown decoder stream post

/-- The step consumed a byte that was there. -/
def Progress (before after : BufferReader) : Prop :=
  before.cur < before.size ∧ before.cur < after.cur

/-- The step consumed a byte and ended inside the buffer. -/
def Entered (before after : BufferReader) : Prop :=
  before.cur < after.cur ∧ after.cur ≤ after.size

def remaining (stream : BufferReader) : Nat := stream.size - stream.cur

section Macros

variable {stream : BufferReader}

theorem safe_readHeadSkip {len : Nat} (roomy : Roomy stream)
    (bounded : stream.cur + len ≤ stream.size + 2 ^ 32) :
    Safe (readHeadSkip len) stream
      (fun _ after => after = stream.moveTo (stream.cur + len)) := by
  unfold Roomy at roomy
  have exactly : sizeT (stream.cur + len) = stream.cur + len :=
    Nat.mod_eq_of_lt (by omega)
  unfold readHeadSkip
  refine ⟨⟨rfl, ?_, ?_⟩, ?_⟩
  · rw [BufferReader.moveTo_cur, exactly]
    exact Nat.le_add_right _ _
  · rw [BufferReader.moveTo_cur, exactly]
    exact Nat.le_trans bounded (Nat.le_max_right _ _)
  · exact congrArg stream.moveTo exactly

theorem safe_checkPeek {offset len : Nat}
    (room : stream.cur + offset + len < sizeLimit) :
    Safe (checkPeek offset len) stream (fun _ after =>
      after = stream ∧ stream.cur + offset + len ≤ stream.size) := by
  refine Keeps.get.bind ?_
  rintro value after _ ⟨rfl, rfl⟩
  rw [sizeT, Nat.mod_eq_of_lt room]
  split_ifs with beyond
  · exact Keeps.throw trivial
  · exact Keeps.pure ⟨rfl, Nat.not_lt.mp beyond⟩

theorem safe_bytesAt {index count : Nat}
    (inside : count = 0 ∨ index + count ≤ stream.size) :
    Safe (bytesAt index count) stream (fun bytes after =>
      after = stream ∧ bytes.length = count) := by
  refine Keeps.get.bind ?_
  rintro value after _ ⟨rfl, rfl⟩
  rw [if_pos inside]
  refine Keeps.pure ⟨rfl, ?_⟩
  unfold BufferReader.size at inside
  rw [List.length_take, List.length_drop]
  omega

theorem safe_peekBuf {offset len : Nat}
    (room : stream.cur + offset + len < sizeLimit) :
    Safe (peekBuf len offset) stream (fun bytes after => after = stream ∧
      bytes.length = len ∧ stream.cur + offset + len ≤ stream.size) := by
  refine (safe_checkPeek room).bind ?_
  rintro _ after _ ⟨rfl, inside⟩
  refine Keeps.get.bind ?_
  rintro value after' _ ⟨rfl, rfl⟩
  have exactly : sizeT (after'.cur + offset) = after'.cur + offset :=
    Nat.mod_eq_of_lt (by omega)
  rw [exactly]
  refine (safe_bytesAt (.inr inside)).mono ?_
  rintro bytes final _ ⟨rfl, length⟩
  exact ⟨rfl, length, inside⟩

theorem safe_readTypeBuf {len : Nat} (roomy : Roomy stream)
    (room : stream.cur + len < sizeLimit) :
    Safe (readTypeBuf len) stream (fun bytes after =>
      after = stream.moveTo (stream.cur + len) ∧ bytes.length = len ∧
        stream.cur + len ≤ stream.size) := by
  refine (safe_peekBuf room).bind ?_
  rintro bytes after _ ⟨rfl, length, inside⟩
  refine (safe_readHeadSkip roomy (by omega)).bind ?_
  rintro _ final _ moved
  exact Keeps.pure ⟨moved, length, inside⟩

theorem safe_peekByte {offset : Nat} (roomy : Roomy stream)
    (near : offset ≤ 1) :
    Safe (peekByte offset) stream (fun _ after => after = stream ∧
      stream.cur + offset + 1 ≤ stream.size) := by
  have room : stream.cur + offset + 1 < sizeLimit := by
    unfold Roomy at roomy
    omega
  refine (safe_peekBuf room).bind ?_
  rintro bytes after _ ⟨rfl, _, inside⟩
  exact Keeps.pure ⟨rfl, inside⟩

theorem safe_peekFromHead (roomy : Roomy stream) :
    Safe peekFromHead stream (fun head after => after = stream ∧
      0 < head.2.2 ∧ stream.cur + head.2.2 ≤ stream.size) := by
  refine (safe_peekByte roomy (Nat.zero_le 1)).bind ?_
  rintro typeTag after _ ⟨rfl, inside⟩
  simp only
  split_ifs with long
  · refine (safe_peekByte roomy (Nat.le_refl 1)).bind ?_
    rintro tag final _ ⟨rfl, inside'⟩
    exact Keeps.pure ⟨rfl, Nat.succ_pos _, inside'⟩
  · exact Keeps.pure ⟨rfl, Nat.succ_pos _, inside⟩

theorem safe_enter {len : Nat} (roomy : Roomy stream) (positive : 0 < len)
    (inside : stream.cur + len ≤ stream.size) :
    Safe (readHeadSkip len) stream (fun _ after => Entered stream after) := by
  refine (safe_readHeadSkip roomy (by omega)).mono ?_
  rintro _ after _ rfl
  exact ⟨Nat.lt_add_of_pos_right positive, inside⟩

theorem safe_readFromHead (roomy : Roomy stream) :
    Safe readFromHead stream (fun _ after => Entered stream after) := by
  refine (safe_peekFromHead roomy).bind ?_
  rintro ⟨headType, tag, len⟩ after _ ⟨rfl, positive, inside⟩
  refine (safe_enter roomy positive inside).bind ?_
  rintro _ final _ entered
  exact Keeps.pure entered

theorem safe_readFromHeadNoTag (roomy : Roomy stream) :
    Safe readFromHeadNoTag stream (fun _ after => Entered stream after) := by
  refine (safe_peekByte roomy (Nat.zero_le 1)).bind ?_
  rintro typeTag after _ ⟨rfl, inside⟩
  simp only
  split_ifs with long
  · have room : after.cur + 1 + 1 < sizeLimit := by
      unfold Roomy at roomy
      omega
    refine (safe_checkPeek room).bind ?_
    rintro _ final _ ⟨rfl, inside'⟩
    refine (safe_enter roomy (Nat.succ_pos 1) inside').bind ?_
    rintro _ last _ entered
    exact Keeps.pure entered
  · refine (safe_enter roomy Nat.one_pos inside).bind ?_
    rintro _ last _ entered
    exact Keeps.pure entered

theorem safe_hasEnd :
    Safe hasEnd stream (fun ended after => after = stream ∧
      stream.cur ≤ stream.size ∧ (ended = false → stream.cur < stream.size)) := by
  refine Keeps.get.bind ?_
  rintro value after _ ⟨rfl, rfl⟩
  split_ifs with beyond
  · exact Keeps.throw trivial
  · refine Keeps.pure ⟨rfl, Nat.not_lt.mp beyond, ?_⟩
    intro more
    exact Nat.not_le.mp (of_decide_eq_false more)

theorem safe_catchDecode {α : Type} {computation : Decode α} {fallback : α}
    {post : α → BufferReader → Prop} (safe : Safe computation stream post)
    (caught : ∀ after, post fallback after) :
    Safe (catchDecode computation fallback) stream post := by
  unfold Safe Keeps Satisfies at safe ⊢
  rw [catchDecode_run]
  cases result : computation.run stream with
  | ok value after =>
      rw [result] at safe
      exact safe
  | error fault after =>
      rw [result] at safe
      cases fault with
      | throws exception => exact ⟨safe.1, caught after⟩
      | outOfBounds index => exact safe
      | outOfFuel => exact safe

/-- What a search promises: if it found the tag, it consumed the head. -/
def Found (before : BufferReader) (found : Option (HeadType × UInt8))
    (after : BufferReader) : Prop :=
  found.isSome → Entered before after

theorem Entered.progress {before middle after : BufferReader}
    (entered : Entered before middle) (reached : Reaches before middle)
    (later : Reaches middle after) : Progress before after := by
  obtain ⟨consumed, inside⟩ := entered
  rw [reached.size] at inside
  exact ⟨Nat.lt_of_lt_of_le consumed inside,
    Nat.lt_of_lt_of_le consumed later.forward⟩

theorem Entered.remaining_lt {before after : BufferReader}
    (entered : Entered before after) (reached : Reaches before after) :
    remaining after < remaining before := by
  obtain ⟨consumed, inside⟩ := entered
  have size := reached.size
  unfold remaining
  omega

theorem Progress.remaining_lt {before after : BufferReader}
    (progress : Progress before after) (reached : Reaches before after) :
    remaining after < remaining before := by
  obtain ⟨inside, consumed⟩ := progress
  have size := reached.size
  unfold remaining
  omega

theorem Reaches.remaining_le {before after : BufferReader}
    (reached : Reaches before after) : remaining after ≤ remaining before := by
  have size := reached.size
  have forward := reached.forward
  unfold remaining
  omega

/-- A required field makes progress, an absent optional one need not. -/
theorem safe_readVia {α : Type} {search : Decode (Option (HeadType × UInt8))}
    {missing : TarsDecodeException} {body : HeadType → UInt8 → Decode α}
    {target : α} {isRequire : Bool} {post : α → BufferReader → Prop}
    (searchSafe : Safe search stream (Found stream))
    (bodySafe : ∀ headType headTag after, Reaches stream after →
      Entered stream after → Safe (body headType headTag) after post) :
    Safe (readVia search missing body target isRequire) stream
      (fun value after => isRequire = true →
        Progress stream after ∧ post value after) := by
  have caught : ∀ after, Found stream none after := by
    intro after absent
    cases absent
  refine (safe_catchDecode searchSafe caught).bind ?_
  intro found after reached entered
  cases found with
  | none =>
      cases isRequire with
      | true => exact Keeps.throw trivial
      | false =>
          refine Keeps.pure ?_
          intro required
          cases required
  | some head =>
      have inside : Entered stream after := entered rfl
      refine (bodySafe head.1 head.2 after reached inside).mono ?_
      intro value final later holds _
      exact ⟨inside.progress reached later, holds⟩

theorem safe_readSigned (bits : Nat) {width : Nat} (small : width ≤ 8)
    (roomy : Roomy stream) :
    Safe (readSigned bits width) stream
      (fun _ after => after.cur ≤ after.size) := by
  have room : stream.cur + width < sizeLimit := by
    unfold Roomy at roomy
    omega
  refine (safe_readTypeBuf roomy room).bind ?_
  rintro bytes after _ ⟨rfl, _, inside⟩
  exact Keeps.pure inside

theorem safe_readInt64Body (roomy : Roomy stream) (tag : UInt8)
    (headType : HeadType) (headTag : UInt8) :
    Safe (readInt64Body tag headType headTag) stream (fun _ after =>
      stream.cur ≤ stream.size → after.cur ≤ after.size) := by
  have word : ∀ width, width ≤ 8 → Safe (readSigned 64 width) stream
      (fun _ after => stream.cur ≤ stream.size → after.cur ≤ after.size) := by
    intro width small
    exact (safe_readSigned 64 small roomy).mono fun _ _ _ inside _ => inside
  unfold readInt64Body
  split
  · exact Keeps.pure id
  · exact word 1 (by decide)
  · exact word 2 (by decide)
  · exact word 4 (by decide)
  · exact word 8 (by decide)
  · exact Keeps.throw trivial

theorem safe_readUInt32Via {search : Decode (Option (HeadType × UInt8))}
    (roomy : Roomy stream) (searchSafe : Safe search stream (Found stream))
    (n : BitVec 32) (tag : UInt8) :
    Safe (readUInt32Via search n tag true) stream (fun _ after =>
      Progress stream after ∧ after.cur ≤ after.size) := by
  have body : ∀ headType headTag after, Reaches stream after →
      Entered stream after → Safe (readInt64Body tag headType headTag) after
        (fun _ final => final.cur ≤ final.size) := by
    intro headType headTag after reached entered
    exact (safe_readInt64Body (reached.roomy roomy) tag headType headTag).mono
      fun _ _ _ kept => kept entered.2
  refine (safe_readVia searchSafe body).bind ?_
  intro i after _ holds
  exact Keeps.pure (holds rfl)

end Macros

/-- The types whose payload is skipped without looking at it. -/
def HeadType.Fixed : HeadType → Prop
  | .char | .short | .int32 | .int64 | .float | .double => True
  | _ => False

/-- What `fuel` is enough for, by the number of bytes that are left. -/
structure SkipsSafely (fuel : Nat) : Prop where
  search : ∀ stream tag, Roomy stream → 2 * remaining stream + 2 ≤ fuel →
    Safe (skipToTagLoop fuel tag) stream (Found stream)
  field : ∀ stream type, Roomy stream →
    (stream.cur ≤ stream.size ∨ ¬type.Fixed) →
    2 * remaining stream + 3 ≤ fuel →
    Safe (skipFieldWith fuel type) stream (fun _ _ => True)
  structEnd : ∀ stream, Roomy stream → 2 * remaining stream + 2 ≤ fuel →
    Safe (skipToStructEndWith fuel) stream (fun _ _ => True)

/-- One item of a container: a head and its field. -/
def skipItem (fuel : Nat) (_ : Unit) : Decode Unit := do
  let headType ← readFromHeadNoTag
  skipFieldWith fuel headType

section Recursion

variable {fuel : Nat} {stream : BufferReader}

private theorem safe_search_succ (skips : SkipsSafely fuel) (tag : UInt8)
    (roomy : Roomy stream) (enough : 2 * remaining stream + 2 ≤ fuel + 1) :
    Safe (skipToTagLoop (fuel + 1) tag) stream (Found stream) := by
  rw [skipToTagLoop]
  refine safe_hasEnd.bind ?_
  rintro ended after _ ⟨rfl, _, _⟩
  split_ifs with atEnd
  · refine Keeps.pure ?_
    intro found
    cases found
  · refine (safe_peekFromHead roomy).bind ?_
    rintro ⟨headType, headTag, len⟩ _ _ ⟨rfl, positive, inside⟩
    simp only
    split_ifs with stop same
    · refine Keeps.pure ?_
      intro found
      cases found
    · refine (safe_enter roomy positive inside).bind ?_
      rintro _ final _ entered
      exact Keeps.pure fun _ => entered
    · refine (safe_enter roomy positive inside).bind ?_
      rintro _ entered reached inside'
      have fewer := inside'.remaining_lt reached
      have roomy' := reached.roomy roomy
      refine (skips.field entered headType roomy' (.inl inside'.2)
        (by omega)).bind ?_
      rintro _ skipped later _
      have fewer' := later.remaining_le
      refine (skips.search skipped tag (later.roomy roomy')
        (by omega)).mono ?_
      intro found final _ entered' present
      obtain ⟨consumed, inside''⟩ := entered' present
      refine ⟨?_, inside''⟩
      have forward := later.forward
      have started := inside'.1
      omega

theorem safe_skipItem (skips : SkipsSafely fuel) (roomy : Roomy stream)
    (enough : 2 * remaining stream + 1 ≤ fuel) :
    Safe (skipItem fuel ()) stream
      (fun _ after => remaining after < remaining stream) := by
  refine (safe_readFromHeadNoTag roomy).bind ?_
  intro headType after reached entered
  have fewer := entered.remaining_lt reached
  refine (skips.field after headType (reached.roomy roomy) (.inl entered.2)
    (by omega)).mono ?_
  intro _ final later _
  exact Nat.lt_of_le_of_lt later.remaining_le fewer

/-- The count of a container and its items, as `skipField` walks over them. -/
private theorem safe_skipItems (skips : SkipsSafely fuel)
    (roomy : Roomy stream) (enough : 2 * remaining stream + 2 ≤ fuel)
    (count : BitVec 32 → Nat) :
    Safe (do
        let size ← readUInt32Via (skipToTagLoop fuel 0) 0 0 true
        forCount (skipItem fuel) (count size) ()) stream
      (fun _ _ => True) := by
  have search := skips.search stream 0 roomy enough
  refine (safe_readUInt32Via roomy search 0 0).bind ?_
  intro size after reached _
  apply Keeps.forCount
  intro _ later reached'
  have fewer := reached.remaining_le
  have fewer' := reached'.remaining_le
  have turn := safe_skipItem skips (reached'.roomy (reached.roomy roomy))
    (by omega)
  exact turn.mono fun _ _ _ _ => trivial

private theorem safe_fixed {len : Nat} (roomy : Roomy stream)
    (small : len ≤ 8) (inside : stream.cur ≤ stream.size) :
    Safe (readHeadSkip len) stream (fun _ _ => True) :=
  (safe_readHeadSkip roomy (by omega)).mono fun _ _ _ _ => trivial

private theorem safe_skipString {width : Nat} (small : width ≤ 4)
    (roomy : Roomy stream) :
    Safe (do
        let len ← readTypeBuf width
        readHeadSkip (ofBigEndian len)) stream (fun _ _ => True) := by
  have room : stream.cur + width < sizeLimit := by
    unfold Roomy at roomy
    omega
  refine (safe_readTypeBuf roomy room).bind ?_
  rintro bytes after reached ⟨rfl, length, inside⟩
  have bound := ofBigEndian_lt bytes
  rw [length] at bound
  have capacity : 256 ^ width ≤ 256 ^ 4 := Nat.pow_le_pow_right (by decide)
    small
  refine (safe_readHeadSkip (reached.roomy roomy) ?_).mono
    fun _ _ _ _ => trivial
  rw [BufferReader.moveTo_cur, BufferReader.moveTo_size]
  omega

private theorem safe_field_succ (skips : SkipsSafely fuel) (type : HeadType)
    (roomy : Roomy stream)
    (inside : stream.cur ≤ stream.size ∨ ¬type.Fixed)
    (enough : 2 * remaining stream + 3 ≤ fuel + 1) :
    Safe (skipFieldWith (fuel + 1) type) stream (fun _ _ => True) := by
  have fixed : type.Fixed → stream.cur ≤ stream.size := by
    intro isFixed
    rcases inside with inside | varying
    · exact inside
    · exact absurd isFixed varying
  cases type with
  | char => exact safe_fixed roomy (by decide) (fixed trivial)
  | short => exact safe_fixed roomy (by decide) (fixed trivial)
  | int32 => exact safe_fixed roomy (by decide) (fixed trivial)
  | int64 => exact safe_fixed roomy (by decide) (fixed trivial)
  | float => exact safe_fixed roomy (by decide) (fixed trivial)
  | double => exact safe_fixed roomy (by decide) (fixed trivial)
  | string1 => exact safe_skipString (by decide) roomy
  | string4 => exact safe_skipString (by decide) roomy
  | map =>
      exact safe_skipItems skips roomy (by omega) fun size => (size * 2).toNat
  | list => exact safe_skipItems skips roomy (by omega) BitVec.toNat
  | simpleList =>
      refine (safe_readFromHead roomy).bind ?_
      rintro ⟨headType, headTag⟩ after reached entered
      simp only
      split_ifs with different
      · exact Keeps.throw trivial
      · have fewer := reached.remaining_le
        have roomy' := reached.roomy roomy
        have search := skips.search after 0 roomy' (by omega)
        refine (safe_readUInt32Via roomy' search 0 0).bind ?_
        rintro size final later ⟨_, inside'⟩
        have small := size.isLt
        exact (safe_readHeadSkip (later.roomy roomy') (by omega)).mono
          fun _ _ _ _ => trivial
  | structBegin => exact skips.structEnd stream roomy (by omega)
  | structEnd => exact Keeps.pure trivial
  | zeroTag => exact Keeps.pure trivial
  | unknown code => exact Keeps.throw trivial

private theorem safe_structEnd_succ (skips : SkipsSafely fuel)
    (roomy : Roomy stream) (enough : 2 * remaining stream + 2 ≤ fuel + 1) :
    Safe (skipToStructEndWith (fuel + 1)) stream (fun _ _ => True) := by
  rw [skipToStructEndWith]
  refine (safe_readFromHeadNoTag roomy).bind ?_
  intro headType after reached entered
  have fewer := entered.remaining_lt reached
  have roomy' := reached.roomy roomy
  refine (skips.field after headType roomy' (.inl entered.2)
    (by omega)).bind ?_
  intro _ final later _
  have fewer' := later.remaining_le
  split_ifs with ended
  · exact Keeps.pure trivial
  · exact skips.structEnd final (later.roomy roomy') (by omega)

end Recursion

theorem skipsSafely (fuel : Nat) : SkipsSafely fuel := by
  induction fuel with
  | zero =>
      refine ⟨?_, ?_, ?_⟩
      · intro stream tag _ enough
        omega
      · intro stream type _ _ enough
        omega
      · intro stream _ enough
        omega
  | succ fuel induction =>
      refine ⟨?_, ?_, ?_⟩
      · intro stream tag roomy enough
        exact safe_search_succ induction tag roomy enough
      · intro stream type roomy inside enough
        exact safe_field_succ induction type roomy inside enough
      · intro stream roomy enough
        exact safe_structEnd_succ induction roomy enough

end TarsCpp.Tup
