import TarsCpp.Tup.Safety

/-!
# The members of `TarsInputStream` on hostile input

Each `read` overload, `readUnknown` and the skipping members are safe from any
cursor that leaves room; what a required field takes is at least a byte.
-/

namespace TarsCpp.Tup

open ByteOrder PrefixDecoding

section Overloads

variable {stream : BufferReader}

theorem safe_tarsSkipToTag (roomy : Roomy stream) (tag : UInt8) :
    Safe (tarsSkipToTag tag) stream (Found stream) := by
  refine Keeps.get.bind ?_
  rintro value after _ ⟨rfl, rfl⟩
  have enough : 2 * remaining after + 2 ≤ budget after := by
    unfold budget remaining
    omega
  exact (skipsSafely (budget after)).search after tag roomy enough

theorem safe_skipToStructEnd (roomy : Roomy stream) :
    Safe skipToStructEnd stream (fun _ _ => True) := by
  refine Keeps.get.bind ?_
  rintro value after _ ⟨rfl, rfl⟩
  have enough : 2 * remaining after + 2 ≤ budget after := by
    unfold budget remaining
    omega
  exact (skipsSafely (budget after)).structEnd after roomy enough

theorem safe_skipFieldWith_budget (roomy : Roomy stream) {type : HeadType}
    (inside : stream.cur ≤ stream.size ∨ ¬type.Fixed) :
    Safe (skipFieldWith (budget stream) type) stream (fun _ _ => True) := by
  have enough : 2 * remaining stream + 3 ≤ budget stream := by
    unfold budget remaining
    omega
  exact (skipsSafely (budget stream)).field stream type roomy inside enough

theorem safe_skipField (roomy : Roomy stream) {type : UInt8}
    (inside : stream.cur ≤ stream.size ∨ ¬(HeadType.ofCode type).Fixed) :
    Safe (skipField type) stream (fun _ _ => True) := by
  refine Keeps.get.bind ?_
  rintro value after _ ⟨rfl, rfl⟩
  exact safe_skipFieldWith_budget roomy inside

private theorem safe_integer (bits : Nat) {width : Nat} (small : width ≤ 8)
    (roomy : Roomy stream) :
    Safe (readSigned bits width) stream (fun _ _ => True) :=
  (safe_readSigned bits small roomy).mono fun _ _ _ _ => trivial

private theorem safe_readWord {width : Nat} (small : width ≤ 8)
    (roomy : Roomy stream) :
    Safe (readWord width) stream (fun _ _ => True) := by
  have room : stream.cur + width < sizeLimit := by
    unfold Roomy at roomy
    omega
  refine (safe_readTypeBuf roomy room).bind ?_
  intro bytes after _ _
  exact Keeps.pure trivial

private theorem safe_readFloatAsDouble (roomy : Roomy stream) :
    Safe readFloatAsDouble stream (fun _ _ => True) := by
  have room : stream.cur + 4 < sizeLimit := by
    unfold Roomy at roomy
    omega
  refine (safe_readTypeBuf roomy room).bind ?_
  intro bytes after _ _
  exact Keeps.pure trivial

variable (tag : UInt8) (headType : HeadType) (headTag : UInt8)

private theorem safe_readCharBody (roomy : Roomy stream) :
    Safe (readCharBody tag headType headTag) stream (fun _ _ => True) := by
  unfold readCharBody
  split
  · exact Keeps.pure trivial
  · exact safe_integer 8 (by decide) roomy
  · exact Keeps.throw trivial

private theorem safe_readShortBody (roomy : Roomy stream) :
    Safe (readShortBody tag headType headTag) stream (fun _ _ => True) := by
  unfold readShortBody
  split
  · exact Keeps.pure trivial
  · exact safe_integer 16 (by decide) roomy
  · exact safe_integer 16 (by decide) roomy
  · exact Keeps.throw trivial

private theorem safe_readInt32Body (roomy : Roomy stream) :
    Safe (readInt32Body tag headType headTag) stream (fun _ _ => True) := by
  unfold readInt32Body
  split
  · exact Keeps.pure trivial
  · exact safe_integer 32 (by decide) roomy
  · exact safe_integer 32 (by decide) roomy
  · exact safe_integer 32 (by decide) roomy
  · exact Keeps.throw trivial

private theorem safe_readFloatBody (roomy : Roomy stream) :
    Safe (readFloatBody tag headType headTag) stream (fun _ _ => True) := by
  unfold readFloatBody
  split
  · exact Keeps.pure trivial
  · exact @safe_readWord stream 4 (by decide) roomy
  · exact Keeps.throw trivial

private theorem safe_readDoubleBody (roomy : Roomy stream) :
    Safe (readDoubleBody tag headType headTag) stream (fun _ _ => True) := by
  unfold readDoubleBody
  split
  · exact Keeps.pure trivial
  · exact safe_readFloatAsDouble roomy
  · exact @safe_readWord stream 8 (by decide) roomy
  · exact Keeps.throw trivial

/-- Reading as many bytes as a word from the wire says. -/
private theorem safe_readBytes {len : Nat} (roomy : Roomy stream)
    (inside : stream.cur ≤ stream.size) (small : len < 2 ^ 32) :
    Safe (readTypeBuf len) stream (fun _ _ => True) := by
  have room : stream.cur + len < sizeLimit := by
    unfold Roomy at roomy
    omega
  exact (safe_readTypeBuf roomy room).mono fun _ _ _ _ => trivial

private theorem safe_readStringBody (roomy : Roomy stream) :
    Safe (readStringBody tag headType headTag) stream (fun _ _ => True) := by
  have room : stream.cur + 4 < sizeLimit := by
    unfold Roomy at roomy
    omega
  unfold readStringBody
  split
  · refine (safe_readTypeBuf roomy (by omega)).bind ?_
    rintro bytes after reached ⟨rfl, length, inside⟩
    have bound := ofBigEndian_lt bytes
    rw [length] at bound
    exact safe_readBytes (reached.roomy roomy) inside (by omega)
  · refine (safe_readTypeBuf roomy room).bind ?_
    rintro bytes after reached ⟨rfl, length, inside⟩
    have bound := ofBigEndian_lt bytes
    rw [length] at bound
    simp only
    split_ifs with tooLong
    · exact Keeps.throw trivial
    · exact safe_readBytes (reached.roomy roomy) inside (by omega)
  · exact Keeps.throw trivial

private theorem safe_readCount (roomy : Roomy stream)
    (invalid : Nat → String) :
    Safe (readCount invalid) stream
      (fun count after => count < 2 ^ 32 ∧ after.cur ≤ after.size) := by
  refine (safe_readUInt32Via roomy (safe_tarsSkipToTag roomy 0) 0 0).bind ?_
  rintro size after _ ⟨_, inside⟩
  refine Keeps.get.bind ?_
  rintro value final _ ⟨rfl, rfl⟩
  split_ifs with tooMany
  · exact Keeps.throw trivial
  · exact Keeps.pure ⟨size.isLt, inside⟩

private theorem safe_checkSkip {len : Nat}
    (room : stream.cur + len < sizeLimit) :
    Safe (checkSkip len) stream (fun _ after =>
      after = stream ∧ stream.cur + len ≤ stream.size) := by
  have exactly : sizeT (stream.cur + len) = stream.cur + len :=
    Nat.mod_eq_of_lt room
  refine Keeps.get.bind ?_
  rintro value after _ ⟨rfl, rfl⟩
  rw [exactly]
  split_ifs with fits
  · exact Keeps.pure ⟨rfl, fits.2⟩
  · exact Keeps.throw trivial

private theorem safe_readBuf {len : Nat} (roomy : Roomy stream)
    (inside : stream.cur ≤ stream.size) (small : len < 2 ^ 32) :
    Safe (readBuf len) stream (fun _ _ => True) := by
  have room : stream.cur + len < sizeLimit := by
    unfold Roomy at roomy
    omega
  refine (safe_checkSkip room).bind ?_
  rintro _ after _ ⟨rfl, _⟩
  exact safe_readBytes roomy inside small

theorem safe_readCharItem (roomy : Roomy stream) (done : List UInt8) :
    Safe (readCharItem done) stream
      (fun _ after => remaining after < remaining stream) := by
  have body : ∀ headType headTag after, Reaches stream after →
      Entered stream after →
      Safe (readCharBody 0 headType headTag) after (fun _ _ => True) := by
    intro headType headTag after reached _
    exact safe_readCharBody 0 headType headTag (reached.roomy roomy)
  refine (safe_readVia (safe_tarsSkipToTag roomy 0) body).bind ?_
  intro c after reached holds
  exact Keeps.pure ((holds rfl).1.remaining_lt reached)

private theorem safe_readCharVectorBody (roomy : Roomy stream) :
    Safe (readCharVectorBody tag headType headTag) stream
      (fun _ _ => True) := by
  unfold readCharVectorBody
  split
  · refine (safe_readFromHead roomy).bind ?_
    rintro ⟨hheadType, hheadTag⟩ after reached entered
    simp only
    split_ifs with different
    · exact Keeps.throw trivial
    · have roomy' := reached.roomy roomy
      refine (safe_readCount roomy' _).bind ?_
      rintro size final later ⟨small, inside⟩
      exact safe_readBuf (later.roomy roomy') inside small
  · refine (safe_readCount roomy _).bind ?_
    intro size after reached _
    apply Keeps.forCount
    intro done final later
    have roomy' := later.roomy (reached.roomy roomy)
    exact (safe_readCharItem roomy' done).mono fun _ _ _ _ => trivial
  · exact Keeps.throw trivial

/-- A decoder for the elements of a container: wherever it starts, it takes at
least a byte. -/
def ElementSafe (decoder : Decode Value) : Prop :=
  ∀ stream, Roomy stream → Safe decoder stream
    (fun _ after => remaining after < remaining stream)

theorem safe_readVectorItem {readElem : Value → Decode Value}
    (elemSafe : ∀ target, ElementSafe (readElem target)) (fresh : Value)
    (old done : List Value) (roomy : Roomy stream) :
    Safe (readVectorItem readElem fresh old done) stream
      (fun _ after => remaining after < remaining stream) := by
  refine (elemSafe _ stream roomy).bind ?_
  intro item after _ fewer
  exact Keeps.pure fewer

theorem safe_readSetItem {readElem : Decode Value}
    (elemSafe : ElementSafe readElem) (less : Less) (items : List Value)
    (roomy : Roomy stream) :
    Safe (readSetItem less readElem items) stream
      (fun _ after => remaining after < remaining stream) := by
  refine (elemSafe stream roomy).bind ?_
  intro item after _ fewer
  exact Keeps.pure fewer

theorem safe_readMapEntry {readKey readValue : Decode Value}
    (keySafe : ElementSafe readKey) (valueSafe : ElementSafe readValue)
    (less : Less) (entries : List (Value × Value)) (roomy : Roomy stream) :
    Safe (readMapEntry less readKey readValue entries) stream
      (fun _ after => remaining after < remaining stream) := by
  refine (keySafe stream roomy).bind ?_
  intro key after reached fewer
  refine (valueSafe after (reached.roomy roomy)).bind ?_
  intro value final _ fewer'
  exact Keeps.pure (Nat.lt_trans fewer' fewer)

/-- A counted loop whose turns are safe, behind its count. -/
private theorem safe_countedLoop {α : Type} {body : α → Decode α}
    (turn : ∀ stream acc, Roomy stream → Safe (body acc) stream
      (fun _ after => remaining after < remaining stream))
    (invalid : Nat → String) (acc : α) (roomy : Roomy stream) :
    Safe (do
        let size ← readCount invalid
        forCount body size acc) stream (fun _ _ => True) := by
  refine (safe_readCount roomy invalid).bind ?_
  intro size after reached _
  apply Keeps.forCount
  intro acc final later
  have roomy' := later.roomy (reached.roomy roomy)
  exact (turn final acc roomy').mono fun _ _ _ _ => trivial

private theorem safe_readVectorBody {readElem : Value → Decode Value}
    (elemSafe : ∀ target, ElementSafe (readElem target)) (fresh : Value)
    (old : List Value) (roomy : Roomy stream) :
    Safe (readVectorBody readElem fresh old tag headType headTag) stream
      (fun _ _ => True) := by
  unfold readVectorBody
  split
  · exact safe_countedLoop (fun _ done roomy' =>
      safe_readVectorItem elemSafe fresh old done roomy') _ [] roomy
  · exact Keeps.throw trivial

private theorem safe_readSetBody {readElem : Decode Value}
    (elemSafe : ElementSafe readElem) (less : Less) (old : List Value)
    (roomy : Roomy stream) :
    Safe (readSetBody less readElem old tag headType headTag) stream
      (fun _ _ => True) := by
  unfold readSetBody
  split
  · exact safe_countedLoop (fun _ items roomy' =>
      safe_readSetItem elemSafe less items roomy') _ old roomy
  · exact Keeps.throw trivial

private theorem safe_readMapBody {readKey readValue : Decode Value}
    (keySafe : ElementSafe readKey) (valueSafe : ElementSafe readValue)
    (less : Less) (roomy : Roomy stream) :
    Safe (readMapBody less readKey readValue tag headType headTag) stream
      (fun _ _ => True) := by
  unfold readMapBody
  split
  · exact safe_countedLoop (fun _ entries roomy' =>
      safe_readMapEntry keySafe valueSafe less entries roomy') _ [] roomy
  · exact Keeps.throw trivial

private theorem safe_readStructBody
    {readFields : Decode (List (UInt8 × Value))}
    (fieldsSafe : ∀ stream, Roomy stream →
      Safe readFields stream (fun _ _ => True)) (roomy : Roomy stream) :
    Safe (readStructBody readFields tag headType headTag) stream
      (fun _ _ => True) := by
  unfold readStructBody
  split_ifs with begins
  · refine (fieldsSafe stream roomy).bind ?_
    intro fields after reached _
    refine (safe_skipToStructEnd (reached.roomy roomy)).bind ?_
    intro _ final _ _
    exact Keeps.pure trivial
  · exact Keeps.throw trivial

end Overloads

/-- `read` around a safe body: a required field takes at least a byte. -/
private theorem safe_field {body : HeadType → UInt8 → Decode Value}
    (bodySafe : ∀ headType headTag stream, Roomy stream →
      Safe (body headType headTag) stream (fun _ _ => True))
    (missing : TarsDecodeException) (target : Value) (tag : UInt8)
    (isRequire : Bool) {stream : BufferReader} (roomy : Roomy stream) :
    Safe (readVia (tarsSkipToTag tag) missing body target isRequire) stream
      (fun _ after => isRequire = true →
        remaining after < remaining stream) := by
  have inner : ∀ headType headTag after, Reaches stream after →
      Entered stream after →
      Safe (body headType headTag) after (fun _ _ => True) := by
    intro headType headTag after reached _
    exact bodySafe headType headTag after (reached.roomy roomy)
  refine (safe_readVia (safe_tarsSkipToTag roomy tag) inner).mono ?_
  intro value after reached holds required
  exact (holds required).1.remaining_lt reached

theorem elementSafe_of_body
    {body : HeadType → UInt8 → Decode Value}
    (bodySafe : ∀ headType headTag stream, Roomy stream →
      Safe (body headType headTag) stream (fun _ _ => True))
    (missing : TarsDecodeException) (target : Value) (tag : UInt8) :
    ElementSafe (readVia (tarsSkipToTag tag) missing body target true) := by
  intro stream roomy
  refine (safe_field bodySafe missing target tag true roomy).mono ?_
  intro value after _ holds
  exact holds rfl

mutual

theorem safe_readBody (type : WireType) (target : Value) (tag : UInt8)
    (headType : HeadType) (headTag : UInt8) (stream : BufferReader)
    (roomy : Roomy stream) :
    Safe (readBody type target tag headType headTag) stream
      (fun _ _ => True) := by
  cases type with
  | bool =>
      rw [readBody]
      exact (safe_readCharBody tag headType headTag roomy).map _
        fun _ _ _ _ => trivial
  | char =>
      rw [readBody]
      exact (safe_readCharBody tag headType headTag roomy).map _
        fun _ _ _ _ => trivial
  | uint8 =>
      rw [readBody]
      exact (safe_readShortBody tag headType headTag roomy).map _
        fun _ _ _ _ => trivial
  | short =>
      rw [readBody]
      exact (safe_readShortBody tag headType headTag roomy).map _
        fun _ _ _ _ => trivial
  | uint16 =>
      rw [readBody]
      exact (safe_readInt32Body tag headType headTag roomy).map _
        fun _ _ _ _ => trivial
  | int32 =>
      rw [readBody]
      exact (safe_readInt32Body tag headType headTag roomy).map _
        fun _ _ _ _ => trivial
  | uint32 =>
      rw [readBody]
      exact (safe_readInt64Body roomy tag headType headTag).map _
        fun _ _ _ _ => trivial
  | int64 =>
      rw [readBody]
      exact (safe_readInt64Body roomy tag headType headTag).map _
        fun _ _ _ _ => trivial
  | float =>
      rw [readBody]
      exact (safe_readFloatBody tag headType headTag roomy).map _
        fun _ _ _ _ => trivial
  | double =>
      rw [readBody]
      exact (safe_readDoubleBody tag headType headTag roomy).map _
        fun _ _ _ _ => trivial
  | string =>
      rw [readBody]
      exact (safe_readStringBody tag headType headTag roomy).map _
        fun _ _ _ _ => trivial
  | charVector =>
      rw [readBody]
      exact (safe_readCharVectorBody tag headType headTag roomy).map _
        fun _ _ _ _ => trivial
  | vector elem =>
      rw [readBody]
      have elemSafe : ∀ old, ElementSafe (readVia (tarsSkipToTag 0)
          (missingField elem 0) (readBody elem old 0) old true) := by
        intro old
        exact elementSafe_of_body (safe_readBody elem old 0) _ old 0
      exact (safe_readVectorBody tag headType headTag elemSafe elem.default
        target.items roomy).map _ fun _ _ _ _ => trivial
  | set less elem =>
      rw [readBody]
      have elemSafe := elementSafe_of_body
        (safe_readBody elem elem.default 0) (missingField elem 0)
        elem.default 0
      exact (safe_readSetBody tag headType headTag elemSafe less
        target.items roomy).map _ fun _ _ _ _ => trivial
  | map less key value =>
      rw [readBody]
      have keySafe := elementSafe_of_body (safe_readBody key key.default 0)
        (missingField key 0) key.default 0
      have valueSafe := elementSafe_of_body
        (safe_readBody value value.default 1) (missingField value 1)
        value.default 1
      exact (safe_readMapBody tag headType headTag keySafe valueSafe less
        roomy).map _ fun _ _ _ _ => trivial
  | struct types =>
      rw [readBody]
      exact (safe_readStructBody tag headType headTag
        (safe_readFrom types) roomy).map _ fun _ _ _ _ => trivial

theorem safe_readFrom (types : FieldTypes) (stream : BufferReader)
    (roomy : Roomy stream) :
    Safe (readFrom types) stream (fun _ _ => True) := by
  cases types with
  | nil =>
      rw [readFrom]
      exact Keeps.pure trivial
  | cons tag isRequire declared type rest =>
      rw [readFrom]
      refine (safe_field (safe_readBody type (type.reset declared) tag)
        (missingField type tag) (type.reset declared) tag isRequire
        roomy).bind ?_
      intro value after reached _
      refine (safe_readFrom rest after (reached.roomy roomy)).bind ?_
      intro fields final _ _
      exact Keeps.pure trivial

end

theorem safe_read (type : WireType) (target : Value) (tag : UInt8)
    (isRequire : Bool) {stream : BufferReader} (roomy : Roomy stream) :
    Safe (read type target tag isRequire) stream
      (fun _ after => isRequire = true →
        remaining after < remaining stream) :=
  safe_field (safe_readBody type target tag) _ target tag isRequire roomy

private theorem safe_findTagLoop (tag : UInt8) :
    ∀ (fuel : Nat) (stream : BufferReader), Roomy stream →
      remaining stream < fuel →
      Safe (findTagLoop fuel tag) stream (fun _ _ => True) := by
  intro fuel
  induction fuel with
  | zero =>
      intro stream _ enough
      exact absurd enough (Nat.not_lt_zero _)
  | succ fuel induction =>
      intro stream roomy enough
      rw [findTagLoop]
      refine safe_hasEnd.bind ?_
      rintro ended after _ ⟨rfl, _, _⟩
      split_ifs with atEnd
      · exact Keeps.pure trivial
      · refine (safe_peekFromHead roomy).bind ?_
        rintro ⟨headType, headTag, len⟩ _ _ ⟨rfl, positive, inside⟩
        simp only
        split_ifs with stop
        · exact Keeps.pure trivial
        · refine (safe_enter roomy positive inside).bind ?_
          rintro _ entered reached inside'
          have roomy' := reached.roomy roomy
          have fewer := inside'.remaining_lt reached
          refine (safe_skipField roomy' (.inl inside'.2)).bind ?_
          rintro _ final later _
          have fewer' := later.remaining_le
          exact induction final (later.roomy roomy') (by omega)

theorem safe_skipToTag {stream : BufferReader} (roomy : Roomy stream)
    (tag : UInt8) : Safe (skipToTag tag) stream (fun _ _ => True) := by
  refine Keeps.get.bind ?_
  rintro value after _ ⟨rfl, rfl⟩
  refine safe_catchDecode ?_ fun _ => trivial
  have enough : remaining after < budget after := by
    unfold budget remaining
    omega
  exact safe_findTagLoop tag (budget after) after roomy enough

theorem safe_skipHeadAndField {stream : BufferReader} (roomy : Roomy stream) :
    Safe skipHeadAndField stream (fun _ _ => True) := by
  refine (safe_readFromHeadNoTag roomy).bind ?_
  intro headType after reached entered
  exact safe_skipField (reached.roomy roomy) (.inl entered.2)

private theorem safe_skip {stream : BufferReader} {len : Nat}
    (roomy : Roomy stream) (positive : 0 < len)
    (inside : stream.cur + len ≤ stream.size) :
    Safe (skip len) stream (fun _ after => Entered stream after) := by
  refine (safe_checkSkip (Nat.lt_of_le_of_lt inside stream.bufLen_lt)).bind ?_
  rintro _ after _ ⟨rfl, _⟩
  exact safe_enter roomy positive inside

/-- The loop returns its own position, and only from inside the buffer. -/
private theorem safe_readUnknownLoop :
    ∀ (fuel : Nat) (lasttag : UInt8) (stream : BufferReader), Roomy stream →
      remaining stream < fuel →
      Safe (readUnknownLoop fuel lasttag stream.cur) stream
        (fun last after => last = after.cur ∧ after.cur ≤ after.size) := by
  intro fuel
  induction fuel with
  | zero =>
      intro lasttag stream _ enough
      exact absurd enough (Nat.not_lt_zero _)
  | succ fuel induction =>
      intro lasttag stream roomy enough
      rw [readUnknownLoop]
      refine safe_hasEnd.bind ?_
      rintro ended after _ ⟨rfl, inside, _⟩
      split_ifs with atEnd
      · exact Keeps.pure ⟨rfl, inside⟩
      · refine (safe_peekFromHead roomy).bind ?_
        rintro ⟨headType, headTag, len⟩ _ _ ⟨rfl, positive, inside'⟩
        simp only
        split_ifs with stop
        · exact Keeps.pure ⟨rfl, inside⟩
        · refine (safe_skip roomy positive inside').bind ?_
          rintro _ entered reached inside''
          have roomy' := reached.roomy roomy
          have fewer := inside''.remaining_lt reached
          refine (safe_skipField roomy' (.inl inside''.2)).bind ?_
          rintro _ final later _
          have fewer' := later.remaining_le
          refine Keeps.get.bind ?_
          rintro value last _ ⟨rfl, rfl⟩
          exact induction headTag last (later.roomy roomy') (by omega)

theorem safe_readUnknown {stream : BufferReader} (roomy : Roomy stream)
    (tag : UInt8) : Safe (readUnknown tag) stream (fun _ _ => True) := by
  refine Keeps.get.bind ?_
  rintro value after _ ⟨rfl, rfl⟩
  have enough : remaining after < budget after := by
    unfold budget remaining
    omega
  refine (safe_readUnknownLoop (budget after) tag after roomy enough).bind ?_
  rintro last final reached ⟨rfl, inside⟩
  have forward := reached.forward
  have fits := final.bufLen_lt
  have length : sizeT (final.cur + sizeLimit - after.cur) =
      final.cur - after.cur := by
    have shifted : final.cur + sizeLimit - after.cur =
        (final.cur - after.cur) + sizeLimit := by omega
    rw [sizeT, shifted, Nat.add_mod_right]
    apply Nat.mod_eq_of_lt
    unfold BufferReader.size at inside
    omega
  rw [length]
  refine (safe_bytesAt ?_).mono fun _ _ _ _ => trivial
  right
  omega

end TarsCpp.Tup
