import TarsCpp.Tup.Stream
import TarsCpp.Tup.Encoding

/-!
# Heads, searching and skipping

`TarsSkipToTag`, `skipField` and `skipToStructEnd` call each other, and
`skipField` decodes the element count of a container with the overload
`read(UInt32&)`, which searches for its tag again.  The recursion has no
structural bound, so the model carries a depth and reports `outOfFuel` when it
is exhausted; `budget` is a depth that input of a given size never needs.

A head is one byte when the tag is below 15 and two bytes otherwise.  Peeking
at a written head returns its type and tag, the search for a tag succeeds in
front of a head with that tag, and every integer payload is read back by the
overloads that accept its head.
-/

namespace TarsCpp.Tup

open ByteOrder PrefixDecoding

/-- A signed integer of `width` bytes, converted to `bits` bits. -/
def readSigned (bits width : Nat) : Decode (BitVec bits) := do
  let bytes ← readTypeBuf width
  pure ((BitVec.ofNat (8 * width) (ofBigEndian bytes)).signExtend bits)

/-- The common frame of the `read` overloads: search for the tag, swallowing
every decoding exception, then either decode the payload, or complain about a
missing field, or leave the target alone. -/
def readVia {α : Type} (search : Decode (Option (HeadType × UInt8)))
    (missing : TarsDecodeException) (body : HeadType → UInt8 → Decode α)
    (target : α) (isRequire : Bool) : Decode α := do
  match ← catchDecode search none with
  | some (headType, headTag) => body headType headTag
  | none =>
      if isRequire then
        throw (.throws missing)
      else
        pure target

def int64Mismatch (tag : UInt8) (headType : HeadType) (headTag : UInt8) :
    TarsDecodeException :=
  let shownTag := Char.ofNat headTag.toNat
  let shownType := Char.ofNat headType.code.toNat
  .mismatch (snprintf 64 (s!"read 'Int64' type mismatch, tag: {tag}, " ++
    s!"headTag: {shownTag}, get type: {shownType}."))

/-- The `switch` of `read(Int64&)`. -/
def readInt64Body (tag : UInt8) (headType : HeadType) (headTag : UInt8) :
    Decode (BitVec 64) :=
  match headType with
  | .zeroTag => pure 0
  | .char => readSigned 64 1
  | .short => readSigned 64 2
  | .int32 => readSigned 64 4
  | .int64 => readSigned 64 8
  | _ => throw (.throws (int64Mismatch tag headType headTag))

/-- `require field not exist`, in the wording most overloads share. -/
def requireNotExist (capacity : Nat) (tag headTag : UInt8) :
    TarsDecodeException :=
  .requireNotExist (snprintf capacity
    s!"require field not exist, tag: {tag}, headTag: {headTag}")

def readInt64Via (search : Decode (Option (HeadType × UInt8)))
    (n : BitVec 64) (tag : UInt8) (isRequire : Bool) : Decode (BitVec 64) :=
  readVia search (requireNotExist 64 tag 0) (readInt64Body tag) n isRequire

/-- `read(UInt32&)`: through an `Int64` and back. -/
def readUInt32Via (search : Decode (Option (HeadType × UInt8)))
    (n : BitVec 32) (tag : UInt8) (isRequire : Bool) :
    Decode (BitVec 32) := do
  let i ← readInt64Via search (n.setWidth 64) tag isRequire
  pure (i.setWidth 32)

def skipListMismatch (headType : HeadType) (headTag : UInt8) :
    TarsDecodeException :=
  .mismatch (snprintf 64 ("skipField with invalid type, type value: " ++
    s!"{HeadType.simpleList.code}, {headType.code}, {headTag}."))

def skipMismatch (type : HeadType) : TarsDecodeException :=
  .mismatch (snprintf 64
    s!"skipField with invalid type, type value:{type.code}.")

mutual

/-- The loop of `TarsSkipToTag`: stop behind the head of `tag`, or in front of
the first head with a larger tag or that closes the struct. -/
def skipToTagLoop : Nat → UInt8 → Decode (Option (HeadType × UInt8))
  | 0, _ => throw .outOfFuel
  | fuel + 1, tag => do
      if ← hasEnd then
        pure none
      else
        let (nextHeadType, nextHeadTag, len) ← peekFromHead
        if nextHeadType = .structEnd ∨ tag < nextHeadTag then
          pure none
        else if tag = nextHeadTag then
          readHeadSkip len
          pure (some (nextHeadType, nextHeadTag))
        else
          readHeadSkip len
          skipFieldWith fuel nextHeadType
          skipToTagLoop fuel tag

/-- `skipField(type)`: strings and simple lists are skipped unchecked. -/
def skipFieldWith : Nat → HeadType → Decode Unit
  | 0, _ => throw .outOfFuel
  | fuel + 1, type =>
      match type with
      | .char => readHeadSkip 1
      | .short => readHeadSkip 2
      | .int32 => readHeadSkip 4
      | .int64 => readHeadSkip 8
      | .float => readHeadSkip 4
      | .double => readHeadSkip 8
      | .string1 => do
          let len ← readTypeBuf 1
          readHeadSkip (ofBigEndian len)
      | .string4 => do
          let len ← readTypeBuf 4
          readHeadSkip (ofBigEndian len)
      | .map => do
          let size ← readUInt32Via (skipToTagLoop fuel 0) 0 0 true
          forCount (fun _ => do
            let headType ← readFromHeadNoTag
            skipFieldWith fuel headType) (size * 2).toNat ()
      | .list => do
          let size ← readUInt32Via (skipToTagLoop fuel 0) 0 0 true
          forCount (fun _ => do
            let headType ← readFromHeadNoTag
            skipFieldWith fuel headType) size.toNat ()
      | .simpleList => do
          let (headType, headTag) ← readFromHead
          if headType ≠ .char then
            throw (.throws (skipListMismatch headType headTag))
          else
            let size ← readUInt32Via (skipToTagLoop fuel 0) 0 0 true
            readHeadSkip size.toNat
      | .structBegin => skipToStructEndWith fuel
      | .structEnd => pure ()
      | .zeroTag => pure ()
      | .unknown _ => throw (.throws (skipMismatch type))

def skipToStructEndWith : Nat → Decode Unit
  | 0 => throw .outOfFuel
  | fuel + 1 => do
      let headType ← readFromHeadNoTag
      skipFieldWith fuel headType
      if headType = .structEnd then
        pure ()
      else
        skipToStructEndWith fuel

end

/-- Two levels of recursion for each byte, and a few for the first. -/
def budget (stream : BufferReader) : Nat := 2 * stream.size + 4

def tarsSkipToTag (tag : UInt8) : Decode (Option (HeadType × UInt8)) := do
  let stream ← get
  skipToTagLoop (budget stream) tag

/-- `skipField(uint8_t type)`. -/
def skipField (type : UInt8) : Decode Unit := do
  let stream ← get
  skipFieldWith (budget stream) (HeadType.ofCode type)

/-- `skipField()`. -/
def skipHeadAndField : Decode Unit := do
  let headType ← readFromHeadNoTag
  skipField headType.code

def skipToStructEnd : Decode Unit := do
  let stream ← get
  skipToStructEndWith (budget stream)

/-- The loop of the member `skipToTag`, which stays in front of the head. -/
def findTagLoop : Nat → UInt8 → Decode Bool
  | 0, _ => throw .outOfFuel
  | fuel + 1, tag => do
      if ← hasEnd then
        pure false
      else
        let (headType, headTag, len) ← peekFromHead
        if tag ≤ headTag ∨ headType = .structEnd then
          pure (headType ≠ .structEnd && tag == headTag)
        else
          readHeadSkip len
          skipField headType.code
          findTagLoop fuel tag

def skipToTag (tag : UInt8) : Decode Bool := do
  let stream ← get
  catchDecode (findTagLoop (budget stream) tag) false

/-- The loop of `readUnknown`; returns the last position it recorded. -/
def readUnknownLoop : Nat → UInt8 → Nat → Decode Nat
  | 0, _, _ => throw .outOfFuel
  | fuel + 1, lasttag, last => do
      if ← hasEnd then
        pure last
      else
        let (headType, headTag, len) ← peekFromHead
        if headTag ≤ lasttag then
          pure last
        else
          skip len
          skipField headType.code
          let stream ← get
          readUnknownLoop fuel headTag stream.cur

/-- The fields behind the known ones, as raw bytes. -/
def readUnknown (tag : UInt8) : Decode (List UInt8) := do
  let stream ← get
  let last ← readUnknownLoop (budget stream) tag stream.cur
  bytesAt stream.cur (sizeT (last + sizeLimit - stream.cur))

/-- The head types that the encoder uses. -/
def HeadType.Known : HeadType → Prop
  | .unknown _ => False
  | _ => True

/-- The head types in front of a value. -/
def HeadType.Opens : HeadType → Prop
  | .unknown _ => False
  | .structEnd => False
  | _ => True

theorem HeadType.Opens.known {headType : HeadType}
    (opens : headType.Opens) : headType.Known := by
  cases headType with
  | unknown code => exact opens
  | _ => trivial

theorem HeadType.Opens.ne_structEnd {headType : HeadType}
    (opens : headType.Opens) : headType ≠ .structEnd := by
  rintro rfl
  exact opens

theorem intHead_opens (n : Int) : (intHead n).Opens := by
  unfold intHead
  split <;> trivial

theorem Value.head_opens (value : Value) : value.head.Opens := by
  cases value with
  | string s =>
      simp only [Value.head]
      split <;> trivial
  | float word => trivial
  | double word => trivial
  | charVector v => trivial
  | vector items => trivial
  | set items => trivial
  | map entries => trivial
  | struct fields => trivial
  | _ => exact intHead_opens _

/-- The nibbles of a short head. -/
private theorem shortHead_nibbles :
    ∀ code : Fin 14, ∀ tag : Fin 15,
      let head := UInt8.ofNat code + (UInt8.ofNat tag <<< 4)
      head &&& 0x0F = UInt8.ofNat code ∧ head >>> 4 = UInt8.ofNat tag := by
  decide

/-- The nibbles of the first byte of a long head. -/
private theorem longHead_nibbles :
    ∀ code : Fin 14,
      let head := UInt8.ofNat code + 240
      head &&& 0x0F = UInt8.ofNat code ∧ head >>> 4 = 15 := by
  decide

private theorem code_eq_ofNat {headType : HeadType} (known : headType.Known) :
    ∃ code : Fin 14, headType.code = UInt8.ofNat code ∧
      HeadType.ofCode (UInt8.ofNat code) = headType := by
  cases headType with
  | unknown code => exact known.elim
  | char => exact ⟨0, rfl, rfl⟩
  | short => exact ⟨1, rfl, rfl⟩
  | int32 => exact ⟨2, rfl, rfl⟩
  | int64 => exact ⟨3, rfl, rfl⟩
  | float => exact ⟨4, rfl, rfl⟩
  | double => exact ⟨5, rfl, rfl⟩
  | string1 => exact ⟨6, rfl, rfl⟩
  | string4 => exact ⟨7, rfl, rfl⟩
  | map => exact ⟨8, rfl, rfl⟩
  | list => exact ⟨9, rfl, rfl⟩
  | structBegin => exact ⟨10, rfl, rfl⟩
  | structEnd => exact ⟨11, rfl, rfl⟩
  | zeroTag => exact ⟨12, rfl, rfl⟩
  | simpleList => exact ⟨13, rfl, rfl⟩

/-- A written head starts with a byte that shows its type and either its tag
or, in the upper nibble, that the tag follows. -/
theorem writeToHead_cases {headType : HeadType} (known : headType.Known)
    (tag : UInt8) :
    (∃ byte, writeToHead headType tag = [byte] ∧
      HeadType.ofCode (byte &&& 0x0F) = headType ∧
      byte >>> 4 = tag ∧ tag ≠ 15) ∨
    (∃ byte, writeToHead headType tag = [byte, tag] ∧
      HeadType.ofCode (byte &&& 0x0F) = headType ∧ byte >>> 4 = 15) := by
  obtain ⟨code, written, decoded⟩ := code_eq_ofNat known
  unfold writeToHead
  rw [written]
  by_cases short : tag < 15
  · rw [if_pos short]
    have bound : tag.toNat < 15 := UInt8.lt_iff_toNat_lt.mp short
    obtain ⟨type, upper⟩ := shortHead_nibbles code ⟨tag.toNat, bound⟩
    simp only [UInt8.ofNat_toNat] at type upper
    refine .inl ⟨_, rfl, ?_, upper, ?_⟩
    · rw [type, decoded]
    · rintro rfl
      exact absurd short (by decide)
  · rw [if_neg short]
    obtain ⟨type, upper⟩ := longHead_nibbles code
    refine .inr ⟨_, rfl, ?_, upper⟩
    rw [type, decoded]

theorem writeToHead_length_pos (headType : HeadType) (tag : UInt8) :
    0 < (writeToHead headType tag).length := by
  unfold writeToHead
  split <;> exact Nat.succ_pos _

theorem peekFromHead_run {stream : BufferReader} {headType : HeadType}
    {tag : UInt8} {rest : List UInt8} (known : headType.Known)
    (facing : stream.Facing (writeToHead headType tag ++ rest)) :
    peekFromHead.run stream =
      .ok (headType, tag, (writeToHead headType tag).length) stream := by
  unfold peekFromHead
  rcases writeToHead_cases known tag with
    ⟨byte, written, type, upper, different⟩ | ⟨byte, written, type, upper⟩
  · rw [written] at facing ⊢
    have peeked := @peekByte_run stream [] rest byte facing
    rw [List.length_nil] at peeked
    rw [EStateM.run_bind, peeked]
    simp only [upper, type, if_neg different]
    rfl
  · rw [written] at facing ⊢
    have peeked := @peekByte_run stream [] (tag :: rest) byte facing
    have peekedTag := @peekByte_run stream [byte] rest tag facing
    rw [List.length_nil] at peeked
    rw [List.length_singleton] at peekedTag
    rw [EStateM.run_bind, peeked]
    simp only [upper, type, if_true]
    rw [EStateM.run_bind, peekedTag]
    rfl

theorem reads_readFromHead {headType : HeadType} (known : headType.Known)
    (tag : UInt8) :
    Reads readFromHead (writeToHead headType tag) (headType, tag) := by
  intro stream rest facing
  unfold readFromHead
  rw [EStateM.run_bind, peekFromHead_run known facing]
  simp only
  rw [EStateM.run_bind, readHeadSkip_run facing]
  rfl

theorem reads_readFromHeadNoTag {headType : HeadType}
    (known : headType.Known) (tag : UInt8) :
    Reads readFromHeadNoTag (writeToHead headType tag) headType := by
  intro stream rest facing
  have moved := readHeadSkip_run facing
  have total := BufferReader.Facing.length facing
  unfold readFromHeadNoTag
  rcases writeToHead_cases known tag with
    ⟨byte, written, type, upper, different⟩ | ⟨byte, written, type, upper⟩
  · rw [written] at facing moved ⊢
    have peeked := @peekByte_run stream [] rest byte facing
    rw [List.length_nil] at peeked
    rw [EStateM.run_bind, peeked]
    simp only [upper, type, if_neg different]
    rw [EStateM.run_bind, show (1 : Nat) = [byte].length from rfl, moved]
    rfl
  · rw [written] at facing moved total ⊢
    have peeked := @peekByte_run stream [] (tag :: rest) byte facing
    rw [List.length_nil] at peeked
    simp only [List.length_append, List.length_cons, List.length_nil]
      at total
    have checked := @checkPeek_run stream 1 1 (by omega)
    rw [EStateM.run_bind, peeked]
    simp only [upper, type, if_true]
    rw [EStateM.run_bind, checked]
    simp only
    rw [EStateM.run_bind, show (2 : Nat) = [byte, tag].length from rfl, moved]
    rfl

theorem hasEnd_run {stream : BufferReader} {byte : UInt8}
    {rest : List UInt8} (facing : stream.Facing (byte :: rest)) :
    hasEnd.run stream = .ok false stream := by
  have total := facing.length
  rw [List.length_cons] at total
  unfold hasEnd
  rw [EStateM.run_bind, EStateM.run_get]
  simp only
  rw [if_neg (by omega)]
  rw [EStateM.run_pure, decide_eq_false (by omega)]

theorem hasEnd_run_head {stream : BufferReader} {headType : HeadType}
    {tag : UInt8} {rest : List UInt8}
    (facing : stream.Facing (writeToHead headType tag ++ rest)) :
    hasEnd.run stream = .ok false stream := by
  cases written : writeToHead headType tag with
  | nil =>
      have positive := writeToHead_length_pos headType tag
      rw [written] at positive
      exact absurd positive (Nat.lt_irrefl 0)
  | cons byte bytes =>
      rw [written] at facing
      exact hasEnd_run facing

theorem reads_skipToTagLoop {headType : HeadType} (opens : headType.Opens)
    (tag : UInt8) {fuel : Nat}
    (enough : 0 < fuel) :
    Reads (skipToTagLoop fuel tag) (writeToHead headType tag)
      (some (headType, tag)) := by
  intro stream rest facing
  obtain ⟨fuel, rfl⟩ := Nat.exists_eq_succ_of_ne_zero enough.ne'
  rw [skipToTagLoop, EStateM.run_bind, hasEnd_run_head facing]
  simp only [Bool.false_eq_true, if_false]
  rw [EStateM.run_bind, peekFromHead_run opens.known facing]
  simp only [opens.ne_structEnd, UInt8.lt_irrefl, or_self, if_false, if_true]
  rw [EStateM.run_bind, readHeadSkip_run facing]
  rfl

theorem reads_tarsSkipToTag {headType : HeadType} (opens : headType.Opens)
    (tag : UInt8) :
    Reads (tarsSkipToTag tag) (writeToHead headType tag)
      (some (headType, tag)) := by
  intro stream rest facing
  have enough : 0 < budget stream := Nat.succ_pos _
  unfold tarsSkipToTag
  rw [EStateM.run_bind, EStateM.run_get]
  exact reads_skipToTagLoop opens tag enough stream rest facing

theorem reads_catchDecode {α : Type} {computation : Decode α}
    {bytes : List UInt8} {value fallback : α}
    (reads : Reads computation bytes value) :
    Reads (catchDecode computation fallback) bytes value := by
  intro stream rest facing
  rw [catchDecode_run, reads stream rest facing]

/-- A `read` overload in front of its own field: the search stops behind the
head and the rest is decoded by the body. -/
theorem reads_readVia {α : Type} {search : Decode (Option (HeadType × UInt8))}
    {missing : TarsDecodeException} {body : HeadType → UInt8 → Decode α}
    {headType : HeadType} {tag : UInt8} {head payload : List UInt8}
    {target value : α} {isRequire : Bool}
    (searchReads : Reads search head (some (headType, tag)))
    (bodyReads : Reads (body headType tag) payload value) :
    Reads (readVia search missing body target isRequire) (head ++ payload)
      value :=
  Reads.bind (reads_catchDecode searchReads) bodyReads

end TarsCpp.Tup
