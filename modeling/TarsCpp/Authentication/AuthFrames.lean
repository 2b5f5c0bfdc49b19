import TarsCpp.Tup.HostileInput
import TarsCpp.Tup.Prefixes
import TarsCpp.Tup.Truncated
import TarsCpp.Authentication.AuthLogic

/-!
# The authentication frame on the server

The server decodes the frame together with the four bytes of its length, and as
much of it as has arrived.  What it takes from the length bytes decides where it
finds the name of the servant: at the name of the packet, at another place, or
nowhere.  A part of the frame that is decoded would lead it to the same place.
-/

namespace TarsCpp.Authentication

open ByteOrder NetworkBuffer PrefixDecoding Tup

/-- The fields in front of `sServantName`. -/
def typesInFront : FieldTypes :=
  .cons 1 true (.short 0) .short <|
  .cons 2 true (.char 0) .char <|
  .cons 3 true (.int32 0) .int32 <|
  .cons 4 true (.int32 0) .int32 .nil

def typesBehindName : FieldTypes :=
  .cons 6 true (.string []) .string <|
  .cons 7 true (.charVector []) .charVector <|
  .cons 8 true (.int32 0) .int32 <|
  .cons 9 true (.map []) stringMap <|
  .cons 10 true (.map []) stringMap .nil

def fieldsInFront (packet : RequestPacket) : List (UInt8 × Value) :=
  [(1, .short packet.iVersion), (2, .char packet.cPacketType),
    (3, .int32 packet.iMessageType), (4, .int32 packet.iRequestId)]

def fieldsBehindName (packet : RequestPacket) : List (UInt8 × Value) :=
  [(6, .string packet.sFuncName), (7, .charVector packet.sBuffer),
    (8, .int32 packet.iTimeout), (9, .map packet.context),
    (10, .map packet.status)]

/-- `readFrom` up to the head of `sServantName`. -/
def seekServantName : Decode (Option (HeadType × UInt8)) := do
  let _ ← readFrom typesInFront
  tarsSkipToTag 5

/-- What is left behind that head. -/
def readFromName (head : HeadType × UInt8) :
    Decode (List (UInt8 × Value)) := do
  let name ← readBody .string (.string []) 5 head.1 head.2
  let fields ← readFrom typesBehindName
  pure ((5, name) :: fields)

/-- The head that the decoder finds, and the place behind it. -/
def arrival (bytes : List UInt8) : Option (HeadType × UInt8 × Nat) :=
  if fits : bytes.length < sizeLimit then
    match seekServantName.run (BufferReader.setBuffer bytes fits) with
    | .ok (some head) stream => some (head.1, head.2, stream.cur)
    | _ => none
  else
    none

/-- The head of the packet itself, behind the four bytes of the length. -/
def ownPlace (packet : RequestPacket) : HeadType × UInt8 × Nat :=
  ((Value.string packet.sServantName).head, 5,
    4 + (encodeFields (fieldsInFront packet)).length + 1)

/-- The decoder reads over the length bytes. -/
def ReadOver (packet : RequestPacket) (frame : List UInt8) : Prop :=
  arrival frame = some (ownPlace packet)

instance (packet : RequestPacket) (frame : List UInt8) :
    Decidable (ReadOver packet frame) :=
  inferInstanceAs (Decidable (_ = _))

/-- It takes other bytes for the head. -/
def Strays (packet : RequestPacket) (frame : List UInt8) : Prop :=
  ∃ place, arrival frame = some place ∧ place ≠ ownPlace packet

section Seeking

variable {stream after : BufferReader} {front : List (UInt8 × Value)}

/-- What the decoder returns has the property, wherever it starts. -/
def Returns {α : Type} (decoder : Decode α) (post : α → Prop) : Prop :=
  ∀ stream value after, decoder.run stream = .ok value after → post value

theorem Returns.bind {α β : Type} {decoder : Decode α} {next : α → Decode β}
    {middle : α → Prop} {post : β → Prop} (first : Returns decoder middle)
    (later : ∀ value, middle value → Returns (next value) post) :
    Returns (decoder >>= next) post := by
  intro stream value after ran
  rw [EStateM.run_bind] at ran
  cases here : decoder.run stream with
  | error fault between =>
      rw [here] at ran
      cases ran
  | ok found between =>
      rw [here] at ran
      exact later found (first _ _ _ here) _ _ _ ran

theorem Returns.pure {α : Type} {value : α} {post : α → Prop}
    (holds : post value) : Returns (Pure.pure value : Decode α) post := by
  intro stream value' after ran
  cases ran
  exact holds

theorem returns_map {α β : Type} (decoder : Decode α) (convert : α → β) :
    Returns (convert <$> decoder) fun value => ∃ n, value = convert n := by
  rw [map_eq_pure_bind]
  exact Returns.bind (fun _ _ _ _ => trivial : Returns decoder fun _ => True)
    fun n _ => Returns.pure ⟨n, rfl⟩

theorem Returns.readVia {α : Type} {body : HeadType → UInt8 → Decode α}
    {post : α → Prop}
    (bodies : ∀ headType tag, Returns (body headType tag) post)
    (search : Decode (Option (HeadType × UInt8)))
    (missing : TarsDecodeException) (target : α) :
    Returns (readVia search missing body target true) post := by
  have searched : Returns (catchDecode search none) fun _ => True :=
    fun _ _ _ _ => trivial
  refine Returns.bind searched ?_
  rintro (_ | ⟨headType, tag⟩) -
  · intro stream value after ran
    cases ran
  · exact bodies headType tag

/-- The values have the types of the fields. -/
def InFront (front : List (UInt8 × Value)) : Prop :=
  ∃ iVersion cPacketType iMessageType iRequestId,
    front = [(1, .short iVersion), (2, .char cPacketType),
      (3, .int32 iMessageType), (4, .int32 iRequestId)]

theorem returns_inFront : Returns (readFrom typesInFront) InFront := by
  simp only [typesInFront, readFrom, bind_assoc, pure_bind]
  refine Returns.bind (Returns.readVia (fun _ _ => returns_map _ _) _ _ _) ?_
  rintro _ ⟨iVersion, rfl⟩
  refine Returns.bind (Returns.readVia (fun _ _ => returns_map _ _) _ _ _) ?_
  rintro _ ⟨cPacketType, rfl⟩
  refine Returns.bind (Returns.readVia (fun _ _ => returns_map _ _) _ _ _) ?_
  rintro _ ⟨iMessageType, rfl⟩
  refine Returns.bind (Returns.readVia (fun _ _ => returns_map _ _) _ _ _) ?_
  rintro _ ⟨iRequestId, rfl⟩
  exact Returns.pure ⟨iVersion, cPacketType, iMessageType, iRequestId, rfl⟩

/-- What follows a required field is only executed behind its head. -/
theorem readVia_bind {α β : Type} (search : Decode (Option (HeadType × UInt8)))
    (missing : TarsDecodeException) (body : HeadType → UInt8 → Decode α)
    (target : α) (next : α → Decode β) (target' : β) :
    readVia search missing body target true >>= next =
      readVia search missing (fun headType tag => body headType tag >>= next)
        target' true := by
  rw [readVia, readVia, bind_assoc]
  congr
  funext found
  cases found <;> rfl

theorem readFrom_types : readFrom RequestPacket.types = (do
    let front ← readFrom typesInFront
    let rest ← readVia (tarsSkipToTag 5) (missingField .string 5)
      (fun headType tag => readFromName (headType, tag)) [] true
    pure (front ++ rest)) := by
  have behind : (do
      let name ← readVia (tarsSkipToTag 5) (missingField .string 5)
        (readBody .string (.string []) 5) (.string []) true
      let fields ← readFrom typesBehindName
      pure ((5, name) :: fields)) =
      readVia (tarsSkipToTag 5) (missingField .string 5)
        (fun headType tag => readFromName (headType, tag)) [] true :=
    readVia_bind _ _ _ _ _ _
  rw [← behind]
  simp only [RequestPacket.types, typesInFront, typesBehindName, readFrom,
    WireType.reset, bind_assoc, pure_bind, List.cons_append, List.nil_append]

/-- The decoder, from the head of `sServantName` on. -/
theorem run_readFrom_types {middle : BufferReader}
    {head : HeadType × UInt8}
    (seeks : seekServantName.run stream = .ok (some head) middle) :
    ∃ front, InFront front ∧ (readFrom RequestPacket.types).run stream =
      (readFromName head >>= fun rest => pure (front ++ rest)).run
        middle := by
  rw [seekServantName, EStateM.run_bind] at seeks
  rw [readFrom_types, EStateM.run_bind]
  cases read : (readFrom typesInFront).run stream with
  | error fault between =>
      rw [read] at seeks
      cases seeks
  | ok front between =>
      rw [read] at seeks
      refine ⟨front, returns_inFront _ _ _ read, ?_⟩
      simp only at seeks ⊢
      rw [EStateM.run_bind, readVia, EStateM.run_bind, catchDecode_run, seeks]
      rfl

/-- It does not get there if the head is not found. -/
theorem seeks_of_readFrom {fields : List (UInt8 × Value)}
    (ran : (readFrom RequestPacket.types).run stream = .ok fields after) :
    ∃ head middle, seekServantName.run stream = .ok (some head) middle := by
  rw [readFrom_types, EStateM.run_bind] at ran
  rw [seekServantName, EStateM.run_bind]
  cases read : (readFrom typesInFront).run stream with
  | error fault between =>
      rw [read] at ran
      cases ran
  | ok front between =>
      rw [read] at ran
      simp only at ran ⊢
      rw [EStateM.run_bind, readVia, EStateM.run_bind, catchDecode_run] at ran
      cases searched : (tarsSkipToTag 5).run between with
      | error fault middle =>
          rw [searched] at ran
          cases fault <;> cases ran
      | ok found middle =>
          rw [searched] at ran
          cases found with
          | none => cases ran
          | some head => exact ⟨head, middle, rfl⟩

theorem finds_seekServantName : Finds seekServantName seekServantName := by
  have front : Extends (readFrom typesInFront) (readFrom typesInFront) := by
    simp only [typesInFront, readFrom]
    refine (extends_readVia (finds_tarsSkipToTag 1) (fun _ _ =>
      (extends_readShortBody _ _ _).map _) _ _).bind fun _ => ?_
    refine Extends.bind ?_ fun _ => Extends.pure _
    refine (extends_readVia (finds_tarsSkipToTag 2) (fun _ _ =>
      (extends_readCharBody _ _ _).map _) _ _).bind fun _ => ?_
    refine Extends.bind ?_ fun _ => Extends.pure _
    refine (extends_readVia (finds_tarsSkipToTag 3) (fun _ _ =>
      (extends_readInt32Body _ _ _).map _) _ _).bind fun _ => ?_
    refine Extends.bind ?_ fun _ => Extends.pure _
    refine (extends_readVia (finds_tarsSkipToTag 4) (fun _ _ =>
      (extends_readInt32Body _ _ _).map _) _ _).bind fun _ => ?_
    exact Extends.bind (Extends.pure _) fun _ => Extends.pure _
  intro short long longer found after ran
  rw [seekServantName, EStateM.run_bind] at ran ⊢
  cases read : (readFrom typesInFront).run short with
  | error fault between =>
      rw [read] at ran
      cases ran
  | ok fields between =>
      rw [read] at ran
      obtain ⟨between', read', longer'⟩ := front _ _ longer _ _ read
      rw [read']
      exact finds_tarsSkipToTag 5 _ _ longer' _ _ ran

end Seeking

section Arrival

variable {bytes frame : List UInt8}

theorem roomy_setBuffer (small : bytes.length < 2 ^ 32)
    (fits : bytes.length < sizeLimit) :
    Roomy (BufferReader.setBuffer bytes fits) := by
  unfold Roomy BufferReader.setBuffer BufferReader.size sizeLimit
  simp only
  omega

theorem fits_of_small (small : bytes.length < 2 ^ 32) :
    bytes.length < sizeLimit := by
  unfold sizeLimit
  omega

theorem safe_seekServantName {stream : BufferReader} (roomy : Roomy stream) :
    Safe seekServantName stream fun found after =>
      found.isSome → after.cur ≤ after.size := by
  refine (safe_readFrom typesInFront stream roomy).bind ?_
  intro front middle reached _
  refine (safe_tarsSkipToTag (reached.roomy roomy) 5).mono ?_
  intro found after _ entered some_
  exact (entered some_).2

theorem arrival_eq_some (small : bytes.length < 2 ^ 32)
    {place : HeadType × UInt8 × Nat} : arrival bytes = some place ↔
      ∃ stream, seekServantName.run
          (BufferReader.setBuffer bytes (fits_of_small small)) =
          .ok (some (place.1, place.2.1)) stream ∧
        stream.buf = bytes ∧ stream.cur = place.2.2 ∧
        stream.cur ≤ bytes.length := by
  have fits := fits_of_small small
  have safe := safe_seekServantName (roomy_setBuffer small fits)
  unfold Safe Keeps Satisfies at safe
  rw [arrival, dif_pos fits]
  cases ran : seekServantName.run (BufferReader.setBuffer bytes fits) with
  | error fault stream => simp
  | ok found stream =>
      rw [ran] at safe
      obtain ⟨reached, inside⟩ := safe
      cases found with
      | none => simp
      | some head =>
          have within := inside rfl
          rw [BufferReader.size, reached.buf] at within
          constructor
          · intro same
            obtain rfl := Option.some.inj same
            exact ⟨stream, rfl, reached.buf, rfl, within⟩
          · rintro ⟨stream', same, -, cur, -⟩
            cases same
            obtain ⟨headType, tag, there⟩ := place
            rw [← show stream.cur = there from cur]

/-- A part of the bytes that leads to a head leads to the same one. -/
theorem arrival_of_front (part : bytes <+: frame)
    (small : frame.length < 2 ^ 32) {place : HeadType × UInt8 × Nat}
    (arrives : arrival bytes = some place) : arrival frame = some place := by
  have small' := part.length_le.trans_lt small
  obtain ⟨stream, ran, buf, cur, inside⟩ := (arrival_eq_some small').mp arrives
  have longer : Longer
      (BufferReader.setBuffer bytes (fits_of_small small'))
      (BufferReader.setBuffer frame (fits_of_small small)) := ⟨part, rfl⟩
  obtain ⟨stream', ran', longer'⟩ :=
    finds_seekServantName _ _ longer _ _ ran
  have fits := fits_of_small small
  rw [arrival, dif_pos fits, ran']
  simp only [longer'.cur, cur]

/-- Last two length bytes that are read over in front of the fields of version
1, whatever follows: `0 b` and `16 b` for every `b`, `10 b` for the `b` that are
11 more than a multiple of 16 and not 251, and these. -/
example : ∀ last ∈ [[6, 0], [8, 12], [9, 12], [10, 11], [10, 27], [10, 235],
    [12, 12], [12, 17], [12, 28], [28, 1], [28, 12], [28, 17], [28, 28],
    [28, 44], [241, 1], [252, 0], [252, 1]],
    arrival ([0, 0] ++ last ++ [16, 1, 44, 48, 64, 64, 1, 86]) =
        some (.string1, 5, 12) ∧
      arrival ([0, 0] ++ last ++ [16, 1, 44, 48, 64, 64, 1, 87]) =
        some (.string4, 5, 12) := by
  decide +kernel

theorem decode_eq_none (small : bytes.length < 2 ^ 32)
    (fails : ∀ fields after, (readFrom RequestPacket.types).run
      (BufferReader.setBuffer bytes (fits_of_small small)) ≠
        .ok fields after) : RequestPacket.decode bytes = none := by
  have fits := fits_of_small small
  rw [RequestPacket.decode, dif_pos fits]
  cases ran : (readFrom RequestPacket.types).run
      (BufferReader.setBuffer bytes fits) with
  | error fault after => rfl
  | ok fields after => exact absurd ran (fails fields after)

/-- Where no head is found nothing is decoded. -/
theorem decode_of_arrival_none (small : bytes.length < 2 ^ 32)
    (lost : arrival bytes = none) : RequestPacket.decode bytes = none := by
  refine decode_eq_none small fun fields after ran => ?_
  obtain ⟨head, middle, seeks⟩ := seeks_of_readFrom ran
  have fits := fits_of_small small
  rw [arrival, dif_pos fits, seeks] at lost
  cases lost

end Arrival

section Decoding

variable {packet : RequestPacket} {bytes lengthBytes frame : List UInt8}

/-- The fields of a request that has neither a context nor a status. -/
structure Plain (packet : RequestPacket) : Prop where
  sServantName : packet.sServantName.length ≤ maxStringLength
  sFuncName : packet.sFuncName.length ≤ maxStringLength
  sBuffer : packet.sBuffer.length < 2 ^ 32
  context : packet.context = []
  status : packet.status = []

theorem Plain.brittle (plain : Plain packet) :
    Brittle typesBehindName (fieldsBehindName packet) := by
  have map_nil : stringMap.HasType (.map []) :=
    .map (by decide) .nil nofun nofun
  rw [fieldsBehindName, plain.context, plain.status]
  exact .cons (by decide) (.string plain.sFuncName)
      (breaks_string plain.sFuncName) <|
    .cons (by decide) (.charVector plain.sBuffer)
      (breaks_charVector plain.sBuffer) <|
    .cons (by decide) (.int32 _) (breaks_int32 _) <|
    .cons (by decide) map_nil (breaks_map_nil _ _ _) <|
    .cons (by decide) map_nil (breaks_map_nil _ _ _) .nil

/-- What stands in front of the payload of the servant name. -/
def upToName (packet : RequestPacket) (lengthBytes : List UInt8) :
    List UInt8 :=
  lengthBytes ++ encodeFields (fieldsInFront packet) ++
    writeToHead (Value.string packet.sServantName).head 5

theorem length_upToName (four : lengthBytes.length = 4) :
    (upToName packet lengthBytes).length = (ownPlace packet).2.2 := by
  rw [upToName, List.length_append, List.length_append,
    length_writeToHead (by decide), four, ownPlace]

theorem upToName_append : lengthBytes ++ encodeFields packet.fields =
    upToName packet lengthBytes ++
      ((Value.string packet.sServantName).payload ++
        encodeFields (fieldsBehindName packet)) := by
  simp only [RequestPacket.fields, fieldsInFront, fieldsBehindName, upToName,
    encodeFields, List.append_assoc, List.nil_append]

theorem reads_name (plain : Plain packet) :
    Reads (readFromName ((Value.string packet.sServantName).head, 5))
      ((Value.string packet.sServantName).payload ++
        encodeFields (fieldsBehindName packet))
      ((5, .string packet.sServantName) :: fieldsBehindName packet) :=
  Reads.bind (reads_readBody (.string plain.sServantName)
      (WireType.fresh_default .string) 5 5) <|
    Reads.bind_pure (reads_readFrom plain.brittle.hasFields) (Reads.pure _)

theorem fails_name (plain : Plain packet)
    (cut : Cut bytes ((Value.string packet.sServantName).payload ++
      encodeFields (fieldsBehindName packet))) :
    Fails (readFromName ((Value.string packet.sServantName).head, 5))
      bytes := by
  rcases cut_append cut with inName | ⟨back, rfl, behind⟩
  · exact (breaks_string plain.sServantName _ 5 _ inName).bind
  · exact bind_fails (reads_readBody (.string plain.sServantName)
      (WireType.fresh_default .string) 5 5) (plain.brittle.fails behind).bind

section ReadOver

variable (plain : Plain packet) (four : lengthBytes.length = 4)
  (whole : frame = lengthBytes ++ encodeFields packet.fields)
  (small : frame.length < 2 ^ 32) (reaches : ReadOver packet frame)

include plain four whole small reaches

/-- The whole packet is decoded, but for the fields in front of the name. -/
theorem ReadOver.decode : ∃ decoded,
    RequestPacket.decode frame = some decoded ∧
      decoded.sBuffer = packet.sBuffer := by
  obtain ⟨middle, seeks, buf, cur, -⟩ := (arrival_eq_some small).mp reaches
  obtain ⟨front, inFront, same⟩ := run_readFrom_types seeks
  change _ = (readFromName ((Value.string packet.sServantName).head, 5) >>=
    _).run middle at same
  have facing : middle.Facing
      (((Value.string packet.sServantName).payload ++
        encodeFields (fieldsBehindName packet)) ++ []) := by
    have split := whole.trans upToName_append
    rw [List.append_nil]
    constructor
    · rw [cur, BufferReader.size, buf, split, List.length_append,
        length_upToName four]
      exact Nat.le_add_right _ _
    · rw [cur, buf, split, ← length_upToName four, List.drop_left]
  have rest := reads_name plain middle [] facing
  rw [EStateM.run_bind, rest] at same
  have fits := fits_of_small small
  obtain ⟨iVersion, cPacketType, iMessageType, iRequestId, rfl⟩ := inFront
  refine ⟨{ packet with
    iVersion := iVersion, cPacketType := cPacketType
    iMessageType := iMessageType, iRequestId := iRequestId }, ?_, rfl⟩
  rw [RequestPacket.decode, dif_pos fits, same]
  rfl

/-- A part of the packet is not decoded. -/
theorem ReadOver.part (cut : Cut bytes frame) :
    RequestPacket.decode bytes = none := by
  have small' := cut.length_lt.trans small
  have part : bytes <+: frame := by
    obtain ⟨missing, -, rfl⟩ := cut
    exact List.prefix_append _ _
  cases arrives : arrival bytes with
  | none => exact decode_of_arrival_none small' arrives
  | some place =>
      obtain rfl : ownPlace packet = place := Option.some.inj
        (reaches.symm.trans (arrival_of_front part small arrives))
      obtain ⟨middle, seeks, buf, cur, inside⟩ :=
        (arrival_eq_some small').mp arrives
      have split := whole.trans upToName_append
      rw [split] at cut
      have behind : ∃ back, bytes = upToName packet lengthBytes ++ back ∧
          Cut back ((Value.string packet.sServantName).payload ++
            encodeFields (fieldsBehindName packet)) := by
        refine (cut_append cut).resolve_left fun early => ?_
        have less := early.length_lt
        rw [length_upToName four, ← cur] at less
        omega
      obtain ⟨back, rfl, missing⟩ := behind
      refine decode_eq_none small' fun fields after ran => ?_
      obtain ⟨front, -, same⟩ := run_readFrom_types seeks
      change _ = (readFromName ((Value.string packet.sServantName).head, 5) >>=
        _).run middle at same
      have facing : middle.Facing back := by
        constructor
        · rw [BufferReader.size, buf]
          exact inside
        · rw [cur, buf, ← length_upToName four, List.drop_left]
      have bounded : middle.size < 2 ^ 62 := by
        rw [BufferReader.size, buf]
        omega
      obtain ⟨exception, stream, failed⟩ :=
        fails_name plain missing middle bounded facing
      rw [same, EStateM.run_bind, failed] at ran
      cases ran

end ReadOver

end Decoding

end TarsCpp.Authentication
