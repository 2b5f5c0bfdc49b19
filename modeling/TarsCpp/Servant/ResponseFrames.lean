import TarsCpp.Json.KeyTexts
import TarsCpp.Servant.ResponsePackets

/-!
# What the client learns

A response tells the client what the server has been given, under conditions
that depend on the version.  For TUP the status map does not get into the
packet, and the encoding for an empty body does not either.
-/

namespace TarsCpp.Servant.Current

open Authentication ByteOrder CString Tup

section Conditions

variable (base : BaseF) (current : Current) (iRet : BitVec 32)
  (response : ResponsePacket) (status : Texts) (sResultDesc : List UInt8)

/-- What the client is to learn. -/
structure Learns (received : Received) : Prop where
  iRequestId : received.iRequestId = current.request.iRequestId
  iVersion : received.iVersion = current.request.iVersion
  iMessageType : received.iMessageType = current.request.iMessageType
  content : content base current.request.iVersion response.sBuffer =
    some received.content
  iRet : received.iRet = iRet.toInt
  sResultDesc : received.sResultDesc = sResultDesc
  status : ∀ entry ∈ status.entries,
    received.status.find? entry.1 = some entry.2
  context : ∀ entry ∈ current.responseContext.entries,
    received.context.find? entry.1 = some entry.2

/-- Nothing is sent for a one-way request, and otherwise a frame with its
length in front, from which the client learns everything. -/
def Answers : Prop :=
  if current.request.cPacketType = base.TARSONEWAY then
    bytesSent base current iRet response status sResultDesc = none
  else
    ∃ frame, bytesSent base current iRet response status sResultDesc =
        some frame ∧
      ofBigEndian (frame.take 4) = frame.length ∧
      ∃ received, receive base current.request.iVersion frame =
          some received ∧
        Learns base current iRet response status sResultDesc received

def tarsSize : ℕ :=
  4 + numberSize current.request.iVersion.toInt +
    numberSize base.TARSNORMAL.toInt +
    numberSize current.request.iRequestId.toInt +
    numberSize current.request.iMessageType.toInt + numberSize iRet.toInt +
    bufferSize response.sBuffer +
    (mergedStatus response status).size +
    (if sResultDesc ≠ [] then textSize sResultDesc else 0) +
    current.responseContext.optionalSize

/-- The texts and the frame are not too long, and the packet at hand has no
other text for a key of the status map. -/
structure TarsDelivers : Prop where
  kept : response.status.Short
  given : status.Short
  undisturbed : ∀ entry ∈ status.entries, ∀ text,
    response.status.find? entry.1 = some text → text = entry.2
  description : sResultDesc.length ≤ maxStringLength
  context : current.responseContext.Short
  size : tarsSize base current iRet response status sResultDesc < 2 ^ 32

def tupSize : ℕ :=
  4 + numberSize current.request.iVersion.toInt +
    numberSize base.TARSNORMAL.toInt +
    numberSize current.request.iMessageType.toInt +
    numberSize current.request.iRequestId.toInt +
    textSize current.request.sServantName +
    textSize current.request.sFuncName + bufferSize response.sBuffer +
    numberSize 0 + current.responseContext.size +
    (1 + numberSize ((if iRet ≠ 0 then 1 else 0) +
        (if sResultDesc ≠ [] then 1 else 0)) +
      (if iRet ≠ 0 then
        textSize STATUS_RESULT_CODE + textSize (decimalInt iRet.toInt)
      else 0) +
      (if sResultDesc ≠ [] then
        textSize STATUS_RESULT_DESC + textSize sResultDesc
      else 0))

/-- The texts and the frame are not too long, there is a body and it encodes
attributes, and the status map has nothing but what is recorded anyway. -/
structure TupDelivers : Prop where
  sServantName : current.request.sServantName.length ≤ maxStringLength
  sFuncName : current.request.sFuncName.length ≤ maxStringLength
  body : response.sBuffer ≠ []
  attributes : (UniAttribute.decode response.sBuffer).isSome
  recorded : ∀ entry ∈ status.entries,
    entry = (STATUS_RESULT_CODE, decimalInt iRet.toInt) ∧ iRet ≠ 0 ∨
      entry = (STATUS_RESULT_DESC, sResultDesc) ∧ sResultDesc ≠ []
  description : sResultDesc.length ≤ maxStringLength
  context : current.responseContext.Short
  size : tupSize base current iRet response sResultDesc < 2 ^ 32

def Delivers : Prop :=
  if current.request.iVersion = base.TUPVERSION then
    TupDelivers base current iRet response status sResultDesc
  else
    TarsDelivers base current iRet response status sResultDesc

end Conditions

section Recorded

variable (iRet : BitVec 32) (sResultDesc : List UInt8)

theorem atoi_decimalInt : Json.atoi (decimalInt iRet.toInt) = iRet.toInt := by
  have least : -2 ^ 31 ≤ iRet.toInt := BitVec.le_toInt iRet
  have most : iRet.toInt < 2 ^ 31 := BitVec.toInt_lt
  rw [Json.atoi, Json.strtol_decimalInt (by omega), min_eq_right (by omega),
    toInt_eq (by omega) (by omega)]

theorem length_decimalInt_le : (decimalInt iRet.toInt).length ≤ 11 := by
  have least : -2 ^ 31 ≤ iRet.toInt := BitVec.le_toInt iRet
  have most : iRet.toInt < 2 ^ 31 := BitVec.toInt_lt
  have digits : (decimal iRet.toInt.natAbs).length ≤ 9 + 1 :=
    length_decimal_le (by omega)
  rw [decimalInt]
  split
  · exact Nat.succ_le_succ digits
  · exact Nat.le_succ_of_le digits

theorem code_lt_desc : STATUS_RESULT_CODE < STATUS_RESULT_DESC := by decide

theorem tupStatus_entries : (tupStatus iRet sResultDesc).entries =
    (if iRet ≠ 0 then [(STATUS_RESULT_CODE, decimalInt iRet.toInt)] else []) ++
    (if sResultDesc ≠ [] then [(STATUS_RESULT_DESC, sResultDesc)] else []) := by
  have last : ∀ recorded : Texts,
      (∀ entry ∈ recorded.entries, entry.1 < STATUS_RESULT_DESC) →
      (recorded.assign STATUS_RESULT_DESC sResultDesc).entries =
        recorded.entries ++ [(STATUS_RESULT_DESC, sResultDesc)] :=
    fun recorded => SortedEntries.place_last
  rw [tupStatus]
  by_cases coded : iRet = 0
  · by_cases described : sResultDesc = []
    · simp [coded, described, OrderedMap.empty]
    · simp only [coded, described, ne_eq, not_true_eq_false, not_false_eq_true,
        if_true, if_false]
      refine last _ ?_
      intro entry among
      cases among
  · by_cases described : sResultDesc = []
    · simp only [coded, described, ne_eq, not_true_eq_false, not_false_eq_true,
        if_true, if_false]
      rfl
    · simp only [coded, described, ne_eq, not_false_eq_true, if_true]
      refine last _ ?_
      intro entry among
      rw [List.mem_singleton.mp among]
      exact code_lt_desc

theorem tupStatus_size : (tupStatus iRet sResultDesc).size =
    1 + numberSize ((if iRet ≠ 0 then 1 else 0) +
        (if sResultDesc ≠ [] then 1 else 0)) +
      (if iRet ≠ 0 then
        textSize STATUS_RESULT_CODE + textSize (decimalInt iRet.toInt)
      else 0) +
      (if sResultDesc ≠ [] then
        textSize STATUS_RESULT_DESC + textSize sResultDesc
      else 0) := by
  have none : (BitVec.ofNat 32 0).toInt = 0 := by decide
  have one : (BitVec.ofNat 32 1).toInt = 1 := by decide
  have two : (BitVec.ofNat 32 2).toInt = 2 := by decide
  rw [Texts.size, tupStatus_entries, countSize]
  by_cases coded : iRet ≠ 0
  · by_cases described : sResultDesc ≠ []
    · simp only [if_pos coded, if_pos described, List.cons_append,
        List.nil_append, List.length_cons, List.length_nil, List.map_cons,
        List.map_nil, List.sum_cons, List.sum_nil, two,
        Int.reduceAdd]
      omega
    · simp only [if_pos coded, if_neg described, List.append_nil,
        List.length_cons, List.length_nil, List.map_cons, List.map_nil,
        List.sum_cons, List.sum_nil, one, Int.reduceAdd]
      omega
  · by_cases described : sResultDesc ≠ []
    · simp only [if_neg coded, if_pos described, List.nil_append,
        List.length_cons, List.length_nil, List.map_cons, List.map_nil,
        List.sum_cons, List.sum_nil, one, Int.reduceAdd]
      omega
    · simp only [if_neg coded, if_neg described, List.append_nil,
        List.length_nil, List.map_nil, List.sum_nil, none, Int.reduceAdd]
      omega

theorem tupStatus_short_iff : (tupStatus iRet sResultDesc).Short ↔
    sResultDesc.length ≤ maxStringLength := by
  have digits := length_decimalInt_le iRet
  have limit : maxStringLength = 100 * 1024 * 1024 := rfl
  have code : STATUS_RESULT_CODE.length = 18 := rfl
  have desc : STATUS_RESULT_DESC.length = 18 := rfl
  rw [Texts.Short, tupStatus_entries, List.forall_mem_append]
  constructor
  · intro short
    by_cases described : sResultDesc = []
    · rw [described]
      exact Nat.zero_le _
    · rw [if_pos described] at short
      exact (short.2 _ List.mem_cons_self).2
  · intro short
    constructor
    · intro entry among
      split at among
      · rw [List.mem_singleton.mp among]
        change STATUS_RESULT_CODE.length ≤ _ ∧
          (decimalInt iRet.toInt).length ≤ _
        omega
      · cases among
    · intro entry among
      split at among
      · rw [List.mem_singleton.mp among]
        change STATUS_RESULT_DESC.length ≤ _ ∧ sResultDesc.length ≤ _
        omega
      · cases among

theorem mem_recorded {p : Prop} [Decidable p] {entry recorded : List UInt8 ×
    List UInt8} : entry ∈ (if p then [recorded] else []) ↔
      entry = recorded ∧ p := by
  split
  · next holds =>
      rw [List.mem_singleton]
      exact (and_iff_left holds).symm
  · next fails =>
      constructor
      · intro among
        cases among
      · intro both
        exact absurd both.2 fails

theorem tupStatus_find? {key text : List UInt8} :
    (tupStatus iRet sResultDesc).find? key = some text ↔
      (key, text) = (STATUS_RESULT_CODE, decimalInt iRet.toInt) ∧ iRet ≠ 0 ∨
        (key, text) = (STATUS_RESULT_DESC, sResultDesc) ∧
          sResultDesc ≠ [] := by
  rw [← OrderedMap.mem_entries, tupStatus_entries, List.mem_append,
    mem_recorded, mem_recorded]

theorem code_ne_desc : STATUS_RESULT_CODE ≠ STATUS_RESULT_DESC := by decide

theorem tupStatus_code : (tupStatus iRet sResultDesc).find?
    STATUS_RESULT_CODE =
      if iRet ≠ 0 then some (decimalInt iRet.toInt) else none := by
  split
  · next coded =>
      exact (tupStatus_find? _ _).mpr (.inl ⟨rfl, coded⟩)
  · next coded =>
      cases found : (tupStatus iRet sResultDesc).find? STATUS_RESULT_CODE with
      | none => rfl
      | some text =>
          rcases (tupStatus_find? _ _).mp found with both | both
          · exact absurd both.2 coded
          · exact absurd (congrArg Prod.fst both.1) code_ne_desc

theorem tupStatus_desc : (tupStatus iRet sResultDesc).find?
    STATUS_RESULT_DESC =
      if sResultDesc ≠ [] then some sResultDesc else none := by
  split
  · next described =>
      exact (tupStatus_find? _ _).mpr (.inr ⟨rfl, described⟩)
  · next described =>
      cases found : (tupStatus iRet sResultDesc).find? STATUS_RESULT_DESC with
      | none => rfl
      | some text =>
          rcases (tupStatus_find? _ _).mp found with both | both
          · exact absurd (congrArg Prod.fst both.1).symm code_ne_desc
          · exact absurd both.2 described

end Recorded

section Sent

variable {base : BaseF} {current : Current} {iRet : BitVec 32}
  {response : ResponsePacket} {status : Texts} {sResultDesc : List UInt8}

theorem oneway_sends_nothing
    (oneway : current.request.cPacketType = base.TARSONEWAY) :
    bytesSent base current iRet response status sResultDesc = none := by
  rw [bytesSent, sendResponse, if_pos oneway]
  rfl

theorem tars_sends_iff
    (answered : current.request.cPacketType ≠ base.TARSONEWAY)
    (version : current.request.iVersion ≠ base.TUPVERSION)
    {frame : List UInt8} :
    bytesSent base current iRet response status sResultDesc = some frame ↔
      writeFrame (tarsResponse base current iRet response status
        sResultDesc).written = .ok frame := by
  rw [bytesSent, sendResponse, if_neg answered, if_pos version]
  change sentBy (do
      let frame ← writeFrame (tarsResponse base current iRet response status
        sResultDesc).written
      pure ⟨_, _, some frame⟩) = some frame ↔ _
  cases writeFrame (tarsResponse base current iRet response status
    sResultDesc).written with
  | error exception => simp [sentBy, bind, Except.bind]
  | ok bytes => simp [sentBy, bind, Except.bind, pure, Except.pure]

theorem tupRest_ok (response : ResponsePacket) (status : Texts) :
    ∃ rest, tupRest response status = .ok rest := by
  rw [tupRest]
  split
  · exact ⟨_, rfl⟩
  · exact ⟨_, rfl⟩

theorem tup_sends_iff
    (answered : current.request.cPacketType ≠ base.TARSONEWAY)
    (version : current.request.iVersion = base.TUPVERSION)
    {frame : List UInt8} :
    bytesSent base current iRet response status sResultDesc = some frame ↔
      writeFrame (tupResponse base current iRet response sResultDesc).fields =
        .ok frame := by
  obtain ⟨rest, success⟩ := tupRest_ok response status
  rw [bytesSent, sendResponse, if_neg answered,
    if_neg (not_not_intro version)]
  simp only [success]
  change sentBy (do
      let frame ← writeFrame (tupResponse base current iRet response
        sResultDesc).fields
      pure ⟨_, _, some frame⟩) = some frame ↔ _
  cases writeFrame (tupResponse base current iRet response
    sResultDesc).fields with
  | error exception => simp [sentBy, bind, Except.bind]
  | ok bytes => simp [sentBy, bind, Except.bind, pure, Except.pure]

theorem find?_merged {key : List UInt8} :
    (response.status.emplaceAll status.entries).find? key =
      (response.status.find? key).or (status.find? key) :=
  OrderedMap.find?_emplaceAll _ _ key

theorem merged_short_iff (undisturbed : ∀ entry ∈ status.entries, ∀ text,
      response.status.find? entry.1 = some text → text = entry.2) :
    Texts.Short (response.status.emplaceAll status.entries) ↔
      response.status.Short ∧ status.Short := by
  constructor
  · intro short
    constructor
    · intro entry among
      apply short entry
      apply OrderedMap.mem_entries.mpr
      refine find?_merged.trans ?_
      rw [OrderedMap.mem_entries.mp among]
      rfl
    · intro entry among
      apply short entry
      apply OrderedMap.mem_entries.mpr
      refine find?_merged.trans ?_
      rw [OrderedMap.mem_entries.mp among]
      cases found : response.status.find? entry.1 with
      | none => rfl
      | some text => exact congrArg some (undisturbed entry among text found)
  · rintro ⟨kept, given⟩ entry among
    have found := find?_merged.symm.trans (OrderedMap.mem_entries.mp among)
    rcases Option.or_eq_some_iff.mp found with old | ⟨_, new_⟩
    · exact kept entry (OrderedMap.mem_entries.mpr old)
    · exact given entry (OrderedMap.mem_entries.mpr new_)

theorem tars_learns_iff (version : current.request.iVersion ≠ base.TUPVERSION) :
    Learns base current iRet response status sResultDesc
        (tarsResponse base current iRet response status
          sResultDesc).received ↔
      ∀ entry ∈ status.entries, ∀ text,
        response.status.find? entry.1 = some text → text = entry.2 := by
  constructor
  · intro learns entry among text found
    have told := find?_merged.symm.trans (learns.status entry among)
    rw [found] at told
    exact Option.some.inj told
  · intro undisturbed
    refine ⟨rfl, rfl, rfl, ?_, rfl, rfl, ?_, ?_⟩
    · rw [content, if_pos version]
      rfl
    · intro entry among
      refine find?_merged.trans ?_
      rw [OrderedMap.mem_entries.mp among]
      cases found : response.status.find? entry.1 with
      | none => rfl
      | some text => exact congrArg some (undisturbed entry among text found)
    · intro entry among
      exact OrderedMap.mem_entries.mp among

theorem tars_answers_iff
    (answered : current.request.cPacketType ≠ base.TARSONEWAY)
    (version : current.request.iVersion ≠ base.TUPVERSION) :
    Answers base current iRet response status sResultDesc ↔
      TarsDelivers base current iRet response status sResultDesc := by
  let packet := tarsResponse base current iRet response status sResultDesc
  have length := packet.length_written
  have received : packet.Short → packet.size < 2 ^ 32 →
      receive base current.request.iVersion (bigEndian 4
        ((encodeFields packet.written).length + 4) ++
          encodeFields packet.written) = some packet.received := by
    intro short small
    rw [receive, if_neg version, List.drop_left' (length_bigEndian 4 _),
      ResponsePacket.decode_written short small]
    rfl
  rw [Answers, if_neg answered]
  constructor
  · rintro ⟨frame, sent, counted, answer, received', learns⟩
    have written := (tars_sends_iff answered version).mp sent
    obtain ⟨each, rfl⟩ := (writeFrame_eq_ok_iff packet.decided).mp written
    have short := packet.succeeds_iff.mp each
    have small : packet.size < 2 ^ 32 :=
      length ▸ (prefix_eq_length_iff _).mp counted
    rw [received short small] at received'
    cases received'
    have undisturbed := (tars_learns_iff version).mp learns
    obtain ⟨kept, given⟩ := (merged_short_iff undisturbed).mp short.status
    exact ⟨kept, given, undisturbed, short.sResultDesc, short.context, small⟩
  · intro delivers
    have short : packet.Short :=
      ⟨(merged_short_iff delivers.undisturbed).mpr
        ⟨delivers.kept, delivers.given⟩, delivers.description,
        delivers.context⟩
    have small : packet.size < 2 ^ 32 := delivers.size
    refine ⟨_, (tars_sends_iff answered version).mpr
      ((writeFrame_eq_ok_iff packet.decided).mpr
        ⟨packet.succeeds_iff.mpr short, rfl⟩),
      (prefix_eq_length_iff _).mpr (length.symm ▸ small), packet.received,
      received short small, ?_⟩
    exact (tars_learns_iff version).mpr delivers.undisturbed

theorem tup_size : requestSize
    (tupResponse base current iRet response sResultDesc)
      current.responseContext (tupStatus iRet sResultDesc) =
    tupSize base current iRet response sResultDesc := by
  rw [requestSize, tupStatus_size]
  rfl

theorem tup_short_iff : ShortRequest
    (tupResponse base current iRet response sResultDesc)
      current.responseContext (tupStatus iRet sResultDesc) ↔
    current.request.sServantName.length ≤ maxStringLength ∧
      current.request.sFuncName.length ≤ maxStringLength ∧
      current.responseContext.Short ∧
      sResultDesc.length ≤ maxStringLength := by
  rw [← tupStatus_short_iff iRet sResultDesc]
  constructor
  · intro short
    exact ⟨short.sServantName, short.sFuncName, short.context, short.status⟩
  · rintro ⟨servant, function, context, recorded⟩
    exact ⟨servant, function, context, recorded⟩

theorem received_code {data : Attributes} : (UniPacket.received
    ⟨tupResponse base current iRet response sResultDesc, data⟩).iRet =
      iRet.toInt := by
  change UniPacket.getTarsResultCode _ = _
  have told : UniPacket.getTarsStatus
      ⟨tupResponse base current iRet response sResultDesc, data⟩ =
        tupStatus iRet sResultDesc := Texts.ofValues_values _
  rw [UniPacket.getTarsResultCode, told, tupStatus_code]
  by_cases coded : iRet = 0
  · rw [if_neg (not_not_intro coded), coded]
    rfl
  · rw [if_pos coded]
    exact atoi_decimalInt iRet

theorem received_desc {data : Attributes} : (UniPacket.received
    ⟨tupResponse base current iRet response sResultDesc, data⟩).sResultDesc =
      sResultDesc := by
  change UniPacket.getTarsResultDesc _ = _
  have told : UniPacket.getTarsStatus
      ⟨tupResponse base current iRet response sResultDesc, data⟩ =
        tupStatus iRet sResultDesc := Texts.ofValues_values _
  rw [UniPacket.getTarsResultDesc, told, tupStatus_desc]
  by_cases described : sResultDesc = []
  · rw [if_neg (not_not_intro described), described]
    rfl
  · rw [if_pos described]
    rfl

/-- With the attributes that the body encodes, the client learns all but the
status map. -/
theorem tup_learns_iff (version : current.request.iVersion = base.TUPVERSION)
    (body : response.sBuffer ≠ []) {data : Attributes}
    (encoded : UniAttribute.decode response.sBuffer = some data) :
    Learns base current iRet response status sResultDesc
        (UniPacket.received
          ⟨tupResponse base current iRet response sResultDesc, data⟩) ↔
      ∀ entry ∈ status.entries,
        entry = (STATUS_RESULT_CODE, decimalInt iRet.toInt) ∧ iRet ≠ 0 ∨
          entry = (STATUS_RESULT_DESC, sResultDesc) ∧ sResultDesc ≠ [] := by
  have told : UniPacket.getTarsStatus
      ⟨tupResponse base current iRet response sResultDesc, data⟩ =
        tupStatus iRet sResultDesc := Texts.ofValues_values _
  constructor
  · intro learns entry among
    have found := learns.status entry among
    change (UniPacket.getTarsStatus _).find? _ = _ at found
    rw [told] at found
    exact (tupStatus_find? iRet sResultDesc).mp found
  · intro recorded
    refine ⟨rfl, rfl, rfl, ?_, received_code, received_desc, ?_, ?_⟩
    · rw [content, if_neg (not_not_intro version), if_neg body, encoded]
      rfl
    · intro entry among
      change (UniPacket.getTarsStatus _).find? _ = _
      rw [told]
      exact (tupStatus_find? iRet sResultDesc).mpr (recorded entry among)
    · intro entry among
      change (Texts.ofValues current.responseContext.values).find? _ = _
      rw [Texts.ofValues_values]
      exact OrderedMap.mem_entries.mp among

theorem decode_nil : UniAttribute.decode [] = none := by
  have fits : ([] : List UInt8).length < sizeLimit := by
    rw [sizeLimit]
    decide
  have facing : (BufferReader.setBuffer [] fits).Facing [] :=
    ⟨Nat.zero_le _, rfl⟩
  rw [UniAttribute.decode, dif_pos fits, Tup.read,
    readVia_missing facing 0 _ _ _]

theorem receive_tup (version : current.request.iVersion = base.TUPVERSION)
    {packet : RequestPacket} {body : List UInt8}
    (decoded : RequestPacket.decode body = some packet) (length : ℕ) :
    receive base current.request.iVersion (bigEndian 4 length ++ body) =
      (UniAttribute.decode packet.sBuffer).map fun data =>
        UniPacket.received ⟨packet, data⟩ := by
  have enough : ¬ (bigEndian 4 length ++ body).length < 4 := by
    rw [List.length_append, length_bigEndian]
    omega
  rw [receive, if_pos version, UniPacket.decode, if_neg enough,
    List.drop_left' (length_bigEndian 4 _), decoded]
  cases encoded : UniAttribute.decode packet.sBuffer with
  | none => simp [encoded]
  | some data => simp [encoded]

theorem tup_answers_iff
    (answered : current.request.cPacketType ≠ base.TARSONEWAY)
    (version : current.request.iVersion = base.TUPVERSION) :
    Answers base current iRet response status sResultDesc ↔
      TupDelivers base current iRet response status sResultDesc := by
  let packet := tupResponse base current iRet response sResultDesc
  have length := @length_fields packet current.responseContext
    (tupStatus iRet sResultDesc) rfl rfl
  rw [tup_size] at length
  have decided := @fields_decided packet current.responseContext
    (tupStatus iRet sResultDesc) rfl rfl
  have succeed := @fields_succeed_iff packet current.responseContext
    (tupStatus iRet sResultDesc) rfl rfl
  have decoded : ShortRequest packet current.responseContext
        (tupStatus iRet sResultDesc) →
      tupSize base current iRet response sResultDesc < 2 ^ 32 →
      RequestPacket.decode (encodeFields packet.fields) = some packet := by
    intro short small
    exact decode_fields rfl rfl short (tup_size.symm ▸ small)
  rw [Answers, if_neg answered]
  constructor
  · rintro ⟨frame, sent, counted, answer, received, learns⟩
    have written := (tup_sends_iff answered version).mp sent
    obtain ⟨each, rfl⟩ := (writeFrame_eq_ok_iff decided).mp written
    have short := succeed.mp each
    have small : tupSize base current iRet response sResultDesc < 2 ^ 32 :=
      length ▸ (prefix_eq_length_iff _).mp counted
    rw [receive_tup version (decoded short small)] at received
    obtain ⟨data, encoded, rfl⟩ := Option.map_eq_some_iff.mp received
    change UniAttribute.decode response.sBuffer = some data at encoded
    have body : response.sBuffer ≠ [] := by
      intro none
      rw [none, decode_nil] at encoded
      cases encoded
    obtain ⟨servant, function, context, description⟩ :=
      tup_short_iff.mp short
    exact ⟨servant, function, body, Option.isSome_of_eq_some encoded,
      (tup_learns_iff version body encoded).mp learns, description, context,
      small⟩
  · intro delivers
    have short : ShortRequest packet current.responseContext
        (tupStatus iRet sResultDesc) :=
      tup_short_iff.mpr ⟨delivers.sServantName, delivers.sFuncName,
        delivers.context, delivers.description⟩
    obtain ⟨data, encoded⟩ := Option.isSome_iff_exists.mp delivers.attributes
    refine ⟨_, (tup_sends_iff answered version).mpr
      ((writeFrame_eq_ok_iff decided).mpr ⟨succeed.mpr short, rfl⟩),
      (prefix_eq_length_iff _).mpr (length.symm ▸ delivers.size),
      UniPacket.received ⟨packet, data⟩, ?_,
      (tup_learns_iff version delivers.body encoded).mpr delivers.recorded⟩
    rw [receive_tup version (decoded short delivers.size)]
    change (UniAttribute.decode response.sBuffer).map _ = _
    rw [encoded]
    rfl

end Sent

/-- A call does what it is to do if and only if nothing is to be sent or the
conditions for the version hold. -/
theorem answers_iff (base : BaseF) (current : Current) (iRet : BitVec 32)
    (response : ResponsePacket) (status : Texts) (sResultDesc : List UInt8) :
    Answers base current iRet response status sResultDesc ↔
      current.request.cPacketType = base.TARSONEWAY ∨
        Delivers base current iRet response status sResultDesc := by
  by_cases oneway : current.request.cPacketType = base.TARSONEWAY
  · rw [Answers, if_pos oneway]
    constructor
    · intro silent
      exact .inl oneway
    · intro silent
      exact oneway_sends_nothing oneway
  · have delivers : current.request.cPacketType = base.TARSONEWAY ∨
        Delivers base current iRet response status sResultDesc ↔
        Delivers base current iRet response status sResultDesc :=
      or_iff_right oneway
    rw [delivers, Delivers]
    by_cases version : current.request.iVersion = base.TUPVERSION
    · rw [if_pos version]
      exact tup_answers_iff oneway version
    · rw [if_neg version]
      exact tars_answers_iff oneway version

/-- An exception without a body, and a success with a status map. -/
theorem tup_unanswered :
    let base : BaseF := ⟨3, 0, 1⟩
    let current : Current := {
      request := {
        iVersion := 3
        iRequestId := 7
        sServantName := ascii "Demo.HelloObj"
        sFuncName := ascii "testHello" }
      responseContext := .empty
      ret := 0 }
    ¬ Answers base current (-1) {} .empty (ascii "unknown exception") ∧
      ¬ Answers base current 0 { sBuffer := [8, 12] }
        (OrderedMap.empty.assign (ascii "key") (ascii "value")) [] := by
  intro base current
  have answered : current.request.cPacketType ≠ base.TARSONEWAY := by decide
  constructor
  · intro answers
    exact ((tup_answers_iff answered rfl).mp answers).body rfl
  · intro answers
    have recorded := ((tup_answers_iff answered rfl).mp answers).recorded
      (ascii "key", ascii "value") List.mem_cons_self
    rcases recorded with both | both
    · exact both.2 rfl
    · exact both.2 rfl

end TarsCpp.Servant.Current
