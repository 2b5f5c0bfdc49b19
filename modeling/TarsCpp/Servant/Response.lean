import TarsCpp.Authentication.AuthLogic
import TarsCpp.Json.MapKeys
import TarsCpp.OrderedMap

/-!
# Responses

`Current::sendResponse` and what a client makes of the bytes.  A response to a
TUP request is a `RequestPacket` whose buffer encodes attributes, any other is
a `ResponsePacket`.
-/

namespace TarsCpp.Servant

open Authentication CString Tup

/-- `map<string, string>` -/
abbrev Texts := OrderedMap (List UInt8) (List UInt8)

/-- `map<string, vector<char>>` -/
abbrev Attributes := OrderedMap (List UInt8) (List UInt8)

namespace Texts

def entryValue (entry : List UInt8 × List UInt8) : Value × Value :=
  (.string entry.1, .string entry.2)

def values (texts : Texts) : List (Value × Value) :=
  texts.entries.map entryValue

def ofValue : Value × Value → Option (List UInt8 × List UInt8)
  | (.string key, .string text) => some (key, text)
  | _ => none

def ofValues (values : List (Value × Value)) : Texts :=
  .ofList (values.filterMap ofValue)

end Texts

structure ResponsePacket where
  iVersion : BitVec 16 := 0
  cPacketType : BitVec 8 := 0
  iRequestId : BitVec 32 := 0
  iMessageType : BitVec 32 := 0
  iRet : BitVec 32 := 0
  sBuffer : List UInt8 := []
  status : Texts := .empty
  sResultDesc : List UInt8 := []
  context : Texts := .empty

namespace ResponsePacket

def types : FieldTypes :=
  .cons 1 true (.short 0) .short <|
  .cons 2 true (.char 0) .char <|
  .cons 3 true (.int32 0) .int32 <|
  .cons 4 true (.int32 0) .int32 <|
  .cons 5 true (.int32 0) .int32 <|
  .cons 6 true (.charVector []) .charVector <|
  .cons 7 true (.map []) stringMap <|
  .cons 8 false (.string []) .string <|
  .cons 9 false (.map []) stringMap .nil

def required (packet : ResponsePacket) : List (UInt8 × Value) :=
  [(1, .short packet.iVersion), (2, .char packet.cPacketType),
    (3, .int32 packet.iRequestId), (4, .int32 packet.iMessageType),
    (5, .int32 packet.iRet), (6, .charVector packet.sBuffer),
    (7, .map packet.status.values)]

/-- The fields that `writeTo` writes: `if (sResultDesc != "")` and
`if (context.size() > 0)`. -/
def written (packet : ResponsePacket) : List (UInt8 × Value) :=
  packet.required ++
    (if packet.sResultDesc ≠ [] then [(8, .string packet.sResultDesc)]
      else []) ++
    (if packet.context.entries ≠ [] then [(9, .map packet.context.values)]
      else [])

def ofFields : List (UInt8 × Value) → ResponsePacket
  | [(_, .short iVersion), (_, .char cPacketType), (_, .int32 iRequestId),
      (_, .int32 iMessageType), (_, .int32 iRet), (_, .charVector sBuffer),
      (_, .map status), (_, .string sResultDesc), (_, .map context)] =>
      ⟨iVersion, cPacketType, iRequestId, iMessageType, iRet, sBuffer,
        .ofValues status, sResultDesc, .ofValues context⟩
  | _ => {}

/-- `readFrom` of a stream over `buff`. -/
def decode (buff : List UInt8) : Option ResponsePacket :=
  if fits : buff.length < sizeLimit then
    match (readFrom types).run (BufferReader.setBuffer buff fits) with
    | .ok fields _ => some (ofFields fields)
    | .error _ _ => none
  else
    none

end ResponsePacket

namespace UniAttribute

def type : WireType := .map lessString .string .charVector

def value (data : Attributes) : Value :=
  .map (data.entries.map fun entry => (.string entry.1, .charVector entry.2))

def ofEntry : Value × Value → Option (List UInt8 × List UInt8)
  | (.string name, .charVector content) => some (name, content)
  | _ => none

def ofValue : Value → Attributes
  | .map entries => .ofList (entries.filterMap ofEntry)
  | _ => .empty

def encode (data : Attributes) : Except TarsDecodeException (List UInt8) :=
  write (value data) 0

def decode (buff : List UInt8) : Option Attributes :=
  if fits : buff.length < sizeLimit then
    match (read type (.map []) 0 true).run
        (BufferReader.setBuffer buff fits) with
    | .ok data _ => some (ofValue data)
    | .error _ _ => none
  else
    none

end UniAttribute

/-- The constants `TUPVERSION`, `TARSNORMAL` and `TARSONEWAY`. -/
structure BaseF where
  TUPVERSION : BitVec 16
  TARSNORMAL : BitVec 8
  TARSONEWAY : BitVec 8

def STATUS_RESULT_CODE : List UInt8 := ascii "STATUS_RESULT_CODE"

def STATUS_RESULT_DESC : List UInt8 := ascii "STATUS_RESULT_DESC"

/-- `_request`, `_responseContext` and `_ret`. -/
structure Current where
  request : RequestPacket
  responseContext : Texts
  ret : BitVec 32

/-- What a call leaves behind, and the frame that is sent. -/
structure Sending where
  current : Current
  response : ResponsePacket
  sent : Option (List UInt8)

/-- The bytes that a call sends. -/
def sentBy (call : Except TarsDecodeException Sending) : Option (List UInt8) :=
  match call with
  | .ok sending => sending.sent
  | .error _ => none

namespace Current

section Branches

variable (base : BaseF) (current : Current) (iRet : BitVec 32)
  (response : ResponsePacket) (status : Texts) (sResultDesc : List UInt8)

/-- A key that the packet has already keeps its text. -/
def mergedStatus : Texts :=
  response.status.emplaceAll status.entries

def tarsResponse : ResponsePacket :=
  { response with
    iRequestId := current.request.iRequestId
    cPacketType := base.TARSNORMAL
    iMessageType := current.request.iMessageType
    iVersion := current.request.iVersion
    status := mergedStatus response status
    context := current.responseContext
    sResultDesc := sResultDesc
    iRet := iRet }

/-- An `iRet` of zero is not recorded, and neither is an empty text. -/
def tupStatus : Texts :=
  let recorded : Texts :=
    if iRet ≠ 0 then
      OrderedMap.empty.assign STATUS_RESULT_CODE
        (Json.TC_Common.tostr .int iRet)
    else
      .empty
  if sResultDesc ≠ [] then
    recorded.assign STATUS_RESULT_DESC sResultDesc
  else
    recorded

def tupResponse : RequestPacket where
  iRequestId := current.request.iRequestId
  iMessageType := current.request.iMessageType
  cPacketType := base.TARSNORMAL
  iVersion := current.request.iVersion
  context := current.responseContext.values
  sBuffer := response.sBuffer
  sServantName := current.request.sServantName
  sFuncName := current.request.sFuncName
  status := (tupStatus iRet sResultDesc).values

/-- The `response` behind the `swap` of the buffers; an encoding for an empty
one is put there, and not into the packet. -/
def tupRest : Except TarsDecodeException ResponsePacket :=
  let response : ResponsePacket :=
    { response with status := mergedStatus response status }
  if response.sBuffer = [] then do
    let buff ← UniAttribute.encode .empty
    pure { response with sBuffer := buff }
  else
    pure { response with sBuffer := [] }

def sendResponse : Except TarsDecodeException Sending :=
  let current : Current := { current with ret := iRet }
  if current.request.cPacketType = base.TARSONEWAY then
    pure ⟨current, response, none⟩
  else if current.request.iVersion ≠ base.TUPVERSION then do
    let response :=
      tarsResponse base current iRet response status sResultDesc
    let frame ← writeFrame response.written
    pure ⟨current, response, some frame⟩
  else do
    let packet := tupResponse base current iRet response sResultDesc
    let response ← tupRest response status
    let frame ← writeFrame packet.fields
    pure ⟨current, response, some frame⟩

def bytesSent : Option (List UInt8) :=
  sentBy (sendResponse base current iRet response status sResultDesc)

end Branches

/-- `sendResponse(iRet, buff)` -/
def sendBuffer (base : BaseF) (current : Current) (iRet : BitVec 32)
    (buff : List UInt8) : Except TarsDecodeException Sending :=
  if current.request.cPacketType = base.TARSONEWAY then
    pure ⟨current, { sBuffer := buff }, none⟩
  else
    sendResponse base current iRet { sBuffer := buff } .empty []

/-- `sendResponse(iRet)` -/
def sendCode (base : BaseF) (current : Current) (iRet : BitVec 32) :
    Except TarsDecodeException Sending :=
  sendResponse base current iRet {} .empty []

/-- `sendResponse(iRet, attr)` -/
def sendAttributes (base : BaseF) (current : Current) (iRet : BitVec 32)
    (attr : Attributes) : Except TarsDecodeException Sending := do
  let buff ← UniAttribute.encode attr
  sendResponse base current iRet { sBuffer := buff } .empty []

end Current

/-- A `TarsUniPacket`: the packet and `_data`. -/
structure UniPacket where
  packet : RequestPacket
  data : Attributes

namespace UniPacket

def decode (buff : List UInt8) : Option UniPacket :=
  if buff.length < 4 then
    none
  else do
    let packet ← RequestPacket.decode (buff.drop 4)
    let data ← UniAttribute.decode packet.sBuffer
    pure ⟨packet, data⟩

def getTarsStatus (uni : UniPacket) : Texts := .ofValues uni.packet.status

def getTarsContext (uni : UniPacket) : Texts := .ofValues uni.packet.context

def getTarsResultCode (uni : UniPacket) : ℤ :=
  match uni.getTarsStatus.find? STATUS_RESULT_CODE with
  | none => 0
  | some text => Json.atoi text

def getTarsResultDesc (uni : UniPacket) : List UInt8 :=
  (uni.getTarsStatus.find? STATUS_RESULT_DESC).getD []

end UniPacket

inductive Content
  | bytes (sBuffer : List UInt8)
  | attributes (data : Attributes)

/-- What a client learns from a response. -/
structure Received where
  iRequestId : BitVec 32
  iVersion : BitVec 16
  iMessageType : BitVec 32
  content : Content
  iRet : ℤ
  sResultDesc : List UInt8
  status : Texts
  context : Texts

def UniPacket.received (uni : UniPacket) : Received where
  iRequestId := uni.packet.iRequestId
  iVersion := uni.packet.iVersion
  iMessageType := uni.packet.iMessageType
  content := .attributes uni.data
  iRet := uni.getTarsResultCode
  sResultDesc := uni.getTarsResultDesc
  status := uni.getTarsStatus
  context := uni.getTarsContext

def ResponsePacket.received (packet : ResponsePacket) : Received where
  iRequestId := packet.iRequestId
  iVersion := packet.iVersion
  iMessageType := packet.iMessageType
  content := .bytes packet.sBuffer
  iRet := packet.iRet.toInt
  sResultDesc := packet.sResultDesc
  status := packet.status
  context := packet.context

/-- The decoder for the version of the request. -/
def receive (base : BaseF) (iVersion : BitVec 16) (frame : List UInt8) :
    Option Received :=
  if iVersion = base.TUPVERSION then
    (UniPacket.decode frame).map UniPacket.received
  else
    (ResponsePacket.decode (frame.drop 4)).map ResponsePacket.received

/-- What a body stands for: for TUP it encodes attributes, and without a body
there are none. -/
def content (base : BaseF) (iVersion : BitVec 16) (sBuffer : List UInt8) :
    Option Content :=
  if iVersion ≠ base.TUPVERSION then
    some (.bytes sBuffer)
  else if sBuffer = [] then
    some (.attributes .empty)
  else
    (UniAttribute.decode sBuffer).map .attributes

end TarsCpp.Servant
