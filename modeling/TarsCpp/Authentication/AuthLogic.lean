import TarsCpp.Tup.Evolution
import TarsCpp.Authentication.AuthCheck

/-!
# The authentication request and its verification

`AuthLogic.cpp`, and the frame that `AdapterProxy::onSendAuthCallback` builds.
The digests, the cipher and the struct that is generated from `AuthF.tars` are
parameters.
-/

namespace TarsCpp.Authentication

open ByteOrder NetworkBuffer Tup

/-- `TC_SHA`, `TC_MD5` and `TC_Des`; `decrypt3` may throw. -/
structure Cipher where
  sha1str : List UInt8 → List UInt8
  md5str : List UInt8 → List UInt8
  encrypt3 : List UInt8 → List UInt8 → List UInt8
  decrypt3 : List UInt8 → List UInt8 → Option (List UInt8)

structure BasicAuthInfo where
  sObjName : List UInt8
  sAccessKey : List UInt8
  sSecretKey : List UInt8 := []
  sHashSecretKey2 : List UInt8 := []

structure BasicAuthPackage where
  sObjName : List UInt8
  sAccessKey : List UInt8
  iTime : BitVec 64
  sHashMethod : List UInt8
  sSignature : List UInt8

/-- The code that is generated for `BasicAuthPackage`; both may throw. -/
structure AuthF where
  /-- The default of the member. -/
  sHashMethod : List UInt8
  writeTo : BasicAuthPackage → Except TarsDecodeException (List UInt8)
  readFrom : List UInt8 → Option BasicAuthPackage

inductive AuthState
  | authSucc
  | authWrongObj
  | authWrongAk
  | authWrongTime
  | authNotSupportEnc
  | authDecFail
  | authError
  | authProtoErr
deriving DecidableEq, Repr

/-- `"sha1"`. -/
def sha1Method : List UInt8 := [115, 104, 97, 49]

/-- `tmp[i] |= pt[i]` for the bytes of the time as they are in memory. -/
def mixTime (tmp : List UInt8) (iTime : BitVec 64) : List UInt8 :=
  List.zipWith (· ||| ·) tmp (bigEndian 8 iTime.toNat).reverse ++ tmp.drop 8

def processAuthReqHelper (cipher : Cipher) (tnow : Int)
    (pkg : BasicAuthPackage) (info : BasicAuthInfo) : AuthState :=
  if pkg.sObjName ≠ info.sObjName then
    .authWrongObj
  else if pkg.sAccessKey ≠ info.sAccessKey then
    .authWrongAk
  else if ¬ (tnow - 60 * 60 < pkg.iTime.toInt ∧
      pkg.iTime.toInt < tnow + 60 * 60) then
    .authWrongTime
  else if pkg.sHashMethod ≠ sha1Method then
    .authNotSupportEnc
  else
    let hash1 := cipher.sha1str info.sHashSecretKey2
    let hash2 := cipher.sha1str hash1
    let tmpKey := cipher.md5str (mixTime hash2 pkg.iTime)
    match cipher.decrypt3 tmpKey pkg.sSignature with
    | none => .authDecFail
    | some secret1 =>
        let clientSecret2 := cipher.sha1str secret1
        if clientSecret2 ≠ hash2 then .authError else .authSucc

structure BindAdapter where
  /-- The protocol name is `tars`. -/
  isTarsProtocol : Bool
  accessKey : List UInt8
  secretKey : List UInt8

def BindAdapter.getSk (accesskey : List UInt8) (adapter : BindAdapter) :
    List UInt8 :=
  if adapter.accessKey = accesskey then adapter.secretKey else []

def defaultProcessAuthReq (cipher : Cipher) (authF : AuthF) (tnow : Int)
    (request : List UInt8) (adapter : BindAdapter) (expectObj : List UInt8) :
    AuthState :=
  if request.length ≤ 20 then
    .authProtoErr
  else
    match authF.readFrom request with
    | none => .authProtoErr
    | some pkg =>
        let sHashSecretKey2 := adapter.getSk pkg.sAccessKey
        if sHashSecretKey2 = [] then
          .authWrongAk
        else
          processAuthReqHelper cipher tnow pkg
            { sObjName := expectObj
              sAccessKey := pkg.sAccessKey
              sHashSecretKey2 := sHashSecretKey2 }

def defaultCreateAuthReq (cipher : Cipher) (authF : AuthF) (tnow : BitVec 64)
    (info : BasicAuthInfo) : Except TarsDecodeException (List UInt8) :=
  let secret1 := cipher.sha1str info.sSecretKey
  let secret2 := cipher.sha1str secret1
  let tmpKey := cipher.md5str (mixTime secret2 tnow)
  authF.writeTo
    { sObjName := info.sObjName
      sAccessKey := info.sAccessKey
      iTime := tnow
      sHashMethod := authF.sHashMethod
      sSignature := cipher.encrypt3 tmpKey secret1 }

/-- `std::less<std::string>`. -/
def lessString : Less
  | .string first, .string second => first < second
  | _, _ => false

def stringMap : WireType := .map lessString .string .string

structure RequestPacket where
  iVersion : BitVec 16 := 0
  cPacketType : BitVec 8 := 0
  iMessageType : BitVec 32 := 0
  iRequestId : BitVec 32 := 0
  sServantName : List UInt8 := []
  sFuncName : List UInt8 := []
  sBuffer : List UInt8 := []
  iTimeout : BitVec 32 := 0
  context : List (Value × Value) := []
  status : List (Value × Value) := []

namespace RequestPacket

def types : FieldTypes :=
  .cons 1 true (.short 0) .short <|
  .cons 2 true (.char 0) .char <|
  .cons 3 true (.int32 0) .int32 <|
  .cons 4 true (.int32 0) .int32 <|
  .cons 5 true (.string []) .string <|
  .cons 6 true (.string []) .string <|
  .cons 7 true (.charVector []) .charVector <|
  .cons 8 true (.int32 0) .int32 <|
  .cons 9 true (.map []) stringMap <|
  .cons 10 true (.map []) stringMap .nil

def fields (packet : RequestPacket) : List (UInt8 × Value) :=
  [(1, .short packet.iVersion), (2, .char packet.cPacketType),
    (3, .int32 packet.iMessageType), (4, .int32 packet.iRequestId),
    (5, .string packet.sServantName), (6, .string packet.sFuncName),
    (7, .charVector packet.sBuffer), (8, .int32 packet.iTimeout),
    (9, .map packet.context), (10, .map packet.status)]

def ofFields : List (UInt8 × Value) → RequestPacket
  | [(_, .short iVersion), (_, .char cPacketType), (_, .int32 iMessageType),
      (_, .int32 iRequestId), (_, .string sServantName),
      (_, .string sFuncName), (_, .charVector sBuffer), (_, .int32 iTimeout),
      (_, .map context), (_, .map status)] =>
      ⟨iVersion, cPacketType, iMessageType, iRequestId, sServantName,
        sFuncName, sBuffer, iTimeout, context, status⟩
  | _ => {}

/-- `readFrom` of a stream over `buff`. -/
def decode (buff : List UInt8) : Option RequestPacket :=
  if fits : buff.length < sizeLimit then
    match (readFrom types).run (BufferReader.setBuffer buff fits) with
    | .ok fields _ => some (ofFields fields)
    | .error _ _ => none
  else
    none

end RequestPacket

/-- What `writeTo` writes of a `ResponsePacket`: the optional fields hold their
defaults. -/
def responseFields (iVersion : BitVec 16) (cPacketType : BitVec 8)
    (iRequestId iMessageType : BitVec 32) (sBuffer : List UInt8) :
    List (UInt8 × Value) :=
  [(1, .short iVersion), (2, .char cPacketType), (3, .int32 iRequestId),
    (4, .int32 iMessageType), (5, .int32 0), (6, .charVector sBuffer),
    (7, .map [])]

/-- `writeTo` behind four bytes that get the length of the whole. -/
def writeFrame (fields : List (UInt8 × Value)) :
    Except TarsDecodeException (List UInt8) := do
  let body ← writeTo fields
  pure (bigEndian 4 (body.length + 4) ++ body)

/-- `ProxyProtocol::tarsRequest`. -/
def tarsRequest (request : RequestPacket) :
    Except TarsDecodeException (List UInt8) :=
  writeFrame request.fields

/-- `"InnerAuthServer"`. -/
def innerAuthServer : List UInt8 :=
  [73, 110, 110, 101, 114, 65, 117, 116, 104, 83, 101, 114, 118, 101, 114]

/-- The constants `TARSVERSION` and `TARSNORMAL`. -/
structure Protocol where
  tarsVersion : BitVec 16
  tarsNormal : BitVec 8

def authRequest (protocol : Protocol) (sBuffer : List UInt8)
    (info : BasicAuthInfo) : RequestPacket where
  sFuncName := innerAuthServer
  sServantName := info.sObjName
  iVersion := protocol.tarsVersion
  iRequestId := 1
  cPacketType := protocol.tarsNormal
  iMessageType := 0x40
  sBuffer := sBuffer

/-- `AdapterProxy::onSendAuthCallback`, for the name and the keys in `info`. -/
def onSendAuthCallback (protocol : Protocol) (cipher : Cipher) (authF : AuthF)
    (tnow : BitVec 64) (info : BasicAuthInfo) :
    Except TarsDecodeException (List UInt8) := do
  let sBuffer ← defaultCreateAuthReq cipher authF tnow info
  tarsRequest (authRequest protocol sBuffer info)

/-- `"AUTH_SUCC"`. -/
def authSuccText : List UInt8 := [65, 85, 84, 72, 95, 83, 85, 67, 67]

/-- The packet type, the response, and what is left in the buffer. -/
def serverVerifyAuthCallback (protocol : Protocol) (cipher : Cipher)
    (authF : AuthF) (tnow : Int) (adapterPtr : Option BindAdapter)
    (expectObj : List UInt8) (buff : List UInt8) :
    PacketType × Except TarsDecodeException (List UInt8) × List UInt8 :=
  match adapterPtr with
  | none =>
      -- "adapter release"
      (.err, .ok [97, 100, 97, 112, 116, 101, 114, 32, 114, 101, 108, 101, 97,
        115, 101], buff)
  | some adapter =>
      let decoded :=
        if adapter.isTarsProtocol then
          RequestPacket.decode buff
        else
          some { sBuffer := buff }
      match decoded with
      | none => (.err, .ok [], buff)
      | some request =>
          if defaultProcessAuthReq cipher authF tnow request.sBuffer adapter
              expectObj ≠ .authSucc then
            (.err, .ok [], buff)
          else if adapter.isTarsProtocol then
            (.full, writeFrame (responseFields protocol.tarsVersion
              request.cPacketType request.iRequestId request.iMessageType
              authSuccText), [])
          else
            (.full, .ok authSuccText, [])

/-- What `doAuthCheck` sees of the callback when the response can be sent. -/
def verifyAnswer (protocol : Protocol) (cipher : Cipher) (authF : AuthF)
    (tnow : Int) (adapterPtr : Option BindAdapter) (expectObj : List UInt8)
    (buff : List UInt8) : VerifyAnswer :=
  let (type, _, left) := serverVerifyAuthCallback protocol cipher authF tnow
    adapterPtr expectObj buff
  { type := some type, consumed := buff.length - left.length }

end TarsCpp.Authentication
