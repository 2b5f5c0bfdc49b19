import TarsCpp.Authentication.AuthFrames
import TarsCpp.Tup.Written

/-!
# Authentication with the right keys

A client and a server with the same keys, and the frame of the client in any
segmentation.
-/

namespace TarsCpp.Authentication

open ByteOrder NetworkBuffer PrefixDecoding Tup

/-- A frame that is written, with its length in front. -/
theorem tarsRequest_ok {packet : RequestPacket} {frame : List UInt8}
    (context : packet.context = []) (status : packet.status = [])
    (written : tarsRequest packet = .ok frame)
    (fits : frame.length < 2 ^ 32) :
    Plain packet ∧
      frame = bigEndian 4 frame.length ++ encodeFields packet.fields := by
  rw [tarsRequest, writeFrame] at written
  cases success : writeTo packet.fields with
  | error exception =>
      rw [success] at written
      cases written
  | ok body =>
      rw [success] at written
      have frame_eq : bigEndian 4 (body.length + 4) ++ body = frame :=
        Except.ok.inj written
      have length : frame.length = body.length + 4 := by
        rw [← frame_eq, List.length_append, length_bigEndian, Nat.add_comm]
      obtain ⟨_, name, _⟩ := write_of_mem success
        (show (5, Value.string packet.sServantName) ∈ _ by
          simp [RequestPacket.fields])
      obtain ⟨_, function, _⟩ := write_of_mem success
        (show (6, Value.string packet.sFuncName) ∈ _ by
          simp [RequestPacket.fields])
      obtain ⟨_, buffer, bound⟩ := write_of_mem success
        (show (7, Value.charVector packet.sBuffer) ∈ _ by
          simp [RequestPacket.fields])
      have small := (length_le_of_writeCharVector buffer).trans bound
      have plain : Plain packet := {
        sServantName := length_le_of_writeString name
        sFuncName := length_le_of_writeString function
        sBuffer := by omega
        context := context
        status := status }
      have typed : RequestPacket.types.HasFields packet.fields :=
        .cons (.short _) <| .cons (.char _) <| .cons (.int32 _) <|
          .cons (.int32 _) <| .cons (.string plain.sServantName)
            plain.brittle.hasFields
      have encoded := writeTo_eq_encodeFields typed
      rw [success] at encoded
      refine ⟨plain, ?_⟩
      rw [← Except.ok.inj encoded, length, frame_eq]

/-- What the digests and the cipher do. -/
structure Cipher.Lawful (cipher : Cipher) : Prop where
  /-- Twenty bytes as hexadecimal digits. -/
  sha1str_length : ∀ data, (cipher.sha1str data).length = 40
  encrypt3_length : ∀ key data,
    data.length ≤ (cipher.encrypt3 key data).length
  decrypt3_encrypt3 : ∀ key data,
    cipher.decrypt3 key (cipher.encrypt3 key data) = some data

/-- What the generated code for the package does, below 2^32 bytes. -/
structure AuthF.Lawful (authF : AuthF) : Prop where
  sHashMethod : authF.sHashMethod = sha1Method
  sSignature_le : ∀ pkg bytes, authF.writeTo pkg = .ok bytes →
    pkg.sSignature.length ≤ bytes.length
  readFrom_writeTo : ∀ pkg bytes, authF.writeTo pkg = .ok bytes →
    bytes.length < 2 ^ 32 → authF.readFrom bytes = some pkg

/-- The time of the client is in the window around the time of the server. -/
def InWindow (sent : BitVec 64) (tnow : Int) : Prop :=
  tnow - 60 * 60 < sent.toInt ∧ sent.toInt < tnow + 60 * 60

/-- The server knows the keys of the client. -/
structure SameKeys (adapter : BindAdapter) (info : BasicAuthInfo) : Prop where
  accessKey : adapter.accessKey = info.sAccessKey
  secretKey : adapter.secretKey = info.sSecretKey

section Check

variable {protocol : Protocol} {cipher : Cipher} {authF : AuthF}
  {adapter : BindAdapter} {info : BasicAuthInfo} {sent : BitVec 64}
  {tnow : Int}

theorem defaultProcessAuthReq_iff (lawful : cipher.Lawful)
    (generated : authF.Lawful) (same : SameKeys adapter info)
    (window : InWindow sent tnow) {sBuffer : List UInt8}
    (created : defaultCreateAuthReq cipher authF sent info = .ok sBuffer)
    (small : sBuffer.length < 2 ^ 32) :
    defaultProcessAuthReq cipher authF tnow sBuffer adapter info.sObjName =
      .authSucc ↔ info.sSecretKey ≠ [] := by
  unfold defaultCreateAuthReq at created
  have long : ¬ sBuffer.length ≤ 20 := by
    have signature := generated.sSignature_le _ _ created
    have encrypted := lawful.encrypt3_length
      (cipher.md5str (mixTime (cipher.sha1str (cipher.sha1str
        info.sSecretKey)) sent)) (cipher.sha1str info.sSecretKey)
    have digest := lawful.sha1str_length info.sSecretKey
    simp only at signature
    omega
  have key : adapter.getSk info.sAccessKey = info.sSecretKey := by
    rw [BindAdapter.getSk, if_pos same.accessKey, same.secretKey]
  have decoded := generated.readFrom_writeTo _ _ created small
  rw [defaultProcessAuthReq, if_neg long, decoded]
  simp only [key]
  by_cases nothing : info.sSecretKey = []
  · simp [nothing]
  · have window' : tnow - 3600 < sent.toInt ∧ sent.toInt < tnow + 3600 :=
      window
    simp [nothing, processAuthReqHelper, window', generated.sHashMethod,
      lawful.decrypt3_encrypt3]

/-- The frame of the client. -/
structure AuthFrame (protocol : Protocol) (cipher : Cipher) (authF : AuthF)
    (sent : BitVec 64) (info : BasicAuthInfo) (frame : List UInt8) :
    Prop where
  written : onSendAuthCallback protocol cipher authF sent info = .ok frame
  /-- Its length is a number of four bytes. -/
  fits : frame.length < 2 ^ 32

variable {frame bytes : List UInt8}

theorem AuthFrame.spec
    (sends : AuthFrame protocol cipher authF sent info frame) :
    ∃ sBuffer, defaultCreateAuthReq cipher authF sent info = .ok sBuffer ∧
      Plain (authRequest protocol sBuffer info) ∧
      frame = bigEndian 4 frame.length ++
        encodeFields (authRequest protocol sBuffer info).fields := by
  have written := sends.written
  rw [onSendAuthCallback] at written
  cases created : defaultCreateAuthReq cipher authF sent info with
  | error exception =>
      rw [created] at written
      cases written
  | ok sBuffer =>
      rw [created] at written
      obtain ⟨plain, frame_eq⟩ := tarsRequest_ok rfl rfl written sends.fits
      exact ⟨sBuffer, rfl, plain, frame_eq⟩

/-- The decoder reads over the length bytes of the frame; what else is in the
packet does not matter. -/
def Overread (protocol : Protocol) (info : BasicAuthInfo)
    (frame : List UInt8) : Prop :=
  ReadOver (authRequest protocol [] info) frame

def Astray (protocol : Protocol) (info : BasicAuthInfo)
    (frame : List UInt8) : Prop :=
  Strays (authRequest protocol [] info) frame

/-- The answer to bytes that are not decoded. -/
theorem verifyAnswer_err (isTars : adapter.isTarsProtocol = true)
    (fails : RequestPacket.decode bytes = none) :
    verifyAnswer protocol cipher authF tnow (some adapter) info.sObjName
        bytes = ⟨some .err, 0, false, false⟩ := by
  simp [verifyAnswer, serverVerifyAuthCallback, isTars, fails]

variable (sends : AuthFrame protocol cipher authF sent info frame)
  (isTars : adapter.isTarsProtocol = true)

include sends isTars

/-- The whole frame is accepted if there is a key at all. -/
theorem AuthFrame.whole (reaches : Overread protocol info frame)
    (lawful : cipher.Lawful) (generated : authF.Lawful)
    (same : SameKeys adapter info) (window : InWindow sent tnow) :
    verifyAnswer protocol cipher authF tnow (some adapter) info.sObjName
        frame =
      if info.sSecretKey = [] then
        ⟨some .err, 0, false, false⟩
      else
        ⟨some .full, frame.length, false, false⟩ := by
  obtain ⟨sBuffer, created, plain, frame_eq⟩ := sends.spec
  obtain ⟨decoded, decodes, content⟩ := ReadOver.decode plain
    (length_bigEndian _ _) frame_eq sends.fits reaches
  have accepted := defaultProcessAuthReq_iff lawful generated same window
    created plain.sBuffer
  simp only [verifyAnswer, serverVerifyAuthCallback, isTars, if_true, decodes,
    content, authRequest]
  by_cases nothing : info.sSecretKey = []
  · have refused : ¬ defaultProcessAuthReq cipher authF tnow sBuffer adapter
        info.sObjName = .authSucc := fun success => accepted.mp success nothing
    simp [refused, nothing]
  · simp [accepted.mpr nothing, nothing]

/-- A part of the frame is refused. -/
theorem AuthFrame.part (reaches : Overread protocol info frame)
    (cut : Cut bytes frame) :
    verifyAnswer protocol cipher authF tnow (some adapter) info.sObjName
        bytes = ⟨some .err, 0, false, false⟩ := by
  obtain ⟨sBuffer, -, plain, frame_eq⟩ := sends.spec
  exact verifyAnswer_err isTars (ReadOver.part plain (length_bigEndian _ _)
    frame_eq sends.fits reaches cut)

/-- Where the decoder finds no servant name, all of it is refused. -/
theorem AuthFrame.lost (nowhere : arrival frame = none)
    (part : bytes <+: frame) :
    verifyAnswer protocol cipher authF tnow (some adapter) info.sObjName
        bytes = ⟨some .err, 0, false, false⟩ := by
  have small := part.length_le.trans_lt sends.fits
  refine verifyAnswer_err isTars (decode_of_arrival_none small ?_)
  cases arrives : arrival bytes with
  | none => rfl
  | some place =>
      rw [arrival_of_front part sends.fits arrives] at nowhere
      cases nowhere

end Check

/-- The chunks of a frame with the times at which they arrive; nothing is
received behind an exception. -/
def receiveChunks (verify : Int → List UInt8 → VerifyAnswer) :
    List (Int × List UInt8) → Transceiver → Bool × Transceiver
  | [], conn => (false, conn)
  | (tnow, chunk) :: chunks, conn =>
      let conn := { conn with buff := conn.buff ++ chunk }
      match conn.doProtocolAnalysis (verify tnow conn.buff) [] with
      | (true, conn) => (true, conn)
      | (false, conn) => receiveChunks verify chunks conn

/-- A connection on which nothing has been received. -/
def untouched : Transceiver := ⟨true, true, .eAuthInit, [], []⟩

/-- The connection ends up authenticated, and no answer was an error. -/
def Authenticates (verify : Int → List UInt8 → VerifyAnswer)
    (chunks : List (Int × List UInt8)) : Prop :=
  (receiveChunks verify chunks untouched).1 = false ∧
    (receiveChunks verify chunks untouched).2.authState = .eAuthSucc

theorem analysis_full {bytes : List UInt8} (something : bytes ≠ []) :
    ({ untouched with buff := bytes }.doProtocolAnalysis
      ⟨some .full, bytes.length, false, false⟩ []) =
      (false, { untouched with
        authState := .eAuthSucc
        parsed := [(.eAuthSucc, [])] }) := by
  simp [Transceiver.doProtocolAnalysis, Transceiver.doAuthCheck, untouched,
    something, Transceiver.closeIf, Transceiver.parseLoop,
    Transceiver.callParser, Transceiver.present]

theorem analysis_err {bytes : List UInt8} (something : bytes ≠ []) :
    ({ untouched with buff := bytes }.doProtocolAnalysis
      ⟨some .err, 0, false, false⟩ []) =
      (true, { untouched with buff := bytes }) := by
  simp [Transceiver.doProtocolAnalysis, Transceiver.doAuthCheck, untouched,
    something]

/-- An error on the first chunk ends the connection. -/
theorem not_authenticates_of_err {verify : Int → List UInt8 → VerifyAnswer}
    {tnow : Int} {bytes : List UInt8} {chunks : List (Int × List UInt8)}
    (something : bytes ≠ [])
    (answer : verify tnow bytes = ⟨some .err, 0, false, false⟩) :
    ¬ Authenticates verify ((tnow, bytes) :: chunks) := by
  rintro ⟨unbroken, _⟩
  have refused := analysis_err something
  rw [untouched] at refused
  rw [receiveChunks] at unbroken
  simp only [untouched, List.nil_append] at unbroken
  rw [answer, refused] at unbroken
  cases unbroken

theorem authenticates_of_full {verify : Int → List UInt8 → VerifyAnswer}
    {tnow : Int} {bytes : List UInt8} (something : bytes ≠ [])
    (answer : verify tnow bytes =
      ⟨some .full, bytes.length, false, false⟩) :
    Authenticates verify [(tnow, bytes)] := by
  have accepted := analysis_full something
  rw [untouched] at accepted
  rw [Authenticates, receiveChunks]
  simp only [untouched, List.nil_append]
  rw [answer, accepted]
  exact ⟨rfl, rfl⟩

/-- The frame authenticates the connection if there is a secret key, the frame
arrives as a whole, and the decoder reads over its length bytes; and only then,
unless the decoder goes astray in the bytes of the packet. -/
theorem authenticates_iff {protocol : Protocol} {cipher : Cipher}
    {authF : AuthF} (lawful : cipher.Lawful) (generated : authF.Lawful)
    {adapter : BindAdapter} (isTars : adapter.isTarsProtocol = true)
    {info : BasicAuthInfo} (same : SameKeys adapter info) {sent : BitVec 64}
    {frame : List UInt8}
    (sends : AuthFrame protocol cipher authF sent info frame)
    {chunks : List (Int × List UInt8)}
    (received : ∀ chunk ∈ chunks, chunk.2 ≠ [] ∧ InWindow sent chunk.1)
    (whole : chunks.flatMap (·.2) = frame) :
    (info.sSecretKey ≠ [] ∧ chunks.length = 1 ∧
        Overread protocol info frame →
      Authenticates (fun tnow => verifyAnswer protocol cipher authF tnow
        (some adapter) info.sObjName) chunks) ∧
    (Authenticates (fun tnow => verifyAnswer protocol cipher authF tnow
        (some adapter) info.sObjName) chunks →
      info.sSecretKey ≠ [] ∧ chunks.length = 1 ∧
          Overread protocol info frame ∨
        Astray protocol info frame) := by
  cases chunks with
  | nil =>
      refine ⟨fun one => ?_, fun authenticates => ?_⟩
      · cases one.2.1
      · cases authenticates.2
  | cons chunk chunks =>
      obtain ⟨tnow, bytes⟩ := chunk
      rw [List.forall_mem_cons] at received
      obtain ⟨⟨something, window⟩, later⟩ := received
      rw [List.flatMap_cons] at whole
      constructor
      · rintro ⟨key, one, reaches⟩
        obtain rfl : chunks = [] :=
          List.length_eq_zero_iff.mp (Nat.succ.inj one)
        rw [List.flatMap_nil, List.append_nil] at whole
        subst whole
        refine authenticates_of_full something ?_
        rw [sends.whole isTars reaches lawful generated same window,
          if_neg key]
      · intro authenticates
        have unrefused := fun answer =>
          not_authenticates_of_err something answer authenticates
        cases arrives : arrival frame with
        | none =>
            exact absurd (sends.lost isTars arrives ⟨_, whole⟩) unrefused
        | some place =>
            by_cases own : place = ownPlace (authRequest protocol [] info)
            · have reaches : Overread protocol info frame := by
                rw [Overread, ReadOver, arrives, own]
              left
              cases chunks with
              | nil =>
                  rw [List.flatMap_nil, List.append_nil] at whole
                  subst whole
                  refine ⟨fun nothing => unrefused ?_, rfl, reaches⟩
                  rw [sends.whole isTars reaches lawful generated same window,
                    if_pos nothing]
              | cons chunk chunks =>
                  have more := (later chunk List.mem_cons_self).1
                  refine absurd (sends.part isTars reaches ⟨_, ?_, whole⟩)
                    unrefused
                  rw [List.flatMap_cons]
                  exact List.append_ne_nil_of_left_ne_nil more _
            · exact .inr ⟨place, arrives, own⟩

namespace Sample

/-- The password `123456`. -/
def secretKey : List UInt8 := [49, 50, 51, 52, 53, 54]

def sha1Once : List UInt8 :=
  [55, 99, 52, 97, 56, 100, 48, 57, 99, 97, 51, 55, 54, 50, 97, 102, 54, 49,
    101, 53, 57, 53, 50, 48, 57, 52, 51, 100, 99, 50, 54, 52, 57, 52, 102, 56,
    57, 52, 49, 98]

def sha1Twice : List UInt8 :=
  [54, 57, 99, 53, 102, 99, 101, 98, 97, 97, 54, 53, 98, 53, 54, 48, 101, 97,
    102, 48, 54, 99, 51, 102, 98, 101, 98, 52, 56, 49, 97, 101, 52, 52, 98, 56,
    100, 54, 49, 56]

/-- The time of the client. -/
def sent : BitVec 64 := 1700000000

def tmpKey : List UInt8 :=
  [48, 52, 48, 50, 51, 101, 56, 102, 98, 51, 102, 49, 102, 55, 56, 48, 97, 99,
    53, 51, 52, 99, 97, 51, 57, 99, 101, 52, 97, 50, 101, 56]

def encrypted : List UInt8 :=
  [25, 196, 230, 188, 185, 79, 41, 169, 206, 242, 247, 249, 127, 41, 18, 132,
    77, 104, 134, 180, 39, 202, 123, 184, 168, 179, 183, 198, 207, 88, 7, 231,
    223, 79, 67, 250, 252, 176, 5, 153, 173, 239, 83, 132, 249, 27, 136, 25]

/-- The digests and the cipher, on the data of this deployment. -/
def cipher : Cipher where
  sha1str data :=
    if data = secretKey then sha1Once
    else if data = sha1Once then sha1Twice
    else List.replicate 40 48
  md5str data :=
    if data = mixTime sha1Twice sent then tmpKey else List.replicate 32 48
  encrypt3 key data :=
    if key = tmpKey ∧ data = sha1Once then encrypted else data ++ [1]
  decrypt3 key data :=
    if key = tmpKey ∧ data = encrypted then some sha1Once
    else some data.dropLast

theorem cipher_lawful : cipher.Lawful where
  sha1str_length := by
    intro data
    dsimp only [cipher]
    split_ifs <;> rfl
  encrypt3_length := by
    intro key data
    dsimp only [cipher]
    split_ifs with same
    · rw [same.2]
      decide
    · rw [List.length_append]
      exact Nat.le_add_right _ _
  decrypt3_encrypt3 := by
    intro key data
    dsimp only [cipher]
    by_cases same : key = tmpKey ∧ data = sha1Once
    · rw [if_pos same, if_pos ⟨same.1, rfl⟩, same.2]
    · have other : ¬ (key = tmpKey ∧ data ++ [1] = encrypted) := by
        rintro ⟨_, equal⟩
        have last := congrArg List.getLast? equal
        rw [List.getLast?_concat] at last
        exact absurd last (by decide)
      rw [if_neg same, if_neg other, List.dropLast_concat]

def packageTypes : FieldTypes :=
  .cons 0 true (.string []) .string <|
  .cons 1 true (.string []) .string <|
  .cons 2 true (.int64 0) .int64 <|
  .cons 3 true (.string sha1Method) .string <|
  .cons 4 true (.string []) .string .nil

def packageFields (pkg : BasicAuthPackage) : List (UInt8 × Value) :=
  [(0, .string pkg.sObjName), (1, .string pkg.sAccessKey),
    (2, .int64 pkg.iTime), (3, .string pkg.sHashMethod),
    (4, .string pkg.sSignature)]

def packageOfFields : List (UInt8 × Value) → Option BasicAuthPackage
  | [(_, .string sObjName), (_, .string sAccessKey), (_, .int64 iTime),
      (_, .string sHashMethod), (_, .string sSignature)] =>
      some ⟨sObjName, sAccessKey, iTime, sHashMethod, sSignature⟩
  | _ => none

/-- One field after the other. -/
def authF : AuthF where
  sHashMethod := sha1Method
  writeTo pkg := writeTo (packageFields pkg)
  readFrom bytes :=
    if fits : bytes.length < sizeLimit then
      match (readFrom packageTypes).run (BufferReader.setBuffer bytes fits) with
      | .ok fields _ => packageOfFields fields
      | .error _ _ => none
    else
      none

theorem authF_lawful : authF.Lawful where
  sHashMethod := rfl
  sSignature_le pkg bytes written := by
    obtain ⟨part, signature, bound⟩ := write_of_mem written
      (show (4, Value.string pkg.sSignature) ∈ packageFields pkg by
        simp [packageFields])
    have encoded := write_eq_encode
      (.string (length_le_of_writeString signature)) 4
    obtain rfl := Except.ok.inj (signature.symm.trans encoded)
    refine le_trans ?_ bound
    rw [encode, Value.payload]
    simp only [List.length_append]
    omega
  readFrom_writeTo pkg bytes written small := by
    have fits := fits_of_small small
    have are : packageTypes.AreFields (packageFields pkg) :=
      .cons (.string _) <| .cons (.string _) <| .cons (.int64 _) <|
        .cons (.string _) <| .cons (.string _) .nil
    have typed := hasFields_of_written are written small
    have encoded := writeTo_eq_encodeFields typed
    obtain rfl := Except.ok.inj (written.symm.trans encoded)
    have facing : (BufferReader.setBuffer _ fits).Facing
        (encodeFields (packageFields pkg) ++ []) :=
      ⟨Nat.zero_le _, (List.append_nil _).symm⟩
    dsimp only [authF]
    rw [dif_pos fits, reads_readFrom typed _ [] facing]
    rfl

def protocol : Protocol := ⟨1, 0⟩

/-- The object `T.S.O` and the access key `ak`. -/
def info : BasicAuthInfo where
  sObjName := [84, 46, 83, 46, 79]
  sAccessKey := [97, 107]
  sSecretKey := secretKey

def adapter : BindAdapter := ⟨true, [97, 107], secretKey⟩

def frame : List UInt8 :=
  (onSendAuthCallback protocol cipher authF sent info).toOption.getD []

def verify (tnow : Int) (buff : List UInt8) : VerifyAnswer :=
  verifyAnswer protocol cipher authF tnow (some adapter) info.sObjName buff

theorem frame_sent : AuthFrame protocol cipher authF sent info frame where
  written := by
    rw [frame]
    rfl
  fits := by decide +kernel

theorem frame_overread : Overread protocol info frame := by
  unfold Overread
  decide +kernel

end Sample

/-- When it was sent the frame is received as a whole. -/
theorem authenticates_whole :
    Authenticates Sample.verify [(1700000000, Sample.frame)] := by
  have something : Sample.frame ≠ [] := by decide +kernel
  have same : SameKeys Sample.adapter Sample.info := ⟨rfl, rfl⟩
  have window : InWindow Sample.sent 1700000000 := by
    unfold InWindow
    decide
  refine (authenticates_iff Sample.cipher_lawful Sample.authF_lawful rfl same
    Sample.frame_sent ?_ ?_).1 ⟨by decide, rfl, Sample.frame_overread⟩
  · intro chunk member
    rw [List.mem_singleton.mp member]
    exact ⟨something, window⟩
  · exact List.append_nil _

/-- The first bytes of the frame on their own are refused. -/
theorem partialFrame_refused :
    (Sample.verify 1700000000 (Sample.frame.take 40)).type = some .err ∧
      ¬ Authenticates Sample.verify [(1700000000, Sample.frame.take 40),
        (1700000000, Sample.frame.drop 40)] := by
  have something : Sample.frame.take 40 ≠ [] := by decide +kernel
  have missing : Sample.frame.drop 40 ≠ [] := by decide +kernel
  have cut : Cut (Sample.frame.take 40) Sample.frame :=
    ⟨_, missing, List.take_append_drop 40 Sample.frame⟩
  have answer : Sample.verify 1700000000 (Sample.frame.take 40) =
      ⟨some .err, 0, false, false⟩ :=
    Sample.frame_sent.part rfl Sample.frame_overread cut
  exact ⟨congrArg VerifyAnswer.type answer,
    not_authenticates_of_err something answer⟩

end TarsCpp.Authentication
