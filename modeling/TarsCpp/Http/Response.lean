import TarsCpp.Http.Decode

/-!
# Decoding responses bit by bit

`TC_HttpResponse::incrementDecode` and what it calls, and
`ProxyProtocol::http1Response`, which keeps the unfinished response beside the
buffer.  The pointer `data.buffer()` is the memory from the first unread byte to
the end of the block.
-/

namespace TarsCpp.Http

open CString NetworkBuffer

/-- How many bytes satisfy `p` before one that does not. -/
def countWhile (p : UInt8 → Bool) : Memory → Option Nat
  | [] => none
  | c :: rest => if p c then (countWhile p rest).map (· + 1) else some 0

def isSign (c : UInt8) : Bool := c = 45 ∨ c = 43

def isHexDigit (c : UInt8) : Bool := (digitValue c).any (· < 16)

/-- The length of a prefix `0x` that a digit follows. -/
def hexPrefix (text : Memory) : Option Nat := do
  if (← text.head?) = 48 then
    if tolower (← text[1]?) = 120 then
      if isHexDigit (← text[2]?) then some 2 else some 0
    else
      some 0
  else
    some 0

/-- `strtol(text, &end, 16)` and the offset of `end`. -/
def strtolEnd (text : Memory) : Option (Int × Nat) := do
  let spaces ← countWhile isspace text
  let sign := if isSign (← text[spaces]?) then 1 else 0
  let hex ← hexPrefix (text.drop (spaces + sign))
  let start := spaces + sign + hex
  let count ← countWhile isHexDigit (text.drop start)
  if count = 0 then
    some (0, 0)
  else
    some (strtol 16 (text.take (start + count)), start + count)

/-- `strto<int>`. -/
def strtoInt (sStr : List UInt8) : Int :=
  if sStr = [] then
    0
  else if ascii "0x" <+: sStr then
    toInt (strtol 16 sStr)
  else
    toInt (strtol 10 sStr)

end TarsCpp.Http

namespace TarsCpp.NetworkBuffer

/-- What `buffer()` points to. -/
def Buffer.memory (buff : Buffer) : List UInt8 :=
  (buff.block.getD []).drop buff.readIdx

namespace NetWorkBuffer

def getBuffer (net : NetWorkBuffer) : Option BufferId := net.bufferList.head?

def subLength (length : Nat) (net : NetWorkBuffer) :
    Except Failure NetWorkBuffer := do
  assert (net.length ≥ length) "this->_length >= length"
  pure { net with length := net.length - length }

end NetWorkBuffer

end TarsCpp.NetworkBuffer

namespace TarsCpp.Http

open CString NetworkBuffer

/-- `TC_HttpResponse`, as its constructor leaves it. -/
structure HttpResponse where
  headers : List Header := []
  version : List UInt8 := ascii "HTTP/1.1"
  headLength : Nat := 0
  content : List UInt8 := []
  bIsChunked : Bool := false
  headComplete : Bool := false
  status : Int := 200
  about : List UInt8 := ascii "OK"
  headerLine : List UInt8 := []
  iTmpContentLength : Nat := 0
  iRecvContentLength : Nat := 0
deriving DecidableEq, Repr

namespace HttpResponse

/-- The headers are in `TC_Http`. -/
def http (response : HttpResponse) : HttpRequest :=
  { headers := response.headers }

def checkHeader (sHeader value : List UInt8) (response : HttpResponse) : Bool :=
  response.http.checkHeader sHeader value

def hasHeader (sHeader : List UInt8) (response : HttpResponse) : Bool :=
  (response.http.findHeader sHeader).isSome

def eraseHeader (sHeadName : List UInt8) (response : HttpResponse) :
    HttpResponse :=
  { response with headers := (response.http.eraseHeader sHeadName).headers }

def setContentLength (iContentLength : Nat) (response : HttpResponse) :
    HttpResponse :=
  { response with
    headers := (response.http.setContentLength iContentLength).headers }

def addContent (buffer : List UInt8) (response : HttpResponse) : HttpResponse :=
  { response with
    content := response.content ++ buffer
    iRecvContentLength := response.iRecvContentLength + buffer.length }

def formatError (what : String) (bytes : List UInt8) : Failure :=
  .thrown ("[TC_HttpResponse_Exception::parseResponeHeader] http response " ++
    what ++ text bytes)

/-- From the beginning of the buffer to `headerIt`. -/
def parseResponseHeaderString (turns : Nat) (sBuffer : Memory) (headerIt : Nat)
    (response : HttpResponse) : Except Failure (Option HttpResponse) := do
  match ← access (strnstr sBuffer crlf (toInt headerIt)) with
  | none => .error (.assertion "it != NULL")
  | some it =>
      match ← access (strnstr sBuffer space (toInt it)) with
      | none =>
          .error (formatError "parse version format error : "
            (sBuffer.take headerIt))
      | some f1 =>
          let f2 ← access (strnstr (sBuffer.drop (f1 + 1)) space
            (toInt (it - (f1 + 1))))
          let headerLine := sBuffer.take it
          -- `c_str()` ends with a zero byte
          if ← access (strncasecmp (ascii "HTTP/") (headerLine ++ [0])) then
            match f2 with
            -- `f1` is checked a second time, and `f2` is not
            | none => .error (.thrown "basic_string::_M_create")
            | some f2 =>
                let f2 := f1 + 1 + f2
                let status ← substring sBuffer (f1 + 1) f2
                let about ← substring sBuffer (f2 + 1) it
                match ← parseHeaderString turns sBuffer headerIt with
                | none => pure none
                | some (contentLength, headers) =>
                    pure (some { response with
                      headers := headers
                      version := sBuffer.take f1
                      headComplete := true
                      status := strtoInt status
                      about := about
                      headerLine := headerLine
                      iTmpContentLength := contentLength })
          else
            .error (formatError "version is not start with 'HTTP/' : "
              headerLine)

/-- The loop over the chunks. -/
def decodeChunks :
    Nat → HttpResponse → Buffer →
      Except Failure (Option (Bool × HttpResponse × Buffer))
  | 0, _, _ => .ok none
  | turns + 1, response, data => do
      match find crlf (← data.content) with
      | none => pure (some (false, response, data))
      | some _ =>
          let (value, sit) ← access (strtolEnd data.memory)
          let iChunkSize := toInt value
          if iChunkSize ≤ 0 then
            pure (some (true,
              response.setContentLength response.iRecvContentLength,
              data.clear))
          else if data.length < sit + 2 + iChunkSize.toNat + 2 then
            pure (some (false, response, data))
          else do
            let data ← data.addReadIdx (.ofNat (sit + 2))
            let chunk ← load data.block data.readIdx iChunkSize.toNat
            let data ← data.addReadIdx (.ofInt (iChunkSize + 2))
            decodeChunks turns (response.addContent chunk) data

/-- `if(_iRecvContentLength > 0) setContentLength(_iRecvContentLength)`. -/
def setReceivedLength (response : HttpResponse) : HttpResponse :=
  if response.iRecvContentLength > 0 then
    response.setContentLength response.iRecvContentLength
  else
    response

/-- A body that does not come in chunks. -/
def decodeContent (response : HttpResponse) (data : Buffer) :
    Except Failure (Option (Bool × HttpResponse × Buffer)) := do
  if response.iTmpContentLength = 0 then
    let response := response.addContent (← data.content)
    pure (some (true, response.setReceivedLength, data.clear))
  else if response.iTmpContentLength = 2 ^ 64 - 1 then
    if response.status = 304 ∨ response.status = 302 then
      pure (some (true, response, data))
    else
      let response := response.addContent (← data.content)
      pure (some (false, response.setReceivedLength, data.clear))
  else
    let response := response.addContent (← data.content)
    pure (some (¬ response.iTmpContentLength > response.iRecvContentLength,
      response, data.clear))

def decodeBody (turns : Nat) (response : HttpResponse) (data : Buffer) :
    Except Failure (Option (Bool × HttpResponse × Buffer)) :=
  if response.bIsChunked then
    decodeChunks turns response data
  else
    decodeContent response data

/-- `data.expansion`, if there is a length; the sum is a `size_t`. -/
def expand (garbage : Garbage) (response : HttpResponse) (data : Buffer) :
    Except Failure Buffer :=
  if response.iTmpContentLength > 0 then
    data.expansion garbage
      ((response.headLength + response.iTmpContentLength) % 2 ^ 64)
  else
    .ok data

/-- A chunked body is noted, and not announced any more. -/
def noteChunks (response : HttpResponse) : HttpResponse :=
  if response.checkHeader (ascii "Transfer-Encoding") (ascii "chunked") then
    { response.eraseHeader (ascii "Transfer-Encoding") with bIsChunked := true }
  else
    { response with bIsChunked := false }

/-- What follows the parsing of the head. -/
def leaveHead (garbage : Garbage) (turns : Nat) (response : HttpResponse)
    (data : Buffer) :
    Except Failure (Option (Bool × HttpResponse × Buffer)) :=
  if 204 = response.status ∨ 304 = response.status then
    .ok (some (true, response, data))
  else do
    let data ← data.addReadIdx (.ofNat response.headLength)
    if (response.status = 301 ∨ response.status = 302) ∧
        response.hasHeader (ascii "Location") then
      pure (some (true, response, data))
    else
      let data ← response.expand garbage data
      decodeBody turns response.noteChunks data

def incrementDecodeBuffer (garbage : Garbage) (turns : Nat)
    (response : HttpResponse) (data : Buffer) :
    Except Failure (Option (Bool × HttpResponse × Buffer)) :=
  if data.empty then
    .ok (some (false, response, data))
  else if response.headLength = 0 then do
    match ← access (strnstr data.memory crlfcrlf (toInt data.length)) with
    | none => pure (some (false, response, data))
    | some p =>
        match ← parseResponseHeaderString turns data.memory (p + 4)
            { response with headLength := p + 4 } with
        | none => pure none
        | some response => leaveHead garbage turns response data
  else
    decodeBody turns response data

def incrementDecode (garbage : Garbage) (turns : Nat) (response : HttpResponse)
    (buff : NetWorkBuffer) :
    Except Failure (Option (Bool × HttpResponse × NetWorkBuffer)) :=
  if buff.length = 0 then
    .ok (some (false, response, buff))
  else do
    let (_, buff) ← buff.mergeBuffers garbage
    match buff.getBuffer with
    | none => .error .invalidAccess
    | some sBuf =>
        match ← response.incrementDecodeBuffer garbage turns
            (buff.buffers sBuf) with
        | none => pure none
        | some (flag, response, data) =>
            -- the difference is a `size_t`
            let length := (buff.length + 2 ^ 64 - data.length) % 2 ^ 64
            let buff ← (buff.put sBuf data).subLength length
            pure (some (flag, response, buff))

end HttpResponse

end TarsCpp.Http
