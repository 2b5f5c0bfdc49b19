import Mathlib.Data.List.Lex
import TarsCpp.Http.CheckRequest
import TarsCpp.Multimap
import TarsCpp.NetworkBuffer.Framing

/-!
# Decoding a request

`TC_HttpRequest::decode` and what it calls, and `TC_NetWorkBuffer::parseHttp`,
which hands a request over to it.  Pointers into the buffer are offsets.  Of the
URL the model keeps the string that `parseURL` gets.
-/

namespace TarsCpp.Http

open CString NetworkBuffer

structure Header where
  name : List UInt8
  value : List UInt8
deriving DecidableEq, Repr

/-- `TC_Http::CmpCase` orders strings by these keys: `strcasecmp` ends at a zero
byte. -/
def caseKey (s : List UInt8) : List Nat :=
  (s.takeWhile (· ≠ 0)).map fun c => (tolower c).toNat

/-- `TC_HttpRequest`. -/
structure HttpRequest where
  headers : List Header := []
  version : List UInt8 := []
  headLength : Nat := 0
  content : List UInt8 := []
  headComplete : Bool := false
  requestType : RequestType := .get
  httpURL : List UInt8 := []
deriving DecidableEq, Repr

namespace HttpRequest

/-- `_headers.find`. -/
def findHeader (sHeader : List UInt8) (request : HttpRequest) :
    Option Header :=
  request.headers.find? fun header => caseKey header.name = caseKey sHeader

def checkHeader (sHeader value : List UInt8) (request : HttpRequest) : Bool :=
  match request.findHeader sHeader with
  | none => false
  | some header => caseKey header.value = caseKey value

def getHeader (sHeader : List UInt8) (request : HttpRequest) : List UInt8 :=
  match request.findHeader sHeader with
  | none => []
  | some header => header.value

def getHost (request : HttpRequest) : List UInt8 :=
  request.getHeader (ascii "Host")

def getContentLength (request : HttpRequest) : Nat :=
  strto (request.getHeader (ascii "Content-Length"))

def eraseHeader (sHeadName : List UInt8) (request : HttpRequest) :
    HttpRequest :=
  let kept := request.headers.filter fun header =>
    caseKey header.name ≠ caseKey sHeadName
  { request with headers := kept }

def insertHeader (header : Header) (headers : List Header) : List Header :=
  Multimap.insert (fun header => caseKey header.name) header headers

def setHeader (sHeadName sHeadValue : List UInt8) (request : HttpRequest) :
    HttpRequest :=
  let request :=
    if caseKey sHeadName ≠ caseKey (ascii "SET-COOKIE") ∧
        caseKey sHeadName ≠ caseKey (ascii "COOKIE") then
      request.eraseHeader sHeadName
    else
      request
  let header := ⟨sHeadName, sHeadValue⟩
  { request with headers := insertHeader header request.headers }

/-- `setHeader` of `tostr(iContentLength)`. -/
def setContentLength (iContentLength : Nat) (request : HttpRequest) :
    HttpRequest :=
  request.setHeader (ascii "Content-Length")
    (ascii (String.ofList (Nat.toDigits 10 iContentLength)))

end HttpRequest

/-- `while (*s == ' ') ++s`. -/
def skipSpaces : Memory → Nat → Option Nat
  | [], _ => none
  | c :: rest, place =>
      if c = 32 then skipSpaces rest (place + 1) else some place

/-- `while (*s == ' ') --s`. -/
def skipBack (sBuffer : Memory) : Nat → Option Nat
  | 0 => do if (← sBuffer[0]?) = 32 then none else some 0
  | place + 1 => do
      if (← sBuffer[place + 1]?) = 32 then skipBack sBuffer place
      else some (place + 1)

/-- `string(start, stop - start)`. -/
def substring (sBuffer : Memory) (start stop : Nat) :
    Except Failure (List UInt8) :=
  if stop < start then
    .error (.thrown "basic_string::_M_create")
  else
    .ok ((sBuffer.take stop).drop start)

/-- The value of `contentLength` behind a line. -/
def announcedLength (name value : List UInt8) (contentLength : Nat) :
    Except Failure Nat := do
  -- `c_str()` ends with a zero byte
  if ← access (strncasecmp (ascii "Content-Length") (name ++ [0])) then
    pure (strto value)
  else
    pure contentLength

/-- One line of the loop, from `lineStartIt` to `it`. -/
def parseHeaderLine (sBuffer : Memory) (lineStartIt it : Nat)
    (parsed : Nat × List Header) : Except Failure (Nat × List Header) := do
  match ← access (strnstr (sBuffer.drop lineStartIt) colon
      (toInt (it - lineStartIt))) with
  | none => pure parsed
  | some itF =>
      let itF := lineStartIt + itF
      let lineStartIt ←
        access (skipSpaces (sBuffer.drop lineStartIt) lineStartIt)
      let s ← access (skipBack sBuffer itF)
      let name ← substring sBuffer lineStartIt s
      let itF ← access (skipSpaces (sBuffer.drop (itF + 1)) (itF + 1))
      let s ← access (skipBack sBuffer it)
      let value ← substring sBuffer itF s
      let contentLength ← announcedLength name value parsed.1
      pure (contentLength, HttpRequest.insertHeader ⟨name, value⟩ parsed.2)

/-- The first line is left alone. -/
def parseUnlessFirst (sBuffer : Memory) (lineStartIt it : Nat) (first : Bool)
    (parsed : Nat × List Header) : Except Failure (Nat × List Header) :=
  if first then .ok parsed else parseHeaderLine sBuffer lineStartIt it parsed

def parseHeaderLoop (sBuffer : Memory) (headerIt : Nat) :
    Nat → Nat → Bool → Nat × List Header →
      Except Failure (Option (Nat × List Header))
  | 0, _, _, _ => .ok none
  | turns + 1, lineStartIt, first, parsed => do
      match ← access (strnstr (sBuffer.drop lineStartIt) crlf
          (toInt (headerIt - lineStartIt))) with
      | none =>
          let parsed ←
            parseUnlessFirst sBuffer lineStartIt headerIt first parsed
          pure (some parsed)
      | some it =>
          let it := lineStartIt + it
          let parsed ← parseUnlessFirst sBuffer lineStartIt it first parsed
          parseHeaderLoop sBuffer headerIt turns (it + 2) false parsed

/-- `TC_Http::parseHeaderString`, from the beginning of the buffer. -/
def parseHeaderString (turns : Nat) (sBuffer : Memory) (headerIt : Nat) :
    Except Failure (Option (Nat × List Header)) :=
  parseHeaderLoop sBuffer headerIt turns 0 true (2 ^ 64 - 1, [])

def formatError (line : List UInt8) : Failure :=
  .thrown ("[TC_HttpRequest::parseRequestHeader] http request format error: " ++
    text line)

/-- The URL that `parseURL` gets; `f1` is in front of it in the buffer. -/
def absoluteURL (sBuffer : Memory) (f1 : Nat) (sURL : List UInt8)
    (request : HttpRequest) : Except Failure (List UInt8) := do
  if ← access (strncasecmp (ascii "https://") (sBuffer.drop (f1 + 1))) then
    pure sURL
  else if ← access (strncasecmp (ascii "http://") (sBuffer.drop (f1 + 1))) then
    pure sURL
  else
    pure (ascii "http://" ++ request.getHost ++ sURL)

def parseRequestHeader (turns : Nat) (szBuffer : Memory) (header : Nat)
    (request : HttpRequest) : Except Failure (Option HttpRequest) := do
  match ← access (strstr crlf szBuffer) with
  | none => .error (.assertion "p != NULL")
  | some p =>
      match ← access (strnstr szBuffer space (toInt p)) with
      -- the search for the second space starts behind `NULL`
      | none => .error .invalidAccess
      | some f1 =>
          if f1 = p then
            .error (formatError (szBuffer.take p))
          else
            match ← access (strnstr (szBuffer.drop (f1 + 1)) space
                (toInt (p - f1 + 1))) with
            | none => .error (formatError (szBuffer.take p))
            | some f2 =>
                let f2 := f1 + 1 + f2
                if f2 = p then
                  .error (formatError (szBuffer.take p))
                else
                  let sURL ← substring szBuffer (f1 + 1) f2
                  let version ← substring szBuffer (f2 + 1) p
                  match ← parseHeaderString turns szBuffer header with
                  | none => pure none
                  | some (_, headers) =>
                      let request := { request with
                        version := version, headers := headers
                        headComplete := true }
                      let sURL ← absoluteURL szBuffer f1 sURL request
                      pure (some { request with httpURL := sURL })

/-- The loop over the chunks: whether all have arrived, `iChunkSuffixLen` and
the request. -/
def decodeChunks (sBuffer : Memory) :
    Nat → Nat → Int → HttpRequest →
      Except Failure (Option (Bool × Int × HttpRequest))
  | 0, _, _, _ => .ok none
  | turns + 1, p, iChunkSuffixLen, request => do
      match ← access (strnstr (sBuffer.drop p) crlf
          (toInt (sBuffer.length - p))) with
      | none => pure (some (false, iChunkSuffixLen, request))
      | some pos =>
          let sChunkSize := (sBuffer.drop p).take pos
          let iChunkSize := chunkSize sChunkSize
          let iChunkSuffixLen := toInt (iChunkSuffixLen + sChunkSize.length)
          if iChunkSize ≤ 0 then
            pure (some (true, toInt (iChunkSuffixLen + 4), request))
          else if (sBuffer.length : Int) - p ≥ pos + 2 + iChunkSize + 2 then
            let size := iChunkSize.toNat
            let content :=
              request.content ++ (sBuffer.drop (p + pos + 2)).take size
            let request := { request with content := content }
            decodeChunks sBuffer turns (p + pos + 2 + size + 2)
              (toInt (iChunkSuffixLen + 4))
              (request.setContentLength request.content.length)
          else
            pure (some (false, iChunkSuffixLen, request))

/-- The sum is a `size_t`. -/
def wholeLength (iChunkSuffixLen : Int) (request : HttpRequest) : Int :=
  (request.getContentLength + request.headLength + iChunkSuffixLen) % 2 ^ 64

/-- What follows the header. -/
def decodeBody (turns : Nat) (sBuffer : Memory) (request : HttpRequest) :
    Except Failure (Option (Bool × HttpRequest)) :=
  if request.checkHeader (ascii "Transfer-Encoding") (ascii "chunked") then do
    match ← decodeChunks sBuffer turns request.headLength 0 request with
    | none => pure none
    | some (false, _, request) => pure (some (false, request))
    | some (true, iChunkSuffixLen, request) =>
        pure (some (wholeLength iChunkSuffixLen request = sBuffer.length,
          request))
  else
    let request :=
      { request with content := sBuffer.drop request.headLength }
    .ok (some (wholeLength 0 request = sBuffer.length, request))

def decode (turns : Nat) (sBuffer : Memory) (request : HttpRequest) :
    Except Failure (Option (Bool × HttpRequest)) := do
  match ← access (strnstr sBuffer space 10) with
  | none =>
      .error (.thrown "[TC_HttpRequest::decode] http protocol parse error")
  | some p =>
      match HEADER.lookup (sBuffer.take p) with
      | none =>
          .error (.thrown "[TC_HttpRequest::decode] protocol not support ")
      | some requestType =>
          match ← access (strnstr sBuffer crlfcrlf (toInt sBuffer.length)) with
          | none => pure (some (false, request))
          | some p =>
              let request := { request with requestType := requestType }
              match ← parseRequestHeader turns sBuffer p request with
              | none => pure none
              | some request =>
                  decodeBody turns sBuffer
                    { request with headLength := p + 4 }

end TarsCpp.Http

namespace TarsCpp.NetworkBuffer.NetWorkBuffer

/-- `getBufferPointer().first`, and the `getBufferLength()` bytes there. -/
def pointed (net : NetWorkBuffer) : Except Failure (List UInt8) :=
  if net.length = 0 then
    .ok []
  else
    match net.bufferList.head? with
    | none => .error .invalidAccess
    | some id =>
        load (net.buffers id).block (net.buffers id).readIdx net.length

/-- What `checkHttp` makes of an answer or an exception of `checkRequest`. -/
def httpPacket (net : NetWorkBuffer) :
    Except Failure (Option Bool) →
      Except Failure (Option (PacketType × NetWorkBuffer))
  | .error (.thrown _) => .ok (some (.err, net))
  | .error failure => .error failure
  | .ok none => .ok none
  | .ok (some true) => .ok (some (.full, net))
  | .ok (some false) => .ok (some (.less, net))

def checkHttp (garbage : Garbage) (turns : Nat) (net : NetWorkBuffer) :
    Except Failure (Option (PacketType × NetWorkBuffer)) :=
  match net.mergeBuffers garbage with
  | .error (.thrown _) => .ok (some (.err, net))
  | .error failure => .error failure
  | .ok (_, net) => do
      let sBuffer ← net.pointed
      net.httpPacket (Http.checkRequest turns sBuffer)

def parseHttp (garbage : Garbage) (turns : Nat) (out : List UInt8)
    (net : NetWorkBuffer) :
    Except Failure (Option (PacketType × List UInt8 × NetWorkBuffer)) := do
  match ← net.checkHttp garbage turns with
  | none => pure none
  | some (.full, net) =>
      let out ← net.getBuffers
      pure (some (.full, out, net.clearBuffers))
  | some (b, net) => pure (some (b, out, net))

end TarsCpp.NetworkBuffer.NetWorkBuffer
