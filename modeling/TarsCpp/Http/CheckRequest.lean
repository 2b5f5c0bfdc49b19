import Mathlib.Data.List.DropRight
import TarsCpp.CString
import TarsCpp.NetworkBuffer.Buffer

/-!
# Whether a request has arrived

`TC_HttpRequest::checkRequest`.  The memory is the `iLen` bytes of the buffer,
so that an access behind them is an `invalidAccess`.  A loop gets the number of
turns it may take; `none` says that it was still running after them.
-/

namespace TarsCpp.Http

open CString NetworkBuffer

/-- An access to memory. -/
def access {α : Type} : Option α → Except Failure α
  | some value => .ok value
  | none => .error .invalidAccess

/-- The loop of `strnstr` that counts `l1`; nothing uses the count. -/
def countLoop : Memory → Nat → Option Nat
  | _, 0 => some 0
  | [], _ + 1 => none
  | c :: rest, turns + 1 =>
      if c = 0 then some 0 else (countLoop rest turns).map (· + 1)

def memcmp (s2 : List UInt8) (s1 : Memory) : Option Bool :=
  if s2.length ≤ s1.length then some (s2 <+: s1) else none

/-- The loop of `strnstr` over `memcmp`. -/
def searchLoop (s2 : List UInt8) : Memory → Nat → Option (Option Nat)
  | _, 0 => some none
  | s1, turns + 1 => do
      if ← memcmp s2 s1 then
        some (some 0)
      else
        return (← searchLoop s2 (s1.drop 1) turns).map (· + 1)

/-- The offset of `s2`; `pos1` is an `int`. -/
def strnstr (s1 : Memory) (s2 : List UInt8) (pos1 : Int) :
    Option (Option Nat) :=
  if s2 = [] then
    some (some 0)
  else do
    let _ ← countLoop s1 pos1.toNat
    searchLoop s2 s1 (pos1 + 1 - s2.length).toNat

/-- `trim` of single characters. -/
def trim (sStr s : List UInt8) : List UInt8 :=
  (sStr.dropWhile (· ∈ s)).rdropWhile (· ∈ s)

/-- `strto<size_t>`. -/
def strto (sStr : List UInt8) : Nat :=
  if sStr = [] then
    0
  else if ascii "0x" <+: sStr then
    strtoul 16 sStr
  else
    strtoul 10 sStr

/-- Bytes in the text of an exception. -/
def text (bytes : List UInt8) : String :=
  .ofList (bytes.map fun c => Char.ofNat c.toNat)

inductive RequestType
  | get
  | post
  | put
  | patch
  | options
  | pri
  | delete
  | head
deriving DecidableEq, Repr

/-- `TC_Http::HEADER`. -/
def HEADER : List (List UInt8 × RequestType) :=
  [(ascii "GET", .get), (ascii "POST", .post), (ascii "PUT", .put),
    (ascii "PATCH", .patch), (ascii "OPTIONS", .options), (ascii "PRI", .pri),
    (ascii "DELETE", .delete), (ascii "HEAD", .head)]

def space : List UInt8 := ascii " "

def colon : List UInt8 := ascii ":"

def crlfcrlf : List UInt8 := crlf ++ crlf

def transferEncoding : List UInt8 := ascii "Transfer-Encoding:"

def contentLength : List UInt8 := ascii "Content-Length:"

/-- The default second argument of `trim`. -/
def blanks : List UInt8 := ascii " \r\n\t"

/-- `string(line + 18, lineEnd)`, trimmed, is `"chunked"`. -/
def isChunked (line : List UInt8) : Bool :=
  trim (line.drop 18) blanks = ascii "chunked"

/-- The number in `string(line + 15, lineEnd)`. -/
def lengthOf (line : List UInt8) : Nat := strto (trim (line.drop 15) space)

/-- The loop over the lines of the header: `bChunk` and `len`. -/
def headerLoop (sBuffer : Memory) (iHeadLen : Nat) :
    Nat → Nat → Nat → Except Failure (Option (Bool × Nat))
  | 0, _, _ => .ok none
  | turns + 1, p, len =>
      if p ≥ iHeadLen then
        .ok (some (false, len))
      else do
        let line := sBuffer.drop p
        match ← access (strstr crlf line) with
        -- nothing changes, and the loop goes round for ever
        | none => headerLoop sBuffer iHeadLen turns p len
        | some lineEnd =>
            let p := p + lineEnd + 2
            if ← access (strncasecmp transferEncoding line) then
              if isChunked (line.take lineEnd) then
                .ok (some (true, len))
              else
                headerLoop sBuffer iHeadLen turns p len
            else if ← access (strncasecmp contentLength line) then
              headerLoop sBuffer iHeadLen turns p
                (lengthOf (line.take lineEnd))
            else
              headerLoop sBuffer iHeadLen turns p len

/-- `strtol` of the size of a chunk, as an `int`. -/
def chunkSize (line : List UInt8) : Int := toInt (strtol 16 line)

/-- The loop over the chunks; `pCur` may leave the buffer. -/
def chunkLoop (sBuffer : Memory) :
    Nat → Nat → Int → Except Failure (Option Bool)
  | 0, _, _ => .ok none
  | turns + 1, pCur, remain_len => do
      match ← access (strnstr (sBuffer.drop pCur) crlf remain_len) with
      | none => .ok (some false)
      | some p =>
          let iChunkSize := chunkSize ((sBuffer.drop pCur).take p)
          if iChunkSize ≤ 0 then
            .ok (some true)
          else
            let move_len := toInt (p + 2 + iChunkSize + 2)
            if remain_len ≥ move_len then
              chunkLoop sBuffer turns (pCur + p + 2 + iChunkSize.toNat + 2)
                (toInt (remain_len - move_len))
            else
              .ok (some false)

/-- What follows the scan of the header. -/
def checkBody (turns : Nat) (sBuffer : Memory) (pos : Nat) :
    Option (Bool × Nat) → Except Failure (Option Bool)
  | none => .ok none
  | some (true, _) =>
      chunkLoop sBuffer turns (pos + 4) (toInt (sBuffer.length - (pos + 4)))
  | some (false, len) =>
      -- the sum is a `size_t`
      .ok (some ((len + pos + 4) % 2 ^ 64 ≤ sBuffer.length))

def checkRequest (turns : Nat) (sBuffer : Memory) :
    Except Failure (Option Bool) :=
  if sBuffer.length < 10 then
    .ok (some false)
  else do
    match ← access (strnstr sBuffer space 10) with
    | none =>
        .error (.thrown
          "[TC_HttpRequest::checkRequest] http protocol parse error")
    | some p =>
        if (HEADER.lookup (sBuffer.take p)).isNone then
          .error (.thrown
            ("[TC_HttpRequest::checkRequest] protocol not support: " ++
              text (sBuffer.take 8)))
        else
          match ← access (strnstr sBuffer crlfcrlf (toInt sBuffer.length)) with
          | none => .ok (some false)
          | some pos =>
              let iHeadLen := pos + 4
              match ← access (strnstr sBuffer crlf (toInt iHeadLen)) with
              | none => .ok (some false)
              | some p =>
                  let found ← headerLoop sBuffer iHeadLen turns (p + 2) 0
                  checkBody turns sBuffer pos found

end TarsCpp.Http
