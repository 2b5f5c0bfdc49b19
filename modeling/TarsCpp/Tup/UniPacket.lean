import TarsCpp.Authentication.AuthLogic
import TarsCpp.CString
import TarsCpp.OrderedMap
import TarsCpp.Tup.WriterSwaps

/-!
# `UniAttribute` and `UniPacket`

The attributes are a map from names to the encodings of their values; the
storage of these comes from the one output stream of the packet.  A call that
throws still uses the stream.

The input stream is set to a buffer before every use, so it is made where it is
used.
-/

namespace TarsCpp.Tup

open Authentication ByteOrder NetworkBuffer

/-- What the calls of one operation add to its arguments: how the encoder
divides what it writes, where it has come to when it throws, and what the
allocations choose. -/
structure Emission where
  fresh : Fresh
  chunks : List UInt8 → List (Fresh × List UInt8)
  whole : ∀ bytes, (chunks bytes).flatMap Prod.snd = bytes
  started : List UInt8
  started_lt : started.length < 2 ^ 62

/-- An exception of a packet. -/
inductive TupException
  | runtime_error (what : List UInt8)
  | codec (exception : TarsDecodeException)
  /-- `std::length_error` -/
  | length_error
deriving DecidableEq, Repr

/-- What is written has to fit into a container. -/
def bounded (written : Except TarsDecodeException (List UInt8)) :
    Except TupException (List UInt8) :=
  match written with
  | .error exception => .error (.codec exception)
  | .ok bytes =>
      if bytes.length < 2 ^ 62 then .ok bytes else .error .length_error

/-- The exception or what is returned, and the state. -/
abbrev Ended (α β : Type) := Except TupException α × β

/-- `map<string, vector<char>>` -/
abbrev Attributes := OrderedMap (List UInt8) Container

namespace Attributes

/-- `_data[name]`, which is empty if it was not there. -/
def entry (name : List UInt8) (data : Attributes) : Container :=
  (data.find? name).getD { block := [] }

def toValue (data : Attributes) : Value :=
  .map (data.entries.map fun entry =>
    (.string entry.1, .charVector entry.2.content))

/-- `map<string, vector<char>>` -/
def type : WireType := .map lessString .string .charVector

/-- A vector that has just been read. -/
def ofContent (bytes : List UInt8) : Container :=
  { block := bytes, size := bytes.length }

def ofValue : Value → Attributes
  | .map entries => .ofList <| entries.filterMap fun entry =>
      match entry with
      | (.string name, .charVector bytes) => some (name, ofContent bytes)
      | _ => none
  | _ => .empty

end Attributes

/-- A value or a byte string for an attribute. -/
inductive Put
  | value (type : WireType) (t : Value)
  | unknown (s : List UInt8)

namespace Put

/-- What `os.write(t, 0)` or `os.writeUnknownV2(value)` writes. -/
def bytes : Put → Except TupException (List UInt8)
  | value _ t => bounded (write t 0)
  | unknown s => bounded (.ok (writeToHead .structBegin 0 ++ s ++
      writeToHead .structEnd 0))

end Put

structure UniAttribute (writer : TWriter) where
  data : Attributes
  iVer : BitVec 16
  os : writer.State

namespace TWriter

/-- The calls of `writeBuf` of one `write`. -/
def writeChunks (writer : TWriter) (chunks : List (Fresh × List UInt8))
    (os : writer.State) : Except Failure writer.State :=
  chunks.foldlM (fun os chunk => writer.writeBuf chunk.1 chunk.2 os) os

/-- `os.write(..)`, which may throw after it has written something. -/
def emit (writer : TWriter) (emission : Emission)
    (written : Except TupException (List UInt8)) (os : writer.State) :
    Except Failure (Ended Unit writer.State) :=
  match written with
  | .error exception => do
      let os ← writer.writeChunks (emission.chunks emission.started) os
      pure (.error exception, os)
  | .ok bytes => do
      let os ← writer.writeChunks (emission.chunks bytes) os
      pure (.ok (), os)

end TWriter

variable {writer : TWriter}

namespace UniAttribute

/-- `put` and `putUnknown` -/
def put (emission : Emission) (name : List UInt8) (value : Put)
    (u : UniAttribute writer) :
    Except Failure (Ended Unit (UniAttribute writer)) := do
  let os := writer.reset u.os
  let (written, os) ← writer.emit emission value.bytes os
  match written with
  | .error exception => pure (.error exception, { u with os })
  | .ok () => do
      let (v, os) ← writer.swapVector emission.fresh
        (u.data.entry name) os
      pure (.ok (), { u with os, data := u.data.assign name v })

/-- `UniAttribute not found key:` -/
def notFound (name : List UInt8) : TupException :=
  .runtime_error (CString.ascii "UniAttribute not found key:" ++ name)

/-- A read from a buffer. -/
def readFromBuffer {α : Type} (read : Decode α) (buff : List UInt8) :
    Except Fault α :=
  if fits : buff.length < sizeLimit then
    match read.run (BufferReader.setBuffer buff fits) with
    | .ok t _ => .ok t
    | .error fault _ => .error fault
  else
    .error (.outOfBounds sizeLimit)

/-- `get<T>(name)`: a fault is an exception of the codec. -/
def get (type : WireType) (name : List UInt8) (u : UniAttribute writer) :
    Except (TupException ⊕ Fault) Value :=
  match u.data.find? name with
  | none => .error (.inl (notFound name))
  | some v =>
      match readFromBuffer (read type type.default 0 true) v.content with
      | .ok t => .ok t
      | .error fault => .error (.inr fault)

def getUnknown (name : List UInt8) (u : UniAttribute writer) :
    Except TupException (List UInt8) :=
  match u.data.find? name with
  | none => .error (notFound name)
  | some v =>
      if v.size > 2 then
        .ok ((v.content.drop 1).take (v.size - 2))
      else
        .error (notFound name)

end UniAttribute

/-- `sBuffer` of the request is kept apart: it is a vector that is exchanged. -/
structure UniPacket (writer : TWriter) where
  header : RequestPacket
  sBuffer : Container
  attributes : UniAttribute writer

namespace UniPacket

/-- The fields that `writeTo` writes. -/
def request (packet : UniPacket writer) : RequestPacket :=
  { packet.header with sBuffer := packet.sBuffer.content }

/-- `UniPacket()` -/
def init (writer : TWriter) : UniPacket writer where
  header := { iVersion := 3 }
  sBuffer := { block := [] }
  attributes := ⟨.empty, 3, writer.empty⟩

def withOs (os : writer.State) (packet : UniPacket writer) :
    UniPacket writer :=
  { packet with attributes := { packet.attributes with os } }

def doEncode (emission : Emission) (packet : UniPacket writer) :
    Except Failure (Ended Unit (UniPacket writer)) :=
  if packet.header.sServantName = [] then
    pure (.error (.runtime_error
      (CString.ascii "ServantName must not be empty")), packet)
  else if packet.header.sFuncName = [] then
    pure (.error (.runtime_error
      (CString.ascii "FuncName must not be empty")), packet)
  else do
    let os := writer.reset packet.attributes.os
    let (written, os) ← writer.emit emission
      (bounded (write packet.attributes.data.toValue 0)) os
    match written with
    | .error exception => pure (.error exception, packet.withOs os)
    | .ok () => do
        let (sBuffer, os) ←
          writer.swapVector emission.fresh packet.sBuffer os
        pure (.ok (), { packet.withOs (writer.reset os) with sBuffer })

/-- `memcpy(&buff[0], &iHeaderLen, 4)`, with `htonl` of the size. -/
def patch (buff : Container) : Except Failure Container :=
  if 4 ≤ buff.size then do
    match ← store (some buff.block) 0 (bigEndian 4 (buff.size % 2 ^ 32)) with
    | some block => pure { buff with block }
    | none => .error .invalidAccess
  else
    .error (.assertion "buff.size() >= 4")

/-- `encodeBuff`; `swap` is the one for the type of `buff`. -/
def encodeBuff
    (swap : Fresh → Container → writer.State →
      Except Failure (Container × writer.State))
    (first second : Emission) (buff : Container) (packet : UniPacket writer) :
    Except Failure (Ended Container (UniPacket writer)) := do
  let packet := packet.withOs (writer.reset packet.attributes.os)
  let (done, packet) ← packet.doEncode first
  match done with
  | .error exception => pure (.error exception, packet)
  | .ok () => do
      let os := writer.reset packet.attributes.os
      let os ← writer.writeBuf second.fresh (bigEndian 4 0) os
      let (written, os) ← writer.emit second
        (bounded (writeTo packet.request.fields)) os
      match written with
      | .error exception => pure (.error exception, packet.withOs os)
      | .ok () => do
          let (buff, os) ← swap second.fresh buff os
          let buff ← patch buff
          pure (.ok buff, packet.withOs os)

/-- `encode(char*, size_t&)` for a buffer of `len` bytes: what it holds
afterwards, and the new `len`. -/
def encodeChars (first second : Emission) (buff : List UInt8)
    (packet : UniPacket writer) :
    Except Failure (Ended (List UInt8 × Nat) (UniPacket writer)) := do
  let packet := packet.withOs (writer.reset packet.attributes.os)
  let (done, packet) ← packet.doEncode first
  match done with
  | .error exception => pure (.error exception, packet)
  | .ok () => do
      let os := writer.reset packet.attributes.os
      let (written, os) ← writer.emit second
        (bounded (writeTo packet.request.fields)) os
      match written with
      | .error exception => pure (.error exception, packet.withOs os)
      | .ok () => do
          let body ← writer.getBuffer os
          let packet := packet.withOs os
          if buff.length < 4 + body.length then
            pure (.error (.runtime_error (CString.ascii
              "encode error, buffer length too short")), packet)
          else do
            let buff ← store (some buff) 0
              (bigEndian 4 ((4 + body.length) % 2 ^ 32))
            let buff ← store buff 4 body
            pure (.ok (buff.getD [], 4 + body.length), packet)

/-- The three overloads of `encode`. -/
inductive Encode
  | string (buff : Container) (sized : buff.Sized 1)
  | vector (buff : Container) (sized : buff.Sized 0)
  | chars (buff : List UInt8)

/-- One call, and the bytes that it gives. -/
def encode (first second : Emission) (packet : UniPacket writer) :
    Encode → Except Failure (Ended (List UInt8) (UniPacket writer))
  | .string buff _ => do
      let (result, packet) ←
        packet.encodeBuff writer.swapString first second buff
      pure (result.map Container.content, packet)
  | .vector buff _ => do
      let (result, packet) ←
        packet.encodeBuff writer.swapVector first second buff
      pure (result.map Container.content, packet)
  | .chars buff => do
      let (result, packet) ← packet.encodeChars first second buff
      pure (result.map fun (buff, len) => buff.take len, packet)

/-- `decode` -/
def decode (buff : List UInt8) (packet : UniPacket writer) :
    Except (TupException ⊕ Fault) (UniPacket writer) :=
  if buff.length < 4 then
    .error (.inl (.runtime_error (CString.ascii
      "packet length too short, first 4 bytes must be buffer length.")))
  else
    match UniAttribute.readFromBuffer (readFrom RequestPacket.types)
        (buff.drop 4) with
    | .error fault => .error (.inr fault)
    | .ok fields =>
        let header := RequestPacket.ofFields fields
        match UniAttribute.readFromBuffer
            (read Attributes.type (.map []) 0 true) header.sBuffer with
        | .error fault => .error (.inr fault)
        | .ok data => .ok {
            header := { header with sBuffer := [] }
            sBuffer := Attributes.ofContent header.sBuffer
            attributes := {
              data := Attributes.ofValue data
              iVer := header.iVersion
              os := packet.attributes.os } }

end UniPacket

/-- One call of `put` or of `putUnknown`. -/
structure PutCall where
  emission : Emission
  name : List UInt8
  put : Put

/-- The calls one after the other; what they throw is caught. -/
def putAll (calls : List PutCall) (u : UniAttribute writer) :
    Except Failure (UniAttribute writer) :=
  calls.foldlM (fun u call => do
    let (_, u) ← u.put call.emission call.name call.put
    pure u) u

/-- What was last put under a name: a call that throws puts nothing. -/
def lastPut (name : List UInt8) : List PutCall → Option Put
  | [] => none
  | call :: calls =>
      match lastPut name calls with
      | some put => some put
      | none =>
          match call.put.bytes with
          | .ok _ => if call.name = name then some call.put else none
          | .error _ => none

end TarsCpp.Tup
