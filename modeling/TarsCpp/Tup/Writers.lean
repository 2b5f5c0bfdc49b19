import TarsCpp.NetworkBuffer.Buffer
import TarsCpp.TransitionRun

/-!
# The buffers of the encoder

`BufferWriter`, which owns an array, and `BufferWriterString` and
`BufferWriterVector`, which write through a pointer into the block of a
container.  The containers are described by their block and their size; where
a container moves, the pointers into its old block are lost.
-/

namespace TarsCpp.Tup

open NetworkBuffer

/-- `len1` in `TarsReserveBuf`. -/
def reserveLength (len : Nat) : Nat :=
  let len1 := 2 * len % 2 ^ 64
  if len1 < 128 then 128 else len1

structure BufferWriter where
  buf : Block := none
  len : Nat := 0
  bufLen : Nat := 0

namespace BufferWriter

def reserve (garbage : Garbage) (len : Nat) (os : BufferWriter) :
    Except Failure Block := do
  let copied ← load os.buf 0 os.len
  store (some (newBlock garbage len)) 0 copied

/-- `TarsReserveBuf`. -/
def reserveBuf (garbage : Garbage) (len : Nat) (os : BufferWriter) :
    Except Failure BufferWriter :=
  if os.bufLen < len then do
    let len1 := reserveLength len
    let buf ← os.reserve garbage len1
    pure { os with buf, bufLen := len1 }
  else
    pure os

def reset (os : BufferWriter) : BufferWriter := { os with len := 0 }

def writeBuf (garbage : Garbage) (data : List UInt8) (os : BufferWriter) :
    Except Failure BufferWriter := do
  let len := (os.len + data.length) % 2 ^ 64
  let os ← os.reserveBuf garbage len
  let buf ← store os.buf os.len data
  pure { os with buf, len }

def getByteBuffer (os : BufferWriter) : Except Failure (List UInt8) :=
  load os.buf 0 os.len

def getLength (os : BufferWriter) : Nat := os.len

end BufferWriter

/-- What an allocation may choose: the content of the new memory, and how much
more than asked for there is. -/
structure Fresh where
  garbage : Garbage
  extra : Nat

/-- A `std::string` or a `std::vector<char>`: the block with its capacity, and
how many bytes of it are elements.  `place` tells the blocks apart. -/
structure Container where
  block : List UInt8
  size : Nat := 0
  place : Nat := 0

namespace Container

/-- `resize`: new elements are zero, and a string, unlike a vector, writes a
`terminator` of one byte behind the last one. -/
def resize (terminator : Nat) (fresh : Fresh) (len : Nat)
    (container : Container) : Container :=
  let kept := container.block.take (min container.size len)
  let zeros := List.replicate (len + terminator - min container.size len) 0
  if len + terminator ≤ container.block.length then
    { container with
      block := kept ++ (zeros ++ container.block.drop (len + terminator))
      size := len }
  else
    { block := kept ++ (zeros ++ newBlock fresh.garbage fresh.extra)
      size := len
      place := container.place + 1 }

end Container

/-- The writers that keep a pointer into a container. -/
structure ContainerWriter where
  buffer : Container
  buf : Option Nat := none
  len : Nat := 0
  bufLen : Nat := 0

namespace ContainerWriter

variable (terminator : Nat)

/-- `TarsReserveBuf`. -/
def reserveBuf (fresh : Fresh) (len : Nat) (os : ContainerWriter) :
    ContainerWriter :=
  if os.bufLen < len then
    let len1 := reserveLength len
    let buffer := os.buffer.resize terminator fresh len1
    { os with buffer, buf := some buffer.place, bufLen := len1 }
  else
    os

def reset (os : ContainerWriter) : ContainerWriter := { os with len := 0 }

/-- `memcpy(_buf + _len, ..)`: the pointer has to point into the block of the
container. -/
def copyIn (data : List UInt8) (os : ContainerWriter) :
    Except Failure Container :=
  if data = [] then
    .ok os.buffer
  else if os.buf = some os.buffer.place then do
    match ← store (some os.buffer.block) os.len data with
    | some block => pure { os.buffer with block }
    | none => .error .invalidAccess
  else
    .error .invalidAccess

def writeBuf (fresh : Fresh) (data : List UInt8) (os : ContainerWriter) :
    Except Failure ContainerWriter := do
  let len := (os.len + data.length) % 2 ^ 64
  let os := os.reserveBuf terminator fresh len
  let buffer ← os.copyIn data
  pure { os with buffer, len }

def getByteBuffer (fresh : Fresh) (os : ContainerWriter) :
    List UInt8 × ContainerWriter :=
  let buffer := os.buffer.resize terminator fresh os.len
  (buffer.block.take buffer.size, { os with buffer })

def getLength (os : ContainerWriter) : Nat := os.len

end ContainerWriter

/-- An empty string has a block for its terminator. -/
def BufferWriterString.empty : ContainerWriter := { buffer := { block := [0] } }

def BufferWriterString.writeBuf := ContainerWriter.writeBuf 1

def BufferWriterString.getByteBuffer := ContainerWriter.getByteBuffer 1

def BufferWriterVector.empty : ContainerWriter := { buffer := { block := [] } }

def BufferWriterVector.writeBuf := ContainerWriter.writeBuf 0

def BufferWriterVector.getByteBuffer := ContainerWriter.getByteBuffer 0

inductive WriterEvent
  | writeBuf (fresh : Fresh) (data : List UInt8)
  | getByteBuffer (fresh : Fresh)
  | getBuffer
  | getLength
  | reset

/-- The three writers, and the bytes written since the last `reset`. -/
structure Writers where
  plain : BufferWriter := {}
  string : ContainerWriter := BufferWriterString.empty
  vector : ContainerWriter := BufferWriterVector.empty
  written : List UInt8 := []

namespace Writers

/-- Every writer is given the same calls; `getBuffer` and `getLength` only
look. -/
def run (writers : Writers) : WriterEvent → Except Failure Writers
  | .writeBuf fresh data => do
      let plain ← writers.plain.writeBuf fresh.garbage data
      let string ← BufferWriterString.writeBuf fresh data writers.string
      let vector ← BufferWriterVector.writeBuf fresh data writers.vector
      pure { plain, string, vector, written := writers.written ++ data }
  | .getByteBuffer fresh => do
      let _ ← writers.plain.getByteBuffer
      pure { writers with
        string := (BufferWriterString.getByteBuffer fresh writers.string).2
        vector := (BufferWriterVector.getByteBuffer fresh writers.vector).2 }
  | .getBuffer => pure writers
  | .getLength => pure writers
  | .reset => pure {
      plain := writers.plain.reset
      string := writers.string.reset
      vector := writers.vector.reset
      written := [] }

def Step (writers : Writers) (event : WriterEvent) (next : Writers) : Prop :=
  writers.run event = .ok next

end Writers

end TarsCpp.Tup
