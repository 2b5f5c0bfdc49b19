import TarsCpp.Tup.WriterRuns

/-!
# Writers that give their storage away

`swap` of the three writers, with a `std::vector<char>` or a `std::string`.
`BufferWriter` copies; a writer with a container exchanges it for one of its own
kind and copies into one of the other kind, and forgets pointer and capacity in
either case.

A writer that is used through `reset`, `writeBuf`, `swap`, `getBuffer` and
`getLength` shows what was written since the last `reset`, whatever storage it
got by a `swap`: its capacity never exceeds the size of its container.
-/

namespace TarsCpp.Tup

open NetworkBuffer

namespace Container

/-- The elements. -/
def content (container : Container) : List UInt8 :=
  container.block.take container.size

/-- The block has room for the elements, and for the terminator behind them. -/
def Sized (terminator : Nat) (container : Container) : Prop :=
  container.size + terminator ≤ container.block.length

/-- `assign`, which allocates if the block is too small. -/
def assign (terminator : Nat) (fresh : Fresh) (data : List UInt8)
    (container : Container) : Container :=
  let front := data ++ List.replicate terminator 0
  if front.length ≤ container.block.length then
    { container with
      block := front ++ container.block.drop front.length
      size := data.length }
  else
    { block := front ++ newBlock fresh.garbage fresh.extra
      size := data.length
      place := container.place + 1 }

section Assign

variable (terminator : Nat) (fresh : Fresh) (data : List UInt8)
variable (container : Container)

theorem content_assign :
    (container.assign terminator fresh data).content = data := by
  unfold assign content
  dsimp only
  split
  · simp
  · simp

theorem sized_assign :
    (container.assign terminator fresh data).Sized terminator := by
  unfold assign Sized
  dsimp only
  split
  · simp only [List.length_append, List.length_replicate, List.length_drop]
    omega
  · simp only [List.length_append, List.length_replicate]
    omega

end Assign

theorem Sized.content_length {terminator : Nat} {container : Container}
    (sized : container.Sized terminator) :
    container.content.length = container.size := by
  unfold Sized at sized
  unfold content
  rw [List.length_take]
  omega

end Container

namespace BufferWriter

/-- `swap` with a container of either kind. -/
def swap (terminator : Nat) (fresh : Fresh) (v : Container)
    (os : BufferWriter) : Except Failure (Container × BufferWriter) := do
  let data ← load os.buf 0 os.len
  pure (v.assign terminator fresh data, os)

/-- What `getBuffer` points to, `getLength` bytes of it. -/
def getBuffer (os : BufferWriter) : Except Failure (List UInt8) :=
  load os.buf 0 os.len

end BufferWriter

namespace ContainerWriter

/-- `_buf = NULL; _buf_len = 0; _len = 0;` -/
def release (buffer : Container) : ContainerWriter := { buffer := buffer }

/-- `swap` with a container of the same kind. -/
def exchange (terminator : Nat) (fresh : Fresh) (v : Container)
    (os : ContainerWriter) : Container × ContainerWriter :=
  (os.buffer.resize terminator fresh os.len, release v)

/-- `swap` with a container of the other kind, whose terminator is `other`. -/
def copyOut (terminator other : Nat) (fresh : Fresh) (v : Container)
    (os : ContainerWriter) : Container × ContainerWriter :=
  let buffer := os.buffer.resize terminator fresh os.len
  (v.assign other fresh buffer.content, release buffer)

def getBuffer (os : ContainerWriter) : Except Failure (List UInt8) :=
  if os.len = 0 then
    .ok []
  else if os.buf = some os.buffer.place then
    load (some os.buffer.block) 0 os.len
  else
    .error .invalidAccess

end ContainerWriter

/-- The template argument `TWriter`. -/
inductive TWriter
  | bufferWriter
  | bufferWriterString
  | bufferWriterVector
deriving DecidableEq, Repr

namespace TWriter

def State : TWriter → Type
  | bufferWriter => BufferWriter
  | bufferWriterString => ContainerWriter
  | bufferWriterVector => ContainerWriter

def empty : (writer : TWriter) → writer.State
  | bufferWriter => ({} : BufferWriter)
  | bufferWriterString => BufferWriterString.empty
  | bufferWriterVector => BufferWriterVector.empty

def reset : (writer : TWriter) → writer.State → writer.State
  | bufferWriter, os => BufferWriter.reset os
  | bufferWriterString, os => ContainerWriter.reset os
  | bufferWriterVector, os => ContainerWriter.reset os

def writeBuf : (writer : TWriter) → Fresh → List UInt8 → writer.State →
    Except Failure writer.State
  | bufferWriter, fresh, data, os => BufferWriter.writeBuf fresh.garbage data os
  | bufferWriterString, fresh, data, os =>
      BufferWriterString.writeBuf fresh data os
  | bufferWriterVector, fresh, data, os =>
      BufferWriterVector.writeBuf fresh data os

/-- `swap(std::vector<char>&)` -/
def swapVector : (writer : TWriter) → Fresh → Container → writer.State →
    Except Failure (Container × writer.State)
  | bufferWriter, fresh, v, os => BufferWriter.swap 0 fresh v os
  | bufferWriterString, fresh, v, os =>
      .ok (ContainerWriter.copyOut 1 0 fresh v os)
  | bufferWriterVector, fresh, v, os =>
      .ok (ContainerWriter.exchange 0 fresh v os)

/-- `swap(std::string&)` -/
def swapString : (writer : TWriter) → Fresh → Container → writer.State →
    Except Failure (Container × writer.State)
  | bufferWriter, fresh, v, os => BufferWriter.swap 1 fresh v os
  | bufferWriterString, fresh, v, os =>
      .ok (ContainerWriter.exchange 1 fresh v os)
  | bufferWriterVector, fresh, v, os =>
      .ok (ContainerWriter.copyOut 0 1 fresh v os)

def getBuffer : (writer : TWriter) → writer.State → Except Failure (List UInt8)
  | bufferWriter, os => BufferWriter.getBuffer os
  | bufferWriterString, os => ContainerWriter.getBuffer os
  | bufferWriterVector, os => ContainerWriter.getBuffer os

end TWriter

/-- What was written is handed over, and the writer works afterwards. -/
def HandsOver {State : Type} (Holds : State → List UInt8 → Prop)
    (terminator : Nat) (written : List UInt8)
    (result : Except Failure (Container × State)) : Prop :=
  ∃ v os bytes, result = .ok (v, os) ∧ v.content = written ∧
    v.Sized terminator ∧ Holds os bytes

theorem BufferWriter.Holds.swap {os : BufferWriter} {written : List UInt8}
    (holds : os.Holds written) (terminator : Nat) (fresh : Fresh)
    (v : Container) :
    HandsOver BufferWriter.Holds terminator written
      (os.swap terminator fresh v) := by
  refine ⟨_, os, written, ?_, v.content_assign terminator fresh written,
    v.sized_assign terminator fresh written, holds⟩
  have answer : load os.buf 0 os.len = .ok written := holds.answer
  rw [BufferWriter.swap, answer, ok_bind, pure_ok]

namespace ContainerWriter

/-- The writer shows what was written, all of it on elements. -/
structure Holds (terminator : Nat) (os : ContainerWriter)
    (written : List UInt8) : Prop where
  owned : os.Owned terminator
  elements : os.bufLen ≤ os.buffer.size
  length : os.len = written.length
  shows : os.shown = written

namespace Holds

variable {terminator : Nat} {os : ContainerWriter} {written data : List UInt8}

theorem release {buffer : Container} (sized : buffer.Sized terminator) :
    (ContainerWriter.release buffer).Holds terminator [] where
  owned := ⟨Nat.le_refl 0, .inl rfl, sized⟩
  elements := Nat.zero_le _
  length := rfl
  shows := by simp [ContainerWriter.release, shown, Container.shown]

theorem reset (holds : os.Holds terminator written) :
    os.reset.Holds terminator [] where
  owned := holds.owned.reset
  elements := holds.elements
  length := rfl
  shows := by simp [ContainerWriter.reset, shown, Container.shown]

theorem size_copyIn {buffer : Container}
    (copied : os.copyIn data = .ok buffer) :
    buffer.size = os.buffer.size := by
  unfold copyIn at copied
  split at copied
  · cases copied
    rfl
  · split at copied
    · cases stored : store (some os.buffer.block) os.len data with
      | error failure =>
          rw [stored] at copied
          cases copied
      | ok block =>
          rw [stored] at copied
          cases block with
          | none => cases copied
          | some block =>
              cases copied
              rfl
    · cases copied

/-- Reserving keeps the capacity below the size of the container. -/
theorem elements_writeBuf {fresh : Fresh} {next : ContainerWriter}
    (holds : os.Holds terminator written)
    (ran : os.writeBuf terminator fresh data = .ok next) :
    next.bufLen ≤ next.buffer.size := by
  have kept : ∀ len, (os.reserveBuf terminator fresh len).bufLen ≤
      (os.reserveBuf terminator fresh len).buffer.size := by
    intro len
    unfold reserveBuf
    dsimp only
    split
    · exact (Container.size_resize terminator fresh).ge
    · exact holds.elements
  unfold ContainerWriter.writeBuf at ran
  dsimp only at ran
  have kept' := kept ((os.len + data.length) % 2 ^ 64)
  cases copied : (os.reserveBuf terminator fresh
      ((os.len + data.length) % 2 ^ 64)).copyIn data with
  | error failure =>
      rw [copied] at ran
      cases ran
  | ok buffer =>
      rw [copied] at ran
      cases ran
      dsimp only
      rw [size_copyIn copied]
      exact kept'

theorem writeBuf (holds : os.Holds terminator written) (fresh : Fresh)
    (small : written.length + data.length < 2 ^ 63) :
    ∃ next, os.writeBuf terminator fresh data = .ok next ∧
      next.Holds terminator (written ++ data) := by
  have fits : os.len + data.length < 2 ^ 63 := by
    rw [holds.length]
    exact small
  obtain ⟨next, ran, owned, length, shows⟩ := holds.owned.writeBuf fresh fits
  refine ⟨next, ran, owned, holds.elements_writeBuf ran, ?_, ?_⟩
  · rw [length, holds.length, List.length_append]
  · have all : os.covered data.length ≥ data.length := by
      have elements := holds.elements
      have inside := holds.owned.fits
      unfold covered
      split
      · exact le_rfl
      · omega
    rw [shows, holds.shows, List.take_of_length_le all,
      Nat.sub_eq_zero_of_le all, List.replicate_zero, List.append_nil]

/-- What is written is what the container has if it is cut to its length. -/
theorem content_resize (holds : os.Holds terminator written) (fresh : Fresh) :
    (os.buffer.resize terminator fresh os.len).content = written ∧
      (os.buffer.resize terminator fresh os.len).Sized terminator := by
  obtain ⟨rest, block⟩ :=
    Container.block_resize terminator fresh os.len os.buffer
  have length := @Container.length_shown os.len os.buffer holds.owned.inside
  refine ⟨?_, Container.sized_resize terminator fresh holds.owned.inside⟩
  unfold Container.content
  rw [Container.size_resize, block, List.take_left' length]
  exact holds.shows

theorem exchange (holds : os.Holds terminator written) (fresh : Fresh)
    {v : Container} (sized : v.Sized terminator) :
    HandsOver (ContainerWriter.Holds terminator) terminator written
      (.ok (os.exchange terminator fresh v)) := by
  obtain ⟨content, sized'⟩ := holds.content_resize fresh
  exact ⟨_, _, [], rfl, content, sized', release sized⟩

theorem copyOut (holds : os.Holds terminator written) (other : Nat)
    (fresh : Fresh) (v : Container) :
    HandsOver (ContainerWriter.Holds terminator) other written
      (.ok (os.copyOut terminator other fresh v)) := by
  obtain ⟨content, sized⟩ := holds.content_resize fresh
  refine ⟨_, _, [], rfl, ?_, Container.sized_assign other fresh _ v,
    release sized⟩
  exact (Container.content_assign other fresh _ v).trans content

theorem getBuffer (holds : os.Holds terminator written) :
    os.getBuffer = .ok written := by
  unfold ContainerWriter.getBuffer
  split
  · rename_i none
    have empty : written = [] := by
      apply List.eq_nil_of_length_eq_zero
      rw [← holds.length, none]
    rw [empty]
  · rename_i some_
    have inside := holds.owned.fits
    have elements := holds.elements
    obtain ⟨points, room⟩ := holds.owned.room.resolve_left (by omega)
    rw [if_pos points]
    have shows := holds.shows
    unfold ContainerWriter.shown Container.shown at shows
    rw [Nat.min_eq_right (by omega), Nat.sub_self, List.replicate_zero,
      List.append_nil] at shows
    unfold load
    rw [if_neg some_]
    simp only [Nat.zero_add]
    rw [if_pos (by omega), List.drop_zero, shows]

end Holds

end ContainerWriter

namespace TWriter

/-- The bytes that were written since the last `reset`. -/
def Holds : (writer : TWriter) → writer.State → List UInt8 → Prop
  | bufferWriter, os, written => BufferWriter.Holds os written
  | bufferWriterString, os, written => ContainerWriter.Holds 1 os written
  | bufferWriterVector, os, written => ContainerWriter.Holds 0 os written

variable (writer : TWriter) {os : writer.State} {written data : List UInt8}

theorem holds_empty : writer.Holds writer.empty [] := by
  cases writer with
  | bufferWriter => exact ⟨rfl, .inl ⟨rfl, rfl, rfl⟩⟩
  | bufferWriterString =>
      exact @ContainerWriter.Holds.release 1 { block := [0] } (Nat.le_refl 1)
  | bufferWriterVector =>
      exact @ContainerWriter.Holds.release 0 { block := [] } (Nat.le_refl 0)

theorem holds_reset (holds : writer.Holds os written) :
    writer.Holds (writer.reset os) [] := by
  cases writer with
  | bufferWriter => exact BufferWriter.Holds.reset holds
  | bufferWriterString => exact ContainerWriter.Holds.reset holds
  | bufferWriterVector => exact ContainerWriter.Holds.reset holds

theorem holds_writeBuf (holds : writer.Holds os written) (fresh : Fresh)
    (small : written.length + data.length < 2 ^ 63) :
    ∃ next, writer.writeBuf fresh data os = .ok next ∧
      writer.Holds next (written ++ data) := by
  cases writer with
  | bufferWriter => exact BufferWriter.Holds.writeBuf fresh.garbage holds small
  | bufferWriterString => exact ContainerWriter.Holds.writeBuf holds fresh small
  | bufferWriterVector => exact ContainerWriter.Holds.writeBuf holds fresh small

theorem holds_getBuffer (holds : writer.Holds os written) :
    writer.getBuffer os = .ok written := by
  cases writer with
  | bufferWriter => exact BufferWriter.Holds.answer holds
  | bufferWriterString => exact ContainerWriter.Holds.getBuffer holds
  | bufferWriterVector => exact ContainerWriter.Holds.getBuffer holds

theorem holds_swapVector (holds : writer.Holds os written) (fresh : Fresh)
    {v : Container} (sized : v.Sized 0) :
    HandsOver writer.Holds 0 written (writer.swapVector fresh v os) := by
  cases writer with
  | bufferWriter => exact BufferWriter.Holds.swap holds 0 fresh v
  | bufferWriterString => exact ContainerWriter.Holds.copyOut holds 0 fresh v
  | bufferWriterVector =>
      exact ContainerWriter.Holds.exchange holds fresh sized

theorem holds_swapString (holds : writer.Holds os written) (fresh : Fresh)
    {v : Container} (sized : v.Sized 1) :
    HandsOver writer.Holds 1 written (writer.swapString fresh v os) := by
  cases writer with
  | bufferWriter => exact BufferWriter.Holds.swap holds 1 fresh v
  | bufferWriterString =>
      exact ContainerWriter.Holds.exchange holds fresh sized
  | bufferWriterVector => exact ContainerWriter.Holds.copyOut holds 1 fresh v

end TWriter

end TarsCpp.Tup
