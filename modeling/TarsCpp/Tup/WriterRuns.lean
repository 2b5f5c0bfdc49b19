import TarsCpp.Tup.Writers

/-!
# Runs of the encoder's buffers

What a writer shows of its container is the elements it has there, padded
with zeros up to its length: this is what `getByteBuffer` answers.
`BufferWriter` always shows what has been written; the two writers with a
container do so as long as nothing but zeros is written behind the elements
of the container while the cached capacity still suffices.
-/

namespace TarsCpp.Tup

open NetworkBuffer TransitionRun

namespace Container

/-- The first `count` elements, with zeros in place of the missing ones. -/
def shown (count : Nat) (container : Container) : List UInt8 :=
  container.block.take (min container.size count) ++
    List.replicate (count - min container.size count) 0

section Resize

variable (terminator : Nat) (fresh : Fresh) {len count : Nat}
variable {container : Container}

theorem length_shown (sized : container.size ≤ container.block.length) :
    (container.shown count).length = count := by
  simp only [shown, List.length_append, List.length_take,
    List.length_replicate]
  omega

/-- The block of a resized container starts with what was shown. -/
theorem block_resize (len : Nat) (container : Container) : ∃ rest,
    (container.resize terminator fresh len).block =
      container.shown len ++ (List.replicate terminator 0 ++ rest) := by
  have zeros : List.replicate
      (len + terminator - min container.size len) (0 : UInt8) =
      List.replicate (len - min container.size len) 0 ++
        List.replicate terminator 0 := by
    rw [List.replicate_append_replicate]
    congr 1
    have least := Nat.min_le_right container.size len
    omega
  unfold resize
  split
  · refine ⟨container.block.drop (len + terminator), ?_⟩
    simp only [zeros, shown, List.append_assoc]
  · refine ⟨newBlock fresh.garbage fresh.extra, ?_⟩
    simp only [zeros, shown, List.append_assoc]

@[simp] theorem size_resize :
    (container.resize terminator fresh len).size = len := by
  unfold resize
  split <;> rfl

theorem sized_resize (sized : container.size ≤ container.block.length) :
    (container.resize terminator fresh len).size + terminator ≤
      (container.resize terminator fresh len).block.length := by
  obtain ⟨rest, block⟩ := block_resize terminator fresh len container
  rw [size_resize, block]
  simp only [List.length_append, length_shown sized, List.length_replicate]
  omega

/-- A container shrinks in place. -/
theorem resize_stays (fits : len + terminator ≤ container.block.length) :
    (container.resize terminator fresh len).place = container.place ∧
      (container.resize terminator fresh len).block.length =
        container.block.length := by
  unfold resize
  rw [if_pos fits]
  refine ⟨rfl, ?_⟩
  simp only [List.length_append, List.length_take, List.length_replicate,
    List.length_drop]
  omega

theorem take_shown (sized : container.size ≤ container.block.length)
    (fewer : count ≤ len) :
    (container.shown len).take count = container.shown count := by
  have length : (container.block.take container.size).length =
      container.size := List.length_take_of_le sized
  unfold shown
  rcases Nat.le_total container.size count with short | long
  · rw [Nat.min_eq_left short, Nat.min_eq_left (Nat.le_trans short fewer),
      List.take_append, length, List.take_replicate,
      List.take_of_length_le (Nat.le_trans (Nat.le_of_eq length) short)]
    congr 2
    omega
  · rw [Nat.min_eq_right long, List.take_append_of_le_length,
      List.take_take, Nat.min_eq_left (Nat.le_min.mpr ⟨long, fewer⟩),
      Nat.sub_self, List.replicate_zero, List.append_nil]
    rw [List.length_take]
    omega

/-- Resizing to at least `count` does not change the first `count`. -/
theorem shown_resize (sized : container.size ≤ container.block.length)
    (fewer : count ≤ len) :
    (container.resize terminator fresh len).shown count =
      container.shown count := by
  obtain ⟨rest, block⟩ := block_resize terminator fresh len container
  rw [← take_shown sized fewer, shown, size_resize, block,
    Nat.min_eq_right fewer, Nat.sub_self, List.replicate_zero,
    List.append_nil, List.take_append_of_le_length]
  exact Nat.le_trans fewer (Nat.le_of_eq (length_shown sized).symm)

/-- Storing bytes behind the first `count` shows those that fall on
elements. -/
theorem shown_store {front old back data : List UInt8} {size place : Nat}
    (same : data.length = old.length) :
    shown (front.length + data.length)
        ⟨front ++ (data ++ back), size, place⟩ =
      shown front.length ⟨front ++ (old ++ back), size, place⟩ ++
        (data.take (size - front.length) ++
          List.replicate (data.length - (size - front.length)) 0) := by
  simp only [shown]
  rcases Nat.le_total size front.length with short | long
  · rw [Nat.min_eq_left short, Nat.min_eq_left (by omega),
      Nat.sub_eq_zero_of_le short, List.take_append_of_le_length short,
      List.take_append_of_le_length short, List.take_zero, List.nil_append,
      Nat.sub_zero, List.append_assoc, List.replicate_append_replicate]
    congr 2
    omega
  · have cut : min size (front.length + data.length) =
        front.length + min (size - front.length) data.length := by omega
    rw [Nat.min_eq_right long, Nat.sub_self, List.replicate_zero,
      List.append_nil, List.take_left' rfl, cut, List.take_length_add_append,
      List.append_assoc]
    congr 1
    rw [List.take_append_of_le_length (Nat.min_le_right _ _),
      ← List.take_eq_take_min]
    congr 2
    omega

end Resize

end Container

theorem reserveLength_eq {len : Nat} (small : len < 2 ^ 63) :
    reserveLength len = max (2 * len) 128 := by
  unfold reserveLength
  rw [Nat.mod_eq_of_lt (by omega)]
  dsimp only
  split <;> omega

/-- Zeros in place of the last bytes are right where these are zeros. -/
theorem padded_eq_iff {data : List UInt8} {count : Nat} :
    data.take count ++ List.replicate (data.length - count) 0 = data ↔
      ∀ c ∈ data.drop count, c = 0 := by
  have parts : data.take count ++ List.replicate (data.length - count) 0 =
      data ↔ List.replicate (data.length - count) 0 = data.drop count := by
    conv_lhs => rhs; rw [← List.take_append_drop count data]
    exact List.append_right_inj _
  rw [parts, eq_comm, List.eq_replicate_iff, List.length_drop]
  exact and_iff_right rfl

namespace ContainerWriter

variable {terminator : Nat}

def shown (os : ContainerWriter) : List UInt8 := os.buffer.shown os.len

/-- How many of the next `count` bytes fall on elements of the container. -/
def covered (count : Nat) (os : ContainerWriter) : Nat :=
  if os.bufLen < os.len + count then count else os.buffer.size - os.len

/-- Only zeros are written behind the elements of the container. -/
def Spares (data : List UInt8) (os : ContainerWriter) : Prop :=
  ∀ c ∈ data.drop (os.covered data.length), c = 0

instance (data : List UInt8) (os : ContainerWriter) :
    Decidable (os.Spares data) :=
  inferInstanceAs (Decidable (∀ c ∈ _, c = 0))

/-- The cached pointer and capacity lie in the block of the container. -/
structure Owned (terminator : Nat) (os : ContainerWriter) : Prop where
  fits : os.len ≤ os.bufLen
  room : os.bufLen = 0 ∨ os.buf = some os.buffer.place ∧
    os.bufLen + terminator ≤ os.buffer.block.length
  sized : os.buffer.size + terminator ≤ os.buffer.block.length

namespace Owned

variable {os : ContainerWriter} (fresh : Fresh) {data : List UInt8}
variable {len : Nat}

theorem inside (owned : os.Owned terminator) :
    os.buffer.size ≤ os.buffer.block.length :=
  Nat.le_trans (Nat.le_add_right _ _) owned.sized

theorem reset (owned : os.Owned terminator) : os.reset.Owned terminator where
  fits := Nat.zero_le _
  room := owned.room
  sized := owned.sized

theorem answer (owned : os.Owned terminator) :
    (os.getByteBuffer terminator fresh).1 = os.shown := by
  obtain ⟨rest, block⟩ :=
    Container.block_resize terminator fresh os.len os.buffer
  simp only [ContainerWriter.getByteBuffer, Container.size_resize, block]
  exact List.take_left' (Container.length_shown owned.inside)

/-- Reading out shrinks the container, and leaves pointer and capacity. -/
theorem getByteBuffer (owned : os.Owned terminator) :
    (os.getByteBuffer terminator fresh).2.Owned terminator ∧
      (os.getByteBuffer terminator fresh).2.shown = os.shown := by
  refine ⟨?_, Container.shown_resize _ _ owned.inside (Nat.le_refl _)⟩
  refine ⟨owned.fits, ?_, Container.sized_resize _ _ owned.inside⟩
  rcases owned.room with none | ⟨points, room⟩
  · exact .inl none
  · have fits := owned.fits
    have stays := Container.resize_stays terminator fresh
      (by omega : os.len + terminator ≤ os.buffer.block.length)
    exact .inr ⟨points.trans (congrArg some stays.1.symm),
      Nat.le_trans room (Nat.le_of_eq stays.2.symm)⟩

/-- Reserving moves the pointer along with the container. -/
theorem reserveBuf (owned : os.Owned terminator) (more : os.len ≤ len)
    (small : len < 2 ^ 63) :
    (os.reserveBuf terminator fresh len).Owned terminator ∧
      len ≤ (os.reserveBuf terminator fresh len).bufLen ∧
      (os.reserveBuf terminator fresh len).len = os.len ∧
      (os.reserveBuf terminator fresh len).shown = os.shown := by
  unfold ContainerWriter.reserveBuf
  have enough := reserveLength_eq small
  split
  · have grown : len ≤ reserveLength len := by omega
    have sized := @Container.sized_resize terminator fresh
      (reserveLength len) _ owned.inside
    refine ⟨⟨Nat.le_trans more grown, .inr ⟨rfl, ?_⟩, sized⟩, grown, rfl,
      Container.shown_resize _ _ owned.inside (Nat.le_trans more grown)⟩
    rwa [Container.size_resize] at sized
  · exact ⟨owned, by omega, rfl, rfl⟩

/-- Copying into the reserved room stays inside the block. -/
theorem copyIn (owned : os.Owned terminator)
    (room : os.len + data.length ≤ os.bufLen) :
    ∃ buffer, os.copyIn data = .ok buffer ∧
      ContainerWriter.Owned terminator
        { os with buffer, len := os.len + data.length } ∧
      buffer.shown (os.len + data.length) = os.shown ++
        (data.take (os.buffer.size - os.len) ++
          List.replicate (data.length - (os.buffer.size - os.len)) 0) := by
  unfold ContainerWriter.copyIn
  split_ifs with none points
  · subst none
    refine ⟨os.buffer, rfl, ⟨room, owned.room, owned.sized⟩, ?_⟩
    simp [ContainerWriter.shown]
  · have room' := (owned.room.resolve_left (by
      have positive := List.length_pos_of_ne_nil none
      omega)).2
    have front : (os.buffer.block.take os.len).length = os.len :=
      List.length_take_of_le (by omega)
    have behind : data.length ≤ (os.buffer.block.drop os.len).length := by
      rw [List.length_drop]
      omega
    have stored := @store_behind (os.buffer.block.take os.len) _ _ behind
    have shows := @Container.shown_store (os.buffer.block.take os.len)
      ((os.buffer.block.drop os.len).take data.length)
      ((os.buffer.block.drop os.len).drop data.length) data os.buffer.size
      os.buffer.place (List.length_take_of_le behind).symm
    rw [List.take_append_drop, front] at stored
    rw [List.take_append_drop, List.take_append_drop, front] at shows
    rw [stored]
    refine ⟨_, rfl, ⟨room, .inr ⟨points, ?_⟩, ?_⟩, shows⟩
    · simp only [List.length_append, front, List.length_drop]
      omega
    · have sized := owned.sized
      simp only [List.length_append, front, List.length_drop]
      omega
  · have positive := List.length_pos_of_ne_nil none
    exact absurd (owned.room.resolve_left (by omega)).1 points

/-- The elements of the container after reserving room for `count` bytes. -/
theorem covered_reserveBuf {count : Nat} (small : os.len + count < 2 ^ 63) :
    min count ((os.reserveBuf terminator fresh (os.len + count)).buffer.size -
      os.len) = min count (os.covered count) := by
  unfold ContainerWriter.reserveBuf covered
  have enough := reserveLength_eq small
  split
  · dsimp only
    rw [Container.size_resize]
    omega
  · rfl

/-- What a write shows: the bytes that fall on elements, and zeros. -/
theorem writeBuf (owned : os.Owned terminator)
    (small : os.len + data.length < 2 ^ 63) :
    ∃ next, os.writeBuf terminator fresh data = .ok next ∧
      next.Owned terminator ∧ next.len = os.len + data.length ∧
      next.shown = os.shown ++ (data.take (os.covered data.length) ++
        List.replicate (data.length - os.covered data.length) 0) := by
  obtain ⟨reserved, room, len, shown⟩ :=
    owned.reserveBuf fresh (Nat.le_add_right os.len data.length) small
  have covered := @covered_reserveBuf terminator os fresh _ small
  obtain ⟨buffer, copied, owned', shown'⟩ :=
    @copyIn terminator _ data reserved (by rw [len]; exact room)
  rw [len] at owned' shown'
  refine ⟨_, ?_, owned', rfl, ?_⟩
  · simp only [ContainerWriter.writeBuf, Nat.mod_eq_of_lt
      (Nat.lt_trans small (by decide : 2 ^ 63 < 2 ^ 64)), copied, ok_bind,
      pure_ok]
  · rw [ContainerWriter.shown, shown', shown,
      List.take_eq_take_min, Nat.min_comm, covered, Nat.min_comm,
      ← List.take_eq_take_min]
    congr 3
    omega

end Owned

end ContainerWriter

namespace BufferWriter

/-- The array starts with what has been written. -/
structure Holds (os : BufferWriter) (written : List UInt8) : Prop where
  length : os.len = written.length
  array : os.buf = none ∧ os.bufLen = 0 ∧ written = [] ∨
    ∃ spare, os.buf = some (written ++ spare) ∧
      os.bufLen = (written ++ spare).length

namespace Holds

variable {os : BufferWriter} (garbage : Garbage) {written data : List UInt8}
variable {len : Nat}

theorem answer (holds : os.Holds written) :
    os.getByteBuffer = .ok written := by
  unfold getByteBuffer
  rw [holds.length]
  rcases holds.array with ⟨null, -, rfl⟩ | ⟨spare, array, -⟩
  · rfl
  · rw [array]
    exact load_middle [] written spare

theorem reset (holds : os.Holds written) : os.reset.Holds [] := by
  refine ⟨rfl, ?_⟩
  rcases holds.array with ⟨null, empty, -⟩ | ⟨spare, array, length⟩
  · exact .inl ⟨null, empty, rfl⟩
  · exact .inr ⟨written ++ spare, array, length⟩

theorem reserveBuf (holds : os.Holds written) (more : written.length ≤ len)
    (small : len < 2 ^ 63) :
    ∃ next, os.reserveBuf garbage len = .ok next ∧ next.Holds written ∧
      len ≤ next.bufLen := by
  have enough := reserveLength_eq small
  unfold BufferWriter.reserveBuf
  split
  · have copied : os.reserve garbage (reserveLength len) = .ok (some
        (written ++ (newBlock garbage (reserveLength len)).drop
          written.length)) := by
      have answer := holds.answer
      unfold getByteBuffer at answer
      rw [reserve, answer, ok_bind]
      exact store_front (by rw [length_newBlock]; omega)
    simp only [copied, ok_bind, pure_ok]
    refine ⟨_, rfl, ⟨holds.length, .inr ⟨_, rfl, ?_⟩⟩,
      by dsimp only; omega⟩
    rw [List.length_append, List.length_drop, length_newBlock]
    dsimp only
    omega
  · exact ⟨os, rfl, holds, by omega⟩

theorem writeBuf (holds : os.Holds written)
    (small : written.length + data.length < 2 ^ 63) :
    ∃ next, os.writeBuf garbage data = .ok next ∧
      next.Holds (written ++ data) := by
  obtain ⟨reserved, run, holds', room⟩ := holds.reserveBuf
    garbage (Nat.le_add_right _ data.length) small
  have total : (os.len + data.length) % 2 ^ 64 =
      written.length + data.length := by
    rw [holds.length]
    omega
  simp only [BufferWriter.writeBuf, total, run, ok_bind, holds'.length]
  rcases holds'.array with ⟨null, empty, rfl⟩ | ⟨spare, array, length⟩
  · have none : data = [] := by
      apply List.eq_nil_of_length_eq_zero
      omega
    subst none
    refine ⟨_, rfl, rfl, .inl ⟨null, empty, rfl⟩⟩
  · rw [List.length_append] at length
    rw [array, store_behind (by omega : data.length ≤ spare.length)]
    refine ⟨_, rfl, List.length_append.symm, .inr ⟨spare.drop data.length,
      by rw [List.append_assoc], ?_⟩⟩
    simp only [List.length_append, List.length_drop]
    omega

end Holds

end BufferWriter

namespace Writers

/-- Every writer answers with the bytes written since the last `reset`. -/
structure Faithful (writers : Writers) : Prop where
  plain : writers.plain.getByteBuffer = .ok writers.written
  string : ∀ fresh,
    (BufferWriterString.getByteBuffer fresh writers.string).1 =
      writers.written
  vector : ∀ fresh,
    (BufferWriterVector.getByteBuffer fresh writers.vector).1 =
      writers.written
  lengths : writers.plain.getLength = writers.written.length ∧
    writers.string.getLength = writers.written.length ∧
    writers.vector.getLength = writers.written.length

/-- The bytes fit into an object. -/
def Bounded (writers : Writers) : WriterEvent → Prop
  | .writeBuf _ data => writers.written.length + data.length < 2 ^ 63
  | _ => True

/-- No byte but zeros is written behind the elements of a container. -/
def Spares (writers : Writers) : WriterEvent → Prop
  | .writeBuf _ data =>
      writers.string.Spares data ∧ writers.vector.Spares data
  | _ => True

instance (writers : Writers) (event : WriterEvent) :
    Decidable (writers.Bounded event) :=
  match event with
  | .writeBuf _ _ => inferInstanceAs (Decidable (_ < _))
  | .getByteBuffer _ | .getBuffer | .getLength | .reset =>
      inferInstanceAs (Decidable True)

/-- Every writer owns the storage it writes to. -/
structure Owned (writers : Writers) : Prop where
  plain : writers.plain.Holds writers.written
  string : writers.string.Owned 1
  vector : writers.vector.Owned 0
  lengths : writers.string.len = writers.written.length ∧
    writers.vector.len = writers.written.length

variable {writers next : Writers} {event : WriterEvent}

theorem owned_empty : Owned {} where
  plain := ⟨rfl, .inl ⟨rfl, rfl, rfl⟩⟩
  string := ⟨Nat.le_refl 0, .inl rfl, Nat.le_refl 1⟩
  vector := ⟨Nat.le_refl 0, .inl rfl, Nat.le_refl 0⟩
  lengths := ⟨rfl, rfl⟩

theorem Owned.faithful_iff (owned : Owned writers) :
    Faithful writers ↔ writers.string.shown = writers.written ∧
      writers.vector.shown = writers.written := by
  constructor
  · intro faithful
    have fresh : Fresh := ⟨fun _ => 0, 0⟩
    exact ⟨(owned.string.answer fresh).symm.trans (faithful.string fresh),
      (owned.vector.answer fresh).symm.trans (faithful.vector fresh)⟩
  · rintro ⟨string, vector⟩
    exact {
      plain := owned.plain.answer
      string := fun fresh => (owned.string.answer fresh).trans string
      vector := fun fresh => (owned.vector.answer fresh).trans vector
      lengths := ⟨owned.plain.length, owned.lengths.1, owned.lengths.2⟩ }

/-- A write shows the bytes on elements and zeros behind what was shown. -/
theorem Owned.writeBuf (owned : Owned writers) {fresh : Fresh}
    {data : List UInt8}
    (bounded : Bounded writers (.writeBuf fresh data)) :
    ∃ next, Step writers (.writeBuf fresh data) next ∧ Owned next ∧
      (Faithful writers →
        (Faithful next ↔ Spares writers (.writeBuf fresh data))) := by
  obtain ⟨plain, runPlain, holds⟩ :=
    owned.plain.writeBuf fresh.garbage bounded
  obtain ⟨string, runString, ownedString, lenString, shownString⟩ :=
    owned.string.writeBuf fresh
      (by rw [owned.lengths.1]; exact bounded)
  obtain ⟨vector, runVector, ownedVector, lenVector, shownVector⟩ :=
    owned.vector.writeBuf fresh
      (by rw [owned.lengths.2]; exact bounded)
  have owned' : Owned ⟨plain, string, vector, writers.written ++ data⟩ := by
    refine ⟨holds, ownedString, ownedVector, ?_, ?_⟩
    · rw [lenString, owned.lengths.1, List.length_append]
    · rw [lenVector, owned.lengths.2, List.length_append]
  refine ⟨_, ?_, owned', ?_⟩
  · simp only [Step, run, BufferWriterString.writeBuf,
      BufferWriterVector.writeBuf, runPlain, runString, runVector, ok_bind,
      pure_ok]
  · intro faithful
    obtain ⟨same, same'⟩ := owned.faithful_iff.mp faithful
    rw [owned'.faithful_iff, shownString, shownVector, same, same',
      List.append_right_inj, List.append_right_inj, padded_eq_iff,
      padded_eq_iff]
    exact Iff.rfl

/-- Every call within these bounds stays inside the storage. -/
theorem Owned.runs (owned : Owned writers) (bounded : Bounded writers event) :
    ∃ next, Step writers event next ∧ Owned next ∧
      (Faithful writers → (Faithful next ↔ Spares writers event)) := by
  cases event with
  | writeBuf fresh data => exact owned.writeBuf bounded
  | getByteBuffer fresh =>
      obtain ⟨string, shownString⟩ :=
        owned.string.getByteBuffer fresh
      obtain ⟨vector, shownVector⟩ :=
        owned.vector.getByteBuffer fresh
      have owned' : Owned { writers with
          string := (writers.string.getByteBuffer 1 fresh).2
          vector := (writers.vector.getByteBuffer 0 fresh).2 } :=
        ⟨owned.plain, string, vector, owned.lengths⟩
      refine ⟨_, ?_, owned', ?_⟩
      · simp only [Step, run, owned.plain.answer, ok_bind, pure_ok,
          BufferWriterString.getByteBuffer, BufferWriterVector.getByteBuffer]
      · intro faithful
        rw [owned'.faithful_iff, shownString, shownVector,
          ← owned.faithful_iff]
        exact iff_of_true faithful trivial
  | getBuffer =>
      exact ⟨writers, rfl, owned, fun same => iff_of_true same trivial⟩
  | getLength =>
      exact ⟨writers, rfl, owned, fun same => iff_of_true same trivial⟩
  | reset =>
      have owned' : Owned ⟨writers.plain.reset, writers.string.reset,
          writers.vector.reset, []⟩ :=
        ⟨owned.plain.reset, owned.string.reset, owned.vector.reset, rfl, rfl⟩
      refine ⟨_, rfl, owned', fun _ => iff_of_true ?_ trivial⟩
      have nothing (container : Container) : container.shown 0 = [] := by
        simp [Container.shown]
      exact owned'.faithful_iff.mpr ⟨nothing _, nothing _⟩

/-- As long as only zeros are written behind the elements of a container, every
writer answers with what was written.  A call stays inside the storage in any
case, and the answers stay right exactly under this condition. -/
theorem faithful_run {events : List WriterEvent} {last : Writers}
    (run : Run (Guarded (fun writers event => Bounded writers event ∧
      Spares writers event) Step) {} events last) :
    Faithful last ∧ ∀ event, Bounded last event →
      ∃ next, Step last event next ∧
        (Faithful next ↔ Spares last event) := by
  have both : Owned last ∧ Faithful last := by
    refine @Run.preserves _ _ _ (fun writers =>
      Owned writers ∧ Faithful writers) ?_ _ _ _ run ?_
    · rintro writers event next ⟨owned, faithful⟩ ⟨⟨bounded, spares⟩, step⟩
      obtain ⟨next', step', owned', exactly⟩ := owned.runs bounded
      have same : next' = next := by
        unfold Step at step step'
        exact Except.ok.inj (step'.symm.trans step)
      subst same
      exact ⟨owned', (exactly faithful).mpr spares⟩
    · exact ⟨owned_empty, owned_empty.faithful_iff.mpr ⟨rfl, rfl⟩⟩
  refine ⟨both.2, fun event bounded => ?_⟩
  obtain ⟨next, step, -, exactly⟩ := both.1.runs bounded
  exact ⟨next, step, exactly both.2⟩

section Witness

def newMemory : Fresh := ⟨fun _ => 7, 0⟩

set_option maxRecDepth 20000 in
/-- Writing twice before reading out. -/
theorem faithful_run_abcd :
    ∃ last, last.written = [97, 98, 99, 100] ∧ Faithful last := by
  have run : Run (Guarded (fun writers event =>
      Bounded writers event ∧ Spares writers event) Step) {}
      [.writeBuf newMemory [97, 98, 99], .writeBuf newMemory [100],
        .getByteBuffer newMemory] _ :=
    .cons ⟨⟨by decide, ⟨by decide, by decide⟩⟩, rfl⟩
      (.cons ⟨⟨by decide, ⟨by decide, by decide⟩⟩, rfl⟩
        (.cons ⟨⟨trivial, trivial⟩, rfl⟩ (.nil _)))
  exact ⟨_, rfl, (faithful_run run).1⟩

set_option maxRecDepth 20000 in
/-- After reading out, the next byte is written behind the elements, and lost
by the next reading. -/
theorem read_write_loses_byte :
    ∃ last, Run Step {} [.writeBuf newMemory [97, 98, 99],
        .getByteBuffer newMemory, .writeBuf newMemory [100]] last ∧
      last.written = [97, 98, 99, 100] ∧
      last.plain.getByteBuffer = .ok [97, 98, 99, 100] ∧
      (BufferWriterString.getByteBuffer newMemory last.string).1 =
        [97, 98, 99, 0] ∧
      (BufferWriterVector.getByteBuffer newMemory last.vector).1 =
        [97, 98, 99, 0] := by
  refine ⟨_, .cons rfl (.cons rfl (.cons rfl (.nil _))), rfl, rfl, rfl, rfl⟩

end Witness

end Writers

end TarsCpp.Tup
