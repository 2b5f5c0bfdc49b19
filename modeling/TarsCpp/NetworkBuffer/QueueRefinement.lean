import TarsCpp.Segments
import TarsCpp.NetworkBuffer.Buffer
import TarsCpp.TransitionRun

/-!
# The network buffer

`TC_NetWorkBuffer`: a list of shared chunks, the number of bytes in it, and one
chunk that is kept for the time when the list has become empty.  A
`shared_ptr<Buffer>` is an identity; the buffers themselves are in a heap.

The chunks of the list hold one byte string, in order.  Every operation does to
it what the same operation does to a plain queue, as long as no single copy
crosses the `uint32_t` of `addReadIdx` and `addWriteIdx`.
-/

namespace TarsCpp.NetworkBuffer

abbrev BufferId := Nat

structure NetWorkBuffer where
  buffers : BufferId → Buffer := fun _ => {}
  /-- The identities from here on have never been used. -/
  fresh : BufferId := 0
  bufferList : List BufferId := []
  length : Nat := 0
  defaultBuff : Option BufferId := none

def assert (condition : Prop) [Decidable condition] (text : String) :
    Except Failure Unit :=
  if condition then .ok () else .error (.assertion text)

/-- What a writer does behind `free()`: `memcpy` and `addWriteIdx`. -/
def Buffer.write (data : List UInt8) (buff : Buffer) :
    Except Failure Buffer := do
  let block ← store buff.block buff.writeIdx data
  -- `addWriteIdx` takes a `uint32_t`
  { buff with block := block }.addWriteIdx (.ofNat data.length)

namespace NetWorkBuffer

def put (id : BufferId) (buff : Buffer) (net : NetWorkBuffer) :
    NetWorkBuffer :=
  { net with buffers := Function.update net.buffers id buff }

/-- A chunk that was made and filled elsewhere. -/
def adopt (id : BufferId) (buff : Buffer) (net : NetWorkBuffer) :
    NetWorkBuffer :=
  { net.put id buff with fresh := max net.fresh (id + 1) }

/-- `std::make_shared<Buffer>()` and `alloc(capacity)`. -/
def create (garbage : Garbage) (capacity : Nat) (net : NetWorkBuffer) :
    BufferId × NetWorkBuffer :=
  (net.fresh, { net.put net.fresh (Buffer.alloc garbage capacity {}) with
    fresh := net.fresh + 1 })

def pushBack (id : BufferId) (net : NetWorkBuffer) : NetWorkBuffer :=
  { net with bufferList := net.bufferList ++ [id] }

def getOrCreateBuffer (garbage : Garbage) (minCapacity maxCapacity : Nat)
    (net : NetWorkBuffer) : Except Failure (BufferId × NetWorkBuffer) := do
  assert (minCapacity ≤ maxCapacity) "minCapacity <= maxCapacity"
  match net.bufferList.getLast? with
  | none =>
      match net.defaultBuff with
      | none =>
          let (id, net) := net.create garbage maxCapacity
          pure (id, { net.pushBack id with defaultBuff := some id })
      | some id =>
          let buff ← (net.buffers id).clear.expansion garbage maxCapacity
          pure (id, (net.put id buff).pushBack id)
  | some id =>
      let buff := net.buffers id
      if buff.left < minCapacity then
        if buff.capacity - buff.length ≥ minCapacity ∧
            buff.length * 3 < buff.capacity then
          let buff ← buff.compact garbage
          pure (id, net.put id buff)
        else
          let (id, net) := net.create garbage maxCapacity
          pure (id, net.pushBack id)
      else
        pure (id, net)

/-- `addBuffer` of a pointer and a length, of a string and of a vector. -/
def addBuffer (garbage : Garbage) (data : List UInt8) (net : NetWorkBuffer) :
    Except Failure NetWorkBuffer :=
  if data = [] then
    .ok net
  else do
    let capacity := if data.length < 1024 then 1024 else data.length
    let (id, net) ← net.getOrCreateBuffer garbage capacity (capacity * 3 / 2)
    assert (data.length ≤ (net.buffers id).left) "data->left() >= length"
    let buff ← (net.buffers id).write data
    pure { net.put id buff with length := net.length + data.length }

/-- `addBuffer` of a `shared_ptr<Buffer>`. -/
def addSharedBuffer (id : BufferId) (net : NetWorkBuffer) : NetWorkBuffer :=
  if (net.buffers id).empty then
    net
  else
    { net.pushBack id with length := net.length + (net.buffers id).length }

def addLength (length : Nat) (net : NetWorkBuffer) : NetWorkBuffer :=
  { net with length := net.length + length }

/-- The loop of `getBuffers(char *, size_t)`. -/
def getBuffersFrom (buffers : BufferId → Buffer) :
    List BufferId → Nat → Except Failure (List UInt8)
  | [], _ => .ok []
  | id :: rest, left =>
      if left = 0 then
        .ok []
      else do
        let len := min left (buffers id).length
        let data ← load (buffers id).block (buffers id).readIdx len
        let more ← getBuffersFrom buffers rest (left - len)
        pure (data ++ more)

/-- `getBuffers(char *, size_t)`: the bytes that it copies. -/
def copyBuffers (length : Nat) (net : NetWorkBuffer) :
    Except Failure (List UInt8) := do
  assert (length ≤ net.length) "length <= getBufferLength()"
  getBuffersFrom net.buffers net.bufferList length

/-- `copyBuffers` over a vector or a string that has been resized. -/
def copyResized (length : Nat) (net : NetWorkBuffer) :
    Except Failure (List UInt8) := do
  let copied ← net.copyBuffers length
  pure (copied ++ List.replicate (length - copied.length) 0)

def getBuffers (net : NetWorkBuffer) : Except Failure (List UInt8) :=
  if net.length > 0 then net.copyResized net.length else .ok []

def getHeader (len : Nat) (net : NetWorkBuffer) :
    Except Failure (Option (List UInt8)) :=
  if net.length < len then
    .ok none
  else if len = 0 then
    .ok (some [])
  else do
    let buffer ← net.copyResized len
    pure (some buffer)

/-- `moveHeader`, where `places` is the buffer list. -/
def moveHeaderFrom : List BufferId → Nat → NetWorkBuffer →
    Except Failure (Bool × NetWorkBuffer)
  | places, len, net =>
      if net.length < len then
        .ok (false, net)
      else if len = 0 then
        .ok (true, net)
      else
        match places with
        | [] => .error .invalidAccess
        | id :: rest => do
            let left := (net.buffers id).length
            if left > len then
              let buff ← (net.buffers id).addReadIdx (.ofNat len)
              pure (true, { net.put id buff with length := net.length - len })
            else if left = len then
              let buff ← (net.buffers id).addReadIdx (.ofNat len)
              pure (true, { net.put id buff with
                length := net.length - len, bufferList := rest })
            else
              let buff ← (net.buffers id).addReadIdx (.ofNat left)
              moveHeaderFrom rest (len - left) { net.put id buff with
                length := net.length - left, bufferList := rest }

def moveHeader (len : Nat) (net : NetWorkBuffer) :
    Except Failure (Bool × NetWorkBuffer) :=
  moveHeaderFrom net.bufferList len net

/-- `getBuffers` into a new chunk takes the place of the list; the result is the
chunk whose `buffer()` is returned. -/
def mergeBuffers (garbage : Garbage) (net : NetWorkBuffer) :
    Except Failure (Option BufferId × NetWorkBuffer) := do
  let net ←
    if net.bufferList.length > 1 then
      let (id, net) := net.create garbage net.length
      let buff := net.buffers id
      let data ← net.copyBuffers net.length
      let block ← store buff.block buff.readIdx data
      let buff ← { buff with block := block }.addWriteIdx (.ofNat net.length)
      pure { net.put id buff with bufferList := [id] }
    else
      pure net
  pure (net.bufferList.head?, net)

def clearBuffers (net : NetWorkBuffer) : NetWorkBuffer :=
  { net with bufferList := [], length := 0 }

end NetWorkBuffer

open TransitionRun

/-- An allocated buffer that holds `queue`. -/
def Holds (buff : Buffer) (queue : List UInt8) : Prop :=
  ∃ consumed spare, buff = Buffer.parts consumed queue spare

section Holds

variable {buff : Buffer} {queue : List UInt8}

theorem Represents.holds (represents : Represents buff queue)
    (allocated : buff.block.isSome) : Holds buff queue := by
  cases represents with
  | null capacity => cases allocated
  | parts consumed queue spare => exact ⟨consumed, spare, rfl⟩

theorem Holds.represents (holds : Holds buff queue) :
    Represents buff queue := by
  obtain ⟨consumed, spare, rfl⟩ := holds
  exact .parts consumed queue spare

theorem Holds.allocated (holds : Holds buff queue) : buff.block.isSome := by
  obtain ⟨consumed, spare, rfl⟩ := holds
  rfl

theorem Holds.length_eq (holds : Holds buff queue) :
    buff.length = queue.length := holds.represents.length_eq

theorem Vacant.holds {room : Nat} (vacant : Vacant buff room) :
    Holds buff [] := by
  obtain ⟨spare, rfl, _⟩ := vacant
  exact ⟨[], spare, rfl⟩

theorem Vacant.left {room : Nat} (vacant : Vacant buff room) :
    room ≤ buff.left := by
  obtain ⟨spare, rfl, fits⟩ := vacant
  rwa [parts_left]

/-- `memcpy` out of the front of the queue. -/
theorem Holds.load (holds : Holds buff queue) (count : Nat) :
    load buff.block buff.readIdx (min count buff.length) =
      .ok (queue.take count) := by
  obtain ⟨consumed, spare, rfl⟩ := holds
  rw [parts_length, parts_block, parts_readIdx]
  have prefixed : consumed ++ (queue ++ spare) =
      consumed ++ (queue.take count ++ (queue.drop count ++ spare)) := by
    rw [← List.append_assoc (queue.take count), List.take_append_drop]
  rw [prefixed, ← List.length_take]
  exact load_middle consumed (queue.take count) (queue.drop count ++ spare)

private theorem addWriteIdx_block {len : UInt32} {next : Buffer}
    (run : buff.addWriteIdx len = .ok next) : next.block = buff.block := by
  unfold Buffer.addWriteIdx at run
  split at run
  · cases run
  · cases run
    rfl

private theorem addReadIdx_block {len : UInt32} {next : Buffer}
    (run : buff.addReadIdx len = .ok next) : next.block = buff.block := by
  unfold Buffer.addReadIdx at run
  split at run
  · cases run
  · cases run
    rfl

theorem addReadIdx_holds {len : UInt32} (holds : Holds buff queue)
    (held : len.toNat ≤ queue.length) :
    ∃ next, buff.addReadIdx len = .ok next ∧
      Holds next (queue.drop len.toNat) := by
  obtain ⟨next, run, represents⟩ :=
    addReadIdx_represents holds.represents held
  refine ⟨next, run, represents.holds ?_⟩
  rw [addReadIdx_block run]
  exact holds.allocated

/-- The bytes are stored, and as many of them are counted as `addWriteIdx` is
told. -/
theorem store_holds {data : List UInt8} {len : UInt32}
    (holds : Holds buff queue) (room : data.length ≤ buff.left)
    (counted : len.toNat ≤ data.length) :
    ∃ block next, store buff.block buff.writeIdx data = .ok block ∧
      { buff with block := block }.addWriteIdx len = .ok next ∧
      Holds next (queue ++ data.take len.toNat) := by
  obtain ⟨consumed, spare, rfl⟩ := holds
  rw [parts_left] at room
  have stored := @store_behind (consumed ++ queue) spare data room
  rw [List.length_append, List.append_assoc, List.append_assoc] at stored
  have kept : { Buffer.parts consumed queue spare with
      block := some (consumed ++ (queue ++ (data ++ spare.drop data.length))) }
      = Buffer.parts consumed queue (data ++ spare.drop data.length) := by
    apply eq_parts
    · rfl
    · rfl
    · rfl
    · rw [List.length_append, List.length_drop]
      change consumed.length + _ = _
      omega
  have within : len.toNat ≤ (Buffer.parts consumed queue
      (data ++ spare.drop data.length)).left := by
    rw [parts_left, List.length_append]
    omega
  obtain ⟨next, run, represents⟩ := addWriteIdx_represents
    (Represents.parts _ _ _) within (.inl rfl)
  refine ⟨_, next, stored, ?_, ?_⟩
  · rw [kept, run]
  · rw [parts_writable, List.take_append_of_le_length counted] at represents
    apply represents.holds
    rw [addWriteIdx_block run]
    rfl

theorem write_holds {data : List UInt8} (holds : Holds buff queue)
    (room : data.length ≤ buff.left) :
    ∃ next, buff.write data = .ok next ∧
      Holds next (queue ++ data.take (data.length % 2 ^ 32)) := by
  have counted : (UInt32.ofNat data.length).toNat = data.length % 2 ^ 32 :=
    UInt32.toNat_ofNat'
  obtain ⟨block, next, stored, run, holds⟩ :=
    store_holds holds room (counted ▸ Nat.mod_le _ _)
  refine ⟨next, ?_, counted ▸ holds⟩
  rw [Buffer.write, stored, ok_bind, run]

end Holds

namespace NetWorkBuffer

/-- What the chunk behind an identity holds. -/
def Holding (net : NetWorkBuffer) (id : BufferId) (part : List UInt8) : Prop :=
  Holds (net.buffers id) part

/-- The chunk that is kept for an empty list is usable. -/
def Kept (net : NetWorkBuffer) : Prop :=
  ∀ id, net.defaultBuff = some id →
    id < net.fresh ∧ ∃ stale, net.Holding id stale

/-- The buffer is the queue `queue`. -/
structure Refines (net : NetWorkBuffer) (queue : List UInt8) : Prop where
  segments : Segments net.Holding net.bufferList queue
  distinct : net.bufferList.Nodup
  length : net.length = queue.length
  known : ∀ id ∈ net.bufferList, id < net.fresh
  kept : net.Kept

section Invariant

variable {net : NetWorkBuffer} {queue part : List UInt8} {id : BufferId}
  {buff : Buffer}

theorem refines_empty : Refines {} [] where
  segments := .nil
  distinct := List.nodup_nil
  length := rfl
  known := by
    intro id member
    cases member
  kept := by
    intro id kept
    cases kept

theorem holding_put (holds : Holds buff part) :
    (net.put id buff).Holding id part := by
  simpa [Holding, put] using holds

theorem segments_put {places : List BufferId}
    (segments : Segments net.Holding places queue) (elsewhere : id ∉ places)
    (buff : Buffer) : Segments (net.put id buff).Holding places queue :=
  @Segments.update _ _ _ _ Holds net.buffers _ _ _ segments elsewhere buff

theorem Kept.put (kept : net.Kept) (holds : Holds buff part) :
    (net.put id buff).Kept := by
  intro other default
  obtain ⟨known, stale, held⟩ := kept other default
  refine ⟨known, ?_⟩
  by_cases same : other = id
  · rw [same]
    exact ⟨part, holding_put holds⟩
  · refine ⟨stale, ?_⟩
    simpa [Holding, NetWorkBuffer.put, same] using held

/-- A new chunk at the end of the list. -/
theorem Refines.append (refines : net.Refines queue)
    (elsewhere : id ∉ net.bufferList) (known : id < net.fresh)
    (holding : net.Holding id part) :
    { net.pushBack id with length := net.length + part.length }.Refines
      (queue ++ part) where
  segments := refines.segments.append (.one holding)
  distinct := by
    apply refines.distinct.append (List.nodup_singleton id)
    intro other member same
    rw [List.mem_singleton.mp same] at member
    exact elsewhere member
  length := by
    rw [List.length_append, ← refines.length]
  known := by
    intro other member
    cases List.mem_append.mp member with
    | inl listed => exact refines.known other listed
    | inr added => rwa [List.mem_singleton.mp added]
  kept := refines.kept

theorem Refines.pushBack (refines : net.Refines queue)
    (elsewhere : id ∉ net.bufferList) (known : id < net.fresh)
    (holding : net.Holding id []) : (net.pushBack id).Refines queue := by
  have appended := refines.append elsewhere known holding
  rwa [List.append_nil] at appended

theorem Refines.raise {fresh : BufferId} (refines : net.Refines queue)
    (later : net.fresh ≤ fresh) : { net with fresh := fresh }.Refines queue where
  segments := refines.segments
  distinct := refines.distinct
  length := refines.length
  known := fun id member => Nat.lt_of_lt_of_le (refines.known id member) later
  kept := by
    intro id default
    obtain ⟨known, stale, held⟩ := refines.kept id default
    exact ⟨Nat.lt_of_lt_of_le known later, stale, held⟩

theorem Refines.put (refines : net.Refines queue)
    (elsewhere : id ∉ net.bufferList) (holds : Holds buff part) :
    (net.put id buff).Refines queue where
  segments := segments_put refines.segments elsewhere buff
  distinct := refines.distinct
  length := refines.length
  known := refines.known
  kept := refines.kept.put holds

/-- The content of the last chunk grows. -/
theorem Refines.segments_put_last {front : List BufferId}
    {first more : List UInt8} (refines : net.Refines (first ++ part))
    (list : net.bufferList = front ++ [id])
    (before : Segments net.Holding front first)
    (holds : Holds buff (part ++ more)) :
    Segments (net.put id buff).Holding net.bufferList
      (first ++ part ++ more) := by
  have distinct := refines.distinct
  rw [list] at distinct
  have elsewhere : id ∉ front := fun member =>
    List.disjoint_of_nodup_append distinct member (List.mem_singleton_self id)
  rw [List.append_assoc, list]
  exact (segments_put before elsewhere buff).append (.one (holding_put holds))

theorem Refines.put_last {front : List BufferId} {first more : List UInt8}
    (refines : net.Refines (first ++ part))
    (list : net.bufferList = front ++ [id])
    (before : Segments net.Holding front first)
    (holds : Holds buff (part ++ more)) :
    { net.put id buff with length := net.length + more.length }.Refines
      (first ++ part ++ more) where
  segments := refines.segments_put_last list before holds
  distinct := refines.distinct
  length := by
    rw [List.length_append, ← refines.length]
  known := refines.known
  kept := refines.kept.put holds

/-- The first chunk loses its front. -/
theorem Refines.drop_head {rest : List BufferId} {later : List UInt8}
    {len : Nat} (refines : net.Refines (part ++ later))
    (list : net.bufferList = id :: rest)
    (following : Segments net.Holding rest later) (held : len ≤ part.length)
    (holds : Holds buff (part.drop len)) :
    { net.put id buff with length := net.length - len }.Refines
      (part.drop len ++ later) where
  segments := by
    have distinct := refines.distinct
    rw [list] at distinct
    change Segments _ net.bufferList _
    rw [list]
    exact .cons (holding_put holds)
      (segments_put following (List.nodup_cons.mp distinct).1 buff)
  distinct := refines.distinct
  length := by
    change net.length - len = _
    rw [refines.length, List.length_append, List.length_append,
      List.length_drop]
    omega
  known := refines.known
  kept := refines.kept.put holds

/-- The first chunk is given up. -/
theorem Refines.erase_head {rest : List BufferId} {later stale : List UInt8}
    (refines : net.Refines (part ++ later))
    (list : net.bufferList = id :: rest)
    (following : Segments net.Holding rest later) (holds : Holds buff stale) :
    { net.put id buff with
      length := net.length - part.length, bufferList := rest }.Refines
      later := by
  have distinct := refines.distinct
  rw [list] at distinct
  exact {
    segments := segments_put following (List.nodup_cons.mp distinct).1 buff
    distinct := (List.nodup_cons.mp distinct).2
    length := by
      rw [refines.length, List.length_append, Nat.add_sub_cancel_left]
    known := by
      intro other member
      apply refines.known
      rw [list]
      exact List.mem_cons_of_mem id member
    kept := refines.kept.put holds }

theorem Refines.fresh_unlisted (refines : net.Refines queue) :
    net.fresh ∉ net.bufferList :=
  fun listed => Nat.lt_irrefl _ (refines.known _ listed)

@[simp] theorem create_fst (garbage : Garbage) (capacity : Nat) :
    (net.create garbage capacity).1 = net.fresh := rfl

@[simp] theorem create_length (garbage : Garbage) (capacity : Nat) :
    (net.create garbage capacity).2.length = net.length := rfl

theorem create_refines (garbage : Garbage) (capacity : Nat)
    (refines : net.Refines queue) :
    (net.create garbage capacity).2.Refines queue ∧
    Vacant ((net.create garbage capacity).2.buffers net.fresh) capacity := by
  have vacant : Vacant (Buffer.alloc garbage capacity {}) capacity :=
    alloc_vacant garbage capacity (.null _)
  have put := refines.put refines.fresh_unlisted vacant.holds
  constructor
  · exact put.raise (Nat.le_succ _)
  · simpa [create, NetWorkBuffer.put] using vacant

end Invariant

section Operations

variable {net : NetWorkBuffer} {queue : List UInt8} {id : BufferId}

/-- `id` is the last chunk and can take `room` bytes. -/
def Offers (net : NetWorkBuffer) (id : BufferId) (room : Nat) : Prop :=
  (∃ front, net.bufferList = front ++ [id]) ∧ room ≤ (net.buffers id).left

theorem expansion_vacant {room len : Nat} (garbage : Garbage) {buff : Buffer}
    (vacant : Vacant buff room) :
    ∃ next, buff.expansion garbage len = .ok next ∧ Vacant next len := by
  obtain ⟨spare, rfl, _⟩ := vacant
  by_cases small : spare.length < len
  · refine ⟨Buffer.parts [] [] (newBlock garbage len), ?_, _, rfl, ?_⟩
    · simp [Buffer.expansion, Buffer.parts, Buffer.length, small]
    · rw [length_newBlock]
  · refine ⟨Buffer.parts [] [] spare, ?_, spare, rfl, Nat.not_lt.mp small⟩
    simp [Buffer.expansion, Buffer.compact, small]

theorem Holds.clear_vacant {buff : Buffer} {part : List UInt8}
    (holds : Holds buff part) : Vacant buff.clear 0 := by
  obtain ⟨consumed, spare, rfl⟩ := holds
  exact ⟨_, clear_parts consumed part spare, Nat.zero_le _⟩

theorem getOrCreateBuffer_refines (garbage : Garbage)
    {minCapacity maxCapacity : Nat} (ordered : minCapacity ≤ maxCapacity)
    (refines : net.Refines queue) :
    ∃ id next, net.getOrCreateBuffer garbage minCapacity maxCapacity =
        .ok (id, next) ∧ next.Refines queue ∧ next.Offers id minCapacity := by
  simp only [getOrCreateBuffer, assert, if_pos ordered, ok_bind]
  cases listed : net.bufferList.getLast? with
  | none =>
      have none : net.bufferList = [] := List.getLast?_eq_none_iff.mp listed
      cases default : net.defaultBuff with
      | none =>
          obtain ⟨created, vacant⟩ := create_refines garbage maxCapacity refines
          have pushed := created.pushBack refines.fresh_unlisted
            (Nat.lt_succ_self _) vacant.holds
          refine ⟨_, _, rfl, ?_, ⟨net.bufferList, rfl⟩,
            Nat.le_trans ordered vacant.left⟩
          exact { pushed with
            kept := by
              intro id kept
              cases kept
              exact ⟨Nat.lt_succ_self _, [], vacant.holds⟩ }
      | some id =>
          obtain ⟨known, stale, held⟩ := refines.kept id default
          obtain ⟨buff, run, vacant⟩ :=
            @expansion_vacant 0 maxCapacity garbage _ (Holds.clear_vacant held)
          have elsewhere : id ∉ net.bufferList := by
            rw [none]
            exact List.not_mem_nil
          refine ⟨id, (net.put id buff).pushBack id, ?_, ?_,
            ⟨net.bufferList, rfl⟩, ?_⟩
          · simp only [run, ok_bind, pure_ok]
          · exact (refines.put elsewhere vacant.holds).pushBack elsewhere known
              (holding_put vacant.holds)
          · have room := vacant.left
            simp only [NetWorkBuffer.pushBack, NetWorkBuffer.put,
              Function.update_self]
            omega
  | some id =>
      obtain ⟨front, list⟩ := List.getLast?_eq_some_iff.mp listed
      obtain ⟨first, part, whole, before, held⟩ :=
        (list ▸ refines.segments).last
      dsimp only
      split_ifs with small reusable
      · obtain ⟨buff, run, ⟨spare, compacted⟩, capacity⟩ :=
          compact_compact garbage held.represents
        have holds : Holds buff (part ++ []) := by
          rw [List.append_nil]
          exact ⟨[], spare, compacted⟩
        have put := (whole ▸ refines).put_last list before holds
        rw [List.append_nil, ← whole] at put
        refine ⟨id, net.put id buff, ?_, put, ⟨front, list⟩, ?_⟩
        · simp only [run, ok_bind, pure_ok]
        · have length := held.length_eq
          simp only [NetWorkBuffer.put, Function.update_self]
          rw [← capacity, length, compacted] at reusable
          rw [compacted, parts_left]
          simp only [parts_capacity, List.length_nil] at reusable
          omega
      · obtain ⟨created, vacant⟩ := create_refines garbage maxCapacity refines
        exact ⟨_, _, rfl, created.pushBack refines.fresh_unlisted
          (Nat.lt_succ_self _) vacant.holds, ⟨net.bufferList, rfl⟩,
          Nat.le_trans ordered vacant.left⟩
      · exact ⟨id, net, rfl, refines, ⟨front, list⟩, Nat.not_lt.mp small⟩

/-- Writing `data` to a chunk that has been offered. -/
theorem write_refines {data : List UInt8} (refines : net.Refines queue)
    (offers : net.Offers id data.length) (counted : data.length < 2 ^ 32) :
    ∃ buff, (net.buffers id).write data = .ok buff ∧
      { net.put id buff with length := net.length + data.length }.Refines
        (queue ++ data) := by
  obtain ⟨⟨front, list⟩, room⟩ := offers
  obtain ⟨first, part, whole, before, held⟩ := (list ▸ refines.segments).last
  obtain ⟨buff, run, holds⟩ := write_holds held room
  rw [Nat.mod_eq_of_lt counted, List.take_length] at holds
  refine ⟨buff, run, ?_⟩
  rw [whole]
  exact (whole ▸ refines).put_last list before holds

/-- `addBuffer` writes to an offered chunk. -/
private theorem addBuffer_offered (garbage : Garbage) {data : List UInt8}
    (refines : net.Refines queue) (nonempty : data ≠ []) :
    ∃ (id : BufferId) (offered : NetWorkBuffer), offered.Refines queue ∧
      offered.Offers id data.length ∧
      ∀ {buff}, (offered.buffers id).write data = .ok buff →
        net.addBuffer garbage data = .ok { offered.put id buff with
          length := offered.length + data.length } := by
  obtain ⟨capacity, chosen⟩ : ∃ capacity,
      capacity = if data.length < 1024 then 1024 else data.length := ⟨_, rfl⟩
  have enough : data.length ≤ capacity := by
    split_ifs at chosen <;> omega
  obtain ⟨id, offered, run, refines', last, room⟩ :=
    @getOrCreateBuffer_refines net queue garbage capacity (capacity * 3 / 2)
      (by omega) refines
  have fits : data.length ≤ (offered.buffers id).left :=
    Nat.le_trans enough room
  refine ⟨id, offered, refines', ⟨last, fits⟩, ?_⟩
  intro buff written
  simp only [addBuffer, if_neg nonempty, ← chosen, run, ok_bind, assert,
    if_pos fits, written, pure_ok]

theorem addBuffer_refines (garbage : Garbage) {data : List UInt8}
    (refines : net.Refines queue) (counted : data.length < 2 ^ 32) :
    ∃ next, net.addBuffer garbage data = .ok next ∧
      next.Refines (queue ++ data) := by
  by_cases nothing : data = []
  · refine ⟨net, by rw [addBuffer, if_pos nothing], ?_⟩
    rwa [nothing, List.append_nil]
  · obtain ⟨id, offered, refines', offers, added⟩ :=
      addBuffer_offered garbage refines nothing
    obtain ⟨buff, written, refines''⟩ := write_refines refines' offers counted
    exact ⟨_, added written, refines''⟩

/-- All bytes count towards the length, and `addWriteIdx` counts as many as a
`uint32_t` can express. -/
theorem addBuffer_truncates (garbage : Garbage) {data : List UInt8}
    (refines : net.Refines queue) (nonempty : data ≠ []) :
    ∃ next, net.addBuffer garbage data = .ok next ∧
      next.length = queue.length + data.length ∧
      Segments next.Holding next.bufferList
        (queue ++ data.take (data.length % 2 ^ 32)) := by
  obtain ⟨id, offered, refines', ⟨⟨front, list⟩, room⟩, added⟩ :=
    addBuffer_offered garbage refines nonempty
  obtain ⟨first, part, whole, before, held⟩ := (list ▸ refines'.segments).last
  obtain ⟨buff, written, holds⟩ := write_holds held room
  refine ⟨_, added written, ?_, ?_⟩
  · rw [refines'.length]
  · rw [whole]
    exact (whole ▸ refines').segments_put_last list before holds

theorem adopt_refines {buff : Buffer} {part : List UInt8}
    (refines : net.Refines queue) (elsewhere : id ∉ net.bufferList)
    (holds : Holds buff part) : (net.adopt id buff).Refines queue :=
  (refines.put elsewhere holds).raise (Nat.le_max_left _ _)

theorem addSharedBuffer_refines {buff : Buffer} {data : List UInt8}
    (refines : net.Refines queue) (elsewhere : id ∉ net.bufferList)
    (holds : Holds buff data) (nonempty : data ≠ []) :
    ((net.adopt id buff).addSharedBuffer id).Refines (queue ++ data) := by
  have adopted := adopt_refines refines elsewhere holds
  have holding : (net.adopt id buff).Holding id data := holding_put holds
  have length : ((net.adopt id buff).buffers id).length = data.length :=
    Holds.length_eq holding
  have live : ((net.adopt id buff).buffers id).empty = false := by
    have order := (Holds.represents holding).bounds.1
    have positive := List.length_pos_iff.mpr nonempty
    simp only [Buffer.length] at length
    simp only [Buffer.empty, decide_eq_false_iff_not]
    omega
  rw [addSharedBuffer, live, if_neg Bool.false_ne_true, length]
  exact adopted.append elsewhere (Nat.le_max_right _ _) holding

theorem getBuffersFrom_eq {places : List BufferId}
    (segments : Segments net.Holding places queue) (left : Nat) :
    getBuffersFrom net.buffers places left = .ok (queue.take left) := by
  induction segments generalizing left with
  | nil => rw [getBuffersFrom, List.take_nil]
  | @cons id part places rest held _ induction =>
      rw [getBuffersFrom]
      split_ifs with done
      · rw [done, List.take_zero]
      · have loaded := Holds.load held left
        have length := Holds.length_eq held
        have rest_left : left - min left part.length = left - part.length := by
          omega
        simp only [loaded, ok_bind, induction, pure_ok]
        rw [length, List.take_append, rest_left]

theorem copyBuffers_eq {length : Nat} (refines : net.Refines queue)
    (held : length ≤ queue.length) :
    net.copyBuffers length = .ok (queue.take length) := by
  rw [← refines.length] at held
  rw [copyBuffers, assert, if_pos held, ok_bind,
    getBuffersFrom_eq refines.segments]

theorem copyResized_eq {length : Nat} (refines : net.Refines queue)
    (held : length ≤ queue.length) :
    net.copyResized length = .ok (queue.take length) := by
  rw [copyResized, copyBuffers_eq refines held, ok_bind, List.length_take,
    Nat.min_eq_left held, Nat.sub_self, List.replicate_zero, List.append_nil,
    pure_ok]

theorem getBuffers_eq (refines : net.Refines queue) :
    net.getBuffers = .ok queue := by
  unfold getBuffers
  rw [refines.length]
  split_ifs with live
  · rw [copyResized_eq refines (Nat.le_refl _), List.take_length]
  · rw [List.eq_nil_of_length_eq_zero (Nat.eq_zero_of_not_pos live)]

theorem getHeader_eq (refines : net.Refines queue) (len : Nat) :
    net.getHeader len =
      .ok (if len ≤ queue.length then some (queue.take len) else none) := by
  unfold getHeader
  rw [refines.length]
  by_cases held : len ≤ queue.length
  · rw [if_neg (Nat.not_lt.mpr held), if_pos held]
    split_ifs with nothing
    · rw [nothing, List.take_zero]
    · rw [copyResized_eq refines held, ok_bind, pure_ok]
  · rw [if_pos (Nat.not_le.mp held), if_neg held]

/-- What is taken of the chunk that is taken only in part. -/
def partialDrop : List Nat → Nat → Nat
  | [], _ => 0
  | left :: rest, len =>
      if len < left then len else partialDrop rest (len - left)

theorem partialDrop_le (lengths : List Nat) (len : Nat) :
    partialDrop lengths len ≤ len := by
  induction lengths generalizing len with
  | nil => exact Nat.zero_le len
  | cons left rest induction =>
      rw [partialDrop]
      split_ifs with within
      · exact Nat.le_refl len
      · exact Nat.le_trans (induction _) (Nat.sub_le len left)

def chunkLengths (net : NetWorkBuffer) : List Nat :=
  net.bufferList.map fun id => (net.buffers id).length

theorem moveHeaderFrom_refines {places : List BufferId} {len : Nat}
    (refines : net.Refines queue) (list : net.bufferList = places)
    (held : len ≤ queue.length)
    (counted : partialDrop net.chunkLengths len < 2 ^ 32) :
    ∃ next, moveHeaderFrom places len net = .ok (true, next) ∧
      next.Refines (queue.drop len) := by
  induction places generalizing net queue len with
  | nil =>
      have segments := refines.segments
      rw [list] at segments
      cases segments
      obtain rfl := Nat.le_zero.mp held
      refine ⟨net, ?_, refines⟩
      rw [moveHeaderFrom, if_neg (Nat.not_lt_zero _), if_pos rfl]
  | cons id rest induction =>
      have enough : ¬ net.length < len := by
        rw [refines.length]
        exact Nat.not_lt.mpr held
      by_cases nothing : len = 0
      · refine ⟨net, ?_, ?_⟩
        · rw [moveHeaderFrom, if_neg enough, if_pos nothing]
        · rwa [nothing, List.drop_zero]
      have segments := refines.segments
      have distinct := refines.distinct
      rw [list] at segments distinct
      cases segments with
      | @cons _ part _ later holding following =>
      have length : (net.buffers id).length = part.length :=
        Holds.length_eq holding
      have truncated (count : Nat) : (UInt32.ofNat count).toNat ≤ count := by
        rw [UInt32.toNat_ofNat']
        exact Nat.mod_le _ _
      rw [moveHeaderFrom, if_neg enough, if_neg nothing]
      rw [chunkLengths, list, List.map_cons, length, partialDrop] at counted
      rw [List.length_append] at held
      simp only [length]
      by_cases within : len < part.length
      · rw [if_pos within] at counted
        have whole : (UInt32.ofNat len).toNat = len :=
          UInt32.toNat_ofNat_of_lt' counted
        obtain ⟨buff, run, holds⟩ :=
          addReadIdx_holds holding (Nat.le_trans (truncated len) within.le)
        rw [whole] at holds
        rw [List.drop_append_of_le_length within.le]
        refine ⟨_, ?_, refines.drop_head list following within.le holds⟩
        rw [if_pos within, run, ok_bind, pure_ok]
      by_cases exactly : part.length = len
      · subst exactly
        obtain ⟨buff, run, holds⟩ :=
          addReadIdx_holds holding (truncated part.length)
        rw [List.drop_left]
        refine ⟨_, ?_, refines.erase_head list following holds⟩
        rw [if_neg within, if_pos rfl, run, ok_bind, pure_ok]
      · obtain ⟨buff, run, holds⟩ :=
          addReadIdx_holds holding (truncated part.length)
        have erased := refines.erase_head list following holds
        rw [if_neg within] at counted
        have elsewhere := (List.nodup_cons.mp distinct).1
        have unchanged : rest.map (fun other =>
            ((net.put id buff).buffers other).length) =
            rest.map (fun other => (net.buffers other).length) := by
          apply List.map_congr_left
          intro other member
          have different : other ≠ id := by
            intro same
            exact elsewhere (same ▸ member)
          simp [NetWorkBuffer.put, different]
        rw [← unchanged] at counted
        obtain ⟨next, moved, refines'⟩ := induction erased rfl
          (Nat.sub_le_iff_le_add'.mpr held) counted
        refine ⟨next, ?_, ?_⟩
        · rw [if_neg within, if_neg exactly, run, ok_bind, moved]
        · rwa [List.drop_append, List.drop_eq_nil_of_le
            (Nat.not_lt.mp within), List.nil_append]

theorem moveHeaderFrom_short {len : Nat} (places : List BufferId)
    (short : net.length < len) :
    moveHeaderFrom places len net = .ok (false, net) := by
  cases places with
  | nil => rw [moveHeaderFrom, if_pos short]
  | cons id rest => rw [moveHeaderFrom, if_pos short]

theorem moveHeader_refines {len : Nat} (refines : net.Refines queue)
    (counted : len ≤ net.length →
      partialDrop net.chunkLengths len < 2 ^ 32) :
    ∃ next, net.moveHeader len = .ok (decide (len ≤ queue.length), next) ∧
      next.Refines (if len ≤ queue.length then queue.drop len else queue) := by
  by_cases held : len ≤ queue.length
  · rw [refines.length] at counted
    obtain ⟨next, run, refines'⟩ :=
      moveHeaderFrom_refines refines rfl held (counted held)
    refine ⟨next, ?_, ?_⟩
    · rw [moveHeader, run, decide_eq_true held]
    · rwa [if_pos held]
  · refine ⟨net, ?_, ?_⟩
    · rw [← refines.length] at held ⊢
      rw [moveHeader, moveHeaderFrom_short _ (Nat.not_le.mp held),
        decide_eq_false held]
    · rwa [if_neg held]

/-- The chunk at the head of the list holds everything. -/
def Merged (net : NetWorkBuffer) (head : Option BufferId)
    (queue : List UInt8) : Prop :=
  match head with
  | none => queue = []
  | some id => net.Holding id queue

theorem mergeBuffers_refines (garbage : Garbage) (refines : net.Refines queue)
    (counted : 1 < net.bufferList.length → net.length < 2 ^ 32) :
    ∃ head next, net.mergeBuffers garbage = .ok (head, next) ∧
      next.Refines queue ∧ next.Merged head queue := by
  by_cases several : 1 < net.bufferList.length
  · obtain ⟨created, vacant⟩ := create_refines garbage net.length refines
    have copied := copyBuffers_eq created (Nat.le_refl _)
    rw [List.take_length, ← refines.length] at copied
    have whole : (UInt32.ofNat net.length).toNat = queue.length := by
      rw [UInt32.toNat_ofNat_of_lt' (counted several), refines.length]
    have unread : ((net.create garbage net.length).2.buffers net.fresh).readIdx =
        ((net.create garbage net.length).2.buffers net.fresh).writeIdx := by
      obtain ⟨spare, allocated, _⟩ := vacant
      rw [allocated]
      rfl
    obtain ⟨block, buff, stored, run, holds⟩ :=
      store_holds vacant.holds (refines.length ▸ vacant.left) whole.le
    rw [List.nil_append, whole, List.take_length] at holds
    refine ⟨some net.fresh, { (net.create garbage net.length).2.put net.fresh
      buff with bufferList := [net.fresh] }, ?_, ?_, holding_put holds⟩
    · rw [← unread] at stored
      simp only [mergeBuffers, gt_iff_lt, if_pos several, create_fst,
        create_length, copied, stored, run, ok_bind, pure_ok, List.head?_cons]
    · exact {
        segments := .one (holding_put holds)
        distinct := List.nodup_singleton _
        length := refines.length
        known := by
          intro id member
          rw [List.mem_singleton.mp member]
          exact Nat.lt_succ_self _
        kept := created.kept.put holds }
  · refine ⟨net.bufferList.head?, net, ?_, refines, ?_⟩
    · simp only [mergeBuffers, gt_iff_lt, if_neg several, pure_ok, ok_bind]
    · have segments := refines.segments
      cases list : net.bufferList with
      | nil =>
          rw [list] at segments
          cases segments
          rfl
      | cons id rest =>
          rw [list, List.length_cons] at several
          obtain rfl : rest = [] :=
            List.eq_nil_of_length_eq_zero (by omega)
          rw [list] at segments
          cases segments with
          | cons holding none =>
              cases none
              rwa [List.append_nil]

theorem clearBuffers_refines (refines : net.Refines queue) :
    net.clearBuffers.Refines [] where
  segments := .nil
  distinct := List.nodup_nil
  length := rfl
  known := by
    intro id member
    cases member
  kept := refines.kept

end Operations

end NetWorkBuffer

end TarsCpp.NetworkBuffer
