import Mathlib.Tactic

/-!
# One chunk of the network buffer

`TC_NetWorkBuffer::Buffer`: an allocated block with a read and a write index.
The block is a list of bytes, `NULL` is `none`, and every copy is an access to
a block that fails when it leaves it.  What freshly allocated memory contains
is a parameter of every operation that allocates.
-/

namespace TarsCpp.NetworkBuffer

/-- How an operation can fail: by an exception, by an assertion, or by an access
to memory that it does not own. -/
inductive Failure
  | thrown (what : String)
  | assertion (condition : String)
  | invalidAccess
deriving DecidableEq, Repr

/-- The block behind a pointer; `none` is `NULL`. -/
abbrev Block := Option (List UInt8)

/-- The content of freshly allocated memory. -/
abbrev Garbage := Nat → UInt8

/-- `new char[size]`. -/
def newBlock (garbage : Garbage) (size : Nat) : List UInt8 :=
  (List.range size).map garbage

/-- The source side of `memcpy` and `memmove`. -/
def load (block : Block) (start count : Nat) :
    Except Failure (List UInt8) :=
  if count = 0 then
    .ok []
  else
    match block with
    | none => .error .invalidAccess
    | some bytes =>
        if start + count ≤ bytes.length then
          .ok ((bytes.drop start).take count)
        else
          .error .invalidAccess

/-- The destination side of `memcpy` and `memmove`. -/
def store (block : Block) (start : Nat) (data : List UInt8) :
    Except Failure Block :=
  if data = [] then
    .ok block
  else
    match block with
    | none => .error .invalidAccess
    | some bytes =>
        if start + data.length ≤ bytes.length then
          .ok (some (bytes.take start ++ data ++
            bytes.drop (start + data.length)))
        else
          .error .invalidAccess

@[simp] theorem ok_bind {α β : Type} (value : α)
    (rest : α → Except Failure β) : (Except.ok value >>= rest) = rest value :=
  rfl

@[simp] theorem pure_ok {α : Type} (value : α) :
    (pure value : Except Failure α) = .ok value := rfl

theorem bind_eq_ok {α β : Type} {first : Except Failure α}
    {rest : α → Except Failure β} {result : β}
    (run : first >>= rest = .ok result) :
    ∃ value, first = .ok value ∧ rest value = .ok result := by
  cases first with
  | error failure => cases run
  | ok value => exact ⟨value, rfl, run⟩

structure Buffer where
  block : Block := none
  readIdx : Nat := 0
  writeIdx : Nat := 0
  capacity : Nat := 1024 * 8
deriving DecidableEq, Repr

namespace Buffer

def length (buff : Buffer) : Nat := buff.writeIdx - buff.readIdx

def left (buff : Buffer) : Nat := buff.capacity - buff.writeIdx

def empty (buff : Buffer) : Bool := buff.readIdx = buff.writeIdx

def clear (buff : Buffer) : Buffer :=
  { buff with readIdx := 0, writeIdx := 0 }

def alloc (garbage : Garbage) (len : Nat) (buff : Buffer) : Buffer :=
  let buff := buff.clear
  let buff := if buff.block.isNone then { buff with capacity := len } else buff
  let buff :=
    if buff.capacity < len then
      { buff with capacity := len, block := none }
    else
      buff
  if buff.block.isNone then
    { buff with block := some (newBlock garbage buff.capacity) }
  else
    buff

def compact (garbage : Garbage) (buff : Buffer) : Except Failure Buffer := do
  let buff :=
    if buff.block.isNone then buff.alloc garbage buff.capacity else buff
  if buff.readIdx ≠ 0 then
    let data ← load buff.block buff.readIdx buff.length
    let block ← store buff.block 0 data
    pure { buff with block := block, writeIdx := buff.length, readIdx := 0 }
  else
    pure buff

def expansion (garbage : Garbage) (len : Nat) (buff : Buffer) :
    Except Failure Buffer :=
  if buff.capacity < len then do
    let p := newBlock garbage len
    if buff.block.isSome ∧ buff.length > 0 then
      let data ← load buff.block buff.readIdx buff.length
      let p ← store (some p) 0 data
      pure { block := p, readIdx := 0, writeIdx := buff.length,
             capacity := len }
    else
      pure { buff with block := some p, capacity := len }
  else
    buff.compact garbage

def addBuffer (garbage : Garbage) (data : List UInt8) (buff : Buffer) :
    Except Failure Buffer := do
  let len := data.length
  let buff := if buff.block.isNone then buff.alloc garbage len else buff
  if buff.left ≥ len then
    let block ← store buff.block buff.writeIdx data
    pure { buff with block := block, writeIdx := buff.writeIdx + len }
  else if buff.capacity ≥ len + buff.length then
    let moved ← load buff.block buff.readIdx buff.length
    let block ← store buff.block 0 moved
    let block ← store block buff.length data
    pure { buff with
      block := block, writeIdx := buff.length + len, readIdx := 0 }
  else
    let p := newBlock garbage (buff.length + len)
    let moved ← load buff.block buff.readIdx buff.length
    let p ← store (some p) 0 moved
    let p ← store p buff.length data
    -- `length()` below is computed after `_readIdx` has been reset
    let buff := { buff with block := p, readIdx := 0 }
    let buff := { buff with writeIdx := buff.length + len }
    pure { buff with capacity := buff.writeIdx }

/-- The buffer takes over a block that holds exactly `data`. -/
def replaceBuffer (data : List UInt8) (_ : Buffer) : Buffer :=
  { block := some data, readIdx := 0, writeIdx := data.length,
    capacity := data.length }

def setBuffer (garbage : Garbage) (data : List UInt8) (buff : Buffer) :
    Except Failure Buffer := do
  let len := data.length
  let buff :=
    if buff.block.isNone ∨ buff.capacity ≤ len then
      buff.alloc garbage len
    else
      buff
  let buff := buff.clear
  let block ← store buff.block buff.readIdx data
  pure { buff with block := block, writeIdx := buff.writeIdx + len }

/-- The parameter is a `uint32_t`. -/
def addReadIdx (len : UInt32) (buff : Buffer) : Except Failure Buffer :=
  if buff.readIdx + len.toNat > buff.writeIdx then
    .error (.thrown
      s!"[TC_NetWorkBuffer::Buffer::addReadIdx] len:{len} overflow.")
  else
    .ok { buff with readIdx := buff.readIdx + len.toNat }

/-- The parameter is a `uint32_t`. -/
def addWriteIdx (len : UInt32) (buff : Buffer) : Except Failure Buffer :=
  if len.toNat > buff.left then
    .error (.thrown
      s!"[TC_NetWorkBuffer::Buffer::addWriteIdx] len:{len} overflow.")
  else
    .ok { buff with writeIdx := buff.writeIdx + len.toNat }

/-- The bytes at `buffer()`, `[0, length())`. -/
def content (buff : Buffer) : Except Failure (List UInt8) :=
  load buff.block buff.readIdx buff.length

end Buffer

/-- A block that falls into consumed bytes, a queue and spare bytes. -/
def Buffer.parts (consumed queue spare : List UInt8) : Buffer where
  block := some (consumed ++ (queue ++ spare))
  readIdx := consumed.length
  writeIdx := consumed.length + queue.length
  capacity := consumed.length + (queue.length + spare.length)

section Parts

variable (consumed queue spare : List UInt8)

@[simp] theorem parts_block : (Buffer.parts consumed queue spare).block =
    some (consumed ++ (queue ++ spare)) := rfl

@[simp] theorem parts_readIdx :
    (Buffer.parts consumed queue spare).readIdx = consumed.length := rfl

@[simp] theorem parts_writeIdx :
    (Buffer.parts consumed queue spare).writeIdx =
      consumed.length + queue.length := rfl

@[simp] theorem parts_capacity :
    (Buffer.parts consumed queue spare).capacity =
      consumed.length + (queue.length + spare.length) := rfl

@[simp] theorem parts_length :
    (Buffer.parts consumed queue spare).length = queue.length :=
  Nat.add_sub_cancel_left _ _

@[simp] theorem parts_left :
    (Buffer.parts consumed queue spare).left = spare.length := by
  simp only [Buffer.left, parts_capacity, parts_writeIdx]
  omega

end Parts

theorem eq_parts {buff : Buffer} (consumed queue spare : List UInt8)
    (block : buff.block = some (consumed ++ (queue ++ spare)))
    (readIdx : buff.readIdx = consumed.length)
    (writeIdx : buff.writeIdx = consumed.length + queue.length)
    (capacity : buff.capacity =
      consumed.length + (queue.length + spare.length)) :
    buff = Buffer.parts consumed queue spare := by
  cases buff
  simp_all [Buffer.parts]

/-- `buff` holds `queue`: nothing is allocated and nothing is held, or the
queue is a part of the block. -/
inductive Represents : Buffer → List UInt8 → Prop
  | null (capacity) : Represents ⟨none, 0, 0, capacity⟩ []
  | parts (consumed queue spare) :
      Represents (Buffer.parts consumed queue spare) queue

theorem represents_of_parts {buff : Buffer} {queue : List UInt8}
    (consumed spare : List UInt8)
    (block : buff.block = some (consumed ++ (queue ++ spare)))
    (readIdx : buff.readIdx = consumed.length)
    (writeIdx : buff.writeIdx = consumed.length + queue.length)
    (capacity : buff.capacity =
      consumed.length + (queue.length + spare.length)) :
    Represents buff queue := by
  rw [eq_parts consumed queue spare block readIdx writeIdx capacity]
  exact .parts consumed queue spare

theorem load_middle (front data back : List UInt8) :
    load (some (front ++ (data ++ back))) front.length data.length =
      .ok data := by
  unfold load
  split_ifs with none
  · rw [List.eq_nil_of_length_eq_zero none]
  · simp only [List.length_append]
    rw [if_pos (by omega), List.drop_left, List.take_left]

theorem store_middle (front old back data : List UInt8)
    (same : data.length = old.length) :
    store (some (front ++ (old ++ back))) front.length data =
      .ok (some (front ++ (data ++ back))) := by
  unfold store
  split_ifs with none
  · rw [none, List.length_nil] at same
    rw [none, List.eq_nil_of_length_eq_zero same.symm]
  · simp only [List.length_append]
    rw [if_pos (by omega), List.take_left, ← List.drop_drop, List.drop_left,
      same, List.drop_left, List.append_assoc]

/-- Storing behind a prefix, over bytes that nobody needs. -/
theorem store_behind {front bytes data : List UInt8}
    (fits : data.length ≤ bytes.length) :
    store (some (front ++ bytes)) front.length data =
      .ok (some (front ++ (data ++ bytes.drop data.length))) := by
  have split := store_middle front (bytes.take data.length)
    (bytes.drop data.length) data (by rw [List.length_take]; omega)
  rwa [List.take_append_drop] at split

/-- Storing over the front of a block. -/
theorem store_front {bytes data : List UInt8}
    (fits : data.length ≤ bytes.length) :
    store (some bytes) 0 data =
      .ok (some (data ++ bytes.drop data.length)) :=
  @store_behind [] bytes data fits

@[simp] theorem length_newBlock (garbage : Garbage) (size : Nat) :
    (newBlock garbage size).length = size := by
  simp [newBlock]

namespace Represents

variable {buff : Buffer} {queue : List UInt8}

/-- The bounds that the indices keep. -/
theorem bounds (represents : Represents buff queue) :
    buff.readIdx ≤ buff.writeIdx ∧ buff.writeIdx ≤ buff.capacity ∧
      ∀ bytes, buff.block = some bytes → buff.capacity = bytes.length := by
  cases represents with
  | null capacity =>
      refine ⟨Nat.le_refl 0, Nat.zero_le _, ?_⟩
      intro bytes allocated
      cases allocated
  | parts consumed queue spare =>
      refine ⟨Nat.le_add_right _ _, ?_, ?_⟩
      · rw [parts_writeIdx, parts_capacity]
        omega
      · intro bytes allocated
        cases allocated
        simp only [parts_capacity, List.length_append]

theorem length_eq (represents : Represents buff queue) :
    buff.length = queue.length := by
  cases represents with
  | null capacity => rfl
  | parts consumed queue spare => exact parts_length _ _ _

theorem content_eq (represents : Represents buff queue) :
    buff.content = .ok queue := by
  have length := represents.length_eq
  unfold Buffer.content
  rw [length]
  cases represents with
  | null capacity => rfl
  | parts consumed queue spare => exact load_middle consumed queue spare

end Represents

/-- A buffer that holds nothing and can take `room` bytes at once. -/
def Vacant (buff : Buffer) (room : Nat) : Prop :=
  ∃ spare, buff = Buffer.parts [] [] spare ∧ room ≤ spare.length

/-- A block of which nothing has been consumed. -/
def Compact (buff : Buffer) (queue : List UInt8) : Prop :=
  ∃ spare, buff = Buffer.parts [] queue spare

theorem Vacant.represents {buff : Buffer} {room : Nat}
    (vacant : Vacant buff room) : Represents buff [] := by
  obtain ⟨spare, rfl, _⟩ := vacant
  exact .parts [] [] spare

theorem Compact.represents {buff : Buffer} {queue : List UInt8}
    (compact : Compact buff queue) : Represents buff queue := by
  obtain ⟨spare, rfl⟩ := compact
  exact .parts [] queue spare

private theorem vacant_newBlock (garbage : Garbage) (size : Nat) :
    Vacant ⟨some (newBlock garbage size), 0, 0, size⟩ size := by
  refine ⟨newBlock garbage size, ?_, ?_⟩
  · simp [Buffer.parts]
  · rw [length_newBlock]

section Operations

variable {buff : Buffer} {queue : List UInt8}

theorem alloc_vacant (garbage : Garbage) (len : Nat)
    (represents : Represents buff queue) :
    Vacant (buff.alloc garbage len) len := by
  cases represents with
  | null capacity =>
      have run : Buffer.alloc garbage len ⟨none, 0, 0, capacity⟩ =
          ⟨some (newBlock garbage len), 0, 0, len⟩ := by
        simp [Buffer.alloc, Buffer.clear]
      rw [run]
      exact vacant_newBlock garbage len
  | parts consumed queue spare =>
      by_cases small : consumed.length + (queue.length + spare.length) < len
      · have run : (Buffer.parts consumed queue spare).alloc garbage len =
            ⟨some (newBlock garbage len), 0, 0, len⟩ := by
          simp [Buffer.alloc, Buffer.clear, small]
        rw [run]
        exact vacant_newBlock garbage len
      · refine ⟨consumed ++ (queue ++ spare), ?_, ?_⟩
        · simp [Buffer.alloc, Buffer.clear, small, Buffer.parts]
        · simp only [List.length_append]
          omega

theorem clear_parts (consumed queue spare : List UInt8) :
    (Buffer.parts consumed queue spare).clear =
      Buffer.parts [] [] (consumed ++ (queue ++ spare)) := by
  simp [Buffer.parts, Buffer.clear]

theorem clear_represents (represents : Represents buff queue) :
    Represents buff.clear [] := by
  cases represents with
  | null capacity => exact .null capacity
  | parts consumed queue spare =>
      rw [clear_parts]
      exact .parts _ _ _

/-- Moving the queue to the front of its block. -/
private theorem move_to_front (consumed queue spare : List UInt8) :
    ∃ spare', store (some (consumed ++ (queue ++ spare))) 0 queue =
        .ok (some (queue ++ spare')) ∧
      spare'.length = consumed.length + spare.length := by
  have fits : queue.length ≤ (consumed ++ (queue ++ spare)).length := by
    simp only [List.length_append]
    omega
  refine ⟨_, store_front fits, ?_⟩
  simp only [List.length_drop, List.length_append]
  omega

theorem compact_compact (garbage : Garbage)
    (represents : Represents buff queue) :
    ∃ next, buff.compact garbage = .ok next ∧ Compact next queue ∧
      next.capacity = buff.capacity := by
  cases represents with
  | null capacity =>
      refine ⟨_, ?_, ⟨newBlock garbage capacity, rfl⟩, ?_⟩
      · simp [Buffer.compact, Buffer.alloc, Buffer.clear, Buffer.parts]
      · simp
  | parts consumed queue spare =>
      obtain ⟨spare', stored, room⟩ := move_to_front consumed queue spare
      by_cases unread : consumed.length = 0
      · have front : consumed = [] := List.eq_nil_of_length_eq_zero unread
        refine ⟨_, ?_, ⟨spare, by rw [front]⟩, rfl⟩
        simp [Buffer.compact, unread]
      · have run : (Buffer.parts consumed queue spare).compact garbage =
            .ok ⟨some (queue ++ spare'), 0, queue.length,
              consumed.length + (queue.length + spare.length)⟩ := by
          simp only [Buffer.compact, parts_block, Option.isNone_some,
            Bool.false_eq_true, if_false, parts_readIdx, parts_length, unread,
            ne_eq, not_false_eq_true, if_true, load_middle, stored, ok_bind,
            pure_ok, parts_capacity]
        refine ⟨_, run, ⟨spare', ?_⟩, rfl⟩
        apply eq_parts [] queue spare'
        · rfl
        · rfl
        · exact (Nat.zero_add _).symm
        · change consumed.length + _ = 0 + _
          omega

theorem expansion_represents (garbage : Garbage) (len : Nat)
    (represents : Represents buff queue) :
    ∃ next, buff.expansion garbage len = .ok next ∧ Represents next queue := by
  by_cases small : buff.capacity < len
  · cases represents with
    | null capacity =>
        have run : Buffer.expansion garbage len ⟨none, 0, 0, capacity⟩ =
            .ok (Buffer.parts [] [] (newBlock garbage len)) := by
          have smaller : capacity < len := small
          simp [Buffer.expansion, Buffer.parts, smaller]
        exact ⟨_, run, .parts _ _ _⟩
    | parts consumed queue spare =>
        have room : consumed.length + queue.length ≤
            (newBlock garbage len).length := by
          simp only [parts_capacity] at small
          rw [length_newBlock]
          omega
        by_cases live : 0 < queue.length
        · have stored := store_front
            (Nat.le_trans (Nat.le_add_left _ consumed.length) room)
          have run : (Buffer.parts consumed queue spare).expansion garbage len =
              .ok ⟨some (queue ++ (newBlock garbage len).drop queue.length), 0,
                queue.length, len⟩ := by
            simp only [Buffer.expansion, if_pos small, parts_block, live,
              parts_length, parts_readIdx, load_middle, stored,
              Option.isSome_some, and_self, if_true, ok_bind, pure_ok]
          refine ⟨_, run, ?_⟩
          apply represents_of_parts []
            ((newBlock garbage len).drop queue.length)
          · rfl
          · rfl
          · exact (Nat.zero_add _).symm
          · rw [List.length_drop]
            rw [length_newBlock] at room ⊢
            change len = 0 + _
            omega
        · have drained : queue = [] :=
            List.eq_nil_of_length_eq_zero (Nat.eq_zero_of_not_pos live)
          have run : (Buffer.parts consumed queue spare).expansion garbage len =
              .ok ⟨some (newBlock garbage len), consumed.length,
                consumed.length + queue.length, len⟩ := by
            simp only [Buffer.expansion, if_pos small, parts_block, live,
              parts_length, parts_readIdx, parts_writeIdx, and_false, if_false,
              pure_ok]
          refine ⟨_, run, ?_⟩
          simp only [drained, List.length_nil, length_newBlock] at room
          have shorter : ((newBlock garbage len).take consumed.length).length =
              consumed.length := by
            rw [List.length_take, length_newBlock]
            exact Nat.min_eq_left room
          rw [drained]
          apply represents_of_parts
            ((newBlock garbage len).take consumed.length)
            ((newBlock garbage len).drop consumed.length)
          · simp
          · exact shorter.symm
          · rw [shorter]
          · rw [shorter, List.length_drop, length_newBlock, List.length_nil]
            change len = _
            omega
  · obtain ⟨next, run, moved, _⟩ := compact_compact garbage represents
    refine ⟨next, ?_, moved.represents⟩
    rw [Buffer.expansion, if_neg small, run]

/-- Appending to an allocated block, unless consumed bytes stand in front of a
queue that has to move to a larger block. -/
theorem addBuffer_parts (garbage : Garbage) (data consumed queue spare)
    (regular : consumed = [] ∨ data.length + queue.length ≤
      consumed.length + (queue.length + spare.length)) :
    ∃ next, (Buffer.parts consumed queue spare).addBuffer garbage data =
        .ok next ∧ Represents next (queue ++ data) := by
  by_cases behind : data.length ≤ spare.length
  · have stored := @store_behind (consumed ++ queue) spare data behind
    rw [List.length_append, List.append_assoc, List.append_assoc] at stored
    have run : (Buffer.parts consumed queue spare).addBuffer garbage data =
        .ok ⟨some (consumed ++ (queue ++ (data ++ spare.drop data.length))),
          consumed.length, consumed.length + queue.length + data.length,
          consumed.length + (queue.length + spare.length)⟩ := by
      simp only [Buffer.addBuffer, parts_block, Option.isNone_some,
        Bool.false_eq_true, if_false, parts_left, ge_iff_le, behind, if_true,
        parts_writeIdx, parts_readIdx, parts_capacity, stored, ok_bind, pure_ok]
    refine ⟨_, run, ?_⟩
    apply represents_of_parts consumed (spare.drop data.length)
    · rw [List.append_assoc]
    · rfl
    · rw [List.length_append, Nat.add_assoc]
    · rw [List.length_append, List.length_drop]
      change consumed.length + _ = _
      omega
  by_cases within : data.length + queue.length ≤
      consumed.length + (queue.length + spare.length)
  · obtain ⟨spare', moved, room⟩ := move_to_front consumed queue spare
    have stored := @store_behind queue spare' data (by omega)
    have run : (Buffer.parts consumed queue spare).addBuffer garbage data =
        .ok ⟨some (queue ++ (data ++ spare'.drop data.length)), 0,
          queue.length + data.length,
          consumed.length + (queue.length + spare.length)⟩ := by
      simp only [Buffer.addBuffer, parts_block, Option.isNone_some,
        Bool.false_eq_true, if_false, parts_left, ge_iff_le, behind,
        parts_length, parts_readIdx, parts_capacity, within, if_true,
        load_middle, moved, stored, ok_bind, pure_ok]
    refine ⟨_, run, ?_⟩
    apply represents_of_parts [] (spare'.drop data.length)
    · rw [List.append_assoc, List.nil_append]
    · rfl
    · rw [List.length_append]
      exact (Nat.zero_add _).symm
    · rw [List.length_append, List.length_drop]
      change consumed.length + _ = 0 + _
      omega
  · obtain rfl : consumed = [] := by
      cases regular with
      | inl unread => exact unread
      | inr fits => exact absurd fits within
    have fits : queue.length ≤
        (newBlock garbage (queue.length + data.length)).length := by
      rw [length_newBlock]
      omega
    have moved := store_front fits
    have stored := @store_behind queue
      ((newBlock garbage (queue.length + data.length)).drop queue.length) data
      (by rw [List.length_drop, length_newBlock]; omega)
    have run : (Buffer.parts [] queue spare).addBuffer garbage data =
        .ok (Buffer.parts [] (queue ++ data) []) := by
      simp only [Buffer.addBuffer, parts_block, Option.isNone_some,
        Bool.false_eq_true, if_false, parts_left, ge_iff_le, behind,
        parts_length, parts_readIdx, parts_capacity, within, load_middle, moved,
        stored, ok_bind, pure_ok]
      simp [Buffer.parts, Buffer.length]
    exact ⟨_, run, .parts _ _ _⟩

theorem addBuffer_represents (garbage : Garbage) (data : List UInt8)
    (represents : Represents buff queue)
    (regular : buff.readIdx = 0 ∨ data.length + buff.length ≤ buff.capacity) :
    ∃ next, buff.addBuffer garbage data = .ok next ∧
      Represents next (queue ++ data) := by
  cases represents with
  | null capacity =>
      obtain ⟨spare, allocated, room⟩ :=
        alloc_vacant garbage data.length (.null capacity)
      have run : Buffer.addBuffer garbage data ⟨none, 0, 0, capacity⟩ =
          (Buffer.parts [] [] spare).addBuffer garbage data := by
        simp only [Buffer.addBuffer, Option.isNone_none, if_true, allocated,
          parts_block, Option.isNone_some, Bool.false_eq_true, if_false]
      rw [run]
      exact addBuffer_parts garbage data [] [] spare (.inl rfl)
  | parts consumed queue spare =>
      apply addBuffer_parts
      cases regular with
      | inl unread => exact .inl (List.eq_nil_of_length_eq_zero unread)
      | inr fits =>
          rw [parts_length] at fits
          exact .inr fits

/-- The queue moves to a larger block, and consumed bytes are still counted. -/
theorem addBuffer_overruns (garbage : Garbage) (data consumed queue spare)
    (read : consumed ≠ []) (large : consumed.length +
      (queue.length + spare.length) < data.length + queue.length) :
    (Buffer.parts consumed queue spare).addBuffer garbage data =
      .ok ⟨some (queue ++ data), 0,
        consumed.length + queue.length + data.length,
        consumed.length + queue.length + data.length⟩ := by
  have counted := List.length_pos_iff.mpr read
  have behind : ¬ data.length ≤ spare.length := by omega
  have moved := @store_front
    (newBlock garbage (queue.length + data.length)) queue
    (by rw [length_newBlock]; omega)
  have stored := @store_behind queue
    ((newBlock garbage (queue.length + data.length)).drop queue.length) data
    (by rw [List.length_drop, length_newBlock]; omega)
  simp only [Buffer.addBuffer, parts_block, Option.isNone_some,
    Bool.false_eq_true, if_false, parts_left, ge_iff_le, behind,
    parts_length, parts_readIdx, parts_writeIdx, parts_capacity,
    Nat.not_le.mpr large, load_middle, moved, stored, ok_bind, pure_ok]
  simp [Buffer.length]

theorem setBuffer_represents (garbage : Garbage) (data : List UInt8)
    (represents : Represents buff queue) :
    ∃ next, buff.setBuffer garbage data = .ok next ∧ Represents next data := by
  have ready : ∃ spare, (if buff.block.isNone ∨ buff.capacity ≤ data.length then
      buff.alloc garbage data.length else buff).clear =
        Buffer.parts [] [] spare ∧ data.length ≤ spare.length := by
    split_ifs with fresh
    · obtain ⟨spare, allocated, room⟩ :=
        alloc_vacant garbage data.length represents
      refine ⟨spare, ?_, room⟩
      rw [allocated, clear_parts, List.nil_append, List.nil_append]
    · cases represents with
      | null capacity => simp at fresh
      | parts consumed queue spare =>
          refine ⟨_, clear_parts consumed queue spare, ?_⟩
          simp only [parts_block, Option.isNone_some, Bool.false_eq_true,
            false_or, parts_capacity, Nat.not_le] at fresh
          simp only [List.length_append]
          omega
  obtain ⟨spare, cleared, room⟩ := ready
  have stored := store_front room
  have run : buff.setBuffer garbage data =
      .ok ⟨some (data ++ spare.drop data.length), 0, data.length,
        spare.length⟩ := by
    simp only [Buffer.setBuffer, cleared, parts_block, parts_readIdx,
      parts_writeIdx, parts_capacity, List.nil_append, List.length_nil,
      Nat.zero_add, stored, ok_bind, pure_ok]
  refine ⟨_, run, ?_⟩
  apply represents_of_parts [] (spare.drop data.length)
  · rfl
  · rfl
  · exact (Nat.zero_add _).symm
  · rw [List.length_drop]
    change spare.length = 0 + _
    omega

theorem replaceBuffer_represents (data : List UInt8) (buff : Buffer) :
    Represents (buff.replaceBuffer data) data := by
  apply represents_of_parts [] []
  · simp [Buffer.replaceBuffer]
  · rfl
  · exact (Nat.zero_add _).symm
  · exact (Nat.zero_add _).symm

theorem addReadIdx_represents {len : UInt32}
    (represents : Represents buff queue) (held : len.toNat ≤ queue.length) :
    ∃ next, buff.addReadIdx len = .ok next ∧
      Represents next (queue.drop len.toNat) := by
  have bounds := represents.bounds.1
  have length := represents.length_eq
  have inside : ¬ buff.writeIdx < buff.readIdx + len.toNat := by
    simp only [Buffer.length] at length
    omega
  refine ⟨_, by rw [Buffer.addReadIdx, if_neg inside], ?_⟩
  cases represents with
  | null capacity =>
      have none : len.toNat = 0 := Nat.le_zero.mp held
      rw [none]
      exact .null capacity
  | parts consumed queue spare =>
      have taken : (queue.take len.toNat).length = len.toNat := by
        rw [List.length_take, Nat.min_eq_left held]
      apply represents_of_parts (consumed ++ queue.take len.toNat) spare
      · rw [List.append_assoc, ← List.append_assoc (queue.take _),
          List.take_append_drop, parts_block]
      · rw [List.length_append, taken]
        rfl
      · rw [List.length_append, taken, List.length_drop]
        change consumed.length + queue.length = _
        omega
      · rw [List.length_append, taken, List.length_drop]
        change consumed.length + _ = _
        omega

theorem addReadIdx_overflow {len : UInt32} (represents : Represents buff queue)
    (overflow : queue.length < len.toNat) :
    ∃ what, buff.addReadIdx len = .error (.thrown what) := by
  have bounds := represents.bounds.1
  have length := represents.length_eq
  have outside : buff.writeIdx < buff.readIdx + len.toNat := by
    simp only [Buffer.length] at length
    omega
  exact ⟨_, by rw [Buffer.addReadIdx, if_pos outside]⟩

/-- The bytes that stand at `free()`. -/
def Buffer.writable (buff : Buffer) : List UInt8 :=
  (buff.block.getD []).drop buff.writeIdx

@[simp] theorem parts_writable (consumed queue spare : List UInt8) :
    (Buffer.parts consumed queue spare).writable = spare := by
  have whole := @List.drop_left _ (consumed ++ queue) spare
  rwa [List.append_assoc, List.length_append] at whole

theorem addWriteIdx_represents {len : UInt32}
    (represents : Represents buff queue) (within : len.toNat ≤ buff.left)
    (allocated : buff.block.isSome ∨ len = 0) :
    ∃ next, buff.addWriteIdx len = .ok next ∧
      Represents next (queue ++ buff.writable.take len.toNat) := by
  refine ⟨_, by rw [Buffer.addWriteIdx, if_neg (Nat.not_lt.mpr within)], ?_⟩
  cases represents with
  | null capacity =>
      have none : len = 0 := by simpa using allocated
      rw [none]
      exact .null capacity
  | parts consumed queue spare =>
      rw [parts_left] at within
      have taken : (spare.take len.toNat).length = len.toNat := by
        rw [List.length_take, Nat.min_eq_left within]
      rw [parts_writable]
      apply represents_of_parts consumed (spare.drop len.toNat)
      · rw [List.append_assoc, List.take_append_drop, parts_block]
      · rfl
      · rw [List.length_append, taken, ← Nat.add_assoc]
        rfl
      · rw [List.length_append, taken, List.length_drop]
        change consumed.length + _ = _
        omega

theorem addWriteIdx_overflow {len : UInt32} (overflow : buff.left < len.toNat) :
    ∃ what, buff.addWriteIdx len = .error (.thrown what) :=
  ⟨_, by rw [Buffer.addWriteIdx, if_pos overflow]⟩

end Operations

end TarsCpp.NetworkBuffer
