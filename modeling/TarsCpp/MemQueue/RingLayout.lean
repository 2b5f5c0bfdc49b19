import TarsCpp.Circular
import TarsCpp.MemQueue.MemQueue

/-!
# What the functions of the queue do to its ring

Between two operations the bytes from the bottom to the top index are laid out
in a ring; they are the records of the stored strings.  Every function is
described from such a state: what it answers, what it stores, and what a kill
leaves.  Until the journal is committed, stores go to cells outside of the
records, so a kill leaves the records alone.
-/

namespace TarsCpp

namespace MemQueue

open Interruption SharedMemory Circular

def queueOf (dataSize : Nat) : TcMemQueue :=
  ⟨sizeofControlBlock + sizeofModifyHead + dataSize⟩

/-- A string as it lies in the ring. -/
def record (item : List UInt8) : List UInt8 :=
  sizeBytes item.length ++ item

@[simp] theorem length_sizeBytes (value : Nat) :
    (sizeBytes value).length = sizeofSizeT := by
  rw [sizeBytes, List.length_reverse, ByteOrder.length_bigEndian]

theorem sizeOfBytes_sizeBytes {value : Nat} (fits : value < 2 ^ 64) :
    sizeOfBytes (sizeBytes value) = value := by
  rw [sizeOfBytes, sizeBytes, List.reverse_reverse]
  exact ByteOrder.ofBigEndian_bigEndian fits

@[simp] theorem length_record (item : List UInt8) :
    (record item).length = sizeofSizeT + item.length := by
  rw [record, List.length_append, length_sizeBytes]

/-- The ring from the bottom to the top index holds the bytes `stored`.  A
ring that is full to the last byte is told from an empty one only if it starts
at zero. -/
structure Ring (words : ControlWord → Nat) (data : DataArea)
    (stored : List UInt8) : Prop where
  memSize :
    words .iMemSize = sizeofControlBlock + sizeofModifyHead + data.size
  bottom : words .iBotIndex ≤ data.size
  top : words .iTopIndex =
    advance data.size (words .iBotIndex) stored.length
  room : stored = [] ∨ stored.length < data.size ∨
    stored.length = data.size ∧ words .iBotIndex = 0
  holds : Holds data.size data.byte (words .iBotIndex) stored

variable {words : ControlWord → Nat} {data : DataArea}
  {stored : List UInt8} {area : QueueArea} {queue : TcMemQueue}
  {allowed : Failure → Prop} {crashes : QueueArea → Prop}

namespace Ring

theorem bounded (ring : Ring words data stored) :
    stored.length ≤ data.size := by
  rcases ring.room with rfl | smaller | ⟨full, _⟩
  · exact Nat.zero_le _
  · exact Nat.le_of_lt smaller
  · exact Nat.le_of_eq full

theorem top_le (ring : Ring words data stored) :
    words .iTopIndex ≤ data.size := by
  rw [ring.top]
  exact advance_le ring.bottom ring.bounded

theorem empty_iff (ring : Ring words data stored) :
    words .iTopIndex = words .iBotIndex ↔ stored = [] := by
  constructor
  · intro same
    by_contra nonempty
    have positive : 0 < stored.length := List.length_pos_of_ne_nil nonempty
    refine advance_ne_self positive (ring.room.resolve_left nonempty) ?_
    rw [← ring.top]
    exact same
  · intro empty
    rw [ring.top, empty]
    exact advance_zero ring.bottom

end Ring

section Looking

theorem word_yields (settled : Settled words data area) (name : ControlWord) :
    Yields (word name) area (words name) := by
  rw [← settled.words]
  exact Yields.read _

theorem doUpdate_yields (settled : Settled words data area) :
    Yields (doUpdate false) area () :=
  JournalLayout.doUpdate_settled settled

theorem queueSize_yields (settled : Settled words data area) :
    Yields (queueOf data.size).queueSize area data.size := by
  refine (doUpdate_yields settled).bind ?_
  have size : (queueOf data.size).size - sizeofControlBlock -
      sizeofModifyHead = data.size := by
    simp only [queueOf]
    omega
  rw [size]
  exact Yields.pure _

theorem isEmpty_yields (settled : Settled words data area)
    (ring : Ring words data stored) :
    Yields TcMemQueue.isEmpty area (decide (stored = [])) := by
  refine (doUpdate_yields settled).bind
    ((word_yields settled _).bind ((word_yields settled _).bind ?_))
  rw [decide_eq_decide.mpr ring.empty_iff]
  exact Yields.pure _

/-- `isFull` never finds an empty queue full, whatever is to be stored. -/
theorem isFull_yields (settled : Settled words data area)
    (ring : Ring words data stored) (iSize : Nat) :
    Yields ((queueOf data.size).isFull iSize) area
      (decide (stored ≠ [] ∧
        data.size ≤ stored.length + sizeofSizeT + iSize)) := by
  refine (doUpdate_yields settled).bind
    ((word_yields settled _).bind ((word_yields settled _).bind ?_))
  have nonempty := ring.empty_iff
  have topIndex := ring.top
  have bottom := ring.bottom
  have bounded := ring.bounded
  unfold advance at topIndex
  by_cases wrapped : words .iTopIndex < words .iBotIndex
  · rw [if_pos wrapped]
    have same : (stored ≠ [] ∧
        data.size ≤ stored.length + sizeofSizeT + iSize) ↔
        words .iTopIndex + sizeofSizeT + iSize ≥ words .iBotIndex := by
      rw [ne_eq, ← nonempty]
      split at topIndex <;> omega
    rw [decide_eq_decide.mpr same]
    exact Yields.pure _
  · rw [if_neg wrapped]
    by_cases straight : words .iTopIndex > words .iBotIndex
    · rw [if_pos straight]
      refine (queueSize_yields settled).bind ?_
      have same : (stored ≠ [] ∧
          data.size ≤ stored.length + sizeofSizeT + iSize) ↔
          words .iTopIndex + sizeofSizeT + iSize ≥
            words .iBotIndex + data.size := by
        rw [ne_eq, ← nonempty]
        split at topIndex <;> omega
      rw [decide_eq_decide.mpr same]
      exact Yields.pure _
    · rw [if_neg straight]
      have empty : stored = [] := nonempty.mp (by omega)
      rw [decide_eq_false (fun full => full.1 empty)]
      exact Yields.pure _

theorem copyOut_yields (settled : Settled words data area)
    (first middle : List UInt8) {start offset count : Nat}
    {last : List UInt8}
    (holds : Holds data.size data.byte start (first ++ (middle ++ last)))
    (length : middle.length = count) (inside : offset + count ≤ data.size)
    (aligned : ∀ i < count,
      offset + i = cell data.size start (first.length + i)) :
    Yields (copyOut offset count) area middle := by
  subst length
  have sameRest : area.rest = data := settled.rest
  refine Yields.bind (Yields.read _) ?_
  rw [sameRest]
  refine Yields.bind (Yields.require inside _) ?_
  have slice := holds.slice aligned
  rw [← sameRest] at slice
  intro remaining
  exact congrArg (fun bytes => EStateM.Result.ok bytes _) slice

/-- The three layouts of the oldest record: whole, its content cut, its length
cut. -/
theorem readFront_yields (settled : Settled words data area)
    {item later : List UInt8}
    (ring : Ring words data (record item ++ later))
    (addressable : data.size < 2 ^ 64) :
    Yields (queueOf data.size).readFront area
      (item, advance data.size (words .iBotIndex) (record item).length) := by
  have bounded := ring.bounded
  have bottom := ring.bottom
  rw [List.length_append, length_record] at bounded
  have fits : item.length < 2 ^ 64 := by omega
  have decoded : sizeOfBytes (sizeBytes item.length) = item.length :=
    sizeOfBytes_sizeBytes fits
  have lengthWord := length_sizeBytes item.length
  have holds : Holds data.size data.byte (words .iBotIndex)
      (sizeBytes item.length ++ (item ++ later)) := by
    rw [← List.append_assoc]
    exact ring.holds
  refine (word_yields settled _).bind ((queueSize_yields settled).bind ?_)
  rw [length_record]
  unfold advance
  by_cases lengthWhole :
      words .iBotIndex + sizeofSizeT ≤ data.size
  · rw [if_pos lengthWhole]
    refine (copyOut_yields settled [] (sizeBytes item.length) holds lengthWord lengthWhole
      ?_).bind ?_
    · intro i inside
      rw [cell_of_lt (by rw [List.length_nil]; omega)]
      rw [List.length_nil, Nat.zero_add]
    simp only [decoded]
    by_cases whole :
        words .iBotIndex + sizeofSizeT + item.length ≤ data.size
    · rw [if_pos whole, if_pos (by omega), ← Nat.add_assoc]
      refine (copyOut_yields settled _ _ holds rfl whole ?_).bind
        (Yields.pure _)
      intro i inside
      rw [lengthWord, cell_of_lt (by omega)]
      exact Nat.add_assoc ..
    · rw [if_neg whole, if_neg (by omega)]
      have pieces : item ++ later =
          item.take (data.size - words .iBotIndex - sizeofSizeT) ++
            (item.drop (data.size - words .iBotIndex - sizeofSizeT) ++
              later) := by
        rw [← List.append_assoc, List.take_append_drop]
      rw [pieces] at holds
      have taken : (item.take
          (data.size - words .iBotIndex - sizeofSizeT)).length =
          data.size - words .iBotIndex - sizeofSizeT := by
        rw [List.length_take]
        omega
      refine (copyOut_yields settled _ _ holds taken (by omega) ?_).bind ?_
      · intro i inside
        rw [lengthWord, cell_of_lt (by omega)]
        exact Nat.add_assoc ..
      rw [← List.append_assoc] at holds
      refine (copyOut_yields settled _ _ holds List.length_drop (by omega)
        ?_).bind ?_
      · intro i inside
        rw [List.length_append, lengthWord, taken, cell_of_le (by omega)]
        omega
      rw [List.take_append_drop]
      have index : words .iBotIndex + (sizeofSizeT + item.length) -
          data.size =
          item.length - (data.size - words .iBotIndex - sizeofSizeT) := by
        omega
      rw [index]
      exact Yields.pure _
  · rw [if_neg lengthWhole, if_neg (by omega)]
    have pieces : sizeBytes item.length ++ (item ++ later) =
        (sizeBytes item.length).take (data.size - words .iBotIndex) ++
          ((sizeBytes item.length).drop (data.size - words .iBotIndex) ++
            (item ++ later)) := by
      symm
      rw [← List.append_assoc, List.take_append_drop]
    have holds' := holds
    rw [pieces] at holds'
    have taken : ((sizeBytes item.length).take
        (data.size - words .iBotIndex)).length =
        data.size - words .iBotIndex := by
      rw [List.length_take, lengthWord]
      omega
    refine (copyOut_yields settled [] _ holds' taken (by omega)
      ?_).bind ?_
    · intro i inside
      rw [List.length_nil, Nat.zero_add, cell_of_lt (by omega)]
    refine (copyOut_yields settled _ _ holds'
      (by rw [List.length_drop, lengthWord]) (by omega) ?_).bind ?_
    · intro i inside
      rw [taken, cell_of_le (by omega)]
      omega
    simp only [List.take_append_drop, decoded]
    refine (copyOut_yields settled _ _ holds rfl (by omega) ?_).bind ?_
    · intro i inside
      rw [lengthWord, cell_of_le (by omega)]
      omega
    have index : words .iBotIndex + (sizeofSizeT + item.length) -
        data.size =
        item.length + sizeofSizeT - (data.size - words .iBotIndex) := by
      omega
    rw [index]
    exact Yields.pure _

end Looking

section Storing

/-- No index is changed, the journal is settled, and the ring holds `stored`
from its bottom on. -/
def Filled (words : ControlWord → Nat) (size : Nat) (stored : List UInt8)
    (area : QueueArea) : Prop :=
  ∃ data, Settled words data area ∧ data.size = size ∧
    Holds size data.byte (words .iBotIndex) stored

theorem Filled.front {size : Nat} {later : List UInt8}
    (filled : Filled words size (stored ++ later) area) :
    Filled words size stored area := by
  obtain ⟨data, settled, sameSize, holds⟩ := filled
  exact ⟨data, settled, sameSize, holds.front⟩

theorem storeByte_performs {size offset : Nat} {symbol : UInt8}
    {returns : Unit → QueueArea → Prop}
    (bottom : words .iBotIndex ≤ size) (room : stored.length < size)
    (filled : Filled words size stored area)
    (aligned : offset = cell size (words .iBotIndex) stored.length)
    (before : crashes area)
    (holds : ∀ after, Filled words size (stored ++ [symbol]) after →
      returns () after) :
    Performs allowed (storeByte offset symbol) area returns crashes := by
  obtain ⟨data, settled, rfl, laid⟩ := filled
  have sameRest : area.rest = data := settled.rest
  subst aligned
  refine Performs.bindRead ?_
  rw [sameRest]
  refine Performs.bindRequire (cell_lt bottom room) ?_
  refine Performs.write before (holds _ ?_)
  refine ⟨data.withByte _ symbol, ?_, rfl, laid.store room symbol⟩
  refine Settled.mk settled.words ?_ settled.index settled.status
  rw [sameRest]

/-- A copy that goes on where the ring stops, cell by cell. -/
theorem copyIn_performs {size : Nat} (bottom : words .iBotIndex ≤ size) :
    ∀ (bytes done : List UInt8) (offset : Nat) (area : QueueArea),
      (stored ++ done).length + bytes.length ≤ size →
      Filled words size (stored ++ done) area →
      (∀ i < bytes.length, offset + i =
        cell size (words .iBotIndex) ((stored ++ done).length + i)) →
      Performs allowed (copyIn offset bytes) area
        (fun _ after => Filled words size (stored ++ (done ++ bytes)) after)
        (Filled words size stored) := by
  intro bytes
  induction bytes with
  | nil =>
      intro done offset area _ filled _
      rw [List.append_nil]
      exact Performs.pure filled
  | cons symbol later induction =>
      intro done offset area room filled aligned
      rw [List.length_cons] at room
      have here := aligned 0 (Nat.succ_pos _)
      rw [Nat.add_zero, Nat.add_zero] at here
      refine Performs.bind
        (p := fun _ => Filled words size (stored ++ (done ++ [symbol])))
        (storeByte_performs bottom (by omega) filled here filled.front ?_) ?_
      · intro after filled'
        rw [← List.append_assoc]
        exact filled'
      · intro _ after filled'
        have following := induction (done ++ [symbol]) (offset + 1) after
        rw [List.append_assoc, List.singleton_append] at following
        refine following ?_ filled' ?_
        · simp only [List.length_append, List.length_cons,
            List.length_nil] at room ⊢
          omega
        · intro i inside
          have next := aligned (i + 1) (Nat.succ_lt_succ inside)
          simp only [List.length_append, List.length_cons,
            List.length_nil] at next ⊢
          rw [show stored.length + (done.length + (0 + 1)) + i =
            stored.length + done.length + (i + 1) by omega, ← next]
          omega

/-- The three layouts of a new record; until the last byte is stored, the old
records are as they were. -/
theorem storeBack_performs (settled : Settled words data area)
    (ring : Ring words data stored) (item : List UInt8)
    (fits : stored.length + (record item).length ≤ data.size) :
    Performs allowed ((queueOf data.size).storeBack item) area
      (fun iTopIndex after =>
        iTopIndex = advance data.size (words .iBotIndex)
          (stored ++ record item).length ∧
        Filled words data.size (stored ++ record item) after)
      (Filled words data.size stored) := by
  have bottom := ring.bottom
  have topBounded := ring.top_le
  have lengthWord := length_sizeBytes item.length
  rw [length_record] at fits
  have filled : Filled words data.size (stored ++ []) area := by
    rw [List.append_nil]
    exact ⟨data, settled, rfl, ring.holds⟩
  have behind : ∀ i < sizeofSizeT + item.length,
      cell data.size (words .iTopIndex) i =
        cell data.size (words .iBotIndex) (stored.length + i) := by
    intro i inside
    rw [ring.top, cell_advance bottom (by omega)]
  have next : advance data.size (words .iBotIndex)
      (stored ++ record item).length =
      advance data.size (words .iTopIndex) (sizeofSizeT + item.length) := by
    rw [ring.top, advance_advance bottom fits, List.length_append,
      length_record]
  rw [next]
  unfold advance
  refine (word_yields settled _).performs
    ((queueSize_yields settled).performs (Performs.ite ?_ ?_))
  · intro whole
    rw [if_pos (by omega)]
    refine Performs.bind (copyIn_performs bottom _ _ _ _ (by
      simp only [List.length_append, List.length_nil, lengthWord]
      omega) filled ?_) ?_
    · intro i inside
      rw [lengthWord] at inside
      rw [List.append_nil, ← behind i (by omega), cell_of_lt (by omega)]
    intro _ copied filled'
    refine Performs.bind (copyIn_performs bottom _ _ _ _ (by
      simp only [List.length_append, List.length_nil, lengthWord]
      omega) filled' ?_) ?_
    · intro i inside
      simp only [List.length_append, List.length_nil, lengthWord]
      rw [Nat.zero_add, Nat.add_assoc stored.length,
        ← behind (sizeofSizeT + i) (by omega), cell_of_lt (by omega),
        Nat.add_assoc]
    intro _ copied' filled''
    exact Performs.pure ⟨Nat.add_assoc .., filled''⟩
  · intro cut
    have wraps : ¬words .iTopIndex + (sizeofSizeT + item.length) ≤
        data.size := by omega
    rw [if_neg wraps]
    refine Performs.ite ?_ ?_
    · intro lengthCut
      have taken : ((sizeBytes item.length).take
          (data.size - words .iTopIndex)).length =
          data.size - words .iTopIndex := by
        rw [List.length_take, lengthWord]
        omega
      have dropped : ((sizeBytes item.length).drop
          (data.size - words .iTopIndex)).length =
          sizeofSizeT - (data.size - words .iTopIndex) := by
        rw [List.length_drop, lengthWord]
      refine Performs.bind (copyIn_performs bottom _ _ _ _ (by
        simp only [List.length_append, List.length_nil, taken]
        omega) filled ?_) ?_
      · intro i inside
        rw [taken] at inside
        rw [List.append_nil, ← behind i (by omega), cell_of_lt (by omega)]
      intro _ low filledLow
      refine Performs.bind (copyIn_performs bottom _ _ _ _ (by
        simp only [List.length_append, List.length_nil, taken, dropped]
        omega) filledLow ?_) ?_
      · intro i inside
        rw [dropped] at inside
        simp only [List.length_append, List.length_nil, taken]
        rw [Nat.zero_add, Nat.add_assoc stored.length,
          ← behind _ (by omega), cell_of_le (by omega)]
        omega
      intro _ high filledHigh
      rw [List.append_assoc, List.take_append_drop] at filledHigh
      refine Performs.bind (copyIn_performs bottom _ _ _ _ (by
        simp only [List.length_append, List.length_nil, lengthWord]
        omega) filledHigh ?_) ?_
      · intro i inside
        simp only [List.length_append, List.length_nil, lengthWord]
        rw [Nat.zero_add, Nat.add_assoc stored.length,
          ← behind _ (by omega), cell_of_le (by omega)]
        omega
      intro _ copied filled'
      exact Performs.pure ⟨by omega, filled'⟩
    · intro lengthWhole
      have taken : (item.take (data.size - words .iTopIndex -
          sizeofSizeT)).length =
          data.size - words .iTopIndex - sizeofSizeT := by
        rw [List.length_take]
        omega
      refine Performs.bind (copyIn_performs bottom _ _ _ _ (by
        simp only [List.length_append, List.length_nil, lengthWord]
        omega) filled ?_) ?_
      · intro i inside
        rw [lengthWord] at inside
        rw [List.append_nil, ← behind i (by omega), cell_of_lt (by omega)]
      intro _ low filledLow
      refine Performs.bind (copyIn_performs bottom _ _ _ _ (by
        simp only [List.length_append, List.length_nil, lengthWord, taken]
        omega) filledLow ?_) ?_
      · intro i inside
        rw [taken] at inside
        simp only [List.length_append, List.length_nil, lengthWord]
        rw [Nat.zero_add, Nat.add_assoc stored.length,
          ← behind _ (by omega), cell_of_lt (by omega), Nat.add_assoc]
      intro _ high filledHigh
      refine Performs.bind (copyIn_performs bottom _ _ _ _ (by
        simp only [List.length_append, List.length_nil, lengthWord, taken,
          List.length_drop]
        omega) filledHigh ?_) ?_
      · intro i inside
        rw [List.length_drop] at inside
        simp only [List.length_append, List.length_nil, lengthWord, taken]
        rw [Nat.zero_add, Nat.zero_add, Nat.add_assoc stored.length,
          ← behind _ (by omega), cell_of_le (by omega)]
        omega
      intro _ copied filled'
      rw [List.append_assoc, List.append_assoc, List.take_append_drop]
        at filled'
      exact Performs.pure ⟨by omega, filled'⟩

end Storing

end MemQueue

end TarsCpp
