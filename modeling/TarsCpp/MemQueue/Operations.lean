import TarsCpp.MemQueue.RingLayout

/-!
# The operations of the queue and what is seen of it

What a process sees of a settled queue are its control words and the strings
between the two indices.  `push_back` and `pop_front` are described by the
words they commit; a kill leaves a memory whose recovery shows either what was
seen before or what is seen after them.
-/

namespace TarsCpp

namespace MemQueue

open Interruption SharedMemory Circular

section Seen

/-- The number of bytes from the bottom to the top index. -/
def usedLength (words : ControlWord → Nat) (size : Nat) : Nat :=
  if words .iBotIndex ≤ words .iTopIndex then
    words .iTopIndex - words .iBotIndex
  else words .iTopIndex + size - words .iBotIndex

def ringBytes (words : ControlWord → Nat) (data : DataArea) : List UInt8 :=
  (List.range (usedLength words data.size)).map fun i =>
    data.byte (cell data.size (words .iBotIndex) i)

/-- The strings whose records a byte string starts with, at most `count`. -/
def strings : (count : Nat) → List UInt8 → List (List UInt8)
  | 0, _ => []
  | count + 1, bytes =>
      if bytes = [] then []
      else
        let iSize := sizeOfBytes (bytes.take sizeofSizeT)
        (bytes.drop sizeofSizeT).take iSize ::
          strings count (bytes.drop (sizeofSizeT + iSize))

/-- The control words, both counters among them, and the content. -/
structure Seen where
  words : ControlWord → Nat
  content : List (List UInt8)

def seenOf (words : ControlWord → Nat) (data : DataArea) : Seen :=
  ⟨words, strings data.size (ringBytes words data)⟩

def seen (area : QueueArea) : Seen :=
  seenOf area.words area.rest

variable {words : ControlWord → Nat} {data : DataArea}
  {stored : List UInt8} {area : QueueArea}

theorem seen_of_settled (settled : Settled words data area) :
    seen area = seenOf words data := by
  rw [seen, settled.words, settled.rest]

theorem strings_records {items : List (List UInt8)} :
    ∀ count, items.length ≤ count →
      (∀ item ∈ items, item.length < 2 ^ 64) →
      strings count (items.flatMap record) = items := by
  induction items with
  | nil =>
      intro count _ _
      cases count with
      | zero => rfl
      | succ count => exact if_pos rfl
  | cons item later induction =>
      intro count room fits
      cases count with
      | zero => exact absurd room (Nat.not_succ_le_zero _)
      | succ count =>
          have lengthWord := length_sizeBytes item.length
          have nonempty : (item :: later).flatMap record ≠ [] := by
            intro empty
            have none := congrArg List.length empty
            rw [List.flatMap_cons, List.length_append, length_record] at none
            exact absurd none (by simp [sizeofSizeT])
          rw [strings, if_neg nonempty]
          have split : (item :: later).flatMap record =
              sizeBytes item.length ++ (item ++ later.flatMap record) := by
            rw [List.flatMap_cons, record, List.append_assoc]
          have decoded : sizeOfBytes (((item :: later).flatMap record).take
              sizeofSizeT) = item.length := by
            rw [split, List.take_left' lengthWord]
            exact sizeOfBytes_sizeBytes (fits item List.mem_cons_self)
          simp only [decoded]
          rw [split, List.drop_left' lengthWord, List.take_left' rfl,
            ← List.drop_drop, List.drop_left' lengthWord,
            List.drop_left' rfl]
          congr 1
          exact induction count (Nat.le_of_succ_le_succ room)
            (fun other member => fits other (List.mem_cons_of_mem _ member))

/-- The bytes between the indices, where at least as many are laid out. -/
theorem ringBytes_eq_take
    (holds : Holds data.size data.byte (words .iBotIndex) stored)
    (covered : usedLength words data.size ≤ stored.length) :
    ringBytes words data = stored.take (usedLength words data.size) := by
  apply List.ext_getElem
  · simp only [ringBytes, List.length_map, List.length_range,
      List.length_take]
    exact (Nat.min_eq_left covered).symm
  · intro i inside inside'
    simp only [ringBytes, List.length_map, List.length_range] at inside
    simp only [ringBytes, List.getElem_map, List.getElem_range,
      List.getElem_take]
    exact holds i (Nat.lt_of_lt_of_le inside covered)

/-- After `count` bytes the indices enclose all of them, or nothing if the
ring came round to its start. -/
theorem usedLength_advance {size count : Nat}
    (bottom : words .iBotIndex ≤ size)
    (top : words .iTopIndex = advance size (words .iBotIndex) count) :
    usedLength words size ≤ count ∧
      (count = 0 ∨ count < size ∨ count = size ∧ words .iBotIndex = 0 →
        usedLength words size = count) := by
  unfold advance at top
  unfold usedLength
  split at top <;> split <;> constructor <;> omega

theorem Ring.usedLength_eq (ring : Ring words data stored) :
    usedLength words data.size = stored.length := by
  apply (usedLength_advance ring.bottom ring.top).2
  exact ring.room.imp_left List.length_eq_zero_iff.mpr

theorem Ring.ringBytes_eq (ring : Ring words data stored) :
    ringBytes words data = stored := by
  rw [ringBytes_eq_take ring.holds (Nat.le_of_eq ring.usedLength_eq),
    ring.usedLength_eq, List.take_length]

/-- Bytes outside of the ring are not seen. -/
theorem Ring.seenOf_eq (ring : Ring words data stored) {data' : DataArea}
    (sameSize : data'.size = data.size)
    (holds : Holds data.size data'.byte (words .iBotIndex) stored) :
    seenOf words data' = seenOf words data := by
  have ring' : Ring words data' stored := by
    refine ⟨?_, ?_, ?_, ?_, ?_⟩
    · rw [sameSize]
      exact ring.memSize
    · rw [sameSize]
      exact ring.bottom
    · rw [sameSize]
      exact ring.top
    · rw [sameSize]
      exact ring.room
    · rw [sameSize]
      exact holds
  rw [seenOf, seenOf, ring.ringBytes_eq, ring'.ringBytes_eq, sameSize]

/-- What the indices satisfy in every state: only an empty queue that was
never written starts behind the last byte of the ring. -/
structure Sound (words : ControlWord → Nat) (size : Nat) : Prop where
  memSize : words .iMemSize = sizeofControlBlock + sizeofModifyHead + size
  bottom : words .iBotIndex ≤ size
  top : words .iTopIndex ≤ size
  fresh : words .iTopIndex = 0 → words .iBotIndex = 0

theorem Sound.ring (sound : Sound words data.size) :
    Ring words data (ringBytes words data) := by
  have bottom := sound.bottom
  have top := sound.top
  have fresh := sound.fresh
  have length : (ringBytes words data).length =
      usedLength words data.size := by
    rw [ringBytes, List.length_map, List.length_range]
  constructor
  · exact sound.memSize
  · exact bottom
  · rw [length]
    unfold usedLength advance
    split <;> split <;> omega
  · rw [← List.length_eq_zero_iff, length]
    unfold usedLength
    split <;> omega
  · intro i inside
    simp only [ringBytes, List.getElem_map, List.getElem_range]

end Seen

section Committing

/-- The words that one commit changes: an index and the counter behind it. -/
def advanced (words : ControlWord → Nat) (index : ControlWord)
    (position : Nat) (counter : ControlWord) : ControlWord → Nat :=
  Function.update (Function.update words index position) counter
    ((words counter + 1) % 2 ^ 64)

def popped (words : ControlWord → Nat) (position : Nat) :
    ControlWord → Nat :=
  advanced words .iBotIndex position .iPopCount

def pushed (words : ControlWord → Nat) (position : Nat) :
    ControlWord → Nat :=
  advanced words .iTopIndex position .iPushCount

/-- The memory size is never part of a commit. -/
def committable : Set ControlWord :=
  { name | name ≠ .iMemSize }

/-- Killed on the way from what is seen before to what is seen after. -/
def Interrupted (size : Nat) (before after : Seen) (area : QueueArea) :
    Prop :=
  ∃ words data, data.size = size ∧
    words .iMemSize = sizeofControlBlock + sizeofModifyHead + size ∧
    (Discardable words data area ∧ seenOf words data = before ∨
      Committed modifyLayout committable words data area ∧
        seenOf words data = after)

variable {words : ControlWord → Nat} {data : DataArea}
  {stored : List UInt8} {area : QueueArea} (allowed : Failure → Prop)

theorem update_performs {slots : List (TagModifyData ControlWord)}
    (pending : Pending slots words data area) (room : slots.length + 1 < 5)
    (index : ControlWord) (value : Nat) :
    Performs allowed (update index value) area
      (fun _ after =>
        Pending (slots ++ [⟨index, sizeofSizeT, value⟩]) words data after)
      (Discardable words data) :=
  JournalLayout.update_performs pending room index value sizeofSizeT

/-- The end of `pop_front` and of `push_back`. -/
theorem commit_performs {α : Type} (result : α)
    (settled : Settled words data area)
    (index counter : ControlWord) (position : Nat)
    (changeable : index ≠ .iMemSize ∧ counter ≠ .iMemSize) :
    Performs allowed (do
        update index position
        let count ← word counter
        update counter ((count + 1) % 2 ^ 64)
        doUpdate true
        return result) area
      (fun answer after => answer = result ∧
        Settled (advanced words index position counter) data after)
      (fun after => Discardable words data after ∨
        Committed modifyLayout committable
          (advanced words index position counter) data after) := by
  have oneSlot := update_performs allowed settled (by simp) index position
  refine (oneSlot.mono (fun _ _ pending => pending)
    (fun _ discardable => Or.inl discardable)).bind ?_
  intro _ noted pending
  refine Performs.bindRead ?_
  rw [pending.words]
  have twoSlots := update_performs allowed pending (by simp) counter
    ((words counter + 1) % 2 ^ 64)
  refine (twoSlots.mono (fun _ _ pending => pending)
    (fun _ discardable => Or.inl discardable)).bind ?_
  intro _ complete pending'
  have within : ∀ slot ∈ [] ++ [TagModifyData.mk index sizeofSizeT position]
      ++ [⟨counter, sizeofSizeT, (words counter + 1) % 2 ^ 64⟩],
      slot.iModifyAddr ∈ committable := by
    intro slot member
    simp only [List.nil_append, List.cons_append, List.mem_cons,
      List.not_mem_nil, or_false] at member
    rcases member with rfl | rfl
    · exact changeable.1
    · exact changeable.2
  have committing : Performs allowed (doUpdate true) complete _ _ :=
    JournalLayout.commit_performs pending' (show 2 ≤ 5 by decide) within
  exact committing.bind fun _ _ settled' => Performs.pure ⟨rfl, settled'⟩

/-- `pop_front` after its reading branches. -/
theorem popFront_performs (settled : Settled words data area)
    (ring : Ring words data stored) (nonempty : stored ≠ [])
    {sOut : List UInt8} {position : Nat}
    (yields : Yields (queueOf data.size).readFront area (sOut, position)) :
    Performs allowed (queueOf data.size).popFront area
      (fun answer after => answer = some sOut ∧
        Settled (popped words position) data after)
      (Interrupted data.size (seenOf words data)
        (seenOf (popped words position) data)) := by
  have isEmpty := isEmpty_yields settled ring
  rw [decide_eq_false nonempty] at isEmpty
  refine isEmpty.performs ((doUpdate_yields settled).performs
    (yields.performs ?_))
  refine (commit_performs allowed (some sOut) settled .iBotIndex .iPopCount
    position (by decide)).mono (fun _ _ done => done) ?_
  intro crashed killed
  rcases killed with discardable | committed
  · exact ⟨words, data, rfl, ring.memSize, Or.inl ⟨discardable, rfl⟩⟩
  · exact ⟨popped words position, data, rfl, ring.memSize,
      Or.inr ⟨committed, rfl⟩⟩

theorem popFront_empty (settled : Settled words data area)
    (ring : Ring words data stored) (empty : stored = []) :
    Yields (queueOf data.size).popFront area none := by
  have isEmpty := isEmpty_yields settled ring
  rw [decide_eq_true empty] at isEmpty
  exact isEmpty.bind (Yields.pure none)

/-- `push_back` of a string for which there is room. -/
theorem pushBack_performs (settled : Settled words data area)
    (ring : Ring words data stored) (item : List UInt8)
    (fits : stored.length + (record item).length ≤ data.size)
    (accepted : stored = [] ∨
      stored.length + (record item).length < data.size) :
    ∃ after : Seen,
      Performs allowed ((queueOf data.size).pushBack item) area
        (fun answer final => answer = true ∧ seen final = after ∧
          ∃ data', data'.size = data.size ∧
            Settled (pushed words (advance data.size (words .iBotIndex)
              (stored ++ record item).length)) data' final ∧
            Holds data.size data'.byte (words .iBotIndex)
              (stored ++ record item))
        (Interrupted data.size (seenOf words data) after) := by
  let position := advance data.size (words .iBotIndex)
    (stored ++ record item).length
  let words' := pushed words position
  have bottom : words' .iBotIndex ≤ data.size := ring.bottom
  have covered : usedLength words' data.size ≤
      (stored ++ record item).length :=
    (usedLength_advance bottom rfl).1
  -- the same bytes are seen in every memory that holds the new record
  have sameSeen : ∀ data' : DataArea, data'.size = data.size →
      Holds data.size data'.byte (words .iBotIndex)
        (stored ++ record item) →
      seenOf words' data' = ⟨words', strings data.size
        ((stored ++ record item).take (usedLength words' data.size))⟩ := by
    intro data' sameSize holds
    rw [← sameSize] at holds covered ⊢
    have taken : ringBytes words' data' = _ :=
      ringBytes_eq_take holds covered
    rw [seenOf, taken]
  refine ⟨⟨words', strings data.size ((stored ++ record item).take
    (usedLength words' data.size))⟩, ?_⟩
  have isFull := isFull_yields settled ring item.length
  rw [decide_eq_false (by
    rw [length_record, ← Nat.add_assoc] at accepted
    rintro ⟨nonempty, full⟩
    have smaller := accepted.resolve_left nonempty
    omega)] at isFull
  refine isFull.performs ((doUpdate_yields settled).performs ?_)
  refine ((storeBack_performs settled ring item fits).mono
    (fun _ _ done => done) ?_).bind ?_
  · intro crashed filled
    obtain ⟨data', settled', sameSize, holds⟩ := filled
    exact ⟨words, data', sameSize, ring.memSize,
      Or.inl ⟨settled'.discardable, ring.seenOf_eq sameSize holds⟩⟩
  · rintro _ filling ⟨rfl, data', settled', sameSize, holds⟩
    refine (commit_performs allowed true settled' .iTopIndex .iPushCount
      position (by decide)).mono ?_ ?_
    · intro answer final ⟨done, settled''⟩
      refine ⟨done, ?_, data', sameSize, settled'', holds⟩
      rw [seen_of_settled settled'']
      exact sameSeen data' sameSize holds
    · intro crashed killed
      rcases killed with discardable | committed
      · refine ⟨words, data', sameSize, ring.memSize,
          Or.inl ⟨discardable, ?_⟩⟩
        exact ring.seenOf_eq sameSize holds.front
      · exact ⟨words', data', sameSize, ring.memSize,
          Or.inr ⟨committed, sameSeen data' sameSize holds⟩⟩

theorem pushBack_refused (settled : Settled words data area)
    (ring : Ring words data stored) (item : List UInt8)
    (nonempty : stored ≠ [])
    (full : data.size ≤ stored.length + (record item).length) :
    Yields ((queueOf data.size).pushBack item) area false := by
  have isFull := isFull_yields settled ring item.length
  rw [length_record, ← Nat.add_assoc] at full
  rw [decide_eq_true ⟨nonempty, full⟩] at isFull
  exact isFull.bind (Yields.pure false)

end Committing

end MemQueue

end TarsCpp
