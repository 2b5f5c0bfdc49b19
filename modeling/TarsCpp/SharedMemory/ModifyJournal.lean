import TarsCpp.Interruption

/-!
# The modification journal of the shared-memory containers

`TC_MemQueue` and `TC_HashMap` change the words of their control structures
through a small redo journal that lies in the same memory.  `update` notes an
address and a value, `doUpdate(true)` declares what is noted complete and
copies it; `doUpdate()` at the start of every operation clears an incomplete
journal and copies a complete one.  The two classes repeat the same code, so
it stands here once, with the number of slots, the widths that are copied and
the address zero as parameters.

A word of a control structure is named by an index type instead of its byte
offset.  The content bytes, which are written without the journal, are the
`rest`.
-/

namespace TarsCpp

namespace SharedMemory

open Interruption

inductive Failure
  | assertion
  | outside
deriving DecidableEq, Repr

structure TagModifyData (ι : Type) where
  iModifyAddr : ι
  cBytes : Nat
  iModifyValue : Nat
deriving DecidableEq, Repr

structure TagModifyHead (ι : Type) where
  cModifyStatus : Nat
  iNowIndex : Nat
  stModifyData : Nat → TagModifyData ι

structure Area (ι ρ : Type) where
  head : TagModifyHead ι
  words : ι → Nat
  rest : ρ

/-- What differs between the two classes: the number of slots, what a value
becomes when it is copied with a given width (nothing for an unknown width),
and the word at offset zero, which a cleared slot names. -/
structure JournalLayout (ι : Type) where
  capacity : Nat
  convert : Nat → Nat → Option Nat
  zero : ι

variable {ι ρ : Type}

abbrev AreaTask (ι ρ α : Type) := Task Failure (Area ι ρ) α

section Writes

def Area.withStatus (status : Nat) (area : Area ι ρ) : Area ι ρ :=
  { area with head := { area.head with cModifyStatus := status } }

def Area.withIndex (index : Nat) (area : Area ι ρ) : Area ι ρ :=
  { area with head := { area.head with iNowIndex := index } }

def Area.withSlot (index : Nat)
    (change : TagModifyData ι → TagModifyData ι) (area : Area ι ρ) :
    Area ι ρ :=
  { area with head := { area.head with
      stModifyData := Function.update area.head.stModifyData index
        (change (area.head.stModifyData index)) } }

def Area.withWord [DecidableEq ι] (address : ι) (value : Nat)
    (area : Area ι ρ) : Area ι ρ :=
  { area with words := Function.update area.words address value }

end Writes

namespace JournalLayout

variable [DecidableEq ι] (layout : JournalLayout ι)

def setSlot (index : Nat) (change : TagModifyData ι → TagModifyData ι) :
    AreaTask ι ρ Unit := do
  require (index < layout.capacity) .outside
  write (Area.withSlot index change)

/-- `update(void* iModifyAddr, T iModifyValue)`, where `bytes` is the size of
`T`. -/
def update (iModifyAddr : ι) (iModifyValue bytes : Nat) :
    AreaTask ι ρ Unit := do
  write (Area.withStatus 1)
  let iNowIndex ← read (·.head.iNowIndex)
  layout.setSlot iNowIndex fun slot =>
    { slot with iModifyAddr := iModifyAddr }
  layout.setSlot iNowIndex fun slot =>
    { slot with iModifyValue := iModifyValue }
  layout.setSlot iNowIndex fun slot => { slot with cBytes := bytes }
  write (Area.withIndex (iNowIndex + 1))
  require (iNowIndex + 1 < layout.capacity) .assertion

/-- Status 1: killed while the journal was filled, so the journal is
cleared. -/
def clearJournal : AreaTask ι ρ Unit := do
  write (Area.withIndex 0)
  forM (List.range layout.capacity) fun i => do
    layout.setSlot i fun slot => { slot with iModifyAddr := layout.zero }
    layout.setSlot i fun slot => { slot with cBytes := 0 }
    layout.setSlot i fun slot => { slot with iModifyValue := 0 }
  write (Area.withStatus 0)

def copySlot (i : Nat) : AreaTask ι ρ Unit := do
  require (i < layout.capacity) .outside
  let slot ← read (·.head.stModifyData i)
  match layout.convert slot.cBytes slot.iModifyValue with
  | some value => write (Area.withWord slot.iModifyAddr value)
  | none => pure ()

/-- Status 2: complete but perhaps not copied, so it is copied (again).  No
copy reaches `_iNowIndex`, which the source reads in every turn. -/
def copyJournal : AreaTask ι ρ Unit := do
  let iNowIndex ← read (·.head.iNowIndex)
  forM (List.range iNowIndex) layout.copySlot
  write (Area.withIndex 0)
  write (Area.withStatus 0)

def settle : AreaTask ι ρ Unit := do
  let status ← read (·.head.cModifyStatus)
  if status = 1 then layout.clearJournal
  else if status = 2 then layout.copyJournal
  else pure ()

def doUpdate (bUpdate : Bool) : AreaTask ι ρ Unit := do
  (if bUpdate then write (Area.withStatus 2) else pure ())
  layout.settle

end JournalLayout

section Overlay

variable [DecidableEq ι] (layout : JournalLayout ι)

namespace JournalLayout

def assign (words : ι → Nat) (slot : TagModifyData ι) : ι → Nat :=
  match layout.convert slot.cBytes slot.iModifyValue with
  | some value => Function.update words slot.iModifyAddr value
  | none => words

/-- The words after all of a journal has been copied. -/
def overlay (slots : List (TagModifyData ι)) (words : ι → Nat) : ι → Nat :=
  slots.foldl layout.assign words

theorem overlay_concat (slots : List (TagModifyData ι))
    (slot : TagModifyData ι) (words : ι → Nat) :
    layout.overlay (slots ++ [slot]) words =
      layout.assign (layout.overlay slots words) slot := by
  simp only [overlay, List.foldl_append, List.foldl_cons, List.foldl_nil]

/-- Copying a slot twice, or out of turn before the others, changes
nothing. -/
theorem overlay_assign {slots : List (TagModifyData ι)}
    {slot : TagModifyData ι} (member : slot ∈ slots) :
    ∀ words, layout.overlay slots (layout.assign words slot) =
      layout.overlay slots words := by
  induction slots with
  | nil => cases member
  | cons first later induction =>
      intro words
      simp only [overlay, List.foldl_cons]
      by_cases latest : slot ∈ later
      · have swapped := induction latest
        simp only [overlay] at swapped
        rw [← swapped (layout.assign words first)]
        by_cases same : slot.iModifyAddr = first.iModifyAddr
        · -- the first slot covers what was copied out of turn
          rw [swapped]
          unfold assign
          cases layout.convert first.cBytes first.iModifyValue with
          | none => exact swapped words
          | some value =>
              cases layout.convert slot.cBytes slot.iModifyValue with
              | none => rfl
              | some value' =>
                  simp only [same, Function.update_idem]
        · congr 1
          unfold assign
          cases layout.convert first.cBytes first.iModifyValue with
          | none => rfl
          | some value =>
              cases layout.convert slot.cBytes slot.iModifyValue with
              | none => rfl
              | some value' =>
                  exact Function.update_comm same value' value words
      · obtain rfl : slot = first := by
          cases member with
          | head => rfl
          | tail _ member => exact absurd member latest
        congr 1
        unfold assign
        cases layout.convert slot.cBytes slot.iModifyValue with
        | none => rfl
        | some value => exact Function.update_idem ..

theorem overlay_overlay_take (slots : List (TagModifyData ι)) (count : Nat)
    (words : ι → Nat) :
    layout.overlay slots (layout.overlay (slots.take count) words) =
      layout.overlay slots words := by
  induction count with
  | zero => rw [List.take_zero]; rfl
  | succ count induction =>
      by_cases inside : count < slots.length
      · rw [List.take_succ_eq_append_getElem inside, overlay_concat,
          layout.overlay_assign (List.getElem_mem inside)]
        exact induction
      · rw [List.take_of_length_le (by omega)] at induction ⊢
        exact induction

theorem overlay_untouched {slots : List (TagModifyData ι)} {name : ι}
    (untouched : ∀ slot ∈ slots, slot.iModifyAddr ≠ name) :
    ∀ words, layout.overlay slots words name = words name := by
  induction slots with
  | nil =>
      intro words
      rfl
  | cons first later induction =>
      intro words
      have following := induction
        (fun slot member => untouched slot (List.mem_cons_of_mem _ member))
        (layout.assign words first)
      refine following.trans ?_
      have elsewhere := untouched first List.mem_cons_self
      unfold assign
      cases layout.convert first.cBytes first.iModifyValue with
      | none => rfl
      | some value => exact Function.update_of_ne elsewhere.symm value words

end JournalLayout

end Overlay

section States

/-- The journal holds exactly `slots`, and nothing of it is copied yet. -/
structure Pending (slots : List (TagModifyData ι)) (words : ι → Nat)
    (rest : ρ) (area : Area ι ρ) : Prop where
  words : area.words = words
  rest : area.rest = rest
  index : area.head.iNowIndex = slots.length
  noted : ∀ i (inside : i < slots.length),
    area.head.stModifyData i = slots[i]
  status : area.head.cModifyStatus = if slots = [] then 0 else 1

/-- No modification is under way. -/
abbrev Settled (words : ι → Nat) (rest : ρ) (area : Area ι ρ) : Prop :=
  Pending [] words rest area

/-- Killed before the journal was complete: it will be cleared. -/
structure Discardable (words : ι → Nat) (rest : ρ) (area : Area ι ρ) :
    Prop where
  words : area.words = words
  rest : area.rest = rest
  status : area.head.cModifyStatus = 1 ∨
    area.head.cModifyStatus = 0 ∧ area.head.iNowIndex = 0

/-- Killed after the journal was complete: it will be copied, wherever the
copying stopped.  Only words of `touched` are still to be copied. -/
structure Committed [DecidableEq ι] (layout : JournalLayout ι)
    (touched : Set ι) (words : ι → Nat) (rest : ρ) (area : Area ι ρ) :
    Prop where
  rest : area.rest = rest
  status : area.head.cModifyStatus = 2
  noted : ∃ slots : List (TagModifyData ι),
    area.head.iNowIndex = slots.length ∧ slots.length ≤ layout.capacity ∧
    (∀ i (inside : i < slots.length),
      area.head.stModifyData i = slots[i]) ∧
    (∀ slot ∈ slots, slot.iModifyAddr ∈ touched) ∧
    layout.overlay slots area.words = words

variable {words : ι → Nat} {rest : ρ} {area : Area ι ρ}

theorem Settled.mk (sameWords : area.words = words)
    (sameRest : area.rest = rest) (index : area.head.iNowIndex = 0)
    (status : area.head.cModifyStatus = 0) : Settled words rest area where
  words := sameWords
  rest := sameRest
  index := index
  noted := by
    intro i inside
    exact absurd inside (Nat.not_lt_zero i)
  status := status

theorem Pending.discardable {slots : List (TagModifyData ι)}
    (pending : Pending slots words rest area) :
    Discardable words rest area where
  words := pending.words
  rest := pending.rest
  status := by
    cases slots with
    | nil => exact Or.inr ⟨pending.status, pending.index⟩
    | cons slot later => exact Or.inl pending.status

theorem Committed.untouched [DecidableEq ι] {layout : JournalLayout ι}
    {touched : Set ι} (committed : Committed layout touched words rest area)
    {name : ι} (outside : name ∉ touched) :
    area.words name = words name := by
  obtain ⟨slots, _, _, _, within, result⟩ := committed.noted
  rw [← result]
  symm
  apply layout.overlay_untouched
  intro slot member same
  exact outside (same ▸ within slot member)

end States

namespace JournalLayout

variable [DecidableEq ι] {layout : JournalLayout ι} {words : ι → Nat}
  {rest : ρ} {area : Area ι ρ} {touched : Set ι}
  {crashes : Area ι ρ → Prop} {allowed : Failure → Prop}

section Steps

omit [DecidableEq ι] in
theorem setSlot_performs {index : Nat} (inside : index < layout.capacity)
    (change : TagModifyData ι → TagModifyData ι)
    {returns : Unit → Area ι ρ → Prop} (before : crashes area)
    (holds : returns () (area.withSlot index change)) :
    Performs allowed (layout.setSlot index change : AreaTask ι ρ Unit) area returns
      crashes :=
  Performs.bindRequire inside (Performs.write before holds)

omit [DecidableEq ι] in
/-- While the journal is filled, only the part of it that is not counted yet
changes. -/
theorem update_performs {slots : List (TagModifyData ι)}
    (pending : Pending slots words rest area)
    (room : slots.length + 1 < layout.capacity) (address : ι)
    (value bytes : Nat) :
    Performs allowed (layout.update address value bytes) area
      (fun _ after =>
        Pending (slots ++ [⟨address, bytes, value⟩]) words rest after)
      (Discardable words rest) := by
  have inside : slots.length < layout.capacity :=
    Nat.lt_of_succ_lt room
  have filling : ∀ after : Area ι ρ, after.words = words →
      after.rest = rest → after.head.cModifyStatus = 1 →
      Discardable words rest after := by
    intro after sameWords sameRest status
    exact ⟨sameWords, sameRest, Or.inl status⟩
  refine Performs.bindWrite pending.discardable ?_
  refine Performs.bindRead ?_
  have index : (area.withStatus 1).head.iNowIndex = slots.length :=
    pending.index
  rw [index]
  refine Performs.bind (p := fun _ after => after = _)
    (setSlot_performs inside _
      (filling _ pending.words pending.rest rfl) rfl) ?_
  rintro ⟨⟩ addressed rfl
  refine Performs.bind (p := fun _ after => after = _)
    (setSlot_performs inside _
      (filling _ pending.words pending.rest rfl) rfl) ?_
  rintro ⟨⟩ valued rfl
  refine Performs.bind (p := fun _ after => after = _)
    (setSlot_performs inside _
      (filling _ pending.words pending.rest rfl) rfl) ?_
  rintro ⟨⟩ sized rfl
  refine Performs.bindWrite
    (filling _ pending.words pending.rest rfl) ?_
  refine (Yields.require room _).concludes ?_
  constructor
  · exact pending.words
  · exact pending.rest
  · rw [List.length_append, List.length_singleton]
    rfl
  · intro i bounded
    simp only [Area.withIndex, Area.withSlot, Area.withStatus,
      Function.update_self, Function.update_idem]
    by_cases latest : i = slots.length
    · subst latest
      rw [Function.update_self, List.getElem_concat_length rfl]
    · have earlier : i < slots.length := by
        rw [List.length_append, List.length_singleton] at bounded
        omega
      rw [Function.update_of_ne latest, List.getElem_append_left earlier]
      exact pending.noted i earlier
  · rw [if_neg (List.append_ne_nil_of_right_ne_nil _
      (List.cons_ne_nil _ _))]
    rfl

/-- An operation that finds the journal settled does not write. -/
theorem doUpdate_settled (settled : Settled words rest area) :
    Yields (layout.doUpdate false) area () := by
  have status : area.head.cModifyStatus = 0 := settled.status
  refine Yields.bind (Yields.pure ()) (Yields.bind (Yields.read _) ?_)
  rw [status, if_neg (by decide), if_neg (by decide)]
  exact Yields.pure ()

omit [DecidableEq ι] in
theorem clearJournal_performs (discardable : Discardable words rest area)
    (status : area.head.cModifyStatus = 1) :
    Performs allowed layout.clearJournal area
      (fun _ after => Settled words rest after)
      (Discardable words rest) := by
  have crashed : ∀ after : Area ι ρ, after.words = words →
      after.rest = rest → after.head.cModifyStatus = 1 →
      Discardable words rest after := by
    intro after sameWords sameRest status
    exact ⟨sameWords, sameRest, Or.inl status⟩
  refine Performs.bindWrite discardable ?_
  refine Performs.bind (Performs.forEach
    (p := fun _ after => after.words = words ∧ after.rest = rest ∧
      after.head.iNowIndex = 0 ∧ after.head.cModifyStatus = 1) ?_ ?_) ?_
  · intro done i later after split holds
    have inside : i < layout.capacity := by
      apply List.mem_range.mp
      rw [split]
      exact List.mem_append_right _ List.mem_cons_self
    obtain ⟨sameWords, sameRest, index, status⟩ := holds
    refine Performs.bind (p := fun _ after => after = _)
      (setSlot_performs inside _ (crashed _ sameWords sameRest status)
        rfl) ?_
    rintro ⟨⟩ addressed rfl
    refine Performs.bind (p := fun _ after => after = _)
      (setSlot_performs inside _ (crashed _ sameWords sameRest status)
        rfl) ?_
    rintro ⟨⟩ sized rfl
    exact setSlot_performs inside _ (crashed _ sameWords sameRest status)
      ⟨sameWords, sameRest, index, status⟩
  · exact ⟨discardable.words, discardable.rest, rfl, status⟩
  · intro _ after ⟨sameWords, sameRest, index, status⟩
    exact Performs.write (crashed _ sameWords sameRest status)
      (Settled.mk sameWords sameRest index rfl)

theorem copySlot_performs {i : Nat} (inside : i < layout.capacity)
    {returns : Unit → Area ι ρ → Prop} (before : crashes area)
    (holds : returns () { area with
      words := layout.assign area.words (area.head.stModifyData i) }) :
    Performs allowed (layout.copySlot i) area returns crashes := by
  refine Performs.bindRequire inside (Performs.bindRead ?_)
  unfold assign at holds
  cases converted : layout.convert (area.head.stModifyData i).cBytes
      (area.head.stModifyData i).iModifyValue with
  | some value =>
      rw [converted] at holds
      exact Performs.write before holds
  | none =>
      rw [converted] at holds
      exact Performs.pure holds

/-- Copying may stop anywhere: what is copied already is copied again. -/
theorem copyJournal_performs (committed : Committed layout touched words rest area) :
    Performs allowed layout.copyJournal area
      (fun _ after => Settled words rest after)
      (Committed layout touched words rest) := by
  obtain ⟨slots, index, bounded, noted, within, result⟩ := committed.noted
  have crashed : ∀ after : Area ι ρ, after.head = area.head →
      after.rest = rest → layout.overlay slots after.words = words →
      Committed layout touched words rest after := by
    intro after sameHead sameRest sameResult
    refine ⟨sameRest, sameHead ▸ committed.status, slots, ?_, bounded, ?_,
      within, sameResult⟩
    · rw [sameHead]
      exact index
    · rw [sameHead]
      exact noted
  refine Performs.bindRead ?_
  rw [index]
  refine Performs.bind (Performs.forEach
    (p := fun done after => after.head = area.head ∧
      after.rest = rest ∧
      after.words = layout.overlay (slots.take done.length) area.words)
    ?_ ?_) ?_
  · intro done i later after split holds
    obtain ⟨sameHead, sameRest, sameWords⟩ := holds
    have position : i = done.length := by
      have found : (List.range slots.length)[done.length]? = some i := by
        rw [split, List.getElem?_append_right (Nat.le_refl _),
          Nat.sub_self, List.getElem?_cons_zero]
      obtain ⟨_, found⟩ := List.getElem?_eq_some_iff.mp found
      rw [List.getElem_range] at found
      exact found.symm
    subst position
    have inside : done.length < slots.length := by
      have total := congrArg List.length split
      rw [List.length_range, List.length_append, List.length_cons] at total
      omega
    refine copySlot_performs (Nat.lt_of_lt_of_le inside bounded) ?_ ?_
    · refine crashed after sameHead sameRest ?_
      rw [sameWords, ← result]
      exact overlay_overlay_take layout slots done.length area.words
    · refine ⟨sameHead, sameRest, ?_⟩
      rw [List.length_append, List.length_singleton,
        List.take_succ_eq_append_getElem inside, overlay_concat, sameHead,
        noted _ inside, sameWords]
  · exact ⟨rfl, committed.rest, rfl⟩
  · intro _ after ⟨sameHead, sameRest, sameWords⟩
    rw [List.length_range, List.take_length, result] at sameWords
    refine Performs.bindWrite ?_ (Performs.write ?_ ?_)
    · refine crashed after sameHead sameRest ?_
      rw [sameWords, ← result]
      have again := overlay_overlay_take layout slots slots.length area.words
      rwa [List.take_length] at again
    · refine ⟨sameRest, ?_, [], rfl, Nat.zero_le _, ?_, ?_, sameWords⟩
      · show after.head.cModifyStatus = 2
        rw [sameHead]
        exact committed.status
      · intro i inside
        exact absurd inside (Nat.not_lt_zero i)
      · intro slot member
        cases member
    · exact Settled.mk sameWords sameRest rfl rfl

theorem recover_discardable (discardable : Discardable words rest area) :
    Performs allowed (layout.doUpdate false) area
      (fun _ after => Settled words rest after)
      (Discardable words rest) := by
  refine Performs.bind (p := fun _ after => after = area)
    (Performs.pure rfl) ?_
  rintro ⟨⟩ after rfl
  refine Performs.bindRead (Performs.ite ?_ fun idle => Performs.ite ?_ ?_)
  · intro filling
    exact clearJournal_performs discardable filling
  · intro complete
    rcases discardable.status with filling | ⟨status, _⟩
    · exact absurd filling idle
    · exact absurd (status.symm.trans complete) (by decide)
  · intro _
    rcases discardable.status with filling | ⟨status, index⟩
    · exact absurd filling idle
    · exact Performs.pure
        (Settled.mk discardable.words discardable.rest index status)

theorem recover_committed (committed : Committed layout touched words rest area) :
    Performs allowed (layout.doUpdate false) area
      (fun _ after => Settled words rest after)
      (Committed layout touched words rest) := by
  refine Performs.bind (p := fun _ after => after = area)
    (Performs.pure rfl) ?_
  rintro ⟨⟩ after rfl
  refine Performs.bindRead ?_
  rw [committed.status, if_neg (by decide), if_pos rfl]
  exact copyJournal_performs committed

/-- `doUpdate(true)`: before its first write everything is as it was, behind
it everything is as noted. -/
theorem commit_performs {slots : List (TagModifyData ι)}
    (pending : Pending slots words rest area)
    (bounded : slots.length ≤ layout.capacity)
    (within : ∀ slot ∈ slots, slot.iModifyAddr ∈ touched) :
    Performs allowed (layout.doUpdate true) area
      (fun _ after => Settled (layout.overlay slots words) rest after)
      (fun after => Discardable words rest after ∨
        Committed layout touched (layout.overlay slots words) rest after) := by
  refine Performs.bindWrite (Or.inl pending.discardable) ?_
  refine Performs.bindRead ?_
  have complete : Committed layout touched (layout.overlay slots words) rest
      (area.withStatus 2) := by
    refine ⟨pending.rest, rfl, slots, pending.index, bounded,
      pending.noted, within, ?_⟩
    exact congrArg (layout.overlay slots) pending.words
  rw [complete.status, if_neg (by decide), if_pos rfl]
  exact (copyJournal_performs complete).mono (fun _ _ settled => settled)
    (fun _ crashed => Or.inr crashed)

end Steps

end JournalLayout

end SharedMemory

end TarsCpp
