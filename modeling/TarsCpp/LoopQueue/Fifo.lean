import Mathlib.Tactic
import TarsCpp.Circular

/-!
# `TC_LoopQueue` as a bounded FIFO queue

The indices and the product that `malloc` is asked for are `size_t`; `none` is
behaviour that C++ leaves undefined, a `memcpy` to or from a slot that is not
inside the block, or of a type that is not trivially copyable.  The slots from
`_iEnd` to `_iBegin` hold the elements.  With one slot more than elements the
indices tell the full queue from the empty one; with a single slot they do not.
-/

namespace TarsCpp.LoopQueue

def addSize (a b : Nat) : Nat := (a + b) % 2 ^ 64

def subSize (a b : Nat) : Nat := (a + 2 ^ 64 - b) % 2 ^ 64

def mulSize (a b : Nat) : Nat := a * b % 2 ^ 64

/-- What the compiler knows about the type of the elements. -/
class ElementType (T : Type) where
  sizeof : Nat
  isTriviallyCopyable : Bool
  positive : 0 < sizeof

/-- `_p` is a block of `_bytes` bytes, null if these are none. -/
structure TcLoopQueue (T : Type) where
  _p : Nat → T
  _bytes : Nat
  _iCapacity : Nat
  _iCapacitySub : Nat
  _iBegin : Nat
  _iEnd : Nat

namespace TcLoopQueue

variable {T : Type}

/-- The step of `_iBegin` and of `_iEnd`. -/
def next (queue : TcLoopQueue T) (index : Nat) : Nat :=
  if index = queue._iCapacitySub then 0 else addSize index 1

def size (queue : TcLoopQueue T) : Nat :=
  if queue._iBegin < queue._iEnd then
    subSize (addSize queue._iBegin queue._iCapacity) queue._iEnd
  else
    subSize queue._iBegin queue._iEnd

def empty (queue : TcLoopQueue T) : Bool := queue._iEnd = queue._iBegin

/-- `pop_front()` -/
def pop_front_only (queue : TcLoopQueue T) : Bool × TcLoopQueue T :=
  if queue._iEnd = queue._iBegin then (false, queue)
  else (true, { queue with _iEnd := queue.next queue._iEnd })

variable [ElementType T]

/-- How many bytes the constructor asks for. -/
def wanted (T : Type) [ElementType T] (iSize : UInt64) : Nat :=
  mulSize (addSize iSize.toNat 1) (ElementType.sizeof T)

/-- `TC_LoopQueue(iSize)`, of a block with any contents.  `malloc` says which
blocks can be had; the constructor does not look. -/
def make (malloc : Nat → Bool) (_p : Nat → T) (iSize : UInt64) :
    TcLoopQueue T where
  _p := _p
  _bytes := if malloc (wanted T iSize) then wanted T iSize else 0
  _iCapacity := addSize iSize.toNat 1
  _iCapacitySub := iSize.toNat
  _iBegin := 0
  _iEnd := 0

/-- Whether `memcpy` may touch a slot. -/
def Accessible (queue : TcLoopQueue T) (index : Nat) : Prop :=
  ElementType.isTriviallyCopyable T = true ∧
    (index + 1) * ElementType.sizeof T ≤ queue._bytes

instance (queue : TcLoopQueue T) (index : Nat) :
    Decidable (queue.Accessible index) :=
  inferInstanceAs (Decidable (_ ∧ _))

/-- `memcpy` to the slot at `_iBegin`. -/
def store (queue : TcLoopQueue T) (t : T) : Option (TcLoopQueue T) :=
  if queue.Accessible queue._iBegin then
    some { queue with
      _p := Function.update queue._p queue._iBegin t
      _iBegin := queue.next queue._iBegin }
  else
    none

/-- `memcpy` from the slot at `_iEnd`. -/
def load (queue : TcLoopQueue T) : Option T :=
  if queue.Accessible queue._iEnd then some (queue._p queue._iEnd) else none

structure Pushed (T : Type) where
  result : Bool
  bEmpty : Bool
  iBegin : Nat
  iEnd : Nat
  queue : TcLoopQueue T

/-- `push_back(t, bEmpty, iBegin, iEnd)` -/
def push_back (queue : TcLoopQueue T) (t : T) : Option (Pushed T) :=
  let iEnd := queue._iEnd
  let iBegin := queue._iBegin
  if (iEnd > queue._iBegin ∧ subSize iEnd queue._iBegin < 2) ∨
      (queue._iBegin > iEnd ∧
        subSize queue._iBegin iEnd > subSize queue._iCapacity 2) then
    some ⟨false, false, iBegin, iEnd, queue⟩
  else do
    let after ← queue.store t
    let bEmpty := decide (queue._iEnd = queue._iBegin)
    let bEmpty := if ¬ bEmpty ∧ 1 = after.size then true else bEmpty
    some ⟨true, bEmpty, iBegin, iEnd, after⟩

/-- `push_back(t, bEmpty)`, the same without the indices. -/
def push_back_empty (queue : TcLoopQueue T) (t : T) :
    Option (Bool × Bool × TcLoopQueue T) :=
  (queue.push_back t).map fun pushed =>
    (pushed.result, pushed.bEmpty, pushed.queue)

/-- `push_back(t)` -/
def push_back_one (queue : TcLoopQueue T) (t : T) :
    Option (Bool × TcLoopQueue T) :=
  (queue.push_back_empty t).map fun (result, _, queue) => (result, queue)

/-- `push_back(vt)` -/
def push_back_all (queue : TcLoopQueue T) (vt : List T) :
    Option (Bool × TcLoopQueue T) :=
  let iEnd := queue._iEnd
  if vt.length > subSize queue._iCapacity 1 ∨
      (iEnd > queue._iBegin ∧
        subSize iEnd queue._iBegin < addSize vt.length 1) ∨
      (queue._iBegin > iEnd ∧ subSize queue._iBegin iEnd >
        subSize (subSize queue._iCapacity vt.length) 1) then
    some (false, queue)
  else
    (vt.foldlM store queue).map fun queue => (true, queue)

/-- `pop_front(t)` -/
def pop_front (queue : TcLoopQueue T) : Option (Option T × TcLoopQueue T) :=
  if queue._iEnd = queue._iBegin then some (none, queue)
  else do
    let t ← queue.load
    some (some t, { queue with _iEnd := queue.next queue._iEnd })

def get_front (queue : TcLoopQueue T) : Option (Option T) :=
  if queue._iEnd = queue._iBegin then some none
  else queue.load.map some

end TcLoopQueue

inductive Call (T : Type)
  | push_back (t : T)
  | push_back_empty (t : T)
  | push_back_one (t : T)
  | push_back_all (vt : List T)
  | pop_front
  | pop_front_only
  | get_front
  | size
  | empty

inductive Result (T : Type)
  | pushed (result : Bool)
  | pushedEmpty (result bEmpty : Bool)
  | item (t : Option T)
  | flag (result : Bool)
  | count (result : Nat)
deriving DecidableEq

variable {T : Type}

/-- Elements are appended if there is room for all of them. -/
def pushed (capacity : Nat) (items vt : List T) : Bool × List T :=
  if vt.length ≤ capacity - items.length then (true, items ++ vt)
  else (false, items)

/-- What a call does to a queue of this capacity. -/
def serve (capacity : Nat) (items : List T) :
    Call T → Result T × List T
  | .push_back t | .push_back_empty t =>
      (.pushedEmpty (pushed capacity items [t]).1 items.isEmpty,
        (pushed capacity items [t]).2)
  | .push_back_one t =>
      (.pushed (pushed capacity items [t]).1, (pushed capacity items [t]).2)
  | .push_back_all vt =>
      (.pushed (pushed capacity items vt).1, (pushed capacity items vt).2)
  | .pop_front => (.item items.head?, items.tail)
  | .pop_front_only => (.flag (!items.isEmpty), items.tail)
  | .get_front => (.item items.head?, items)
  | .size => (.count items.length, items)
  | .empty => (.flag items.isEmpty, items)

def serveAll (capacity : Nat) : List T → List (Call T) → List (Result T)
  | _, [] => []
  | items, call :: calls =>
      (serve capacity items call).1 ::
        serveAll capacity (serve capacity items call).2 calls

variable [ElementType T]

def TcLoopQueue.call (queue : TcLoopQueue T) :
    Call T → Option (Result T × TcLoopQueue T)
  | .push_back t => (queue.push_back t).map fun pushed =>
      (.pushedEmpty pushed.result pushed.bEmpty, pushed.queue)
  | .push_back_empty t =>
      (queue.push_back_empty t).map fun (result, bEmpty, queue) =>
        (.pushedEmpty result bEmpty, queue)
  | .push_back_one t => (queue.push_back_one t).map fun (result, queue) =>
      (.pushed result, queue)
  | .push_back_all vt => (queue.push_back_all vt).map fun (result, queue) =>
      (.pushed result, queue)
  | .pop_front => queue.pop_front.map fun (t, queue) => (.item t, queue)
  | .pop_front_only =>
      some (.flag queue.pop_front_only.1, queue.pop_front_only.2)
  | .get_front => queue.get_front.map fun t => (.item t, queue)
  | .size => some (.count queue.size, queue)
  | .empty => some (.flag queue.empty, queue)

/-- The results of the calls, one after the other. -/
def TcLoopQueue.run : TcLoopQueue T → List (Call T) →
    Option (List (Result T) × TcLoopQueue T)
  | queue, [] => some ([], queue)
  | queue, call :: calls => do
      let (result, queue) ← queue.call call
      let (results, queue) ← queue.run calls
      some (result :: results, queue)

open Circular

structure Represents (iSize : Nat) (queue : TcLoopQueue T) (items : List T) :
    Prop where
  capacity : queue._iCapacity = iSize + 1
  sub : queue._iCapacitySub = iSize
  accessible : ∀ index, index < iSize + 1 → queue.Accessible index
  tail : queue._iEnd < iSize + 1
  fits : items.length ≤ iSize
  head : queue._iBegin = cell (iSize + 1) queue._iEnd items.length
  holds : Holds (iSize + 1) queue._p queue._iEnd items

section Slots

variable {iSize : Nat} {queue : TcLoopQueue T} {items : List T}

theorem cell_cell {capacity start first second : Nat}
    (position : start < capacity) (inside : first + second < capacity) :
    cell capacity (cell capacity start first) second =
      cell capacity start (first + second) := by
  unfold cell
  split <;> split <;> split <;> omega

theorem Represents.next (represents : Represents iSize queue items)
    (small : iSize + 1 < 2 ^ 64) {index : Nat} (inside : index < iSize + 1) :
    queue.next index = cell (iSize + 1) index 1 := by
  rw [TcLoopQueue.next, represents.sub, addSize, cell]
  split <;> split <;> omega

theorem Represents.size (represents : Represents iSize queue items)
    (small : iSize + 1 < 2 ^ 64) : queue.size = items.length := by
  have tail := represents.tail
  have fits := represents.fits
  have head := represents.head
  unfold cell at head
  rw [TcLoopQueue.size, represents.capacity, addSize, subSize, subSize]
  split at head <;> split <;> omega

theorem Represents.empty_iff (represents : Represents iSize queue items) :
    queue._iEnd = queue._iBegin ↔ items = [] := by
  have tail := represents.tail
  have fits := represents.fits
  have head := represents.head
  rw [← List.length_eq_zero_iff]
  unfold cell at head
  split at head <;> constructor <;> intro same <;> omega

theorem Represents.empty_eq (represents : Represents iSize queue items) :
    decide (queue._iEnd = queue._iBegin) = items.isEmpty := by
  have empty := represents.empty_iff
  cases items with
  | nil => exact decide_eq_true (empty.mpr rfl)
  | cons t items => exact decide_eq_false (mt empty.mp (List.cons_ne_nil _ _))

theorem Represents.store (represents : Represents iSize queue items)
    (small : iSize + 1 < 2 ^ 64) (room : items.length < iSize) (t : T) :
    ∃ after, queue.store t = some after ∧
      Represents iSize after (items ++ [t]) := by
  have inside : queue._iBegin < iSize + 1 := by
    rw [represents.head]
    exact cell_lt (Nat.le_of_lt represents.tail) (by omega)
  have allocated := represents.accessible queue._iBegin inside
  refine ⟨{ queue with
      _p := Function.update queue._p queue._iBegin t
      _iBegin := queue.next queue._iBegin }, if_pos allocated, ?_⟩
  exact {
    capacity := represents.capacity
    sub := represents.sub
    accessible := represents.accessible
    tail := represents.tail
    fits := by
      rw [List.length_append, List.length_singleton]
      exact room
    head := by
      change queue.next queue._iBegin = _
      rw [represents.next small inside, represents.head, List.length_append,
        List.length_singleton]
      exact cell_cell represents.tail (by omega)
    holds := by
      change Holds _ (Function.update queue._p queue._iBegin t) _ _
      rw [represents.head]
      exact represents.holds.store (by omega) t }

theorem Represents.storeAll (represents : Represents iSize queue items)
    (small : iSize + 1 < 2 ^ 64) (vt : List T)
    (room : items.length + vt.length ≤ iSize) :
    ∃ after, vt.foldlM TcLoopQueue.store queue = some after ∧
      Represents iSize after (items ++ vt) := by
  induction vt generalizing queue items with
  | nil =>
      refine ⟨queue, rfl, ?_⟩
      rw [List.append_nil]
      exact represents
  | cons t vt ih =>
      rw [List.length_cons] at room
      obtain ⟨second, stored, represents'⟩ :=
        represents.store small (by omega) t
      obtain ⟨after, all, represents''⟩ := ih represents' (by
        rw [List.length_append, List.length_singleton]
        omega)
      refine ⟨after, ?_, ?_⟩
      · rw [List.foldlM_cons, stored]
        exact all
      · rw [List.append_assoc] at represents''
        exact represents''

theorem Represents.load {t : T}
    (represents : Represents iSize queue (t :: items)) :
    queue.load = some t := by
  have tail := represents.tail
  have first := represents.holds 0 (by simp)
  have here : cell (iSize + 1) queue._iEnd 0 = queue._iEnd := cell_of_lt tail
  rw [here] at first
  rw [TcLoopQueue.load, if_pos (represents.accessible _ tail), first]
  rfl

theorem Represents.pop {t : T}
    (represents : Represents iSize queue (t :: items))
    (small : iSize + 1 < 2 ^ 64) :
    Represents iSize { queue with _iEnd := queue.next queue._iEnd } items := by
  have tail := represents.tail
  have fits := represents.fits
  rw [List.length_cons] at fits
  have moved := represents.next small tail
  exact {
    capacity := represents.capacity
    sub := represents.sub
    accessible := represents.accessible
    tail := by
      dsimp only
      rw [moved]
      exact cell_lt (Nat.le_of_lt tail) (by omega)
    fits := by omega
    head := by
      dsimp only
      rw [moved, cell_cell tail (by omega), represents.head, List.length_cons,
        Nat.add_comm 1]
    holds := by
      intro i inside
      dsimp only
      have behind := represents.holds (i + 1) (by simpa using inside)
      rw [moved, cell_cell tail (by omega), Nat.add_comm 1, behind]
      rfl }

theorem Represents.full_iff (represents : Represents iSize queue items)
    (small : iSize + 1 < 2 ^ 64) (some : 0 < iSize) :
    (queue._iEnd > queue._iBegin ∧ subSize queue._iEnd queue._iBegin < 2) ∨
        (queue._iBegin > queue._iEnd ∧ subSize queue._iBegin queue._iEnd >
          subSize queue._iCapacity 2) ↔
      ¬ 1 ≤ iSize - items.length := by
  have tail := represents.tail
  have fits := represents.fits
  have head := represents.head
  unfold cell at head
  rw [subSize, subSize, subSize, represents.capacity]
  split at head <;> constructor <;> intro full <;> omega

theorem Represents.full_all_iff (represents : Represents iSize queue items)
    (small : iSize + 1 < 2 ^ 64) (vt : List T) :
    (vt.length > subSize queue._iCapacity 1 ∨
      (queue._iEnd > queue._iBegin ∧
        subSize queue._iEnd queue._iBegin < addSize vt.length 1) ∨
      (queue._iBegin > queue._iEnd ∧ subSize queue._iBegin queue._iEnd >
        subSize (subSize queue._iCapacity vt.length) 1)) ↔
      ¬ vt.length ≤ iSize - items.length := by
  have tail := represents.tail
  have fits := represents.fits
  have head := represents.head
  unfold cell at head
  rw [subSize, subSize, subSize, subSize, subSize, addSize, represents.capacity]
  split at head <;> constructor <;> intro full <;> omega

/-- A push of one element, with what it says of the queue before. -/
theorem Represents.push_back (represents : Represents iSize queue items)
    (small : iSize + 1 < 2 ^ 64) (some : 0 < iSize) (t : T) :
    ∃ after, queue.push_back t = Option.some after ∧
      after.result = (pushed iSize items [t]).1 ∧
      after.bEmpty = items.isEmpty ∧
      Represents iSize after.queue (pushed iSize items [t]).2 := by
  have full := represents.full_iff small some
  rw [TcLoopQueue.push_back, pushed, List.length_singleton]
  by_cases room : 1 ≤ iSize - items.length
  · obtain ⟨after, stored, represents'⟩ :=
      represents.store small (by omega) t
    have size := represents'.size small
    rw [List.length_append, List.length_singleton] at size
    refine ⟨_, (if_neg (mt full.mp (not_not.mpr room))).trans
      (congrArg (· >>= _) stored), ?_, ?_, ?_⟩
    · rw [if_pos room]
    · dsimp only
      rw [size]
      rw [represents.empty_eq]
      cases items with
      | nil => rfl
      | cons t items => rfl
    · rw [if_pos room]
      exact represents'
  · refine ⟨_, if_pos (full.mpr room), ?_, ?_, ?_⟩
    · rw [if_neg room]
    · cases items with
      | nil => exact absurd some (by simpa using room)
      | cons t items => rfl
    · rw [if_neg room]
      exact represents

theorem Represents.push_back_all (represents : Represents iSize queue items)
    (small : iSize + 1 < 2 ^ 64) (vt : List T) :
    ∃ after, queue.push_back_all vt =
        some ((pushed iSize items vt).1, after) ∧
      Represents iSize after (pushed iSize items vt).2 := by
  have full := represents.full_all_iff small vt
  rw [TcLoopQueue.push_back_all, pushed]
  by_cases room : vt.length ≤ iSize - items.length
  · have fits := represents.fits
    obtain ⟨after, stored, represents'⟩ :=
      represents.storeAll small vt (by omega)
    rw [if_pos room]
    refine ⟨after, ?_, represents'⟩
    rw [if_neg (mt full.mp (not_not.mpr room)), stored]
    rfl
  · rw [if_neg room]
    exact ⟨queue, if_pos (full.mpr room), represents⟩

/-- Every call does what it does to the elements. -/
theorem Represents.call (represents : Represents iSize queue items)
    (small : iSize + 1 < 2 ^ 64) (some : 0 < iSize) (call : Call T) :
    ∃ after, queue.call call =
        Option.some ((serve iSize items call).1, after) ∧
      Represents iSize after (serve iSize items call).2 := by
  have empty := represents.empty_iff
  cases call with
  | push_back t =>
      obtain ⟨after, push, result, bEmpty, represents'⟩ :=
        represents.push_back small some t
      refine ⟨after.queue, ?_, represents'⟩
      rw [TcLoopQueue.call, push, serve, ← result, ← bEmpty]
      rfl
  | push_back_empty t =>
      obtain ⟨after, push, result, bEmpty, represents'⟩ :=
        represents.push_back small some t
      refine ⟨after.queue, ?_, represents'⟩
      rw [TcLoopQueue.call, TcLoopQueue.push_back_empty, push, serve,
        ← result, ← bEmpty]
      rfl
  | push_back_one t =>
      obtain ⟨after, push, result, bEmpty, represents'⟩ :=
        represents.push_back small some t
      refine ⟨after.queue, ?_, represents'⟩
      rw [TcLoopQueue.call, TcLoopQueue.push_back_one,
        TcLoopQueue.push_back_empty, push, serve, ← result]
      rfl
  | push_back_all vt =>
      obtain ⟨after, push, represents'⟩ := represents.push_back_all small vt
      refine ⟨after, ?_, represents'⟩
      rw [TcLoopQueue.call, push]
      rfl
  | pop_front =>
      rw [TcLoopQueue.call, TcLoopQueue.pop_front]
      cases items with
      | nil =>
          rw [if_pos (empty.mpr rfl)]
          exact ⟨queue, rfl, represents⟩
      | cons t items =>
          rw [if_neg (mt empty.mp (List.cons_ne_nil _ _)), represents.load]
          exact ⟨_, rfl, represents.pop small⟩
  | pop_front_only =>
      rw [TcLoopQueue.call, TcLoopQueue.pop_front_only]
      cases items with
      | nil =>
          rw [if_pos (empty.mpr rfl)]
          exact ⟨queue, rfl, represents⟩
      | cons t items =>
          rw [if_neg (mt empty.mp (List.cons_ne_nil _ _))]
          exact ⟨_, rfl, represents.pop small⟩
  | get_front =>
      rw [TcLoopQueue.call, TcLoopQueue.get_front]
      cases items with
      | nil =>
          rw [if_pos (empty.mpr rfl)]
          exact ⟨queue, rfl, represents⟩
      | cons t items =>
          rw [if_neg (mt empty.mp (List.cons_ne_nil _ _)), represents.load]
          exact ⟨queue, rfl, represents⟩
  | size =>
      rw [TcLoopQueue.call, represents.size small]
      exact ⟨queue, rfl, represents⟩
  | empty =>
      refine ⟨queue, ?_, represents⟩
      rw [TcLoopQueue.call, TcLoopQueue.empty, represents.empty_eq]
      rfl

theorem Represents.run (represents : Represents iSize queue items)
    (small : iSize + 1 < 2 ^ 64) (some : 0 < iSize) (calls : List (Call T)) :
    ∃ after items', queue.run calls =
        Option.some (serveAll iSize items calls, after) ∧
      Represents iSize after items' := by
  induction calls generalizing queue items with
  | nil => exact ⟨queue, items, rfl, represents⟩
  | cons call calls ih =>
      obtain ⟨second, first, represents'⟩ := represents.call small some call
      obtain ⟨after, items', rest, represents''⟩ := ih represents'
      refine ⟨after, items', ?_, represents''⟩
      rw [TcLoopQueue.run, first]
      exact congrArg (· >>= _) rest

theorem capacity_small {iSize sizeof : Nat} (positive : 0 < sizeof)
    (small : (iSize + 1) * sizeof < 2 ^ 64) : iSize + 1 < 2 ^ 64 :=
  lt_of_le_of_lt (Nat.le_mul_of_pos_right _ positive) small

theorem represents_make {malloc : Nat → Bool} {iSize : UInt64} (_p : Nat → T)
    (copyable : ElementType.isTriviallyCopyable T = true)
    (small : (iSize.toNat + 1) * ElementType.sizeof T < 2 ^ 64)
    (had : malloc ((iSize.toNat + 1) * ElementType.sizeof T) = true) :
    Represents iSize.toNat (TcLoopQueue.make malloc _p iSize) [] := by
  have capacity := capacity_small ElementType.positive small
  have wanted : TcLoopQueue.wanted T iSize =
      (iSize.toNat + 1) * ElementType.sizeof T := by
    rw [TcLoopQueue.wanted, addSize, Nat.mod_eq_of_lt capacity, mulSize,
      Nat.mod_eq_of_lt small]
  exact {
    capacity := Nat.mod_eq_of_lt capacity
    sub := rfl
    accessible := by
      intro index inside
      refine ⟨copyable, ?_⟩
      change _ ≤ if malloc (TcLoopQueue.wanted T iSize) then _ else 0
      rw [wanted, if_pos had]
      exact Nat.mul_le_mul_right _ inside
    tail := Nat.succ_pos _
    fits := Nat.zero_le _
    head := (@cell_of_lt (iSize.toNat + 1) 0 0 (Nat.succ_pos _)).symm
    holds := Holds.nil }

end Slots

/-- Whatever the calls are, the results are those of a FIFO queue of capacity
`iSize`, and the indices stay inside its slots. -/
def BoundedFifo (T : Type) [ElementType T] (malloc : Nat → Bool)
    (iSize : UInt64) : Prop :=
  ∀ (_p : Nat → T) (calls : List (Call T)),
    ∃ after, (TcLoopQueue.make malloc _p iSize).run calls =
        some (serveAll iSize.toNat [] calls, after) ∧
      after._iBegin < after._iCapacity ∧ after._iEnd < after._iCapacity

/-- A push and a pop for each of the first slots, and a push for the next. -/
def upTo (t : T) : Nat → List (Call T)
  | 0 => [.push_back_one t]
  | slots + 1 => .push_back_one t :: .pop_front :: upTo t slots

section Touched

variable {queue : TcLoopQueue T}

/-- An empty queue takes an element if its slot can be touched. -/
theorem push_back_one_of_empty (empty : queue._iEnd = queue._iBegin) (t : T) :
    queue.push_back_one t = (queue.store t).map fun after => (true, after) := by
  rw [TcLoopQueue.push_back_one, TcLoopQueue.push_back_empty,
    TcLoopQueue.push_back, if_neg (by omega)]
  cases queue.store t with
  | none => rfl
  | some after => rfl

theorem store_eq_some {t : T} {after : TcLoopQueue T}
    (stored : queue.store t = some after) :
    queue.Accessible queue._iBegin ∧
      after = { queue with
        _p := Function.update queue._p queue._iBegin t
        _iBegin := queue.next queue._iBegin } := by
  rw [TcLoopQueue.store] at stored
  split at stored
  next accessible => exact ⟨accessible, (Option.some.inj stored).symm⟩
  next => cases stored

theorem run_push_of_empty {t : T} {calls : List (Call T)}
    (empty : queue._iEnd = queue._iBegin)
    (run : (queue.run (.push_back_one t :: calls)).isSome) :
    ∃ after, queue.store t = some after ∧ (after.run calls).isSome := by
  rw [TcLoopQueue.run, TcLoopQueue.call, push_back_one_of_empty empty] at run
  cases stored : queue.store t with
  | none => simp [stored] at run
  | some after =>
      refine ⟨after, rfl, ?_⟩
      cases rest : after.run calls with
      | none => simp [stored, rest] at run
      | some end_ => rfl

theorem run_pop_of_one {start : Nat} {calls : List (Call T)}
    (head : queue._iBegin = start + 1) (tail : queue._iEnd = start)
    (inside : start < queue._iCapacitySub) (small : start + 1 < 2 ^ 64)
    (run : (queue.run (.pop_front :: calls)).isSome) :
    (TcLoopQueue.run { queue with _iEnd := queue._iBegin } calls).isSome := by
  have moved : queue.next queue._iEnd = queue._iBegin := by
    rw [TcLoopQueue.next, if_neg (by omega), addSize]
    omega
  rw [TcLoopQueue.run, TcLoopQueue.call, TcLoopQueue.pop_front,
    if_neg (by omega), moved] at run
  cases loaded : queue.load with
  | none => simp [loaded] at run
  | some t =>
      cases rest : TcLoopQueue.run
          { queue with _iEnd := queue._iBegin } calls with
      | none => simp [loaded, rest] at run
      | some results => rfl

/-- The calls touch the slot behind those that they pass, so it has to be inside
the block. -/
theorem accessible_of_upTo {t : T} {slots : Nat}
    (empty : queue._iEnd = queue._iBegin)
    (inside : queue._iBegin + slots ≤ queue._iCapacitySub)
    (small : queue._iCapacitySub + 1 < 2 ^ 64)
    (run : (queue.run (upTo t slots)).isSome) :
    queue.Accessible (queue._iBegin + slots) := by
  induction slots generalizing queue with
  | zero =>
      obtain ⟨after, stored, _⟩ := run_push_of_empty empty run
      exact (store_eq_some stored).1
  | succ slots ih =>
      obtain ⟨second, stored, run⟩ := run_push_of_empty empty run
      obtain ⟨accessible, after⟩ := store_eq_some stored
      have moved : queue.next queue._iBegin = queue._iBegin + 1 := by
        rw [TcLoopQueue.next, if_neg (by omega), addSize]
        omega
      rw [moved] at after
      have head : second._iBegin = queue._iBegin + 1 := by rw [after]
      have tail : second._iEnd = queue._iBegin := by rw [after]; exact empty
      have sub : second._iCapacitySub = queue._iCapacitySub := by rw [after]
      have popped := run_pop_of_one head tail (by omega) (by omega) run
      have behind : TcLoopQueue.Accessible
          { second with _iEnd := second._iBegin } (second._iBegin + slots) :=
        ih rfl (show second._iBegin + slots ≤ second._iCapacitySub by omega)
          (show second._iCapacitySub + 1 < 2 ^ 64 by omega) popped
      have slot : second._iBegin + slots = queue._iBegin + (slots + 1) := by
        omega
      change second.Accessible (second._iBegin + slots) at behind
      rw [slot, after] at behind
      exact behind

end Touched

/-- The queue is a bounded FIFO queue if it has any room and a block of that
size, and its elements may be copied byte by byte. -/
theorem boundedFifo_iff [Inhabited T] (malloc : Nat → Bool) (iSize : UInt64) :
    BoundedFifo T malloc iSize ↔
      0 < iSize.toNat ∧ ElementType.isTriviallyCopyable T = true ∧
        (iSize.toNat + 1) * ElementType.sizeof T < 2 ^ 64 ∧
        malloc ((iSize.toNat + 1) * ElementType.sizeof T) = true := by
  constructor
  · intro fifo
    have some : 0 < iSize.toNat := by
      rw [Nat.pos_iff_ne_zero]
      intro none
      obtain ⟨after, run, _⟩ := fifo (fun _ => default) [.push_back_one default]
      rw [TcLoopQueue.run, TcLoopQueue.call, push_back_one_of_empty rfl,
        none] at run
      cases stored : (TcLoopQueue.make malloc (fun _ : Nat => (default : T))
          iSize).store default with
      | none => simp [stored] at run
      | some second =>
          simp [stored, TcLoopQueue.run, serveAll, serve, pushed] at run
    have small : iSize.toNat + 1 < 2 ^ 64 := by
      by_contra large
      have most := iSize.toNat_lt
      obtain ⟨after, run, inside, _⟩ := fifo (fun _ => default) []
      cases run
      have wrapped : addSize iSize.toNat 1 = 0 := by
        rw [addSize]
        omega
      change 0 < addSize iSize.toNat 1 at inside
      omega
    obtain ⟨after, run, _⟩ :=
      fifo (fun _ => default) (upTo default iSize.toNat)
    obtain ⟨copyable, inside⟩ :=
      accessible_of_upTo rfl (Nat.zero_add _).le small
        (Option.isSome_iff_exists.mpr ⟨_, run⟩)
    change (0 + iSize.toNat + 1) * ElementType.sizeof T ≤
      if malloc (TcLoopQueue.wanted T iSize) then TcLoopQueue.wanted T iSize
      else 0 at inside
    rw [Nat.zero_add, TcLoopQueue.wanted, addSize, Nat.mod_eq_of_lt small,
      mulSize] at inside
    have positive : 0 < (iSize.toNat + 1) * ElementType.sizeof T :=
      Nat.mul_pos (Nat.succ_pos _) ElementType.positive
    split at inside
    next had =>
      have fits := lt_of_le_of_lt inside (Nat.mod_lt _ (Nat.two_pow_pos 64))
      rw [Nat.mod_eq_of_lt fits] at had
      exact ⟨some, copyable, fits, had⟩
    next => omega
  · rintro ⟨some, copyable, small, had⟩ _p calls
    obtain ⟨after, items, run, represents⟩ :=
      (represents_make _p copyable small had).run
        (capacity_small ElementType.positive small) some calls
    refine ⟨after, run, ?_, ?_⟩
    · rw [represents.capacity, represents.head]
      exact cell_lt (Nat.le_of_lt represents.tail)
        (Nat.lt_succ_of_le represents.fits)
    · rw [represents.capacity]
      exact represents.tail

instance : ElementType Bool where
  sizeof := 1
  isTriviallyCopyable := true
  positive := Nat.one_pos

/-- Nothing fits, but the push succeeds. -/
theorem push_without_room :
    ((TcLoopQueue.make (fun _ => true) (fun _ => false) 0).run
        [.push_back_one true, .size]).map Prod.fst =
      some [.pushed true, .count 0] ∧
      ¬ BoundedFifo Bool (fun _ => true) 0 := by
  refine ⟨rfl, fun fifo => ?_⟩
  obtain ⟨after, run, _⟩ := fifo (fun _ => false) [.push_back_one true]
  cases run

end TarsCpp.LoopQueue
