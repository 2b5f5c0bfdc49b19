import TarsCpp.CString
import TarsCpp.NetworkBuffer.QueueRefinement
import TarsCpp.NetworkBuffer.QueueRuns

/-!
# Iterating over the network buffer

`TC_NetWorkBuffer::buffer_iterator`: a node of the buffer list, an offset into
that chunk, and one into the whole.  `++` keeps all three up to date, every
other way to an iterator computes them from the offset.

An iterator that is computed from an offset skips empty chunks; `++` enters
them, and then moves behind their end.  The two agree exactly where no empty
chunk follows one with bytes.
-/

namespace TarsCpp.NetworkBuffer

/-- `_it` is the index of a node, or the length of the list for its `end()`. -/
structure BufferIterator where
  it : Nat
  offset : Nat
  pos : Nat
deriving DecidableEq, Repr

namespace BufferIterator

/-- `operator==`, which does not look at `_pos`. -/
def same (a b : BufferIterator) : Bool := a.it = b.it ∧ a.offset = b.offset

end BufferIterator

/-- The loop of `parseOffset`: the node and the offset into its chunk. -/
def locate : List Nat → Nat → Option (Nat × Nat)
  | [], _ => none
  | length :: rest, offset =>
      if offset ≥ length then
        (locate rest (offset - length)).map fun (it, pos) => (it + 1, pos)
      else
        some (0, offset)

/-- `length() - 1` of a `size_t`. -/
def lastIndex (length : Nat) : Nat :=
  if length = 0 then 2 ^ 64 - 1 else length - 1

namespace NetWorkBuffer

def parseOffset (offset : Nat) (net : NetWorkBuffer) : BufferIterator :=
  match locate net.chunkLengths offset with
  | some (it, pos) => { it, offset, pos }
  | none => { it := net.bufferList.length, offset := net.length, pos := 0 }

def begin (net : NetWorkBuffer) : BufferIterator := net.parseOffset 0

def endIterator (net : NetWorkBuffer) : BufferIterator :=
  net.parseOffset net.length

/-- `operator+`; `operator+=` makes the same call. -/
def plus (i : BufferIterator) (n : Nat) (net : NetWorkBuffer) :
    BufferIterator :=
  net.parseOffset ((i.offset + n) % 2 ^ 64)

/-- `(*_it)->buffer()[_pos]` -/
def deref (i : BufferIterator) (net : NetWorkBuffer) :
    Except Failure UInt8 :=
  match net.bufferList[i.it]? with
  | none => .error .invalidAccess
  | some id => do
      let buff := net.buffers id
      let bytes ← load buff.block (buff.readIdx + i.pos) 1
      pure (bytes.headD 0)

/-- The step of both `operator++` inside the list. -/
def stepped (i : BufferIterator) (length : Nat) : BufferIterator :=
  if i.pos < lastIndex length then
    { i with pos := i.pos + 1, offset := i.offset + 1 }
  else
    { it := i.it + 1, offset := i.offset + 1, pos := 0 }

/-- `operator++()` -/
def increment (i : BufferIterator) (net : NetWorkBuffer) :
    Except Failure BufferIterator :=
  if i.offset ≥ net.length then
    .ok i
  else do
    assert (i.it ≠ net.bufferList.length) "_it != _buffer->_bufferList.end()"
    match net.chunkLengths[i.it]? with
    | none => .error .invalidAccess
    | some length => pure (stepped i length)

/-- What `operator++(int)` leaves in the iterator. -/
def postIncrement (i : BufferIterator) (net : NetWorkBuffer) :
    Except Failure BufferIterator :=
  if i.it ≠ net.bufferList.length then
    match net.chunkLengths[i.it]? with
    | none => .error .invalidAccess
    | some length => .ok (stepped i length)
  else
    .ok { i with offset := net.length, pos := 0 }

/-- `n` increments. -/
def advance : Nat → BufferIterator → NetWorkBuffer →
    Except Failure BufferIterator
  | 0, i, _ => .ok i
  | n + 1, i, net => do
      let i ← net.increment i
      net.advance n i

/-- How the comparison at one place ends. -/
inductive Comparison
  | found
  | atEnd
  | different
deriving DecidableEq, Repr

/-- The inner loop of `std::search`. -/
def compare : List UInt8 → BufferIterator → NetWorkBuffer →
    Except Failure Comparison
  | [], _, _ => .ok .found
  | c :: str, i, net =>
      if i.same net.endIterator then
        .ok .atEnd
      else do
        let c' ← net.deref i
        if c' = c then
          let i ← net.increment i
          net.compare str i
        else
          pure .different

/-- `std::search`; `none` is a loop that has not come to an end yet. -/
def search (str : List UInt8) : Nat → BufferIterator → NetWorkBuffer →
    Except Failure (Option BufferIterator)
  | 0, _, _ => .ok none
  | fuel + 1, first, net => do
      match ← net.compare str first with
      | .found => pure (some first)
      | .atEnd => pure (some net.endIterator)
      | .different => do
          let first ← net.increment first
          net.search str fuel first

def find (str : List UInt8) (fuel : Nat) (net : NetWorkBuffer) :
    Except Failure (Option BufferIterator) :=
  net.search str fuel net.begin

end NetWorkBuffer

open TransitionRun

section Locate

variable {lengths front back : List Nat} {length offset pos : Nat}

theorem locate_inside (inside : pos < length) (front back : List Nat) :
    locate (front ++ length :: back) (front.sum + pos) =
      some (front.length, pos) := by
  induction front with
  | nil =>
      rw [List.nil_append, locate, List.sum_nil, Nat.zero_add,
        if_neg (Nat.not_le.mpr inside)]
      rfl
  | cons first front induction =>
      have rest : (first :: front).sum + pos - first = front.sum + pos := by
        rw [List.sum_cons]
        omega
      rw [List.cons_append, locate, if_pos (by rw [List.sum_cons]; omega),
        rest, induction]
      rfl

theorem locate_behind (behind : lengths.sum ≤ offset) :
    locate lengths offset = none := by
  induction lengths generalizing offset with
  | nil => rfl
  | cons first lengths induction =>
      rw [List.sum_cons] at behind
      rw [locate, if_pos (by omega), induction (by omega)]
      rfl

theorem exists_place (inside : offset < lengths.sum) :
    ∃ front length back pos, lengths = front ++ length :: back ∧
      pos < length ∧ offset = front.sum + pos := by
  induction lengths generalizing offset with
  | nil => exact absurd inside (Nat.not_lt_zero _)
  | cons first lengths induction =>
      rw [List.sum_cons] at inside
      by_cases here : offset < first
      · exact ⟨[], first, lengths, offset, rfl, here, by simp⟩
      · obtain ⟨front, length, back, pos, rfl, within, same⟩ :=
          @induction (offset - first) (by omega)
        refine ⟨first :: front, length, back, pos, rfl, within, ?_⟩
        rw [List.sum_cons]
        omega

/-- No empty chunk follows one with bytes. -/
def NoGap (lengths : List Nat) : Prop :=
  lengths.IsChain fun length next => length ≠ 0 → next ≠ 0

/-- The first gap. -/
theorem exists_gap (gap : ¬ NoGap lengths) :
    ∃ front length back, lengths = front ++ length :: 0 :: back ∧
      length ≠ 0 ∧ NoGap (front ++ [length]) := by
  induction lengths with
  | nil => exact absurd .nil gap
  | cons first lengths induction =>
      cases lengths with
      | nil => exact absurd (.singleton first) gap
      | cons second lengths =>
          by_cases follows : first ≠ 0 → second ≠ 0
          · have later : ¬ NoGap (second :: lengths) := fun without =>
              gap (.cons_cons follows without)
            obtain ⟨front, length, back, same, positive, without⟩ :=
              induction later
            refine ⟨first :: front, length, back, ?_, positive, ?_⟩
            · rw [same, List.cons_append]
            · cases front with
              | nil =>
                  obtain ⟨rfl, -⟩ := List.cons.inj same
                  exact .cons_cons follows (.singleton _)
              | cons other front =>
                  obtain ⟨rfl, -⟩ := List.cons.inj same
                  exact .cons_cons follows without
          · rw [Classical.not_imp, not_not] at follows
            obtain ⟨positive, rfl⟩ := follows
            exact ⟨[], first, lengths, rfl, positive, .singleton first⟩

end Locate

namespace NetWorkBuffer

section Steps

variable {net : NetWorkBuffer} {front back : List Nat}
variable {length offset pos : Nat}

@[simp] theorem length_chunkLengths (net : NetWorkBuffer) :
    net.chunkLengths.length = net.bufferList.length := List.length_map _

theorem parseOffset_inside
    (lengths : net.chunkLengths = front ++ length :: back)
    (inside : pos < length) :
    net.parseOffset (front.sum + pos) =
      ⟨front.length, front.sum + pos, pos⟩ := by
  unfold parseOffset
  rw [lengths, locate_inside inside]

theorem parseOffset_behind (behind : net.chunkLengths.sum ≤ offset) :
    net.parseOffset offset = ⟨net.bufferList.length, net.length, 0⟩ := by
  unfold parseOffset
  rw [locate_behind behind]

theorem increment_eq (lengths : net.chunkLengths = front ++ length :: back)
    (inside : offset < net.length) :
    net.increment ⟨front.length, offset, pos⟩ =
      .ok (stepped ⟨front.length, offset, pos⟩ length) := by
  have node : front.length ≠ net.bufferList.length := by
    rw [← length_chunkLengths, lengths, List.length_append, List.length_cons]
    omega
  have found : net.chunkLengths[front.length]? = some length := by
    rw [lengths, List.getElem?_append_right (Nat.le_refl _), Nat.sub_self]
    rfl
  unfold increment
  rw [if_neg (Nat.not_le.mpr inside)]
  simp only [assert, if_pos node, ok_bind, found, pure_ok]

/-- Inside a chunk, and from its last byte to a chunk with bytes or to the end,
`++` leads to the next offset. -/
theorem increment_parseOffset (whole : net.length = net.chunkLengths.sum)
    (lengths : net.chunkLengths = front ++ length :: back)
    (inside : pos < length)
    (follows : pos + 1 = length → ∀ next ∈ back.head?, next ≠ 0) :
    net.increment (net.parseOffset (front.sum + pos)) =
      .ok (net.parseOffset (front.sum + pos + 1)) := by
  have total : net.length = front.sum + (length + back.sum) := by
    rw [whole, lengths, List.sum_append, List.sum_cons]
  rw [parseOffset_inside lengths inside, increment_eq lengths (by omega)]
  congr 1
  unfold stepped lastIndex
  rw [if_neg (by omega : ¬ length = 0)]
  by_cases last : pos + 1 = length
  · rw [if_neg (by dsimp only; omega)]
    dsimp only
    cases back with
    | nil =>
        rw [List.sum_nil] at total
        rw [parseOffset_behind (by omega), ← length_chunkLengths, lengths,
          List.length_append, total]
        congr 1
        omega
    | cons next back =>
        have positive : 0 < next :=
          Nat.pos_of_ne_zero (follows last next rfl)
        have lengths' : net.chunkLengths =
            (front ++ [length]) ++ next :: back := by
          rw [lengths, List.append_assoc, List.singleton_append]
        have place := parseOffset_inside lengths' positive
        rw [List.sum_append, List.sum_singleton, List.length_append] at place
        rw [show front.sum + pos + 1 = front.sum + length + 0 by omega, place]
        rfl
  · rw [if_pos (by dsimp only; omega), Nat.add_assoc,
      parseOffset_inside lengths (by omega)]

/-- As far as there is no gap, `++` leads to the next offset. -/
theorem increment_noGap {some rest : List Nat}
    (whole : net.length = net.chunkLengths.sum)
    (lengths : net.chunkLengths = some ++ rest) (without : NoGap some)
    (inside : offset < some.sum) (last : rest = [] ∨ offset + 1 < some.sum) :
    net.increment (net.parseOffset offset) =
      .ok (net.parseOffset (offset + 1)) := by
  obtain ⟨front, length, back, pos, rfl, within, rfl⟩ := exists_place inside
  rw [List.append_assoc, List.cons_append] at lengths
  refine increment_parseOffset whole lengths within ?_
  intro ends next member
  cases back with
  | cons first back =>
      cases member
      refine List.isChain_iff_forall_rel_of_append_cons_cons.mp without rfl ?_
      omega
  | nil =>
      rcases last with rfl | more
      · cases member
      · rw [List.sum_append, List.sum_singleton] at more
        omega

end Steps

section Advance

variable {net : NetWorkBuffer} {i : BufferIterator} {count offset : Nat}

theorem advance_add (first second : Nat) (i : BufferIterator)
    (net : NetWorkBuffer) :
    net.advance (first + second) i =
      net.advance first i >>= fun i => net.advance second i := by
  induction first generalizing i with
  | zero =>
      rw [Nat.zero_add]
      rfl
  | succ first induction =>
      rw [Nat.add_right_comm, advance, advance]
      cases net.increment i with
      | error failure => rfl
      | ok next => exact induction next

/-- As long as `++` leads to the next offset, `n` of them lead to the `n`-th
offset behind. -/
theorem advance_parseOffset
    (steps : ∀ k, offset ≤ k → k < offset + count →
      net.increment (net.parseOffset k) = .ok (net.parseOffset (k + 1))) :
    net.advance count (net.parseOffset offset) =
      .ok (net.parseOffset (offset + count)) := by
  induction count with
  | zero => rfl
  | succ count induction =>
      have before := induction fun k least most => steps k least (by omega)
      rw [advance_add, before, ok_bind, advance,
        steps _ (by omega) (by omega)]
      rfl

theorem advance_stays (ended : net.length ≤ i.offset) (count : Nat) :
    net.advance count i = .ok i := by
  induction count with
  | zero => rfl
  | succ count induction =>
      have stays : net.increment i = .ok i := by
        unfold increment
        rw [if_pos ended]
      rw [advance, stays, ok_bind, induction]

/-- An offset behind the content is the end. -/
theorem parseOffset_end (whole : net.length = net.chunkLengths.sum)
    (behind : net.length ≤ offset) :
    net.parseOffset offset = net.endIterator := by
  rw [endIterator, parseOffset_behind (by omega),
    parseOffset_behind (by omega)]

theorem endIterator_eq (whole : net.length = net.chunkLengths.sum) :
    net.endIterator = ⟨net.bufferList.length, net.length, 0⟩ :=
  parseOffset_behind (Nat.le_of_eq whole.symm)

theorem offset_parseOffset (whole : net.length = net.chunkLengths.sum)
    (inside : offset ≤ net.length) :
    (net.parseOffset offset).offset = offset := by
  rcases Nat.lt_or_eq_of_le inside with before | ended
  · rw [whole] at before
    obtain ⟨front, length, back, pos, lengths, within, rfl⟩ :=
      exists_place before
    rw [parseOffset_inside lengths within]
  · rw [parseOffset_end whole (Nat.le_of_eq ended.symm),
      endIterator_eq whole, ended]

theorem same_end_iff (whole : net.length = net.chunkLengths.sum)
    (inside : offset ≤ net.length) :
    (net.parseOffset offset).same net.endIterator = decide
      (offset = net.length) := by
  rw [endIterator_eq whole, BufferIterator.same]
  rcases Nat.lt_or_eq_of_le inside with before | ended
  · have before' := before
    rw [whole] at before'
    obtain ⟨front, length, back, pos, lengths, within, rfl⟩ :=
      exists_place before'
    rw [parseOffset_inside lengths within, decide_eq_false,
      decide_eq_false (Nat.ne_of_lt before)]
    rintro ⟨-, same⟩
    exact Nat.ne_of_lt before same
  · rw [parseOffset_end whole (Nat.le_of_eq ended.symm),
      endIterator_eq whole, ended]
    simp

/-- Without a gap, `n` increments lead as far as `n` says, or to the end. -/
theorem advance_noGap (whole : net.length = net.chunkLengths.sum)
    (without : NoGap net.chunkLengths) (inside : offset ≤ net.length)
    (count : Nat) :
    net.advance count (net.parseOffset offset) =
      .ok (net.parseOffset (offset + count)) := by
  have steps : ∀ k, k < net.length →
      net.increment (net.parseOffset k) = .ok (net.parseOffset (k + 1)) := by
    intro k before
    exact increment_noGap whole (List.append_nil _).symm without
      (whole ▸ before) (.inl rfl)
  rcases Nat.le_total (offset + count) net.length with within | behind
  · exact advance_parseOffset fun k _ before => steps k (by omega)
  · have reached : net.advance (net.length - offset)
        (net.parseOffset offset) = .ok net.endIterator := by
      rw [advance_parseOffset fun k _ before => steps k (by omega),
        parseOffset_end whole (by omega)]
    rw [show count = net.length - offset +
        (offset + count - net.length) by omega, advance_add, reached, ok_bind,
      advance_stays (by rw [endIterator_eq whole]),
      parseOffset_end whole (by omega)]

/-- In an empty chunk `++` never leaves the chunk before the offset is the
length of the content. -/
theorem advance_empty {front back : List Nat}
    (lengths : net.chunkLengths = front ++ 0 :: back)
    (sizeT : net.length < 2 ^ 64) (within : offset + count ≤ net.length) :
    net.advance count ⟨front.length, offset, 0⟩ =
      .ok ⟨front.length, offset + count, count⟩ := by
  induction count with
  | zero => rfl
  | succ count induction =>
      rw [advance_add, induction (by omega), ok_bind, advance,
        increment_eq lengths (by omega), ok_bind, stepped, lastIndex,
        if_pos rfl, if_pos (by dsimp only; omega)]
      rfl

end Advance

section Bytes

variable {net : NetWorkBuffer} {content part : List UInt8} {c : UInt8}
variable {pos offset : Nat}

theorem load_held {buff : Buffer} (holds : Holds buff part)
    (found : part[pos]? = some c) :
    load buff.block (buff.readIdx + pos) 1 = .ok [c] := by
  obtain ⟨consumed, spare, rfl⟩ := holds
  obtain ⟨inside, rfl⟩ := List.getElem?_eq_some_iff.mp found
  have front : (consumed ++ part.take pos).length = consumed.length + pos := by
    rw [List.length_append, List.length_take_of_le inside.le]
  have bytes := load_middle (consumed ++ part.take pos) [part[pos]]
    (part.drop (pos + 1) ++ spare)
  rw [front] at bytes
  rw [parts_block, parts_readIdx, ← bytes]
  congr 2
  conv_lhs => rw [← List.take_append_drop pos part,
    List.drop_eq_getElem_cons inside]
  simp only [List.append_assoc, List.cons_append, List.nil_append]

theorem sum_chunkLengths
    (segments : Segments net.Holding net.bufferList content) :
    net.chunkLengths.sum = content.length := by
  apply segments.sum_eq_length
  intro id part held
  exact held.length_eq

/-- An iterator that is computed from an offset shows the byte there. -/
theorem deref_parseOffset
    (segments : Segments net.Holding net.bufferList content)
    (found : content[offset]? = some c) :
    net.deref (net.parseOffset offset) = .ok c := by
  have inside := (List.getElem?_eq_some_iff.mp found).1
  rw [← sum_chunkLengths segments] at inside
  obtain ⟨front, length, back, pos, lengths, within, rfl⟩ :=
    exists_place inside
  have place := parseOffset_inside lengths within
  obtain ⟨before, later, list, rfl, behind⟩ := List.map_eq_append_iff.mp lengths
  obtain ⟨id, after, rfl, rfl, -⟩ := List.map_eq_cons_iff.mp behind
  rw [list] at segments
  obtain ⟨first, last, rfl, held, held'⟩ := segments.cut
  cases held' with
  | @cons _ part _ rest holds _ =>
      have skipped : (before.map fun id => (net.buffers id).length).sum =
          first.length := by
        apply held.sum_eq_length
        intro id part held
        exact held.length_eq
      have length := Holds.length_eq holds
      rw [skipped, List.getElem?_append_right (Nat.le_add_right _ _),
        Nat.add_sub_cancel_left,
        List.getElem?_append_left (length ▸ within)] at found
      have node : net.bufferList[before.length]? = some id := by
        rw [list, List.getElem?_append_right (Nat.le_refl _), Nat.sub_self]
        rfl
      rw [place, deref, List.length_map, node]
      simp only [load_held holds found, ok_bind, List.headD_cons, pure_ok]

end Bytes

/-- Iterators see the content, byte after byte. -/
structure Faithful (net : NetWorkBuffer) (content : List UInt8) : Prop where
  length : net.length = content.length
  visits : ∀ k c, content[k]? = some c →
    ∃ i, net.advance k net.begin = .ok i ∧
      i.same net.endIterator = false ∧ net.deref i = .ok c
  reaches : ∃ i, net.advance net.length net.begin = .ok i ∧
    i.same net.endIterator = true
  post : ∀ k i, k ≤ net.length → net.advance k net.begin = .ok i →
    net.postIncrement i = net.increment i
  jumps : ∀ k n i, k ≤ net.length → k + n < 2 ^ 64 →
    net.advance k net.begin = .ok i → net.advance n i = .ok (net.plus i n)
  finds : ∀ str, ∃ fuel, net.find str fuel = .ok (some
    (match CString.find str content with
    | some k => net.plus net.begin k
    | none => net.endIterator))

section Search

variable {net : NetWorkBuffer} {content : List UInt8} {offset : Nat}

/-- What a comparison at an offset says about an occurrence there. -/
theorem compare_parseOffset
    (segments : Segments net.Holding net.bufferList content)
    (whole : net.length = content.length) (without : NoGap net.chunkLengths)
    (str : List UInt8) (inside : offset ≤ net.length) :
    (net.compare str (net.parseOffset offset) = .ok .found ∧
        str <+: content.drop offset) ∨
      (net.compare str (net.parseOffset offset) = .ok .atEnd ∧
        content.length < offset + str.length) ∨
      (net.compare str (net.parseOffset offset) = .ok .different ∧
        ¬ str <+: content.drop offset ∧ offset < net.length) := by
  have whole' : net.length = net.chunkLengths.sum :=
    whole.trans (sum_chunkLengths segments).symm
  induction str generalizing offset with
  | nil => exact .inl ⟨rfl, List.nil_prefix⟩
  | cons c str induction =>
      unfold compare
      rw [same_end_iff whole' inside]
      rcases Nat.lt_or_eq_of_le inside with before | ended
      · rw [if_neg (by simp [Nat.ne_of_lt before])]
        have within : offset < content.length := whole ▸ before
        have found : content[offset]? = some content[offset] :=
          List.getElem?_eq_getElem within
        have rest := List.drop_eq_getElem_cons within
        have step : net.increment (net.parseOffset offset) =
            .ok (net.parseOffset (offset + 1)) := by
          exact increment_noGap whole' (List.append_nil _).symm without
            (whole' ▸ before) (.inl rfl)
        rw [deref_parseOffset segments found]
        simp only [ok_bind, step, rest, List.cons_prefix_cons]
        by_cases equal : content[offset] = c
        · rw [if_pos equal]
          rcases induction (Nat.succ_le_of_lt before) with
            ⟨run, occurs⟩ | ⟨run, short⟩ | ⟨run, other, more⟩
          · exact .inl ⟨run, equal.symm, occurs⟩
          · refine .inr (.inl ⟨run, ?_⟩)
            rw [List.length_cons]
            omega
          · exact .inr (.inr ⟨run, fun both => other both.2, before⟩)
        · rw [if_neg equal]
          exact .inr (.inr ⟨rfl, fun both => equal both.1.symm, before⟩)
      · refine .inr (.inl ⟨?_, ?_⟩)
        · rw [if_pos (by simp [ended])]
        · rw [List.length_cons]
          omega

/-- The search takes at most one round for each byte, and one at the end. -/
theorem search_parseOffset
    (segments : Segments net.Holding net.bufferList content)
    (whole : net.length = content.length) (without : NoGap net.chunkLengths)
    (str : List UInt8) {fuel : Nat} (inside : offset ≤ net.length)
    (enough : net.length < offset + fuel) :
    net.search str fuel (net.parseOffset offset) = .ok (some
      (match CString.find str (content.drop offset) with
      | some k => net.parseOffset (offset + k)
      | none => net.endIterator)) := by
  have whole' : net.length = net.chunkLengths.sum :=
    whole.trans (sum_chunkLengths segments).symm
  induction fuel generalizing offset with
  | zero => omega
  | succ fuel induction =>
      unfold search
      rcases compare_parseOffset segments whole without str inside with
        ⟨run, occurs⟩ | ⟨run, short⟩ | ⟨run, other, before⟩
      · have first : CString.find str (content.drop offset) = some 0 :=
          CString.find_eq_some_iff.mpr
            ⟨occurs, fun earlier before => absurd before (Nat.not_lt_zero _)⟩
        rw [run, first]
        rfl
      · have none : CString.find str (content.drop offset) = none := by
          rw [CString.find_eq_none_iff]
          intro place first
          have fits := first.fits
          rw [List.length_drop] at fits
          omega
        rw [run, none]
        rfl
      · have step : net.increment (net.parseOffset offset) =
            .ok (net.parseOffset (offset + 1)) :=
          increment_noGap whole' (List.append_nil _).symm without
            (whole' ▸ before) (.inl rfl)
        have later := induction (Nat.succ_le_of_lt before) (by omega)
        have rest := List.drop_eq_getElem_cons (whole ▸ before)
        rw [rest] at other
        rw [run, rest, CString.find, if_neg other]
        simp only [ok_bind, step, later]
        cases CString.find str (content.drop (offset + 1)) with
        | none => rfl
        | some k =>
            simp only [Option.map_some]
            congr 3
            omega

end Search

section Faithfulness

variable {net : NetWorkBuffer} {content : List UInt8}

theorem postIncrement_parseOffset {offset : Nat}
    (whole : net.length = net.chunkLengths.sum)
    (inside : offset ≤ net.length) :
    net.postIncrement (net.parseOffset offset) =
      net.increment (net.parseOffset offset) := by
  rcases Nat.lt_or_eq_of_le inside with before | ended
  · have before' := before
    rw [whole] at before'
    obtain ⟨front, length, back, pos, lengths, within, rfl⟩ :=
      exists_place before'
    have node : front.length ≠ net.bufferList.length := by
      rw [← length_chunkLengths, lengths, List.length_append,
        List.length_cons]
      omega
    have found : net.chunkLengths[front.length]? = some length := by
      rw [lengths, List.getElem?_append_right (Nat.le_refl _), Nat.sub_self]
      rfl
    rw [parseOffset_inside lengths within, increment_eq lengths before]
    unfold postIncrement
    rw [if_pos node]
    simp only [found]
  · rw [parseOffset_end whole (Nat.le_of_eq ended.symm),
      endIterator_eq whole]
    unfold postIncrement increment
    rw [if_neg (not_not_intro rfl), if_pos (Nat.le_refl _)]

theorem faithful_of_noGap
    (segments : Segments net.Holding net.bufferList content)
    (sizeT : net.length < 2 ^ 64) (whole : net.length = content.length)
    (without : NoGap net.chunkLengths) : Faithful net content := by
  have whole' : net.length = net.chunkLengths.sum :=
    whole.trans (sum_chunkLengths segments).symm
  have reached : ∀ k, net.advance k net.begin = .ok (net.parseOffset k) := by
    intro k
    have from0 := advance_noGap whole' without (Nat.zero_le _) k
    rwa [Nat.zero_add] at from0
  have first : net.begin.offset = 0 :=
    offset_parseOffset whole' (Nat.zero_le _)
  refine ⟨whole, ?_, ?_, ?_, ?_, ?_⟩
  · intro k c found
    have before : k < net.length :=
      whole ▸ (List.getElem?_eq_some_iff.mp found).1
    refine ⟨_, reached k, ?_, deref_parseOffset segments found⟩
    rw [same_end_iff whole' before.le]
    exact decide_eq_false (Nat.ne_of_lt before)
  · refine ⟨_, reached _, ?_⟩
    rw [same_end_iff whole' (Nat.le_refl _)]
    exact decide_eq_true rfl
  · intro k i inside run
    rw [reached k] at run
    cases run
    exact postIncrement_parseOffset whole' inside
  · intro k n i inside fits run
    rw [reached k] at run
    cases run
    rw [advance_noGap whole' without inside, plus,
      offset_parseOffset whole' inside, Nat.mod_eq_of_lt fits]
  · intro str
    refine ⟨net.length + 1, ?_⟩
    have run := search_parseOffset segments whole without str
      (Nat.zero_le net.length) (by omega : net.length < 0 + (net.length + 1))
    rw [List.drop_zero] at run
    refine run.trans ?_
    cases found : CString.find str content with
    | none => rfl
    | some k =>
        have fits := (CString.find_eq_some_iff.mp found).fits
        have jump : net.plus net.begin k = net.parseOffset (0 + k) := by
          rw [plus, first, Nat.mod_eq_of_lt (by omega)]
        simp only [jump]

/-- In a gap the iteration gets stuck. -/
theorem noGap_of_faithful
    (segments : Segments net.Holding net.bufferList content)
    (sizeT : net.length < 2 ^ 64) (faithful : Faithful net content) :
    NoGap net.chunkLengths := by
  have whole' : net.length = net.chunkLengths.sum :=
    faithful.length.trans (sum_chunkLengths segments).symm
  by_contra gap
  obtain ⟨front, length, back, lengths, positive, without⟩ := exists_gap gap
  have cut : net.chunkLengths = (front ++ [length]) ++ 0 :: back := by
    rw [lengths, List.append_assoc, List.singleton_append]
  have total : net.length = front.sum + (length + back.sum) := by
    rw [whole', lengths, List.sum_append, List.sum_cons, List.sum_cons,
      Nat.zero_add]
  have some : (front ++ [length]).sum = front.sum + length := by
    rw [List.sum_append, List.sum_singleton]
  obtain ⟨last, rfl⟩ := Nat.exists_eq_succ_of_ne_zero positive
  have before : net.advance (front.sum + last) net.begin =
      .ok (net.parseOffset (front.sum + last)) := by
    have steps := @advance_parseOffset net (front.sum + last) 0 (by
      intro k _ most
      exact increment_noGap whole' cut without (by omega) (.inr (by omega)))
    rwa [Nat.zero_add] at steps
  have enters : net.increment (net.parseOffset (front.sum + last)) =
      .ok ⟨(front ++ [last + 1]).length, front.sum + (last + 1), 0⟩ := by
    rw [parseOffset_inside lengths (Nat.lt_succ_self last),
      increment_eq lengths (by omega)]
    unfold stepped lastIndex
    rw [if_neg (Nat.succ_ne_zero last), if_neg (by dsimp only; omega),
      List.length_append]
    rfl
  have stuck := @advance_empty net back.sum (front.sum + (last + 1))
    (front ++ [last + 1]) back cut sizeT (by omega)
  have arrives : net.advance net.length net.begin =
      .ok ⟨(front ++ [last + 1]).length,
        front.sum + (last + 1) + back.sum, back.sum⟩ := by
    rw [show net.length = front.sum + last + (1 + back.sum) by omega,
      advance_add, before, ok_bind, advance_add, advance, enters]
    exact stuck
  obtain ⟨i, run, same⟩ := faithful.reaches
  rw [arrives] at run
  cases run
  rw [endIterator_eq whole', BufferIterator.same, decide_eq_true_iff] at same
  have node := same.1
  rw [← length_chunkLengths, lengths] at node
  simp only [List.length_append, List.length_cons, List.length_nil] at node
  omega

theorem faithful_iff
    (segments : Segments net.Holding net.bufferList content)
    (sizeT : net.length < 2 ^ 64) :
    (Faithful net content ↔
      net.length = content.length ∧ NoGap net.chunkLengths) := by
  constructor
  · intro faithful
    exact ⟨faithful.length, noGap_of_faithful segments sizeT faithful⟩
  · rintro ⟨whole, without⟩
    exact faithful_of_noGap segments sizeT whole without

/-- An offset past `2 ^ 64` goes back to the front. -/
theorem plus_overflows
    (segments : Segments net.Holding net.bufferList content)
    (sizeT : net.length < 2 ^ 64) (faithful : Faithful net content)
    {k n : Nat} {i : BufferIterator} (inside : k ≤ net.length)
    (bounded : n < 2 ^ 64) (beyond : 2 ^ 64 ≤ k + n)
    (run : net.advance k net.begin = .ok i) :
    net.advance n i ≠ .ok (net.plus i n) := by
  intro same
  have without := noGap_of_faithful segments sizeT faithful
  have whole' : net.length = net.chunkLengths.sum :=
    faithful.length.trans (sum_chunkLengths segments).symm
  have reached := advance_noGap whole' without (Nat.zero_le _) k
  rw [Nat.zero_add, ← begin, run] at reached
  cases reached
  rw [advance_noGap whole' without inside, plus,
    offset_parseOffset whole' inside,
    parseOffset_end whole' (by omega)] at same
  have back : (k + n) % 2 ^ 64 < net.length := by omega
  have offsets := congrArg BufferIterator.offset (Except.ok.inj same)
  rw [offset_parseOffset whole' back.le, endIterator_eq whole'] at offsets
  exact Nat.ne_of_gt back offsets

end Faithfulness

section Runs

variable {calls : List Call} {state : Tracked}

theorem run_refines (run : Run (Guarded RegularIn Step) {} calls state) :
    state.net.Refines state.queue :=
  @Run.preserves _ _ _ Tracked.Valid Step.valid _ _ _ run refines_empty

/-- Iterators see the content of a reached buffer exactly where no empty chunk
follows one with bytes; what is added to an offset wraps at `2 ^ 64`. -/
theorem iterates_iff (run : Run (Guarded RegularIn Step) {} calls state)
    (sizeT : state.net.length < 2 ^ 64) :
    (Faithful state.net state.queue ↔ NoGap state.net.chunkLengths) ∧
    (Faithful state.net state.queue →
      ∀ k n i, k ≤ state.net.length → n < 2 ^ 64 → 2 ^ 64 ≤ k + n →
        state.net.advance k state.net.begin = .ok i →
        state.net.advance n i ≠ .ok (state.net.plus i n)) := by
  have refines : state.net.Refines state.queue := run_refines run
  constructor
  · rw [faithful_iff refines.segments sizeT]
    exact and_iff_right refines.length
  · intro faithful k n i inside bounded beyond advanced
    exact plus_overflows refines.segments sizeT faithful inside bounded beyond
      advanced

/-- A chunk of one byte is offered, and `count` bytes are written. -/
private def offered (count : Nat) : Call :=
  ⟨.fill 1 1 (List.replicate count 97), fun _ => 0⟩

private theorem run_full : ∃ state,
    Run (Guarded RegularIn Step) {}
      [offered 1, offered 1, ⟨.addSharedBuffer 7 ⟨some [98, 99], 0, 2, 2⟩
        [98, 99], fun _ => 0⟩, ⟨.moveHeader 1, fun _ => 0⟩] state ∧
      state.queue = [97, 98, 99] ∧ state.net.length = 3 ∧
      state.net.chunkLengths = [1, 2] := by
  refine ⟨_, .cons ⟨?_, .returns ?_ rfl⟩ (.cons ⟨?_, .returns ?_ rfl⟩
    (.cons ⟨trivial, .returns ⟨?_, .parts [] [98, 99] [], ?_⟩ rfl⟩
    (.cons ⟨?_, .returns trivial rfl⟩ (.nil _)))), rfl, rfl, rfl⟩
  · exact (by decide : 1 < 2 ^ 32)
  · refine ⟨Nat.le_refl 1, ?_⟩
    intro id next got
    cases got
    decide
  · exact (by decide : 1 < 2 ^ 32)
  · refine ⟨Nat.le_refl 1, ?_⟩
    intro id next got
    cases got
    decide
  · decide
  · decide
  · exact fun _ => (by decide : 0 < 2 ^ 32)

theorem iterates_iff_full : ∃ state,
    Run (Guarded RegularIn Step) {}
      [offered 1, offered 1, ⟨.addSharedBuffer 7 ⟨some [98, 99], 0, 2, 2⟩
        [98, 99], fun _ => 0⟩, ⟨.moveHeader 1, fun _ => 0⟩] state ∧
      state.queue = [97, 98, 99] ∧ Faithful state.net state.queue := by
  obtain ⟨state, run, queue, length, lengths⟩ := run_full
  refine ⟨state, run, queue, ?_⟩
  refine (iterates_iff run ?_).1.mpr ?_
  · rw [length]
    decide
  · rw [lengths]
    exact .cons_cons (by decide) (.singleton 2)

private theorem run_gap : ∃ state,
    Run (Guarded RegularIn Step) {} [offered 1, offered 0] state ∧
      state.queue = [97] ∧ state.net.length = 1 ∧
      state.net.chunkLengths = [1, 0] := by
  refine ⟨_, .cons ⟨?_, .returns ?_ rfl⟩ (.cons ⟨?_, .returns ?_ rfl⟩
    (.nil _)), rfl, rfl, rfl⟩
  · exact (by decide : 1 < 2 ^ 32)
  · refine ⟨Nat.le_refl 1, ?_⟩
    intro id next got
    cases got
    decide
  · exact (by decide : 0 < 2 ^ 32)
  · exact ⟨Nat.le_refl 1, fun _ _ _ => Nat.zero_le _⟩

/-- Behind an empty chunk that was offered there is no end. -/
theorem begin_never_ends : ∃ state,
    Run (Guarded RegularIn Step) {} [offered 1, offered 0] state ∧
      state.queue = [97] ∧ state.net.length = 1 ∧
      state.net.chunkLengths = [1, 0] ∧
      ¬ Faithful state.net state.queue ∧
      ∀ n, ∃ i, state.net.advance n state.net.begin = .ok i ∧
        i.same state.net.endIterator = false := by
  obtain ⟨state, run, queue, length, lengths⟩ := run_gap
  have sizeT : state.net.length < 2 ^ 64 := by
    rw [length]
    decide
  have nodes : state.net.bufferList.length = 2 := by
    rw [← length_chunkLengths, lengths]
    rfl
  have last : state.net.endIterator = ⟨2, 1, 0⟩ := by
    rw [endIterator_eq (by rw [length, lengths]; rfl), nodes, length]
  have first : state.net.begin = ⟨0, 0, 0⟩ := by
    have place := @parseOffset_inside state.net [] [0] 1 0 lengths Nat.one_pos
    exact place
  have enters : state.net.increment ⟨0, 0, 0⟩ = .ok ⟨1, 1, 0⟩ := by
    have inside : 0 < state.net.length := by
      rw [length]
      exact Nat.one_pos
    have step := @increment_eq state.net [] [0] 1 0 0 lengths inside
    exact step
  refine ⟨state, run, queue, length, lengths, ?_, ?_⟩
  · intro faithful
    have without :=
      noGap_of_faithful (run_refines run).segments sizeT faithful
    rw [lengths] at without
    cases without with
    | cons_cons follows _ => exact follows Nat.one_ne_zero rfl
  · intro n
    rw [first, last]
    cases n with
    | zero => exact ⟨_, rfl, rfl⟩
    | succ n =>
        refine ⟨⟨1, 1, 0⟩, ?_, rfl⟩
        rw [advance, enters, ok_bind]
        exact advance_stays (Nat.le_of_eq length) n

end Runs

end NetWorkBuffer

end TarsCpp.NetworkBuffer
