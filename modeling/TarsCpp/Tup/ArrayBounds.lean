import TarsCpp.Tup.Input

/-!
# Reading into arrays of the caller

The `read` overloads for `char *buf` with `bufLen` and for `T *v` with `len`.
The memory behind the pointer is a function of the index, with no regard to
how much of it belongs to the array, and every index that is stored to is
recorded.  The first overload checks the count against the capacity, the
second one does not.

So the overload for bytes never stores behind the array.  The overload for other
elements does so exactly where the input announces more elements than there
is room for, and has so many of them that the first one too much is stored.
-/

namespace TarsCpp.Tup

open PrefixDecoding

/-- What lies behind the pointer, the indices that have been stored to, the
last one first, and `readLen`. -/
structure Target (α : Type) where
  v : Nat → α
  stored : List Nat := []
  readLen : Nat

namespace Target

variable {α : Type}

def store (i : Nat) (item : α) (target : Target α) : Target α :=
  { target with
    v := Function.update target.v i item
    stored := i :: target.stored }

/-- `readBuf(buf, size)` copies all bytes at once. -/
def storeBytes (size : Nat) (bytes : List UInt8) (target : Target UInt8) :
    Target UInt8 :=
  { target with
    v := fun i => if i < size then bytes.getD i 0 else target.v i
    stored := (List.range size).reverse ++ target.stored }

end Target

/-- A type with its `read(T&, 0)`.  A read that ends with an exception may have
stored into its target before: `partly` is what it then leaves there. -/
structure ElementType (α : Type) where
  read : α → Decode α
  partly : α → BufferReader → Option α

/-- The types that are stored only after they have been decoded. -/
def ElementType.scalar (type : WireType) : ElementType Value where
  read target := Tup.read type target 0 true
  partly _ _ := none

abbrev ArrayDecode (α : Type) := EStateM Fault (BufferReader × Target α)

section Overloads

variable {α β : Type}

def onStream (decoder : Decode β) : ArrayDecode α β := fun (stream, target) =>
  match decoder.run stream with
  | .ok value after => .ok value (after, target)
  | .error fault after => .error fault (after, target)

/-- `read(v[i], 0)`, and `++i`. -/
def readItem (element : ElementType α) (i : Nat) : ArrayDecode α Nat :=
  fun (stream, target) =>
    match (element.read (target.v i)).run stream with
    | .ok item after => .ok (i + 1) (after, target.store i item)
    | .error fault after =>
        .error fault (after,
          match element.partly (target.v i) stream with
          | some item => target.store i item
          | none => target)

def arraySize (tag : UInt8) (size : Nat) : String :=
  s!"invalid size, tag: {tag}, type: {HeadType.list.code}, " ++
    s!"size: {signedCount size}"

def readArrayBody (element : ElementType α) (tag : UInt8)
    (headType : HeadType) : ArrayDecode α Unit :=
  match headType with
  | .list => do
      let size ← onStream (readCount (arraySize tag))
      let _ ← forCount (readItem element) size 0
      modify fun (stream, target) => (stream, { target with readLen := size })
  | _ => throw (.throws (typeMismatch 64 "vector struct" tag headType))

/-- `read(UInt32&, 0)` with the guard against counts above the capacity. -/
def readSize (bufLen : Nat) (invalid : Nat → String) : Decode Nat := do
  let size ← readUInt32Via (tarsSkipToTag 0) 0 0 true
  if size.toNat > bufLen then
    throw (.throws (.invalidValue (snprintf 128 (invalid size.toNat))))
  else
    pure size.toNat

def readCharsBody (bufLen : Nat) (tag : UInt8) (headType : HeadType) :
    ArrayDecode UInt8 Unit :=
  match headType with
  | .simpleList => do
      let (hheadType, hheadTag) ← onStream readFromHead
      if hheadType ≠ .char then
        throw (.throws (.mismatch (snprintf 128
          (s!"type mismatch, tag: {tag}, type: {headType.code}, " ++
            s!"{hheadType.code}, {hheadTag}"))))
      else
        let size ← onStream (readSize bufLen fun size =>
          s!"invalid size, tag: {tag}, type: {headType.code}, " ++
            s!"{hheadType.code}, size: {signedCount size}")
        let bytes ← onStream (readBuf size)
        modify fun (stream, target) =>
          (stream, { target.storeBytes size bytes with readLen := size })
  | _ => throw (.throws (.mismatch (snprintf 128
      s!"type mismatch, tag: {tag}, type: {headType.code}")))

def readArrayVia (missing : TarsDecodeException)
    (body : HeadType → ArrayDecode α Unit) (tag : UInt8) (isRequire : Bool) :
    ArrayDecode α Unit := do
  match ← onStream (catchDecode (tarsSkipToTag tag) none) with
  | some (headType, _) => body headType
  | none =>
      if isRequire then
        throw (.throws missing)
      else
        pure ()

/-- `read(char *buf, bufLen, readLen, tag, isRequire)`. -/
def readChars (bufLen : Nat) (tag : UInt8) (isRequire : Bool) :
    ArrayDecode UInt8 Unit :=
  readArrayVia (requireNotExist 128 tag 0) (readCharsBody bufLen tag) tag
    isRequire

/-- `read(T *v, len, readLen, tag, isRequire)`: `len` is not looked at. -/
def readArray (element : ElementType α) (_ : Nat) (tag : UInt8)
    (isRequire : Bool) : ArrayDecode α Unit :=
  readArrayVia (requireNotExist 64 tag 0) (readArrayBody element tag) tag
    isRequire

end Overloads

variable {α β : Type}

/-- Nothing is stored behind the array, and a call that does not throw reports
how much it has stored. -/
def WithinCapacity (len : Nat) :
    EStateM.Result Fault (BufferReader × Target α) Unit → Prop
  | .ok _ (_, target) => (∀ i ∈ target.stored, i < len) ∧
      target.readLen ≤ len ∧ target.readLen = target.stored.length
  | .error _ (_, target) => ∀ i ∈ target.stored, i < len

/-- The field is optional and not there. -/
def Absent (tag : UInt8) (isRequire : Bool) (stream : BufferReader) : Prop :=
  isRequire = false ∧ ∃ after,
    (catchDecode (tarsSkipToTag tag) none).run stream = .ok none after

theorem onStream_run (decoder : Decode β) (stream : BufferReader)
    (target : Target α) :
    (onStream decoder).run (stream, target) =
      match decoder.run stream with
      | .ok value after => .ok value (after, target)
      | .error fault after => .error fault (after, target) := rfl

section Calls

variable {missing : TarsDecodeException}
variable {body : HeadType → ArrayDecode α Unit} {tag : UInt8}
variable {isRequire : Bool} {stream : BufferReader} {target : Target α}
variable {len : Nat}

/-- A call is as good as what it does behind the head. -/
theorem within_readArrayVia (empty : target.stored = []) {Good : Prop}
    (found : ∀ headType headTag after,
      (catchDecode (tarsSkipToTag tag) none).run stream =
        .ok (some (headType, headTag)) after →
      (WithinCapacity len ((body headType).run (after, target)) ↔ Good))
    (other : (∀ headType headTag after,
      (catchDecode (tarsSkipToTag tag) none).run stream ≠
        .ok (some (headType, headTag)) after) → Good) :
    WithinCapacity len
        ((readArrayVia missing body tag isRequire).run (stream, target)) ↔
      (Absent tag isRequire stream → target.readLen = 0) ∧ Good := by
  unfold readArrayVia
  rw [EStateM.run_bind, onStream_run]
  cases search : (catchDecode (tarsSkipToTag tag) none).run stream with
  | error fault after =>
      have good := other (by
        intro headType headTag after' same
        rw [search] at same
        cases same)
      refine iff_of_true ?_ ⟨?_, good⟩
      · intro i member
        rw [empty] at member
        cases member
      · rintro ⟨-, after', same⟩
        rw [search] at same
        cases same
  | ok found' after =>
      cases found' with
      | some head =>
          obtain ⟨headType, headTag⟩ := head
          have present : ¬ Absent tag isRequire stream := by
            rintro ⟨-, after', same⟩
            rw [search] at same
            cases same
          rw [and_iff_right (fun absent => absurd absent present)]
          exact found headType headTag after search
      | none =>
          have good := other (by
            intro headType headTag after' same
            rw [search] at same
            cases same)
          rw [and_iff_left good]
          cases isRequire with
          | true =>
              refine iff_of_true ?_ (fun absent => nomatch absent.1)
              intro i member
              rw [empty] at member
              cases member
          | false =>
              have absent : Absent tag false stream := ⟨rfl, after, search⟩
              constructor
              · intro within _
                have reported : target.readLen = target.stored.length :=
                  within.2.2
                rw [reported, empty]
                rfl
              · intro zero
                have zero := zero absent
                refine ⟨?_, ?_, ?_⟩
                · intro i member
                  rw [empty] at member
                  cases member
                · exact Nat.le_trans (Nat.le_of_eq zero) (Nat.zero_le _)
                · exact zero.trans (congrArg List.length empty).symm

end Calls

theorem within_onStream_bind {decoder : Decode β}
    {rest : β → ArrayDecode α Unit} {stream : BufferReader}
    {target : Target α} {len : Nat} (empty : target.stored = [])
    (next : ∀ value after, decoder.run stream = .ok value after →
      WithinCapacity len ((rest value).run (after, target))) :
    WithinCapacity len ((onStream decoder >>= rest).run (stream, target)) := by
  rw [EStateM.run_bind, onStream_run]
  cases run : decoder.run stream with
  | ok value after => exact next value after run
  | error fault after =>
      intro i member
      rw [empty] at member
      cases member

theorem readSize_le {bufLen : Nat} {invalid : Nat → String}
    {stream after : BufferReader} {size : Nat}
    (run : (readSize bufLen invalid).run stream = .ok size after) :
    size ≤ bufLen := by
  unfold readSize at run
  rw [EStateM.run_bind] at run
  cases count : (readUInt32Via (tarsSkipToTag 0) 0 0 true).run stream with
  | error fault after' =>
      rw [count] at run
      cases run
  | ok value after' =>
      rw [count] at run
      dsimp only at run
      split_ifs at run with above
      · cases run
      · cases run
        exact Nat.le_of_not_lt above

theorem within_readCharsBody {bufLen : Nat} {tag : UInt8}
    {headType : HeadType} {stream : BufferReader} {target : Target UInt8}
    (empty : target.stored = []) :
    WithinCapacity bufLen
      ((readCharsBody bufLen tag headType).run (stream, target)) := by
  have nothing : ∀ i ∈ target.stored, i < bufLen := by
    intro i member
    rw [empty] at member
    cases member
  unfold readCharsBody
  split
  · apply within_onStream_bind empty
    rintro ⟨hheadType, hheadTag⟩ inner -
    dsimp only
    split_ifs with mismatch
    · exact nothing
    · apply within_onStream_bind empty
      intro size behind announced
      apply within_onStream_bind empty
      intro bytes after _
      have fits := readSize_le announced
      refine ⟨?_, fits, ?_⟩
      · intro i member
        dsimp only [Target.storeBytes] at member
        rw [empty, List.append_nil, List.mem_reverse, List.mem_range]
          at member
        exact Nat.lt_of_lt_of_le member fits
      · dsimp only [Target.storeBytes]
        rw [empty, List.append_nil, List.length_reverse, List.length_range]
  · exact nothing

section Elements

variable (element : ElementType α) (v : Nat → α)

/-- The input behind `count` elements from the `i`-th on, if they decode. -/
def behindItems : Nat → Nat → BufferReader → Option BufferReader
  | _, 0, stream => some stream
  | i, count + 1, stream =>
      match (element.read (v i)).run stream with
      | .ok _ after => behindItems (i + 1) count after
      | .error _ _ => none

/-- The read of an element stores into it. -/
def Stores (target : α) (stream : BufferReader) : Prop :=
  (∃ item after, (element.read target).run stream = .ok item after) ∨
    (element.partly target stream).isSome

variable {element v}

theorem readItem_run (i : Nat) (stream : BufferReader) (target : Target α) :
    (readItem element i).run (stream, target) =
      match (element.read (target.v i)).run stream with
      | .ok item after => .ok (i + 1) (after, target.store i item)
      | .error fault after => .error fault (after,
          match element.partly (target.v i) stream with
          | some item => target.store i item
          | none => target) := rfl

theorem readItem_ok {i : Nat} {stream after : BufferReader}
    {target : Target α} {item : α}
    (run : (element.read (target.v i)).run stream = .ok item after) :
    (readItem element i).run (stream, target) =
      .ok (i + 1) (after, target.store i item) := by
  rw [readItem_run, run]

theorem readItem_error {i : Nat} {stream after : BufferReader}
    {target : Target α} {fault : Fault}
    (run : (element.read (target.v i)).run stream = .error fault after) :
    ∃ final, (readItem element i).run (stream, target) =
        .error fault (after, final) ∧
      ((element.partly (target.v i) stream).isSome →
        final.stored = i :: target.stored) ∧
      (¬ (element.partly (target.v i) stream).isSome →
        final.stored = target.stored) := by
  rw [readItem_run, run]
  refine ⟨_, rfl, ?_, ?_⟩
  · intro stores
    obtain ⟨item, left⟩ := Option.isSome_iff_exists.mp stores
    rw [left]
    rfl
  · intro untouched
    rw [Option.not_isSome_iff_eq_none.mp untouched]

/-- The loop stores to the elements it has decoded, and at most to the one
behind them. -/
theorem items_run (count : Nat) : ∀ (i : Nat) (stream : BufferReader)
    (target : Target α), (∀ j, i ≤ j → target.v j = v j) →
    (∃ after final,
      (forCount (readItem element) count i).run (stream, target) =
        .ok (i + count) (after, final) ∧
      behindItems element v i count stream = some after ∧
      (∀ j, i + count ≤ j → final.v j = v j) ∧
      final.stored.length = target.stored.length + count ∧
      ∀ j ∈ final.stored, j ∈ target.stored ∨ j < i + count) ∨
    (∃ fault after final,
      (forCount (readItem element) count i).run (stream, target) =
        .error fault (after, final) ∧
      behindItems element v i count stream = none ∧
      ∀ j ∈ final.stored, j ∈ target.stored ∨ j < i + count) := by
  induction count with
  | zero =>
      intro i stream target same
      exact .inl ⟨stream, target, rfl, rfl, same, rfl,
        fun j member => .inl member⟩
  | succ count induction =>
      intro i stream target same
      unfold forCount behindItems
      rw [EStateM.run_bind, ← same i (Nat.le_refl i)]
      cases run : (element.read (target.v i)).run stream with
      | error fault after =>
          obtain ⟨final, turn, stores, untouched⟩ := readItem_error run
          rw [turn]
          refine .inr ⟨fault, after, final, rfl, rfl, ?_⟩
          intro j member
          by_cases partly : (element.partly (target.v i) stream).isSome
          · rw [stores partly, List.mem_cons] at member
            rcases member with rfl | earlier
            · exact .inr (by omega)
            · exact .inl earlier
          · rw [untouched partly] at member
            exact .inl member
      | ok item after =>
          rw [readItem_ok run]
          have later : ∀ j, i + 1 ≤ j → (target.store i item).v j = v j := by
            intro j behind
            rw [← same j (by omega)]
            exact Function.update_of_ne (by omega) _ _
          have stored : ∀ j ∈ (target.store i item).stored,
              j ∈ target.stored ∨ j < i + (count + 1) := by
            intro j member
            rcases List.mem_cons.mp member with rfl | earlier
            · exact .inr (by omega)
            · exact .inl earlier
          rcases induction (i + 1) after (target.store i item) later with
            ⟨after', final, turns, behind, same', length, among⟩ |
              ⟨fault, after', final, turns, behind, among⟩
          · refine .inl ⟨after', final, ?_, behind, ?_, ?_, ?_⟩
            · rw [show i + (count + 1) = i + 1 + count by omega]
              exact turns
            · intro j far
              exact same' j (by omega)
            · rw [length]
              exact Nat.succ_add_eq_add_succ _ _
            · intro j member
              rcases among j member with earlier | less
              · exact stored j earlier
              · exact .inr (by omega)
          · refine .inr ⟨fault, after', final, turns, behind, ?_⟩
            intro j member
            rcases among j member with earlier | less
            · exact stored j earlier
            · exact .inr (by omega)

/-- What has been stored to stays so, however the loop ends. -/
theorem stored_forCount (count : Nat) : ∀ (i : Nat) (stream : BufferReader)
    (target : Target α) {j : Nat}, j ∈ target.stored →
    match (forCount (readItem element) count i).run (stream, target) with
    | .ok _ (_, final) => j ∈ final.stored
    | .error _ (_, final) => j ∈ final.stored := by
  induction count with
  | zero =>
      intro i stream target j member
      exact member
  | succ count induction =>
      intro i stream target j member
      unfold forCount
      rw [EStateM.run_bind]
      cases run : (element.read (target.v i)).run stream with
      | error fault after =>
          obtain ⟨final, turn, stores, untouched⟩ := readItem_error run
          rw [turn]
          dsimp only
          by_cases partly : (element.partly (target.v i) stream).isSome
          · rw [stores partly]
            exact List.mem_cons_of_mem _ member
          · rw [untouched partly]
            exact member
      | ok item after =>
          rw [readItem_ok run]
          exact induction (i + 1) after _ (List.mem_cons_of_mem _ member)

end Elements

/-- The elements behind the count: more than there is room for, and the first
one too much is stored. -/
def TooMany (element : ElementType α) (v : Nat → α) (len size : Nat)
    (items : BufferReader) : Prop :=
  len < size ∧ ∃ behind, behindItems element v 0 len items = some behind ∧
    Stores element (v len) behind

section Loop

variable {element : ElementType α} {target : Target α} {len size : Nat}
variable {items : BufferReader}

/-- `readLen = size;` -/
def report (size : Nat) : ArrayDecode α Unit :=
  modify fun (stream, target) => (stream, { target with readLen := size })

/-- `for (i = 0; i < size; ++i) read(v[i], 0); readLen = size;` -/
def readItems (element : ElementType α) (size : Nat) : ArrayDecode α Unit := do
  let _ ← forCount (readItem element) size 0
  report size

theorem within_of_fits (empty : target.stored = []) (fits : size ≤ len) :
    WithinCapacity len ((readItems element size).run (items, target)) := by
  unfold readItems
  rw [EStateM.run_bind]
  rcases @items_run α element target.v size 0 items target (fun _ _ => rfl)
    with ⟨after, final, run, -, -, length, among⟩ |
      ⟨fault, after, final, run, -, among⟩
  · rw [run]
    rw [empty] at length among
    refine ⟨?_, fits, ?_⟩
    · intro j member
      rcases among j member with none | less
      · cases none
      · omega
    · exact (length.trans (Nat.zero_add size)).symm
  · rw [run]
    intro j member
    rw [empty] at among
    rcases among j member with none | less
    · cases none
    · omega

/-- Once the element behind the array is stored, the call is lost. -/
theorem not_within_of_stored {count : Nat} {final : Target α}
    (member : len ∈ final.stored) :
    ¬ WithinCapacity len ((forCount (readItem element) count (len + 1) >>=
      fun _ => report size).run (items, final)) := by
  intro within
  rw [EStateM.run_bind] at within
  have stays := @stored_forCount α element count (len + 1) items final len
    member
  cases run : (forCount (readItem element) count (len + 1)).run
      (items, final) with
  | ok n after =>
      rw [run] at within stays
      exact Nat.lt_irrefl len (within.1 len stays)
  | error fault after =>
      rw [run] at within stays
      exact Nat.lt_irrefl len (within len stays)

theorem within_iff_of_more (empty : target.stored = []) (more : len < size) :
    WithinCapacity len ((readItems element size).run (items, target)) ↔
      ¬ ∃ behind, behindItems element target.v 0 len items = some behind ∧
        Stores element (target.v len) behind := by
  obtain ⟨count, rfl⟩ := Nat.exists_eq_add_of_le more
  unfold readItems
  rw [show len + 1 + count = len + (count + 1) by omega, forCount_add,
    bind_assoc, EStateM.run_bind]
  rcases @items_run α element target.v len 0 items target (fun _ _ => rfl)
    with ⟨after, final, run, decodes, same, -, among⟩ |
      ⟨fault, after, final, run, fails, among⟩
  · have inside : ∀ j ∈ final.stored, j < len := by
      intro j member
      rw [empty] at among
      rcases among j member with none | less
      · cases none
      · omega
    have element' := same len (by omega)
    rw [run, decodes, Nat.zero_add]
    simp only [Option.some.injEq, exists_eq_left']
    rw [forCount, bind_assoc, EStateM.run_bind, Stores, ← element']
    cases turn : (element.read (final.v len)).run after with
    | ok item after' =>
        rw [readItem_ok turn]
        refine iff_of_false (not_within_of_stored List.mem_cons_self) ?_
        exact not_not_intro (.inl ⟨item, after', rfl⟩)
    | error fault after' =>
        obtain ⟨final', turn', stores, untouched⟩ := readItem_error turn
        rw [turn']
        by_cases partly : (element.partly (final.v len) after).isSome
        · refine iff_of_false ?_ (not_not_intro (.inr partly))
          intro within
          have stored := stores partly
          exact Nat.lt_irrefl len (within len (by
            rw [stored]
            exact List.mem_cons_self))
        · refine iff_of_true ?_ ?_
          · intro j member
            rw [untouched partly] at member
            exact inside j member
          · rintro (⟨item, after'', same'⟩ | partly')
            · cases same'
            · exact partly partly'
  · rw [run, fails]
    refine iff_of_true ?_ ?_
    · intro j member
      rw [empty] at among
      rcases among j member with none | less
      · cases none
      · omega
    · rintro ⟨behind, decodes, -⟩
      cases decodes

theorem within_readItems_iff (empty : target.stored = []) :
    WithinCapacity len ((readItems element size).run (items, target)) ↔
      ¬ TooMany element target.v len size items := by
  rcases Nat.lt_or_ge len size with more | fits
  · rw [within_iff_of_more empty more, TooMany, and_iff_right more]
  · refine iff_of_true (within_of_fits empty fits) ?_
    rintro ⟨more, -⟩
    exact Nat.not_lt.mpr fits more

end Loop

/-- The input has a list with the tag that holds too many elements. -/
def Overruns (element : ElementType α) (v : Nat → α) (len : Nat)
    (tag : UInt8) (stream : BufferReader) : Prop :=
  ∃ headTag inner size items,
    (catchDecode (tarsSkipToTag tag) none).run stream =
      .ok (some (.list, headTag)) inner ∧
    (readCount (arraySize tag)).run inner = .ok size items ∧
    TooMany element v len size items

theorem within_readArrayBody_iff {element : ElementType α} {len : Nat}
    {tag headTag : UInt8} {headType : HeadType}
    {stream inner : BufferReader} {target : Target α}
    (empty : target.stored = [])
    (search : (catchDecode (tarsSkipToTag tag) none).run stream =
      .ok (some (headType, headTag)) inner) :
    WithinCapacity len
        ((readArrayBody element tag headType).run (inner, target)) ↔
      ¬ Overruns element target.v len tag stream := by
  have nothing : ∀ i ∈ target.stored, i < len := by
    intro i member
    rw [empty] at member
    cases member
  by_cases list : headType = .list
  · subst list
    have loop : readArrayBody element tag .list =
        onStream (readCount (arraySize tag)) >>= readItems element := rfl
    rw [loop, EStateM.run_bind, onStream_run]
    cases count : (readCount (arraySize tag)).run inner with
    | ok size items =>
        rw [within_readItems_iff empty, not_iff_not]
        constructor
        · intro many
          exact ⟨headTag, inner, size, items, search, count, many⟩
        · rintro ⟨headTag', inner', size', items', search', count', many⟩
          rw [search] at search'
          cases search'
          rw [count] at count'
          cases count'
          exact many
    | error fault after =>
        refine iff_of_true nothing ?_
        rintro ⟨headTag', inner', size', items', search', count', -⟩
        rw [search] at search'
        cases search'
        rw [count] at count'
        cases count'
  · have thrown : ∃ fault, (readArrayBody element tag headType).run
        (inner, target) = .error fault (inner, target) := by
      unfold readArrayBody
      split
      · exact absurd rfl list
      · exact ⟨_, rfl⟩
    obtain ⟨fault, run⟩ := thrown
    rw [run]
    refine iff_of_true nothing ?_
    rintro ⟨headTag', inner', size', items', search', -⟩
    rw [search] at search'
    cases search'
    exact list rfl

/-- Reading bytes stays within the capacity; reading elements does so except
where the input overruns the array.  If an optional field is absent, both
report what was in `readLen` before. -/
theorem arrays_within_iff (element : ElementType α) (len : Nat) (tag : UInt8)
    (isRequire : Bool) (stream : BufferReader) (readLen : Nat)
    (buf : Nat → UInt8) (v : Nat → α) :
    (WithinCapacity len ((readChars len tag isRequire).run
        (stream, { v := buf, readLen })) ↔
      (Absent tag isRequire stream → readLen = 0)) ∧
    (WithinCapacity len ((readArray element len tag isRequire).run
        (stream, { v, readLen })) ↔
      (Absent tag isRequire stream → readLen = 0) ∧
        ¬ Overruns element v len tag stream) := by
  constructor
  · unfold readChars
    refine Iff.trans (within_readArrayVia rfl ?_ fun _ => trivial)
      (and_iff_left trivial)
    intro headType headTag after _
    exact iff_of_true (within_readCharsBody rfl) trivial
  · unfold readArray
    refine within_readArrayVia rfl ?_ ?_
    · intro headType headTag inner search
      exact within_readArrayBody_iff rfl search
    · rintro elsewhere ⟨headTag, inner, size, items, search, -⟩
      exact elsewhere .list headTag inner search

section Counterexample

/-- A list of two `Short`s with tag 0. -/
def twoShorts : BufferReader :=
  .setBuffer [0x09, 0x00, 2, 0x00, 7, 0x00, 8] (by decide)

/-- Two elements are stored in an array of one. -/
theorem array_of_one_overrun :
    let read := (readArray (.scalar .short) 1 0 true).run
      (twoShorts, { v := fun _ => .short 0, readLen := 0 })
    (∃ after final, read = .ok () (after, final) ∧ final.stored = [1, 0] ∧
      final.readLen = 2) ∧ ¬ WithinCapacity 1 read := by
  have run : ∃ after final, (readArray (.scalar .short) 1 0 true).run
      (twoShorts, { v := fun _ => .short 0, readLen := 0 }) =
        .ok () (after, final) ∧ final.stored = [1, 0] ∧
          final.readLen = 2 := by
    exact ⟨_, _, rfl, rfl, rfl⟩
  refine ⟨run, ?_⟩
  obtain ⟨after, final, same, stored, readLen⟩ := run
  rw [same]
  intro within
  have bound : final.readLen ≤ 1 := within.2.1
  omega

end Counterexample

end TarsCpp.Tup
