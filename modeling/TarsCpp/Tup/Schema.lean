import TarsCpp.Tup.Evolution

/-!
# Readers and writers of different versions

A reader asks for fields by tag.  What it should get is a relation between
the request and the fields that were written; what is left for the next
request are the fields with larger tags.  One request keeps that description
of the stream, hence so does any ascending sequence of requests, and skipping
to the end of the struct stops behind it.
-/

namespace TarsCpp.Tup

open PrefixDecoding

/-- One `read` call of a generated `readFrom`. -/
structure ReadRequest where
  type : WireType
  target : Value
  tag : UInt8
  isRequire : Bool

/-- The value that a request should leave in its target. -/
inductive Answers (fields : List (UInt8 × Value)) :
    ReadRequest → Value → Prop
  | present {type target tag isRequire value} :
      (tag, value) ∈ fields → type.HasType value → type.Fresh target →
      Answers fields ⟨type, target, tag, isRequire⟩ value
  | absent {type : WireType} {target tag} : (∀ field ∈ fields, field.1 ≠ tag) →
      Answers fields ⟨type, target, tag, false⟩ target

abbrev Ascending (tags : List UInt8) : Prop := tags.Pairwise (· < ·)

/-- A sequence of `read` calls. -/
def readAll : List ReadRequest → Decode (List Value)
  | [] => pure []
  | request :: requests => do
      let value ← read request.type request.target request.tag
        request.isRequire
      let values ← readAll requests
      pure (value :: values)

/-- The fields that no request has reached yet. -/
def unread (fields : List (UInt8 × Value)) (tags : List UInt8) :
    List (UInt8 × Value) :=
  fields.filter fun field => tags.all (· < field.1)

theorem WellTyped.unread {fields : List (UInt8 × Value)}
    (typed : WellTyped fields) (tags : List UInt8) :
    WellTyped (unread fields tags) := by
  intro field member
  exact typed field (List.mem_filter.mp member).1

private theorem unread_split {before later : List (UInt8 × Value)}
    {tag : UInt8} (below : ∀ field ∈ before, field.1 ≤ tag)
    (above : ∀ field ∈ later, tag < field.1) :
    unread (before ++ later) [tag] = later := by
  have none : before.filter (fun field => [tag].all (· < field.1)) = [] := by
    rw [List.filter_eq_nil_iff]
    intro field member passes
    have larger : tag < field.1 := by simpa using passes
    exact UInt8.lt_irrefl _ (UInt8.lt_of_lt_of_le larger (below field member))
  have all : later.filter (fun field => [tag].all (· < field.1)) = later := by
    rw [List.filter_eq_self]
    intro field member
    simpa using above field member
  rw [unread, List.filter_append, none, all, List.nil_append]

private theorem split_absent {fields : List (UInt8 × Value)}
    (ascending : Ascending (fields.map (·.1))) {tag : UInt8}
    (absent : ∀ field ∈ fields, field.1 ≠ tag) :
    ∃ before later, fields = before ++ later ∧
      (∀ field ∈ before, field.1 < tag) ∧
      ∀ field ∈ later, tag < field.1 := by
  induction fields with
  | nil => exact ⟨[], [], rfl, by simp, by simp⟩
  | cons field fields induction =>
      rw [Ascending, List.map_cons, List.pairwise_cons] at ascending
      rw [List.forall_mem_cons] at absent
      obtain ⟨smallest, ascendingRest⟩ := ascending
      by_cases below : field.1 < tag
      · obtain ⟨before, later, split, low, high⟩ :=
          induction ascendingRest absent.2
        refine ⟨field :: before, later, ?_, ?_, high⟩
        · rw [split, List.cons_append]
        · rw [List.forall_mem_cons]
          exact ⟨below, low⟩
      · have above : tag < field.1 :=
          UInt8.lt_of_le_of_ne (UInt8.not_lt.mp below) absent.1.symm
        refine ⟨[], field :: fields, rfl, by simp, ?_⟩
        rw [List.forall_mem_cons]
        refine ⟨above, fun other member => ?_⟩
        exact UInt8.lt_trans above
          (smallest other.1 (List.mem_map_of_mem member))

private theorem split_present {fields : List (UInt8 × Value)}
    (ascending : Ascending (fields.map (·.1))) {tag : UInt8} {value : Value}
    (member : (tag, value) ∈ fields) :
    ∃ before later, fields = before ++ (tag, value) :: later ∧
      (∀ field ∈ before, field.1 < tag) ∧
      ∀ field ∈ later, tag < field.1 := by
  obtain ⟨before, later, rfl⟩ := List.append_of_mem member
  rw [Ascending, List.map_append, List.map_cons, List.pairwise_append,
    List.pairwise_cons] at ascending
  obtain ⟨_, ⟨high, _⟩, low⟩ := ascending
  refine ⟨before, later, rfl, ?_, ?_⟩
  · intro field origin
    exact low field.1 (List.mem_map_of_mem origin) tag List.mem_cons_self
  · intro field origin
    exact high field.1 (List.mem_map_of_mem origin)

/-- What follows the fields below a tag starts with a head that stops the
search for the tag. -/
private theorem exists_stopping_head {later : List (UInt8 × Value)}
    {tag : UInt8} (above : ∀ field ∈ later, tag < field.1)
    (rest : List UInt8) :
    ∃ headType next tail,
      encodeFields later ++ (writeToHead .structEnd 0 ++ rest) =
        writeToHead headType next ++ tail ∧
      headType.Known ∧ (headType = .structEnd ∨ tag < next) := by
  cases later with
  | nil => exact ⟨.structEnd, 0, rest, rfl, trivial, .inl rfl⟩
  | cons field later =>
      refine ⟨field.2.head, field.1, field.2.payload ++
          (encodeFields later ++ (writeToHead .structEnd 0 ++ rest)), ?_,
        field.2.head_opens.known, .inr (above field List.mem_cons_self)⟩
      simp only [encodeFields, List.append_assoc]

theorem read_answers {fields : List (UInt8 × Value)}
    (ascending : Ascending (fields.map (·.1))) (typed : WellTyped fields)
    {request : ReadRequest} {value : Value}
    (answer : Answers fields request value) {stream : BufferReader}
    {rest : List UInt8}
    (facing : stream.Facing
      (encodeFields fields ++ (writeToHead .structEnd 0 ++ rest))) :
    ∃ cur, (read request.type request.target request.tag
        request.isRequire).run stream = .ok value (stream.moveTo cur) ∧
      (stream.moveTo cur).Facing (encodeFields (unread fields [request.tag]) ++
        (writeToHead .structEnd 0 ++ rest)) := by
  cases answer with
  | @present type target tag isRequire value member typedValue fresh =>
      obtain ⟨before, later, rfl, below, above⟩ :=
        split_present ascending member
      have typedBefore : WellTyped before := by
        intro field origin
        exact typed field (List.mem_append_left _ origin)
      have reads := reads_present typedValue fresh isRequire typedBefore below
      have left : unread (before ++ (tag, value) :: later) [tag] = later := by
        rw [List.append_cons]
        refine unread_split ?_ above
        intro field origin
        rcases List.mem_append.mp origin with origin | origin
        · exact UInt8.le_of_lt (below field origin)
        · rw [List.mem_singleton.mp origin]
          exact UInt8.le_refl tag
      have split : encodeFields (before ++ (tag, value) :: later) ++
          (writeToHead .structEnd 0 ++ rest) =
          (encodeFields before ++ encode value tag) ++
            (encodeFields later ++ (writeToHead .structEnd 0 ++ rest)) := by
        simp only [encodeFields_eq, List.flatMap_append, List.flatMap_cons,
          List.append_assoc]
      rw [split] at facing
      refine ⟨_, reads stream _ facing, ?_⟩
      rw [left]
      exact facing.moveTo
  | @absent type _ tag missing =>
      obtain ⟨before, later, rfl, below, above⟩ :=
        split_absent ascending missing
      have typedBefore : WellTyped before := by
        intro field origin
        exact typed field (List.mem_append_left _ origin)
      obtain ⟨headType, next, tail, starts, known, beyond⟩ :=
        exists_stopping_head above rest
      have reads := readsBefore_absent type value typedBefore below known
        beyond
      have left : unread (before ++ later) [tag] = later :=
        unread_split (fun field origin => UInt8.le_of_lt (below field origin))
          above
      have split : encodeFields (before ++ later) ++
          (writeToHead .structEnd 0 ++ rest) = encodeFields before ++
            (encodeFields later ++ (writeToHead .structEnd 0 ++ rest)) := by
        simp only [encodeFields_eq, List.flatMap_append, List.append_assoc]
      rw [split] at facing
      have moved := facing.moveTo
      rw [starts] at facing
      refine ⟨_, reads stream _ facing, ?_⟩
      rw [left]
      exact moved

/-- Requests with larger tags do not see the fields that are behind. -/
private theorem Answers.unread {fields : List (UInt8 × Value)} {tag : UInt8}
    {request : ReadRequest} {value : Value}
    (answer : Answers fields request value) (later : tag < request.tag) :
    Answers (unread fields [tag]) request value := by
  cases answer with
  | present member typed fresh =>
      refine .present (List.mem_filter.mpr ⟨member, ?_⟩) typed fresh
      simpa using later
  | absent missing =>
      exact .absent fun field member =>
        missing field (List.mem_filter.mp member).1

private theorem answers_later {fields : List (UInt8 × Value)} {tag : UInt8}
    {requests : List ReadRequest} {values : List Value}
    (each : List.Forall₂ (Answers fields) requests values)
    (later : ∀ request ∈ requests, tag < request.tag) :
    List.Forall₂ (Answers (unread fields [tag])) requests values := by
  induction each with
  | nil => exact .nil
  | cons answer _ induction =>
      rw [List.forall_mem_cons] at later
      exact .cons (answer.unread later.1) (induction later.2)

private theorem unread_unread (fields : List (UInt8 × Value)) (tag : UInt8)
    (tags : List UInt8) :
    unread (unread fields [tag]) tags = unread fields (tag :: tags) := by
  unfold unread
  rw [List.filter_filter]
  congr 1
  funext field
  simp [Bool.and_comm]

theorem readAll_answers {requests : List ReadRequest} :
    ∀ {fields : List (UInt8 × Value)} {answers : List Value}
      {stream : BufferReader} {rest : List UInt8},
      Ascending (fields.map (·.1)) → WellTyped fields →
      Ascending (requests.map (·.tag)) →
      List.Forall₂ (Answers fields) requests answers →
      stream.Facing
        (encodeFields fields ++ (writeToHead .structEnd 0 ++ rest)) →
      ∃ cur, (readAll requests).run stream =
          .ok answers (stream.moveTo cur) ∧
        (stream.moveTo cur).Facing
          (encodeFields (unread fields (requests.map (·.tag))) ++
            (writeToHead .structEnd 0 ++ rest)) := by
  induction requests with
  | nil =>
      intro fields answers stream rest _ _ _ each facing
      cases each
      have all : Tup.unread fields [] = fields := by simp [Tup.unread]
      refine ⟨stream.cur, rfl, ?_⟩
      rw [List.map_nil, all]
      exact facing
  | cons request requests induction =>
      intro fields answers stream rest ascending typed asked each facing
      rw [Ascending, List.map_cons, List.pairwise_cons] at asked
      obtain ⟨smallest, askedRest⟩ := asked
      cases each with
      | @cons _ value _ values answer answersRest =>
          obtain ⟨middle, first, facingMiddle⟩ :=
            read_answers ascending typed answer facing
          have ascendingLeft :
              Ascending ((Tup.unread fields [request.tag]).map (·.1)) :=
            List.Pairwise.sublist (List.filter_sublist.map _) ascending
          have answersLeft : List.Forall₂
              (Answers (Tup.unread fields [request.tag])) requests values := by
            refine answers_later answersRest ?_
            intro later member
            exact smallest later.tag (List.mem_map_of_mem member)
          obtain ⟨cur, second, facingAfter⟩ := induction ascendingLeft
            (typed.unread _) askedRest answersLeft facingMiddle
          rw [BufferReader.moveTo_moveTo] at second facingAfter
          refine ⟨cur, ?_, ?_⟩
          · rw [readAll, EStateM.run_bind, first]
            simp only
            rw [EStateM.run_bind, second]
            rfl
          · rw [List.map_cons, ← unread_unread]
            exact facingAfter

private theorem WellTyped.exists_types {fields : List (UInt8 × Value)}
    (typed : WellTyped fields) : ∃ types : FieldTypes, types.HasFields fields := by
  induction fields with
  | nil => exact ⟨.nil, .nil⟩
  | cons field fields induction =>
      rw [WellTyped, List.forall_mem_cons] at typed
      obtain ⟨⟨type, typedValue⟩, typedRest⟩ := typed
      obtain ⟨types, typedFields⟩ := induction typedRest
      exact ⟨.cons field.1 true field.2 type types,
        .cons typedValue typedFields⟩

theorem reads_skipToStructEnd_fields {fields : List (UInt8 × Value)}
    (typed : WellTyped fields) :
    Reads skipToStructEnd (encodeFields fields ++ writeToHead .structEnd 0)
      () := by
  obtain ⟨types, typedFields⟩ := typed.exists_types
  intro stream rest facing
  have total := BufferReader.Facing.length facing
  simp only [List.length_append] at total
  have enough : 2 * (encodeFields fields).length + 4 ≤ budget stream := by
    unfold budget
    omega
  unfold skipToStructEnd
  rw [EStateM.run_bind, EStateM.run_get]
  exact reads_skipFields typedFields enough stream rest facing

private theorem ofCode_code {headType : HeadType} (known : headType.Known) :
    HeadType.ofCode headType.code = headType := by
  cases headType with
  | unknown code => exact known.elim
  | _ => rfl

/-- `skipField` behind a written head consumes exactly the payload. -/
theorem reads_skipField {type : WireType} {value : Value}
    (typed : type.HasType value) :
    Reads (skipField value.head.code) value.payload () := by
  intro stream rest facing
  have total := BufferReader.Facing.length facing
  simp only [List.length_append] at total
  have enough : 2 * value.payload.length + 3 ≤ budget stream := by
    unfold budget
    omega
  unfold skipField
  rw [EStateM.run_bind, EStateM.run_get, ofCode_code value.head_opens.known]
  exact reads_skipFieldWith typed enough stream rest facing

/-- A reader of another version of a struct gets the fields both sides know,
keeps its targets for the others, has read nothing beyond its last tag, and
skips exactly to the end of the struct. -/
theorem readAll_writeTo {fields : List (UInt8 × Value)}
    (ascending : Ascending (fields.map (·.1))) (typed : WellTyped fields)
    {requests : List ReadRequest}
    (asked : Ascending (requests.map (·.tag))) {answers : List Value}
    (each : List.Forall₂ (Answers fields) requests answers) :
    (∃ body, writeTo fields = .ok body ∧
      ∀ (stream : BufferReader) (rest : List UInt8),
        stream.Facing (body ++ writeToHead .structEnd 0 ++ rest) →
        ∃ cur left,
          (readAll requests).run stream = .ok answers (stream.moveTo cur) ∧
          writeTo (unread fields (requests.map (·.tag))) = .ok left ∧
          (stream.moveTo cur).Facing
            (left ++ writeToHead .structEnd 0 ++ rest) ∧
          skipToStructEnd.run (stream.moveTo cur) =
            .ok () (stream.moveTo (stream.cur +
              (body ++ writeToHead .structEnd 0).length))) ∧
    ∀ (type : WireType) (value : Value), type.HasType value →
      ∀ tag, ∃ payload,
        write value tag = .ok (writeToHead value.head tag ++ payload) ∧
        Reads (skipField value.head.code) payload () := by
  constructor
  · obtain ⟨types, typedFields⟩ := typed.exists_types
    have typedLeft := typed.unread (requests.map (·.tag))
    obtain ⟨typesLeft, typedFieldsLeft⟩ := typedLeft.exists_types
    refine ⟨encodeFields fields, writeTo_eq_encodeFields typedFields, ?_⟩
    intro stream rest facing
    have total := facing.length
    rw [List.append_assoc] at facing
    obtain ⟨cur, decoded, facingLeft⟩ :=
      readAll_answers ascending typed asked each facing
    rw [← List.append_assoc] at facingLeft
    refine ⟨cur, _, decoded, writeTo_eq_encodeFields typedFieldsLeft,
      facingLeft, ?_⟩
    have totalLeft := facingLeft.length
    have skipped := reads_skipToStructEnd_fields typedLeft _ rest facingLeft
    have same : cur + (encodeFields (unread fields (requests.map (·.tag))) ++
        writeToHead .structEnd 0).length = stream.cur +
        (encodeFields fields ++ writeToHead .structEnd 0).length := by
      rw [List.length_append] at total totalLeft
      rw [BufferReader.moveTo_cur, BufferReader.moveTo_size] at totalLeft
      omega
    rw [← same]
    exact skipped
  · intro type value typedValue tag
    exact ⟨value.payload, write_eq_encode typedValue tag,
      reads_skipField typedValue⟩

/-- A newer writer's struct, with a nested struct in the middle, read by a
reader that knows a field the writer does not. -/
theorem readAll_writeTo_newer :
    let fields := [(1, Value.int32 70000),
      (4, .struct [(0, .string [104, 105]), (2, .bool true)]),
      (20, .charVector [1, 2, 3])]
    let requests := [ReadRequest.mk .int32 (.int32 0) 1 true,
      ⟨.double, .double 9, 3, false⟩, ⟨.charVector, .charVector [], 20, true⟩]
    let body := [18, 0, 1, 17, 112, 74, 6, 2, 104, 105, 32, 1, 11,
      253, 20, 0, 0, 3, 1, 2, 3]
    writeTo fields = .ok body ∧
      ∀ fits : (body ++ [11, 99]).length < sizeLimit,
        let stream := BufferReader.setBuffer (body ++ [11, 99]) fits
        (readAll requests).run stream =
            .ok [.int32 70000, .double 9, .charVector [1, 2, 3]]
              (stream.moveTo 21) ∧
          skipToStructEnd.run (stream.moveTo 21) =
            .ok () (stream.moveTo 22) := by
  intro fields requests body
  have typed : WellTyped fields := by
    intro field member
    simp only [fields, List.mem_cons, List.not_mem_nil, or_false] at member
    rcases member with rfl | rfl | rfl
    · exact ⟨.int32, .int32 _⟩
    · exact ⟨.struct (.cons 0 true (.string []) .string
          (.cons 2 true (.bool false) .bool .nil)),
        .struct (.cons (.string (by decide)) (.cons (.bool _) .nil))⟩
    · exact ⟨.charVector, .charVector (by decide)⟩
  have each : List.Forall₂ (Answers fields) requests
      [.int32 70000, .double 9, .charVector [1, 2, 3]] := by
    refine .cons (.present (by simp [fields]) (.int32 _) trivial)
      (.cons (.absent (by simp [fields])) (.cons (.present
        (by simp [fields]) (.charVector (by decide)) trivial) .nil))
  obtain ⟨⟨written, success, decodes⟩, _⟩ := readAll_writeTo
    (by decide) typed (by decide) each
  have evaluated : writeTo fields = .ok body := by rfl
  obtain rfl : written = body := by
    rw [success] at evaluated
    exact Except.ok.inj evaluated
  refine ⟨success, fun fits => ?_⟩
  intro stream
  obtain ⟨cur, left, decoded, writtenLeft, facingLeft, skipped⟩ :=
    decodes stream [99] ⟨Nat.zero_le _, rfl⟩
  have nothing : left = [] := by
    have none : writeTo (unread fields (requests.map (·.tag))) = .ok [] := by
      rfl
    rw [writtenLeft] at none
    exact Except.ok.inj none
  have position : cur = 21 := by
    have total := facingLeft.length
    rw [nothing] at total
    exact Nat.add_right_cancel total
  rw [position] at decoded skipped
  exact ⟨decoded, skipped⟩

/-- As many entries as a 32-bit count cannot double. -/
def hugeEntries : List (Value × Value) :=
  (List.range (2 ^ 31)).map fun key =>
    (.uint32 (BitVec.ofNat 32 key), .bool false)

private theorem length_hugeEntries : hugeEntries.length = 2 ^ 31 := by
  rw [hugeEntries, List.length_map, List.length_range]

private theorem reads_skipMap_doubledCount {fuel : Nat} (enough : 2 ≤ fuel) :
    Reads (skipFieldWith fuel .map) (writeCount (2 ^ 31)) () := by
  obtain ⟨fuel, rfl⟩ := Nat.exists_eq_add_of_le' enough
  rw [skipFieldWith]
  have count := reads_readUInt32Via (fun opens =>
    reads_skipToTagLoop opens 0 (Nat.succ_pos fuel)) (2 ^ 31)
  refine count.bind_pure ?_
  have wraps : (BitVec.ofNat 32 (2 ^ 31) * 2).toNat = 0 := by decide
  rw [wraps]
  exact Reads.pure ()

private theorem length_encode_uint32_le (n : BitVec 32) :
    (encode (.uint32 n) 0).length ≤ 9 := by
  have head : (writeToHead (intHead n.toNat) 0).length = 1 := rfl
  have width : intWidth n.toNat ≤ 8 := by
    unfold intWidth
    split_ifs <;> omega
  rw [encode, List.length_append, Value.head, Value.payload, head,
    length_intPayload]
  omega

private theorem length_flatMap_le {ι : Type} {items : List ι}
    {bytes : ι → List UInt8} {bound : Nat}
    (bounded : ∀ item ∈ items, (bytes item).length ≤ bound) :
    (items.flatMap bytes).length ≤ items.length * bound := by
  rw [List.length_flatMap]
  have := List.sum_le_card_nsmul (items.map fun item => (bytes item).length)
    bound (by simpa using bounded)
  simpa using this

private theorem length_encodeEntries_hugeEntries :
    2 ^ 31 ≤ (encodeEntries hugeEntries).length ∧
      (encodeEntries hugeEntries).length ≤ 2 ^ 31 * 10 := by
  rw [encodeEntries_eq]
  constructor
  · rw [← length_hugeEntries]
    refine length_le_flatMap _ _ fun entry => ?_
    rw [List.length_append]
    exact Nat.add_pos_left (encode_length_pos entry.1 0) _
  · rw [← length_hugeEntries]
    refine length_flatMap_le fun entry member => ?_
    obtain ⟨key, _, rfl⟩ := List.mem_map.mp member
    have first := length_encode_uint32_le (BitVec.ofNat 32 key)
    rw [List.length_append]
    exact Nat.add_le_add first (Nat.le_refl 1)

private theorem not_reads_skipField_hugeEntries :
    ¬Reads (skipField HeadType.map.code) (Value.map hugeEntries).payload
      () := by
  intro reads
  obtain ⟨atLeast, atMost⟩ := length_encodeEntries_hugeEntries
  have count : (writeCount (2 ^ 31)).length = 5 := by decide
  have payload : (Value.map hugeEntries).payload =
      writeCount (2 ^ 31) ++ encodeEntries hugeEntries := by
    rw [Value.payload, length_hugeEntries]
  have fits : (Value.map hugeEntries).payload.length < sizeLimit := by
    rw [payload, List.length_append, count, sizeLimit]
    omega
  obtain ⟨stream, facing⟩ : ∃ stream : BufferReader,
      stream.Facing ((Value.map hugeEntries).payload ++ []) := by
    refine ⟨BufferReader.setBuffer _ fits, Nat.zero_le _, ?_⟩
    rw [List.append_nil]
    rfl
  have whole := reads stream [] facing
  have enough : 2 ≤ budget stream := Nat.le_add_left_of_le (by decide)
  have known : HeadType.map.Known := trivial
  unfold skipField at whole
  rw [EStateM.run_bind, EStateM.run_get, ofCode_code known] at whole
  rw [List.append_nil, payload] at facing
  have front := reads_skipMap_doubledCount enough stream _ facing
  have same := front.symm.trans whole
  have cursors := congrArg BufferReader.cur
    (EStateM.Result.ok.inj same).2
  simp only [PrefixInput.advance, BufferReader.moveTo_cur, payload,
    List.length_append] at cursors
  omega

/-- Ascending order of signed 32-bit numbers. -/
def lessInt32 : Less
  | .int32 a, .int32 b => a.toInt < b.toInt
  | _, _ => false

/-- Without the limits of `HasType` and `Fresh`: a map of 2^31 entries is
skipped only up to its count, and a set keeps what its target held. -/
theorem skipField_hugeEntries_and_read_staleSet :
    (∃ payload,
      write (.map hugeEntries) 1 = .ok (writeToHead .map 1 ++ payload) ∧
      ¬Reads (skipField HeadType.map.code) payload ()) ∧
    ∃ (stream : BufferReader) (body : List UInt8),
      writeTo [(1, .set [.int32 5])] = .ok body ∧
      stream.Facing (body ++ writeToHead .structEnd 0) ∧
      (read (.set lessInt32 .int32) (.set [.int32 9]) 1 true).run stream =
        .ok (.set [.int32 5, .int32 9]) (stream.moveTo 5) := by
  constructor
  · have written : write (.map hugeEntries) 1 =
        .ok (encode (.map hugeEntries) 1) := by
      have keys : ∀ entry ∈ hugeEntries,
          write entry.1 0 = .ok (encode entry.1 0) := by
        intro entry member
        obtain ⟨key, _, rfl⟩ := List.mem_map.mp member
        exact write_eq_encode (.uint32 _) 0
      have values : ∀ entry ∈ hugeEntries,
          write entry.2 1 = .ok (encode entry.2 1) := by
        intro entry member
        obtain ⟨key, _, rfl⟩ := List.mem_map.mp member
        exact write_eq_encode (.bool false) 1
      exact write_map_eq keys values 1
    exact ⟨_, written, not_reads_skipField_hugeEntries⟩
  · exact ⟨BufferReader.setBuffer [25, 0, 1, 0, 5, 11] (by decide),
      [25, 0, 1, 0, 5], rfl, ⟨Nat.zero_le _, rfl⟩, rfl⟩

end TarsCpp.Tup
