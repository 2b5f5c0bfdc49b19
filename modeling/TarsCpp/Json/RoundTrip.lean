import TarsCpp.Json.Numbers

/-!
# Round trip

`getValue` of what `writeValue` wrote succeeds, consumes all of it, and returns
an equal tree if and only if no string and no key has `2 ^ 32` plain bytes in a
row.
-/

namespace TarsCpp.Json

open CString PrefixDecoding BufferJsonReader

variable {double : Type} [FloatingPoint double] {p : JsonValuePtr double}
  {withSpace : Bool} {blanks : List UInt8}

/-- The written value, and that it comes back if its strings are short. -/
structure Written (p : JsonValuePtr double) (withSpace : Bool)
    (head : UInt8) (tail : List UInt8) : Prop where
  text : writeValue p withSpace = some (head :: tail)
  other : ¬ isspace head
  opens : head ≠ 93
  yields : ∀ {depth : Nat} {blanks : List UInt8},
    (∀ space ∈ blanks, isspace space) → tail.length < depth →
    Yields Ends (getValueWithin depth) (blanks ++ head :: tail)
      fun value => Same p value ↔ ShortStrings p

theorem Written.of_from {head : UInt8} {tail : List UInt8}
    (text : writeValue p withSpace = some (head :: tail))
    (other : ¬ isspace head) (opens : head ≠ 93)
    (yields : ∀ depth, tail.length ≤ depth →
      Yields Ends (getValueFrom (getValueWithin depth) head) tail
        fun value => Same p value ↔ ShortStrings p) :
    Written p withSpace head tail where
  text := text
  other := other
  opens := opens
  yields := by
    intro depth blanks spaces deep
    obtain ⟨depth, rfl⟩ := Nat.exists_eq_succ_of_ne_zero
      (Nat.ne_of_gt (Nat.zero_lt_of_lt deep))
    rw [List.append_cons]
    exact (readFiltered_reads spaces other).bindYields
      (yields depth (Nat.le_of_lt_succ deep))

theorem string_written (value : List UInt8) : ∃ head tail,
    Written (.string value : JsonValuePtr double) withSpace head tail := by
  refine ⟨34, _, .of_from rfl (by decide) (by decide) fun depth _ => ?_⟩
  rw [getValueFrom, if_neg (by decide), if_neg (by decide), if_pos rfl]
  refine (getString_yields value).map JsonValuePtr.string fun back copied => ?_
  constructor
  · intro same
    cases same
    by_contra long
    exact absurd (copied.shorter fun short => long (.string short))
      (Nat.lt_irrefl _)
  · intro short
    cases short with
    | string short =>
        rw [copied.whole short]
        exact .string value

theorem num_written (d : BitVec 64) : ∃ head tail,
    Written (.num (.ofInt64 d) : JsonValuePtr double) withSpace head tail := by
  obtain ⟨head, digits, shape, first, yields⟩ :=
    writeInt64_yields double d
  have text : writeValue (.num (.ofInt64 d) : JsonValuePtr double) withSpace =
      some (head :: digits) := by
    rw [writeValue, writeNum, JsonValueNum.ofInt64,
      FloatingPoint.isnan_ofInt, ← shape]
    rfl
  have other : ¬ isspace head ∧ head ≠ 93 ∧ head ≠ 123 ∧ head ≠ 91 ∧
      head ≠ 34 ∧ ¬ (tolower head = 116 ∨ tolower head = 102) := by
    clear text yields shape
    revert first
    induction head using byte_cases with
    | each n =>
        revert n
        decide +kernel
  obtain ⟨space, closes, brace, bracket, quote, letter⟩ := other
  refine ⟨head, digits, .of_from text space closes fun depth _ => ?_⟩
  rw [getValueFrom, if_neg brace, if_neg bracket, if_neg quote, if_neg letter,
    if_pos first]
  refine yields.map JsonValuePtr.num fun number same => ?_
  subst same
  exact ⟨fun _ => .num _, fun _ => .num _⟩

theorem boolean_written (value : Bool) : ∃ head tail,
    Written (.boolean value : JsonValuePtr double) withSpace head tail := by
  obtain ⟨head, word, shape, first, reads⟩ := writeBoolean_reads value
  have other : ¬ isspace head ∧ head ≠ 93 ∧ head ≠ 123 ∧ head ≠ 91 ∧
      head ≠ 34 ∧ (tolower head = 116 ∨ tolower head = 102) := by
    rcases first with rfl | rfl <;> decide
  obtain ⟨space, closes, brace, bracket, quote, letter⟩ := other
  have text : writeValue (.boolean value : JsonValuePtr double) withSpace =
      some (head :: word) := by
    rw [writeValue, shape]
  refine ⟨head, word, .of_from text space closes fun depth _ => ?_⟩
  rw [getValueFrom, if_neg brace, if_neg bracket, if_neg quote, if_pos letter]
  have yields : Yields Ends (getBoolean head) word (· = value) :=
    reads.yields rfl
  refine yields.map JsonValuePtr.boolean fun back same => ?_
  subst same
  exact ⟨fun _ => .boolean _, fun _ => .boolean _⟩

theorem spacedAfter_eq (withSpace : Bool) (c : UInt8) :
    ∃ blanks, spacedAfter withSpace c = c :: blanks ∧
      ∀ space ∈ blanks, isspace space := by
  cases withSpace with
  | true => exact ⟨[32], rfl, forall_mem_of_all (by decide)⟩
  | false => exact ⟨[], rfl, by simp⟩

theorem spacedBefore_eq (withSpace : Bool) (c : UInt8) :
    ∃ blanks, spacedBefore withSpace c = blanks ++ [c] ∧
      ∀ space ∈ blanks, isspace space := by
  cases withSpace with
  | true => exact ⟨[32], rfl, forall_mem_of_all (by decide)⟩
  | false => exact ⟨[], rfl, by simp⟩

/-- A value ends at blanks and a separator. -/
theorem ends_of_separator {c : UInt8} {rest : List UInt8}
    (spaces : ∀ space ∈ blanks, isspace space)
    (separator : c = 44 ∨ c = 93 ∨ c = 125) : Ends (blanks ++ c :: rest) := by
  intro first member
  cases blanks with
  | nil =>
      obtain rfl : c = first := Option.mem_some.mp member
      rcases separator with rfl | rfl | rfl <;> decide
  | cons space blanks =>
      obtain rfl : space = first := Option.mem_some.mp member
      have blank := spaces space List.mem_cons_self
      clear spaces member
      revert blank
      induction space using byte_cases with
      | each n =>
          revert n
          decide +kernel

section Loops

variable {follows : List UInt8 → Prop} {depth turns : Nat}
  {getValue : Parse (JsonValuePtr double)}

omit [FloatingPoint double] in
theorem getArrayLoop_turn {values : List (JsonValuePtr double)}
    {text back : List UInt8} {c : UInt8} {good : JsonValuePtr double → Prop}
    {post : List (JsonValuePtr double) → Prop}
    (valueYields : Yields Ends getValue text good)
    (spaces : ∀ space ∈ blanks, isspace space) (separator : c = 44 ∨ c = 93)
    (next : ∀ value, good value →
      Yields follows (if c = 44 then
          getArrayLoop getValue turns (values ++ [value])
        else pure (values ++ [value])) back post) :
    Yields follows (getArrayLoop getValue (turns + 1) values)
      (text ++ ((blanks ++ [c]) ++ back)) post := by
  have other : ¬ isspace c := by rcases separator with rfl | rfl <;> decide
  refine valueYields.bind (fun rest _ => ?_) fun value holds => ?_
  · rw [List.append_assoc, List.append_assoc]
    exact ends_of_separator spaces (separator.imp_right Or.inl)
  · refine (readFiltered_reads spaces other).bindYields ?_
    rcases separator with rfl | rfl
    · exact next value holds
    · exact next value holds

/-- A read array is equal if each element is. -/
def SameElements (values read : List (JsonValuePtr double)) : Prop :=
  List.Forall₂ (fun p value => Same p value ↔ ShortStrings p) values read

omit [FloatingPoint double] in
theorem SameElements.array {values read : List (JsonValuePtr double)}
    (elements : SameElements values read) :
    Same (.array values) (.array read) ↔ ShortStrings (.array values) := by
  constructor
  · intro same
    cases same with
    | array each =>
        refine .array fun value member => ?_
        induction elements with
        | nil => exact absurd member List.not_mem_nil
        | cons first rest ih =>
            cases each with
            | cons same each =>
                rcases List.mem_cons.mp member with rfl | member
                · exact first.mp same
                · exact ih each member
  · intro short
    cases short with
    | array each =>
        refine .array ?_
        induction elements with
        | nil => exact .nil
        | cons first rest ih =>
            exact .cons (first.mpr (each _ List.mem_cons_self))
              (ih fun value member => each value (List.mem_cons_of_mem _ member))

theorem elements_written (withSpace : Bool)
    {values : List (JsonValuePtr double)} (some_ : values ≠ [])
    (each : ∀ value ∈ values, ∃ head tail, Written value false head tail) :
    ∃ head tail, writeElements values withSpace = some (head :: tail) ∧
      ¬ isspace head ∧ head ≠ 93 ∧ values.length ≤ tail.length + 1 ∧
      ∀ (depth turns : Nat) (blanks : List UInt8)
        (done : List (JsonValuePtr double)),
        (∀ space ∈ blanks, isspace space) → tail.length < depth →
        values.length ≤ turns →
        Yields follows (getArrayLoop (getValueWithin depth) turns done)
          ((blanks ++ head :: tail) ++ spacedBefore withSpace 93)
          fun result => ∃ read, result = done ++ read ∧
            SameElements values read := by
  induction values with
  | nil => exact absurd rfl some_
  | cons value values ih =>
      obtain ⟨head, tail, written⟩ := each value List.mem_cons_self
      by_cases last : values = []
      · subst last
        refine ⟨head, tail, ?_, written.other, written.opens,
          Nat.le_add_left 1 _, ?_⟩
        · rw [writeElements, written.text, writeElements]
          simp
        · intro depth turns blanks done spaces deep enough
          obtain ⟨turns, rfl⟩ := Nat.exists_eq_succ_of_ne_zero
            (Nat.ne_of_gt enough)
          obtain ⟨blanks', closing, spaces'⟩ := spacedBefore_eq withSpace 93
          rw [closing, ← List.append_nil (blanks' ++ [93])]
          refine getArrayLoop_turn (written.yields spaces deep) spaces'
            (Or.inr rfl) fun value' holds => ?_
          exact Yields.pure ⟨[value'], rfl, .cons holds .nil⟩
      · obtain ⟨head', tail', text, other, opens, long, yields⟩ := ih last
          fun value member => each value (List.mem_cons_of_mem _ member)
        obtain ⟨blanks', comma, spaces'⟩ := spacedAfter_eq withSpace 44
        refine ⟨head, tail ++ (44 :: blanks' ++ head' :: tail'), ?_,
          written.other, written.opens, ?_, ?_⟩
        · rw [writeElements, written.text, text]
          simp [last, comma]
        · simp only [List.length_append, List.length_cons]
          omega
        · intro depth turns blanks done spaces deep enough
          obtain ⟨turns, rfl⟩ := Nat.exists_eq_succ_of_ne_zero
            (Nat.ne_of_gt (Nat.zero_lt_of_lt enough))
          have shape : blanks ++ head :: (tail ++ (44 :: blanks' ++
              head' :: tail')) ++ spacedBefore withSpace 93 =
              (blanks ++ head :: tail) ++ (([] ++ [44]) ++
                ((blanks' ++ head' :: tail') ++ spacedBefore withSpace 93)) := by
            simp
          rw [List.length_append] at deep
          rw [shape]
          refine getArrayLoop_turn (written.yields spaces (by omega)) (by simp)
            (Or.inl rfl) fun value' holds => ?_
          rw [if_pos rfl]
          refine (yields depth turns blanks' (done ++ [value']) spaces' ?_
            ?_).mono ?_
          · simp only [List.length_append, List.length_cons] at deep
            omega
          · rw [List.length_cons] at enough
            omega
          · rintro result ⟨read, rfl, elements⟩
            exact ⟨value' :: read, by simp, .cons holds elements⟩

omit [FloatingPoint double] in
/-- `getArray` looks at the first byte of the first element and steps back. -/
theorem getArray_yields {c : UInt8} {text : List UInt8}
    {post : List (JsonValuePtr double) → Prop}
    (spaces : ∀ space ∈ blanks, isspace space) (other : ¬ isspace c)
    (opens : c ≠ 93)
    (loop : ∀ turns, (c :: text).length < turns →
      Yields follows (getArrayLoop getValue turns []) (c :: text) post) :
    Yields follows (getArray getValue) (blanks ++ c :: text) post := by
  intro reader rest follow facing
  have behind : PrefixInput.Facing (PrefixInput.advance reader blanks.length)
      (c :: text ++ rest) :=
    PrefixInput.facing_advance (by rw [← List.append_assoc]; exact facing)
  have first : readFiltered.run reader =
      .ok c (PrefixInput.advance reader (blanks.length + 1)) := by
    have reads := readFiltered_reads spaces other reader (text ++ rest)
      (by simpa using facing)
    rwa [List.length_append] at reads
  have enough : (c :: text).length <
      (PrefixInput.advance reader blanks.length).unread + 1 := by
    rw [unread_eq behind, List.length_append]
    omega
  obtain ⟨values, holds, ran⟩ := loop _ enough _ rest follow behind
  refine ⟨values, holds, ?_⟩
  rw [getArray, EStateM.run_bind, first]
  simp only [opens, if_false]
  rw [EStateM.run_bind, back_run]
  simp only [EStateM.run_bind, EStateM.run_get]
  rw [ran, PrefixInput.advance_advance, List.length_append]

theorem array_written {values : List (JsonValuePtr double)}
    (each : ∀ value ∈ values, ∃ head tail, Written value false head tail) :
    ∃ head tail, Written (.array values) withSpace head tail := by
  obtain ⟨blanks, opening, spaces⟩ := spacedAfter_eq withSpace 91
  obtain ⟨blanks', closing, spaces'⟩ := spacedBefore_eq withSpace 93
  by_cases empty : values = []
  · subst empty
    have text : writeValue (.array [] : JsonValuePtr double) withSpace =
        some (91 :: ((blanks ++ blanks') ++ [93])) := by
      rw [writeValue, writeElements, opening, closing]
      simp
    refine ⟨_, _, .of_from text (by decide) (by decide) fun depth _ => ?_⟩
    rw [getValueFrom, if_neg (by decide), if_pos rfl, getArray]
    have reads : Reads readFiltered ((blanks ++ blanks') ++ [93]) 93 := by
      refine readFiltered_reads (fun space member => ?_) (by decide)
      exact (List.mem_append.mp member).elim (spaces space) (spaces' space)
    have none_ : Yields Ends (getArray
        (getValueWithin depth : Parse (JsonValuePtr double)))
        ((blanks ++ blanks') ++ [93]) (· = []) := by
      rw [← List.append_nil ((blanks ++ blanks') ++ [93])]
      exact reads.bindYields (Yields.pure rfl)
    refine none_.map JsonValuePtr.array fun read same => ?_
    subst same
    exact SameElements.array .nil
  · obtain ⟨head, tail, text, other, opens, long, yields⟩ :=
      elements_written withSpace empty each
    have whole : writeValue (.array values) withSpace =
        some (91 :: (blanks ++ head :: (tail ++ spacedBefore withSpace 93))) := by
      rw [writeValue, text, opening]
      simp
    refine ⟨_, _, .of_from whole (by decide) (by decide) fun depth deep => ?_⟩
    rw [getValueFrom, if_neg (by decide), if_pos rfl]
    simp only [List.length_append, List.length_cons] at deep
    have array : Yields Ends (getArray (getValueWithin depth))
        (blanks ++ head :: (tail ++ spacedBefore withSpace 93))
        (SameElements values) := by
      refine getArray_yields spaces other opens fun turns enough => ?_
      refine (yields depth turns [] [] (by simp) (by omega) ?_).mono ?_
      · simp only [List.length_append, List.length_cons] at enough
        omega
      · rintro result ⟨read, rfl, elements⟩
        exact elements
    exact array.map JsonValuePtr.array fun read elements => elements.array

omit [FloatingPoint double] in
theorem getObjLoop_turn {key text back blanks' blanks'' : List UInt8}
    {entries : Entries double} {bFirst : Bool} {c : UInt8}
    {good : JsonValuePtr double → Prop} {post : Entries double → Prop}
    (valueYields : Yields Ends getValue (blanks' ++ text) good)
    (spaces : ∀ space ∈ blanks, isspace space)
    (spaces'' : ∀ space ∈ blanks'', isspace space)
    (separator : c = 44 ∨ c = 125)
    (next : ∀ key' value, Copied key key' → good value →
      Yields follows (if c = 44 then
          getObjLoop getValue turns false (entries.assign key' value)
        else pure (entries.assign key' value)) back post) :
    Yields follows (getObjLoop getValue (turns + 1) bFirst entries)
      ((blanks ++ [34]) ++ ((key.flatMap writeByte ++ [34]) ++
        (([] ++ [58]) ++ ((blanks' ++ text) ++ ((blanks'' ++ [c]) ++ back)))))
      post := by
  have other : ¬ isspace c := by rcases separator with rfl | rfl <;> decide
  rw [getObjLoop]
  refine (readFiltered_reads spaces (by decide)).bindYields ?_
  rw [if_neg (by simp), if_neg (by simp)]
  have keyYields : Yields (fun _ => True) (getString 34)
      (key.flatMap writeByte ++ [34]) (Copied key) := getString_yields key
  refine keyYields.bind (fun _ _ => trivial) fun key' copied => ?_
  refine (readFiltered_reads (by simp) (by decide)).bindYields ?_
  rw [if_neg (by simp)]
  refine valueYields.bind (fun rest _ => ?_) fun value holds => ?_
  · rw [List.append_assoc, List.append_assoc]
    exact ends_of_separator spaces'' (separator.imp_right Or.inr)
  · refine (readFiltered_reads spaces'' other).bindYields ?_
    rcases separator with rfl | rfl
    · exact next key' value copied holds
    · exact next key' value copied holds

/-- A read entry has the key and the value if their strings are short. -/
def SameEntries (entries read : Entries double) : Prop :=
  List.Forall₂ (fun entry back => Copied entry.1 back.1 ∧
    (Same entry.2 back.2 ↔ ShortStrings entry.2)) entries read

omit [FloatingPoint double] in
theorem SameEntries.obj {entries read : Entries double}
    (distinct : entries.keys.Nodup) (same : SameEntries entries read) :
    Same (.obj entries) (.obj (Entries.assignAll [] read)) ↔
      ShortStrings (.obj entries) := by
  have assigned : List.Forall₂ (fun entry back => entry.1 = back.1)
      entries read → Entries.assignAll [] read = read := by
    intro sameKeys
    refine Entries.assignAll_distinct ?_
    rw [Entries.keys_of_forall₂ sameKeys]
    exact distinct
  constructor
  · intro equal
    have sameKeys := same_obj_keys distinct (same.imp fun entry back pair => by
      by_cases short : ShortRuns entry.1
      · exact Or.inl (pair.1.whole short).symm
      · exact Or.inr (pair.1.shorter short)) equal
    rw [assigned sameKeys] at equal
    cases equal with
    | obj size found values =>
        have shortEntries : List.Forall₂ (fun entry back =>
            (ShortRuns entry.1 ∧ ShortStrings entry.2) ∧ entry.1 = back.1)
            entries read := by
          refine List.forall₂_iff_zip.mpr ⟨sameKeys.length_eq, ?_⟩
          intro entry back pair
          have key : entry.1 = back.1 := List.forall₂_zip sameKeys pair
          obtain ⟨copied, value⟩ := List.forall₂_zip same pair
          obtain ⟨member, member'⟩ := List.of_mem_zip pair
          refine ⟨⟨?_, value.mp (values entry member back member' key)⟩, key⟩
          by_contra long
          have less := copied.shorter long
          rw [key] at less
          exact Nat.lt_irrefl _ less
        have short := ((List.forall₂_and_left _ _).mp shortEntries).1
        exact .obj (fun entry member => (short entry member).1)
          fun entry member => (short entry member).2
  · intro short
    cases short with
    | obj keys each =>
        have pairs : List.Forall₂ (fun entry back => entry.1 = back.1 ∧
            Same entry.2 back.2) entries read := by
          refine List.forall₂_iff_zip.mpr ⟨same.length_eq, ?_⟩
          intro entry back pair
          obtain ⟨copied, value⟩ := List.forall₂_zip same pair
          obtain ⟨member, -⟩ := List.of_mem_zip pair
          exact ⟨(copied.whole (keys entry member)).symm,
            value.mpr (each entry member)⟩
        have sameKeys : List.Forall₂ (fun entry back => entry.1 = back.1)
            entries read := pairs.imp fun _ _ pair => pair.1
        rw [assigned sameKeys]
        refine .obj sameKeys.length_eq (fun entry member => ?_)
          (Entries.paired_of_key distinct pairs)
        rw [Entries.keys_of_forall₂ sameKeys]
        exact List.mem_map_of_mem member

theorem entries_written (withSpace : Bool) {entries : Entries double}
    (some_ : entries ≠ [])
    (each : ∀ entry ∈ entries, ∃ head tail, Written entry.2 false head tail) :
    ∃ tail, writeEntries entries withSpace = some (34 :: tail) ∧
      entries.length ≤ tail.length + 1 ∧
      ∀ (depth turns : Nat) (blanks : List UInt8) (bFirst : Bool)
        (done : Entries double),
        (∀ space ∈ blanks, isspace space) → tail.length < depth →
        entries.length ≤ turns →
        Yields follows
          (getObjLoop (getValueWithin depth) turns bFirst done)
          ((blanks ++ 34 :: tail) ++ spacedBefore withSpace 125)
          fun result => ∃ read, result = done.assignAll read ∧
            SameEntries entries read := by
  induction entries with
  | nil => exact absurd rfl some_
  | cons entry entries ih =>
      obtain ⟨head, tail, written⟩ := each entry List.mem_cons_self
      obtain ⟨gap, colon, spaces'⟩ := spacedAfter_eq withSpace 58
      by_cases last : entries = []
      · subst last
        obtain ⟨gap', closing, spaces''⟩ := spacedBefore_eq withSpace 125
        refine ⟨entry.1.flatMap writeByte ++ 34 :: 58 :: (gap ++ head :: tail),
          ?_, Nat.le_add_left 1 _, ?_⟩
        · rw [writeEntries, written.text, writeEntries, colon, writeString]
          simp
        · intro depth turns blanks bFirst done spaces deep enough
          obtain ⟨turns, rfl⟩ := Nat.exists_eq_succ_of_ne_zero
            (Nat.ne_of_gt enough)
          simp only [List.length_append, List.length_cons] at deep
          have shape : blanks ++ 34 :: (entry.1.flatMap writeByte ++
              34 :: 58 :: (gap ++ head :: tail)) ++ spacedBefore withSpace 125 =
              (blanks ++ [34]) ++ ((entry.1.flatMap writeByte ++ [34]) ++
                (([] ++ [58]) ++ ((gap ++ head :: tail) ++
                  ((gap' ++ [125]) ++ [])))) := by
            simp [closing]
          rw [shape]
          refine getObjLoop_turn (written.yields spaces' (by omega)) spaces
            spaces'' (Or.inr rfl) fun key' value copied holds => ?_
          exact Yields.pure ⟨[(key', value)], rfl, .cons ⟨copied, holds⟩ .nil⟩
      · obtain ⟨tail', text, long, yields⟩ := ih last
          fun entry member => each entry (List.mem_cons_of_mem _ member)
        obtain ⟨gap', comma, spaces''⟩ := spacedAfter_eq withSpace 44
        refine ⟨entry.1.flatMap writeByte ++ 34 :: 58 :: (gap ++ head ::
          (tail ++ 44 :: (gap' ++ 34 :: tail'))), ?_, ?_, ?_⟩
        · rw [writeEntries, written.text, text, colon, writeString]
          simp [last, comma]
        · simp only [List.length_append, List.length_cons]
          omega
        · intro depth turns blanks bFirst done spaces deep enough
          obtain ⟨turns, rfl⟩ := Nat.exists_eq_succ_of_ne_zero
            (Nat.ne_of_gt (Nat.zero_lt_of_lt enough))
          simp only [List.length_append, List.length_cons] at deep
          have shape : blanks ++ 34 :: (entry.1.flatMap writeByte ++
              34 :: 58 :: (gap ++ head :: (tail ++ 44 ::
                (gap' ++ 34 :: tail')))) ++ spacedBefore withSpace 125 =
              (blanks ++ [34]) ++ ((entry.1.flatMap writeByte ++ [34]) ++
                (([] ++ [58]) ++ ((gap ++ head :: tail) ++
                  (([] ++ [44]) ++ ((gap' ++ 34 :: tail') ++
                    spacedBefore withSpace 125))))) := by
            simp
          rw [shape]
          refine getObjLoop_turn (written.yields spaces' (by omega)) spaces
            (by simp) (Or.inl rfl) fun key' value copied holds => ?_
          rw [if_pos rfl]
          refine (yields depth turns gap' false (done.assign key' value)
            spaces'' (by omega) ?_).mono ?_
          · rw [List.length_cons] at enough
            omega
          · rintro result ⟨read, rfl, same⟩
            exact ⟨(key', value) :: read, rfl, .cons ⟨copied, holds⟩ same⟩

theorem obj_written {entries : Entries double}
    (distinct : entries.keys.Nodup)
    (each : ∀ entry ∈ entries, ∃ head tail, Written entry.2 false head tail) :
    ∃ head tail, Written (.obj entries) withSpace head tail := by
  obtain ⟨blanks, opening, spaces⟩ := spacedAfter_eq withSpace 123
  obtain ⟨blanks', closing, spaces'⟩ := spacedBefore_eq withSpace 125
  by_cases empty : entries = []
  · subst empty
    have text : writeValue (.obj [] : JsonValuePtr double) withSpace =
        some (123 :: ((blanks ++ blanks') ++ [125])) := by
      rw [writeValue, writeEntries, opening, closing]
      simp
    refine ⟨_, _, .of_from text (by decide) (by decide) fun depth _ => ?_⟩
    rw [getValueFrom, if_pos rfl, getObj]
    have reads : Reads readFiltered ((blanks ++ blanks') ++ [125]) 125 := by
      refine readFiltered_reads (fun space member => ?_) (by decide)
      exact (List.mem_append.mp member).elim (spaces space) (spaces' space)
    have none_ : Yields Ends (getObj
        (getValueWithin depth : Parse (JsonValuePtr double)))
        ((blanks ++ blanks') ++ [125]) (· = []) := by
      refine Yields.gets (fun reader => reader.unread + 1) (fun turns =>
        getObjLoop (getValueWithin depth : Parse (JsonValuePtr double)) turns
          true []) fun _ _ _ => ?_
      rw [getObjLoop, ← List.append_nil ((blanks ++ blanks') ++ [125])]
      refine reads.bindYields ?_
      rw [if_pos (by simp)]
      exact Yields.pure rfl
    refine none_.map JsonValuePtr.obj fun read same => ?_
    subst same
    exact SameEntries.obj distinct .nil
  · obtain ⟨tail, text, long, yields⟩ :=
      entries_written withSpace empty each
    have whole : writeValue (.obj entries) withSpace =
        some (123 :: ((blanks ++ 34 :: tail) ++ spacedBefore withSpace 125)) := by
      rw [writeValue, text, opening]
      simp
    refine ⟨_, _, .of_from whole (by decide) (by decide) fun depth deep => ?_⟩
    rw [getValueFrom, if_pos rfl]
    simp only [List.length_append, List.length_cons] at deep
    have obj : Yields Ends (getObj (getValueWithin depth))
        ((blanks ++ 34 :: tail) ++ spacedBefore withSpace 125)
        fun result => ∃ read, result = Entries.assignAll [] read ∧
          SameEntries entries read := by
      refine Yields.gets (fun reader => reader.unread + 1) (fun turns =>
        getObjLoop (getValueWithin depth : Parse (JsonValuePtr double)) turns
          true []) fun reader rest facing => ?_
      refine yields depth _ blanks true [] spaces (by omega) ?_
      rw [unread_eq facing]
      simp only [List.length_append, List.length_cons]
      omega
    refine obj.map JsonValuePtr.obj fun result holds => ?_
    obtain ⟨read, rfl, same⟩ := holds
    exact same.obj distinct

end Loops

theorem tree_written (tree : Tree p) (withSpace : Bool) :
    ∃ head tail, Written p withSpace head tail := by
  induction tree generalizing withSpace with
  | string value => exact string_written value
  | num d => exact num_written d
  | obj distinct each ih =>
      exact obj_written distinct fun entry member => ih entry member false
  | array each ih =>
      exact array_written fun value member => ih value member false
  | boolean value => exact boolean_written value

theorem getValue_of_written {head : UInt8} {tail : List UInt8}
    (written : Written p withSpace head tail) :
    ∃ value, getValue (head :: tail) =
        .ok value ⟨head :: tail, (head :: tail).length⟩ ∧
      (Same p value ↔ ShortStrings p) := by
  have spaces : ∀ space ∈ ([] : List UInt8), isspace space := by simp
  have deep : tail.length < (head :: tail).length + 1 := by
    rw [List.length_cons]
    omega
  have facing : PrefixInput.Facing (BufferJsonReader.mk (head :: tail) 0)
      ([] ++ head :: tail ++ []) := by
    rw [List.append_nil]
    rfl
  obtain ⟨value, holds, ran⟩ :=
    written.yields spaces deep _ [] (by simp [Ends]) facing
  refine ⟨value, ?_, holds⟩
  rw [getValue, ran]
  simp [PrefixInput.advance]

/-- A tree comes back from its text if and only if the runs of plain bytes in
its strings and keys are short. -/
theorem getValue_writeValue_iff (tree : Tree p) (withSpace : Bool) :
    ∃ text, writeValue p withSpace = some text ∧
      ((∃ value, getValue text = .ok value ⟨text, text.length⟩ ∧
        Same p value) ↔ ShortStrings p) := by
  obtain ⟨head, tail, written⟩ := tree_written tree withSpace
  obtain ⟨value, ran, holds⟩ := getValue_of_written written
  refine ⟨head :: tail, written.text, ?_⟩
  rw [← holds]
  constructor
  · rintro ⟨value', ran', same⟩
    rw [ran] at ran'
    cases ran'
    exact same
  · exact fun same => ⟨value, ran, same⟩

/-- Numbers without rounding, and `none` for NaN. -/
instance exactNumbers : FloatingPoint (Option ℚ) where
  ofInt n := some n
  tenth := some (1 / 10)
  add x y := do some ((← x) + (← y))
  sub x y := do some ((← x) - (← y))
  mul x y := do some ((← x) * (← y))
  pow x y := do some ((← x) ^ (← y).num)
  toInt64 x := BitVec.ofInt 64 (x.elim 0 fun x => x.num.tdiv x.den)
  isnan x := x.isNone
  to_string x := x.elim (ascii "nan") fun x =>
    let millionths := (|x| * 1000000).floor.toNat
    (if x < 0 then [45] else []) ++ decimal (millionths / 1000000) ++
      46 :: (decimal (1000000 + millionths % 1000000)).tail
  isnan_ofInt _ := rfl

def sample : JsonValuePtr (Option ℚ) :=
  .obj [(ascii "a/b", .num (.ofInt64 (-7))),
    ([], .array [.boolean true, .obj [], .string [0, 31, 34, 92, 200]])]

theorem getValue_writeValue_sample :
    ∃ text, writeValue sample true = some text ∧
      ∃ value, getValue text = .ok value ⟨text, text.length⟩ ∧
        Same sample value := by
  have tree : Tree sample := by
    refine .obj (by decide) ?_
    simp only [List.forall_mem_cons, List.not_mem_nil, false_implies,
      implies_true, and_true]
    refine ⟨.num (-7), .array ?_⟩
    simp only [List.forall_mem_cons, List.not_mem_nil, false_implies,
      implies_true, and_true]
    exact ⟨.boolean true, .obj List.nodup_nil (by simp), .string _⟩
  have short : ShortStrings sample := by
    refine .obj ?_ ?_
    · intro entry member
      refine shortRuns_of_length (lt_of_le_of_lt ?_ (by decide : 3 < 2 ^ 32))
      revert entry
      simp [ascii]
    · simp only [List.forall_mem_cons, List.not_mem_nil, false_implies,
        implies_true, and_true]
      refine ⟨.num _, .array ?_⟩
      simp only [List.forall_mem_cons, List.not_mem_nil, false_implies,
        implies_true, and_true]
      exact ⟨.boolean true, .obj (by simp) (by simp),
        .string (shortRuns_of_length (by decide))⟩
  obtain ⟨text, written, same⟩ := getValue_writeValue_iff tree true
  exact ⟨text, written, same.mpr short⟩

/-- A string of `2 ^ 32` letters does not come back. -/
theorem getValue_writeValue_long :
    ∃ text, writeValue (.string (List.replicate (2 ^ 32) 97) :
        JsonValuePtr (Option ℚ)) false = some text ∧
      ¬ ∃ value : JsonValuePtr (Option ℚ),
        getValue text = .ok value ⟨text, text.length⟩ ∧
        Same (.string (List.replicate (2 ^ 32) 97)) value := by
  have tree : Tree (.string (List.replicate (2 ^ 32) 97) :
      JsonValuePtr (Option ℚ)) := .string _
  obtain ⟨head, tail, written⟩ := tree_written tree false
  obtain ⟨value, ran, holds⟩ := getValue_of_written written
  refine ⟨head :: tail, written.text, ?_⟩
  rintro ⟨value', ran', same⟩
  rw [ran] at ran'
  cases ran'
  cases holds.mp same with
  | string short =>
      have plain : ∀ c ∈ List.replicate (2 ^ 32) (97 : UInt8), Plain c := by
        intro c member
        rw [List.eq_of_mem_replicate member]
        decide
      have below := (shortRuns_plain plain).mp short
      rw [List.length_replicate] at below
      exact Nat.lt_irrefl _ below

end TarsCpp.Json
