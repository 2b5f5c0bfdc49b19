import TarsCpp.Json.RoundTrip

/-!
# Accepted documents are written back

The second writer, `TC_JsonWriteOstream`, and what both writers make of the
trees that `getValue` returns: the same text, unless there is a `null`, at
which both fail an assertion.
-/

namespace TarsCpp.Json

open CString PrefixDecoding BufferJsonReader

variable {double : Type}

namespace TC_JsonWriteOstream

variable [FloatingPoint double]

/-- Unlike the other one, it does not ask for NaN. -/
def writeNum (p : JsonValueNum double) : List UInt8 :=
  if ¬ p.isInt then tostr p.value else writeInt64 p.lvalue

mutual

/-- Strings, booleans and the spaces are written as by the other writer. -/
def writeValue (p : JsonValuePtr double) (withSpace : Bool) :
    Option (List UInt8) :=
  match p with
  | .nullptr => some (ascii "null")
  | .string value => some (writeString value)
  | .num value => some (writeNum value)
  | .obj entries => do
      let text ← writeEntries entries withSpace
      some (spacedAfter withSpace 123 ++ text ++ spacedBefore withSpace 125)
  | .array values => do
      let text ← writeElements values withSpace
      some (spacedAfter withSpace 91 ++ text ++ spacedBefore withSpace 93)
  | .boolean value => some (writeBoolean value)
  | .null => none

/-- The loop of `writeObj`. -/
def writeEntries (entries : List (List UInt8 × JsonValuePtr double))
    (withSpace : Bool) : Option (List UInt8) :=
  match entries with
  | [] => some []
  | (key, value) :: entries => do
      let text ← writeValue value false
      let more ← writeEntries entries withSpace
      some (writeString key ++ spacedAfter withSpace 58 ++ text ++
        (if entries.isEmpty then [] else spacedAfter withSpace 44) ++ more)

/-- The loop of `writeArray`. -/
def writeElements (values : List (JsonValuePtr double)) (withSpace : Bool) :
    Option (List UInt8) :=
  match values with
  | [] => some []
  | value :: values => do
      let text ← writeValue value false
      let more ← writeElements values withSpace
      some (text ++ (if values.isEmpty then [] else spacedAfter withSpace 44) ++
        more)

end

end TC_JsonWriteOstream

/-- `q` is the value `p`, or stands at some depth in it. -/
inductive Within (q : JsonValuePtr double) : JsonValuePtr double → Prop
  | here : Within q q
  | entry {entries : Entries double} {entry : List UInt8 × JsonValuePtr double}
      (member : entry ∈ entries) (inside : Within q entry.2) :
      Within q (.obj entries)
  | element {values : List (JsonValuePtr double)}
      {value : JsonValuePtr double} (member : value ∈ values)
      (inside : Within q value) : Within q (.array values)

/-- Keys differ, no pointer is null, and a number without a fraction is the
integer that was read. -/
inductive Accepted [FloatingPoint double] : JsonValuePtr double → Prop
  | string (value : List UInt8) : Accepted (.string value)
  | num {value : JsonValueNum double}
      (integer : value.isInt = true → value = .ofInt64 value.lvalue) :
      Accepted (.num value)
  | obj {entries : Entries double} (distinct : entries.keys.Nodup)
      (each : ∀ entry ∈ entries, Accepted entry.2) : Accepted (.obj entries)
  | array {values : List (JsonValuePtr double)}
      (each : ∀ value ∈ values, Accepted value) : Accepted (.array values)
  | boolean (value : Bool) : Accepted (.boolean value)
  | null : Accepted .null

/-- Every number of the tree is an integer. -/
def Integers (p : JsonValuePtr double) : Prop :=
  ∀ number, Within (.num number) p → number.isInt = true

/-- Whatever the call returns has the property. -/
def Returns {α : Type} (call : Parse α) (post : α → Prop) : Prop :=
  ∀ reader value reader', call.run reader = .ok value reader' → post value

section Returning

variable {α β : Type} {post : α → Prop} {post' : β → Prop}

theorem Returns.pure {value : α} (holds : post value) :
    Returns (Pure.pure value) post := by
  intro reader value' reader' ran
  cases ran
  exact holds

theorem Returns.throw (fault : Fault) :
    Returns (MonadExcept.throw fault : Parse α) post := by
  intro reader value reader' ran
  cases ran

theorem Returns.bind {call : Parse α} {next : α → Parse β}
    (first : Returns call post)
    (rest : ∀ value, post value → Returns (next value) post') :
    Returns (call >>= next) post' := by
  intro reader value reader' ran
  rw [EStateM.run_bind] at ran
  cases middle : call.run reader with
  | ok result state =>
      rw [middle] at ran
      exact rest result (first reader result state middle) state value
        reader' ran
  | error fault state =>
      rw [middle] at ran
      cases ran

theorem Returns.any (call : Parse α) : Returns call fun _ => True :=
  fun _ _ _ _ => trivial

theorem Returns.after {call : Parse α} {next : α → Parse β}
    (rest : ∀ value, Returns (next value) post') :
    Returns (call >>= next) post' :=
  (Returns.any call).bind fun value _ => rest value

theorem Returns.map {call : Parse α} {f : α → β} (first : Returns call post)
    (maps : ∀ value, post value → post' (f value)) :
    Returns (f <$> call) post' := by
  rw [map_eq_pure_bind]
  exact first.bind fun value holds => Returns.pure (maps value holds)

theorem fail_returns (text : String) : Returns (fail text : Parse α) post :=
  Returns.after fun _ => Returns.throw _

end Returning

section Parsing

variable [FloatingPoint double] {getValue : Parse (JsonValuePtr double)}

omit [FloatingPoint double] in
theorem nodup_assign {key : List UInt8} {pValue : JsonValuePtr double}
    {entries : Entries double} (distinct : entries.keys.Nodup) :
    (entries.assign key pValue).keys.Nodup := by
  induction entries with
  | nil => exact List.nodup_singleton key
  | cons entry entries ih =>
      obtain ⟨fresh, distinct⟩ := List.nodup_cons.mp distinct
      rw [Entries.assign]
      split
      · next same => exact List.nodup_cons.mpr ⟨same ▸ fresh, distinct⟩
      · next other =>
          refine List.nodup_cons.mpr ⟨fun member => ?_, ih distinct⟩
          rcases List.mem_cons.mp (Entries.assign_keys _ _ _ member) with
            same | member
          · exact other same
          · exact fresh member

omit [FloatingPoint double] in
theorem mem_assign {key : List UInt8} {pValue : JsonValuePtr double}
    {entries : Entries double} {entry : List UInt8 × JsonValuePtr double}
    (member : entry ∈ entries.assign key pValue) :
    entry.2 = pValue ∨ entry ∈ entries := by
  induction entries with
  | nil =>
      rw [Entries.assign, List.mem_singleton] at member
      exact Or.inl (congrArg Prod.snd member)
  | cons first entries ih =>
      rw [Entries.assign] at member
      split at member
      · rcases List.mem_cons.mp member with rfl | member
        · exact Or.inl rfl
        · exact Or.inr (List.mem_cons_of_mem _ member)
      · rcases List.mem_cons.mp member with rfl | member
        · exact Or.inr List.mem_cons_self
        · exact (ih member).imp_right (List.mem_cons_of_mem _)

theorem getObjLoop_returns (values : Returns getValue Accepted)
    (turns : Nat) (bFirst : Bool) {entries : Entries double}
    (sound : Accepted (.obj entries : JsonValuePtr double)) :
    Returns (getObjLoop getValue turns bFirst entries)
      fun entries => Accepted (.obj entries : JsonValuePtr double) := by
  induction turns generalizing bFirst entries with
  | zero => exact Returns.throw _
  | succ turns ih =>
      rw [getObjLoop]
      refine Returns.after fun c => ?_
      split
      · exact Returns.pure sound
      · split
        · exact fail_returns _
        · refine Returns.after fun key => Returns.after fun c => ?_
          split
          · exact fail_returns _
          · refine values.bind fun value accepted => Returns.after fun c => ?_
            have next : Accepted
                (.obj (entries.assign key value) : JsonValuePtr double) := by
              cases sound with
              | obj distinct each =>
                  refine .obj (nodup_assign distinct) fun entry member => ?_
                  rcases mem_assign member with same | member
                  · exact same ▸ accepted
                  · exact each entry member
            split
            · exact ih false next
            · split
              · exact Returns.pure next
              · exact fail_returns _

theorem getArrayLoop_returns (each : Returns getValue Accepted)
    (turns : Nat) {values : List (JsonValuePtr double)}
    (sound : ∀ value ∈ values, Accepted value) :
    Returns (getArrayLoop getValue turns values)
      fun values => ∀ value ∈ values, Accepted value := by
  induction turns generalizing values with
  | zero => exact Returns.throw _
  | succ turns ih =>
      rw [getArrayLoop]
      refine each.bind fun value accepted => Returns.after fun c => ?_
      have next : ∀ value' ∈ values ++ [value], Accepted value' := by
        intro value' member
        rcases List.mem_append.mp member with member | member
        · exact sound value' member
        · exact List.mem_singleton.mp member ▸ accepted
      split
      · exact ih next
      · split
        · exact Returns.pure next
        · exact fail_returns _

theorem result_accepted (st : NumState double) : Accepted (.num st.result) := by
  refine .num fun integer => ?_
  rw [NumState.result] at integer ⊢
  split
  · next float =>
      simp [float] at integer
  · rfl

theorem getNum_returns (head : UInt8) :
    Returns (getNum head) fun number : JsonValueNum double =>
      Accepted (.num number) := by
  rw [getNum]
  refine Returns.after fun reader => Returns.after fun st => ?_
  split
  · exact fail_returns _
  · split
    · exact Returns.after fun _ => Returns.pure (result_accepted st)
    · exact Returns.pure (result_accepted st)

theorem getValueWithin_returns (depth : Nat) :
    Returns (getValueWithin depth : Parse (JsonValuePtr double)) Accepted := by
  induction depth with
  | zero => exact Returns.throw _
  | succ depth ih =>
      rw [getValueWithin]
      refine Returns.after fun c => ?_
      rw [getValueFrom]
      split
      · refine Returns.map ?_ fun entries accepted => accepted
        rw [getObj]
        refine Returns.after fun reader => getObjLoop_returns ih _ _ ?_
        exact .obj List.nodup_nil fun _ member => absurd member List.not_mem_nil
      · split
        · refine Returns.map ?_ fun values each => Accepted.array each
          rw [getArray]
          refine Returns.after fun c => ?_
          split
          · exact Returns.pure fun _ member => absurd member List.not_mem_nil
          · refine Returns.after fun _ => Returns.after fun reader => ?_
            exact getArrayLoop_returns ih _
              fun _ member => absurd member List.not_mem_nil
        · split
          · exact (Returns.any _).map fun value _ => .string value
          · split
            · exact (Returns.any _).map fun value _ => .boolean value
            · split
              · exact (getNum_returns c).map fun _ accepted => accepted
              · split
                · exact Returns.after fun _ => Returns.pure .null
                · exact Returns.after fun _ => Returns.throw _

theorem accepted_of_getValue {str : List UInt8} {p : JsonValuePtr double}
    {reader : BufferJsonReader} (ran : Json.getValue str = .ok p reader) :
    Accepted p :=
  getValueWithin_returns _ _ _ _ ran

end Parsing

section Writing

variable [FloatingPoint double] {p : JsonValuePtr double}

omit [FloatingPoint double] in
theorem Integers.entry {entries : Entries double}
    (integers : Integers (.obj entries))
    {entry : List UInt8 × JsonValuePtr double} (member : entry ∈ entries) :
    Integers entry.2 :=
  fun number inside => integers number (.entry member inside)

omit [FloatingPoint double] in
theorem Integers.element {values : List (JsonValuePtr double)}
    (integers : Integers (.array values)) {value : JsonValuePtr double}
    (member : value ∈ values) : Integers value :=
  fun number inside => integers number (.element member inside)

theorem Accepted.tree (accepted : Accepted p) (integers : Integers p)
    (noNull : ¬ Within .null p) : Tree p := by
  induction accepted with
  | string value => exact .string value
  | @num value integer =>
      rw [integer (integers value .here)]
      exact .num _
  | obj distinct each ih =>
      refine .obj distinct fun entry member => ?_
      exact ih entry member (integers.entry member)
        fun inside => noNull (.entry member inside)
  | array each ih =>
      refine .array fun value member => ?_
      exact ih value member (integers.element member)
        fun inside => noNull (.element member inside)
  | boolean value => exact .boolean value
  | null => exact absurd .here noNull

theorem writeEntries_none {entries : Entries double}
    {entry : List UInt8 × JsonValuePtr double} (member : entry ∈ entries)
    (failed : writeValue entry.2 false = none) (withSpace : Bool) :
    writeEntries entries withSpace = none := by
  induction entries with
  | nil => exact absurd member List.not_mem_nil
  | cons first entries ih =>
      rw [writeEntries]
      rcases List.mem_cons.mp member with rfl | member
      · rw [failed]
        rfl
      · rw [ih member]
        cases writeValue first.2 false with
        | none => rfl
        | some text => rfl

theorem writeElements_none {values : List (JsonValuePtr double)}
    {value : JsonValuePtr double} (member : value ∈ values)
    (failed : writeValue value false = none) (withSpace : Bool) :
    writeElements values withSpace = none := by
  induction values with
  | nil => exact absurd member List.not_mem_nil
  | cons first values ih =>
      rw [writeElements]
      rcases List.mem_cons.mp member with rfl | member
      · rw [failed]
        rfl
      · rw [ih member]
        cases writeValue first false with
        | none => rfl
        | some text => rfl

/-- A `null` anywhere in the tree fails the assertion of the writer. -/
theorem writeValue_null (inside : Within .null p) (withSpace : Bool) :
    writeValue p withSpace = none := by
  induction inside generalizing withSpace with
  | here => rw [writeValue]
  | entry member _ ih =>
      rw [writeValue, writeEntries_none member (ih false)]
      rfl
  | element member _ ih =>
      rw [writeValue, writeElements_none member (ih false)]
      rfl

theorem writeNum_eq {value : JsonValueNum double}
    (integer : value.isInt = true → value = .ofInt64 value.lvalue)
    (isInt : value.isInt = true) :
    TC_JsonWriteOstream.writeNum value = writeNum value := by
  rw [integer isInt, TC_JsonWriteOstream.writeNum, writeNum,
    JsonValueNum.ofInt64, FloatingPoint.isnan_ofInt]
  rfl

theorem writers_entries_eq {entries : Entries double} (withSpace : Bool)
    (each : ∀ entry ∈ entries,
      TC_JsonWriteOstream.writeValue entry.2 false = writeValue entry.2 false) :
    TC_JsonWriteOstream.writeEntries entries withSpace =
      writeEntries entries withSpace := by
  induction entries with
  | nil => rw [TC_JsonWriteOstream.writeEntries, writeEntries]
  | cons entry entries ih =>
      obtain ⟨first, rest⟩ := List.forall_mem_cons.mp each
      rw [TC_JsonWriteOstream.writeEntries, writeEntries, first, ih rest]

theorem writers_elements_eq {values : List (JsonValuePtr double)}
    (withSpace : Bool)
    (each : ∀ value ∈ values,
      TC_JsonWriteOstream.writeValue value false = writeValue value false) :
    TC_JsonWriteOstream.writeElements values withSpace =
      writeElements values withSpace := by
  induction values with
  | nil => rw [TC_JsonWriteOstream.writeElements, writeElements]
  | cons value values ih =>
      obtain ⟨first, rest⟩ := List.forall_mem_cons.mp each
      rw [TC_JsonWriteOstream.writeElements, writeElements, first, ih rest]

/-- Without fractions both writers write the same. -/
theorem writers_eq (accepted : Accepted p) (integers : Integers p)
    (withSpace : Bool) :
    TC_JsonWriteOstream.writeValue p withSpace = writeValue p withSpace := by
  induction accepted generalizing withSpace with
  | string value => rw [TC_JsonWriteOstream.writeValue, writeValue]
  | @num value integer =>
      rw [TC_JsonWriteOstream.writeValue, writeValue,
        writeNum_eq integer (integers value .here)]
  | obj distinct each ih =>
      rw [TC_JsonWriteOstream.writeValue, writeValue, writers_entries_eq withSpace
        fun entry member => ih entry member (integers.entry member) false]
  | array each ih =>
      rw [TC_JsonWriteOstream.writeValue, writeValue,
        writers_elements_eq withSpace
          fun value member => ih value member (integers.element member) false]
  | boolean value => rw [TC_JsonWriteOstream.writeValue, writeValue]
  | null => rw [TC_JsonWriteOstream.writeValue, writeValue]

/-- Both writers write the same text, with spaces and without, and an equal
tree is read from it. -/
def WritesBack (p : JsonValuePtr double) : Prop :=
  ∀ withSpace, ∃ text, writeValue p withSpace = some text ∧
    TC_JsonWriteOstream.writeValue p withSpace = some text ∧
    ∃ value, getValue text = .ok value ⟨text, text.length⟩ ∧ Same p value

/-- An accepted document without fractions is written back exactly when it has
no `null`, and no runs of plain bytes that 32 bits cannot count. -/
theorem writesBack_iff {s : List UInt8} {reader : BufferJsonReader}
    (returned : getValue s = .ok p reader) (integers : Integers p) :
    WritesBack p ↔ ¬ Within .null p ∧ ShortStrings p := by
  have accepted := accepted_of_getValue returned
  constructor
  · intro back
    have noNull : ¬ Within .null p := by
      intro inside
      obtain ⟨text, wrote, _⟩ := back false
      rw [writeValue_null inside] at wrote
      cases wrote
    refine ⟨noNull, ?_⟩
    obtain ⟨text, wrote, _, value, read, same⟩ := back false
    obtain ⟨head, tail, written⟩ :=
      tree_written (accepted.tree integers noNull) false
    obtain ⟨value', read', holds⟩ := getValue_of_written written
    rw [written.text] at wrote
    cases wrote
    rw [read'] at read
    cases read
    exact holds.mp same
  · rintro ⟨noNull, short⟩ withSpace
    obtain ⟨head, tail, written⟩ :=
      tree_written (accepted.tree integers noNull) withSpace
    obtain ⟨value, read, holds⟩ := getValue_of_written written
    refine ⟨head :: tail, written.text, ?_, value, read, holds.mpr short⟩
    rw [writers_eq accepted integers, written.text]

end Writing

/-- `{"a":[7,true]}` -/
def nested : JsonValuePtr (Option ℚ) :=
  .obj [([97], .array [.num (.ofInt64 7), .boolean true])]

theorem getValue_nested :
    getValue (ascii "\x7b\"a\":[7,true]\x7d") =
      .ok nested ⟨ascii "\x7b\"a\":[7,true]\x7d", 14⟩ := by
  rfl

theorem within_nested {q : JsonValuePtr (Option ℚ)}
    (inside : Within q nested) :
    q = nested ∨ q = .array [.num (.ofInt64 7), .boolean true] ∨
      q = .num (.ofInt64 7) ∨ q = .boolean true := by
  cases inside with
  | here => exact .inl rfl
  | entry member inside =>
      obtain rfl := List.mem_singleton.mp member
      cases inside with
      | here => exact .inr (.inl rfl)
      | element member inside =>
          simp only [List.mem_cons, List.not_mem_nil, or_false] at member
          rcases member with rfl | rfl
          · cases inside
            exact .inr (.inr (.inl rfl))
          · cases inside
            exact .inr (.inr (.inr rfl))

theorem shortStrings_nested : ShortStrings nested := by
  refine .obj (List.forall_mem_singleton.mpr ?_)
    (List.forall_mem_singleton.mpr (.array ?_))
  · exact shortRuns_of_length (by decide : 1 < 2 ^ 32)
  · exact List.forall_mem_cons.mpr
      ⟨.num _, List.forall_mem_singleton.mpr (.boolean true)⟩

theorem writesBack_nested : WritesBack nested := by
  refine (writesBack_iff getValue_nested ?_).mpr ⟨?_, shortStrings_nested⟩
  · intro number inside
    rcases within_nested inside with same | same | same | same <;> cases same
    rfl
  · intro inside
    rcases within_nested inside with same | same | same | same <;> cases same

/-- `null` is accepted, and fails the assertion of the writer. -/
theorem null_not_written :
    getValue (ascii "null") =
      .ok (.null : JsonValuePtr (Option ℚ)) ⟨ascii "null", 4⟩ ∧
    Integers (.null : JsonValuePtr (Option ℚ)) ∧
    ¬ WritesBack (.null : JsonValuePtr (Option ℚ)) := by
  refine ⟨rfl, ?_, ?_⟩
  · intro number inside
    cases inside
  · intro back
    obtain ⟨text, wrote, _⟩ := back false
    rw [writeValue] at wrote
    cases wrote

end TarsCpp.Json
