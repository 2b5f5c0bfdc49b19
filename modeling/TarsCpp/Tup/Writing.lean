import TarsCpp.Tup.Encoding

/-!
# What can be written

Only an over-long string makes `write` throw.  A struct is written if and only
if all of its fields are, and its size is the sum of theirs.
-/

namespace TarsCpp.Tup

def Value.Succeeds (value : Value) : Prop :=
  ∀ tag, write value tag = .ok (encode value tag)

def Value.Throws (value : Value) : Prop :=
  ∀ tag bytes, write value tag ≠ .ok bytes

/-- Whether a value can be written does not depend on its tag. -/
def Value.Decided (value : Value) : Prop := value.Succeeds ∨ value.Throws

theorem WireType.HasType.succeeds {type : WireType} {value : Value}
    (typed : type.HasType value) : value.Succeeds :=
  write_eq_encode typed

theorem charVector_succeeds (v : List UInt8) :
    (Value.charVector v).Succeeds := by
  intro tag
  rw [write, writeCharVector, encode, Value.head, Value.payload]
  simp only [List.append_assoc]

theorem string_succeeds {s : List UInt8} (short : s.length ≤ maxStringLength) :
    (Value.string s).Succeeds :=
  write_eq_encode (.string short)

theorem string_throws {s : List UInt8} (long : maxStringLength < s.length) :
    (Value.string s).Throws := by
  intro tag bytes written
  have limit : maxStringLength = 100 * 1024 * 1024 := rfl
  rw [write, writeString, if_pos (by omega), if_pos long] at written
  cases written

theorem string_decided (s : List UInt8) : (Value.string s).Decided := by
  rcases Nat.lt_or_ge maxStringLength s.length with long | short
  · exact .inr (string_throws long)
  · exact .inl (string_succeeds short)

theorem string_succeeds_iff {s : List UInt8} :
    (Value.string s).Succeeds ↔ s.length ≤ maxStringLength := by
  constructor
  · intro succeeds
    by_contra long
    exact string_throws (by omega) 0 _ (succeeds 0)
  · exact string_succeeds

/-- Entries whose parts are decided are written in turn, up to the first part
that cannot be. -/
theorem writeEntries_eq_ok {entries : List (Value × Value)}
    (decided : ∀ entry ∈ entries, entry.1.Decided ∧ entry.2.Decided)
    {bytes : List UInt8} (written : writeEntries entries = .ok bytes) :
    ∀ entry ∈ entries, entry.1.Succeeds ∧ entry.2.Succeeds := by
  induction entries generalizing bytes with
  | nil =>
      intro entry among
      cases among
  | cons entry entries ih =>
      obtain ⟨key, value⟩ := entry
      rw [List.forall_mem_cons] at decided ⊢
      rw [writeEntries] at written
      have keySucceeds : key.Succeeds := by
        rcases decided.1.1 with succeeds | throws
        · exact succeeds
        · cases first : write key 0 with
          | ok bytes' => exact absurd first (throws 0 bytes')
          | error exception =>
              rw [first] at written
              cases written
      rw [keySucceeds 0] at written
      have valueSucceeds : value.Succeeds := by
        rcases decided.1.2 with succeeds | throws
        · exact succeeds
        · cases second : write value 1 with
          | ok bytes' => exact absurd second (throws 1 bytes')
          | error exception =>
              rw [second] at written
              cases written
      rw [valueSucceeds 1] at written
      cases rest : writeEntries entries with
      | error exception =>
          rw [rest] at written
          cases written
      | ok bytes' =>
          exact ⟨⟨keySucceeds, valueSucceeds⟩, ih decided.2 rest⟩

theorem map_decided {entries : List (Value × Value)}
    (decided : ∀ entry ∈ entries, entry.1.Decided ∧ entry.2.Decided) :
    (Value.map entries).Decided := by
  by_cases each : ∀ entry ∈ entries, entry.1.Succeeds ∧ entry.2.Succeeds
  · exact .inl fun tag => write_map_eq
      (fun entry among => (each entry among).1 0)
      (fun entry among => (each entry among).2 1) tag
  · refine .inr fun tag bytes written => each ?_
    rw [write] at written
    cases success : writeEntries entries with
    | error exception =>
        rw [success] at written
        cases written
    | ok bytes' => exact writeEntries_eq_ok decided success

theorem map_succeeds_iff {entries : List (Value × Value)}
    (decided : ∀ entry ∈ entries, entry.1.Decided ∧ entry.2.Decided) :
    (Value.map entries).Succeeds ↔
      ∀ entry ∈ entries, entry.1.Succeeds ∧ entry.2.Succeeds := by
  constructor
  · intro succeeds
    have written := succeeds 0
    rw [write] at written
    cases success : writeEntries entries with
    | error exception =>
        rw [success] at written
        cases written
    | ok bytes => exact writeEntries_eq_ok decided success
  · intro each tag
    exact write_map_eq (fun entry among => (each entry among).1 0)
      (fun entry among => (each entry among).2 1) tag

/-- `writeTo` throws at the first field that cannot be written. -/
theorem writeTo_eq_ok_iff {fields : List (UInt8 × Value)}
    (decided : ∀ field ∈ fields, field.2.Decided) {bytes : List UInt8} :
    writeTo fields = .ok bytes ↔
      (∀ field ∈ fields, field.2.Succeeds) ∧ encodeFields fields = bytes := by
  induction fields generalizing bytes with
  | nil =>
      rw [writeTo, encodeFields]
      simp [pure, Except.pure]
  | cons field fields ih =>
      obtain ⟨tag, value⟩ := field
      rw [List.forall_mem_cons] at decided ⊢
      rw [writeTo, encodeFields]
      rcases decided.1 with succeeds | throws
      · rw [succeeds tag]
        constructor
        · intro written
          cases rest : writeTo fields with
          | error exception =>
              rw [rest] at written
              cases written
          | ok bytes' =>
              obtain ⟨each, same⟩ := (ih decided.2).mp rest
              rw [rest] at written
              refine ⟨⟨succeeds, each⟩, ?_⟩
              rw [same]
              exact Except.ok.inj written
        · rintro ⟨each, same⟩
          rw [(ih decided.2).mpr ⟨each.2, rfl⟩]
          exact congrArg Except.ok same
      · constructor
        · intro written
          cases first : write value tag with
          | ok bytes' => exact absurd first (throws tag bytes')
          | error exception =>
              rw [first] at written
              cases written
        · intro success
          exact absurd (success.1.1 tag) (throws tag _)

theorem length_encode {value : Value} {tag : UInt8} (small : tag < 15) :
    (encode value tag).length = 1 + value.payload.length := by
  rw [encode, List.length_append, length_writeToHead small]

theorem length_writeCount (count : ℕ) :
    (writeCount count).length =
      1 + intWidth (BitVec.ofNat 32 count).toInt := by
  rw [writeCount, writeInt32_eq, encodeInt, List.length_append,
    length_writeToHead (by decide), length_intPayload]

theorem length_encodeEntries (entries : List (Value × Value)) :
    (encodeEntries entries).length = (entries.map fun entry =>
      2 + entry.1.payload.length + entry.2.payload.length).sum := by
  induction entries with
  | nil => rfl
  | cons entry entries ih =>
      have zero : (0 : UInt8) < 15 := by decide
      have one : (1 : UInt8) < 15 := by decide
      rw [encodeEntries, List.map_cons, List.sum_cons, ← ih]
      simp only [List.length_append, length_writeToHead zero,
        length_writeToHead one]
      omega

end TarsCpp.Tup
