import TarsCpp.CString
import TarsCpp.Decimal

/-!
# JSON values and their text

The classes of `tc_json.h` as one type, and the trees that are built from
booleans, 64-bit integers, strings, arrays and objects.  An object lists its
entries in the order in which the `unordered_map` is iterated; two objects are
the same when the maps are equal, whatever the orders.

`TC_Json::writeValue` and what it calls.  A failed assertion is `none`.
-/

namespace TarsCpp.Json

/-- The operations on `double` that reading and writing of numbers use. -/
class FloatingPoint (double : Type) where
  ofInt : Int → double
  tenth : double
  add : double → double → double
  sub : double → double → double
  mul : double → double → double
  pow : double → double → double
  toInt64 : double → BitVec 64
  isnan : double → Bool
  to_string : double → List UInt8
  /-- An integer converts to a number. -/
  isnan_ofInt : ∀ n, isnan (ofInt n) = false

structure JsonValueNum (double : Type) where
  value : double
  lvalue : BitVec 64
  isInt : Bool

/-- `JsonValueNum(int64_t d, bool isInt = true)` -/
def JsonValueNum.ofInt64 {double : Type} [FloatingPoint double]
    (d : BitVec 64) : JsonValueNum double :=
  { value := FloatingPoint.ofInt d.toInt, lvalue := d, isInt := true }

inductive JsonValuePtr (double : Type)
  | nullptr
  | string (value : List UInt8)
  | num (value : JsonValueNum double)
  | obj (value : List (List UInt8 × JsonValuePtr double))
  | array (value : List (JsonValuePtr double))
  | boolean (value : Bool)
  | null

variable {double : Type}

abbrev Entries (double : Type) := List (List UInt8 × JsonValuePtr double)

def Entries.keys (entries : Entries double) : List (List UInt8) :=
  entries.map Prod.fst

/-- `p->value[key] = pValue` -/
def Entries.assign (key : List UInt8) (pValue : JsonValuePtr double) :
    Entries double → Entries double
  | [] => [(key, pValue)]
  | entry :: entries =>
      if entry.1 = key then (key, pValue) :: entries
      else entry :: Entries.assign key pValue entries

/-- Equal trees: for objects, `operator==` of the maps. -/
inductive Same : JsonValuePtr double → JsonValuePtr double → Prop
  | nullptr : Same .nullptr .nullptr
  | string (value : List UInt8) : Same (.string value) (.string value)
  | num (value : JsonValueNum double) : Same (.num value) (.num value)
  | obj {entries entries' : Entries double}
      (size : entries.length = entries'.length)
      (found : ∀ entry ∈ entries, entry.1 ∈ entries'.keys)
      (values : ∀ entry ∈ entries, ∀ entry' ∈ entries', entry.1 = entry'.1 →
        Same entry.2 entry'.2) :
      Same (.obj entries) (.obj entries')
  | array {values values' : List (JsonValuePtr double)}
      (each : List.Forall₂ Same values values') :
      Same (.array values) (.array values')
  | boolean (value : Bool) : Same (.boolean value) (.boolean value)
  | null : Same .null .null

/-- Trees of booleans, 64-bit integers, strings, arrays and objects. -/
inductive Tree [FloatingPoint double] : JsonValuePtr double → Prop
  | string (value : List UInt8) : Tree (.string value)
  | num (d : BitVec 64) : Tree (.num (.ofInt64 d))
  | obj {entries : Entries double} (distinct : entries.keys.Nodup)
      (each : ∀ entry ∈ entries, Tree entry.2) : Tree (.obj entries)
  | array {values : List (JsonValuePtr double)}
      (each : ∀ value ∈ values, Tree value) : Tree (.array values)
  | boolean (value : Bool) : Tree (.boolean value)

/-- The bytes that `writeString` writes as they are. -/
def Plain (c : UInt8) : Prop :=
  32 ≤ c ∧ c ≠ 34 ∧ c ≠ 47 ∧ c ≠ 92

instance : DecidablePred Plain := fun c =>
  inferInstanceAs (Decidable (32 ≤ c ∧ c ≠ 34 ∧ c ≠ 47 ∧ c ≠ 92))

/-- No plain bytes follow each other in a number that 32 bits cannot count. -/
def ShortRuns (value : List UInt8) : Prop :=
  ∀ run, run <:+: value → (∀ c ∈ run, Plain c) → run.length < 2 ^ 32

/-- So in every string of the tree, and in every key. -/
inductive ShortStrings : JsonValuePtr double → Prop
  | nullptr : ShortStrings .nullptr
  | string {value : List UInt8} (short : ShortRuns value) :
      ShortStrings (.string value)
  | num (value : JsonValueNum double) : ShortStrings (.num value)
  | obj {entries : Entries double}
      (keys : ∀ entry ∈ entries, ShortRuns entry.1)
      (each : ∀ entry ∈ entries, ShortStrings entry.2) :
      ShortStrings (.obj entries)
  | array {values : List (JsonValuePtr double)}
      (each : ∀ value ∈ values, ShortStrings value) :
      ShortStrings (.array values)
  | boolean (value : Bool) : ShortStrings (.boolean value)
  | null : ShortStrings .null

theorem shortRuns_of_length {value : List UInt8}
    (short : value.length < 2 ^ 32) : ShortRuns value :=
  fun _ infix_ _ => lt_of_le_of_lt infix_.length_le short

theorem shortRuns_plain {run : List UInt8} (plain : ∀ c ∈ run, Plain c) :
    ShortRuns run ↔ run.length < 2 ^ 32 :=
  ⟨fun short => short run List.infix_rfl plain, shortRuns_of_length⟩

/-- A byte that is not plain separates the runs. -/
theorem shortRuns_split {run value : List UInt8} {c : UInt8}
    (short : run.length < 2 ^ 32) (special : ¬ Plain c) :
    ShortRuns (run ++ c :: value) ↔ ShortRuns value := by
  constructor
  · intro shortRuns run' infix_ plain
    refine shortRuns run' (infix_.trans ?_) plain
    exact ⟨run ++ [c], [], by simp⟩
  · intro shortRuns run' infix_ plain
    obtain ⟨before, behind, whole⟩ := infix_
    by_cases early : before.length + run'.length ≤ run.length
    · omega
    · by_cases late : run.length < before.length
      · refine shortRuns run' ?_ plain
        have dropped := congrArg (List.drop (run.length + 1)) whole
        rw [List.drop_append_of_le_length (by simp; omega),
          List.drop_append_of_le_length (by omega)] at dropped
        have rest : List.drop (run.length + 1) (run ++ c :: value) = value := by
          simp [List.drop_append]
        exact ⟨before.drop (run.length + 1), behind, by rw [dropped, rest]⟩
      · -- the special byte lies inside the run
        exfalso
        have inside : run.length - before.length < run'.length := by omega
        have here : run'[run.length - before.length] = c := by
          have got := congrArg (fun list => list[run.length]?) whole
          simp only [List.append_assoc] at got
          rw [List.getElem?_append_right (by omega),
            List.getElem?_append_left inside,
            List.getElem?_append_right (Nat.le_refl _), Nat.sub_self,
            List.getElem?_cons_zero, List.getElem?_eq_getElem inside] at got
          exact Option.some.inj got
        exact special (here ▸ plain _ (List.getElem_mem inside))

namespace Entries

theorem assign_keys (key : List UInt8) (pValue : JsonValuePtr double)
    (entries : Entries double) :
    (entries.assign key pValue).keys ⊆ key :: entries.keys := by
  induction entries with
  | nil => simp [assign, keys]
  | cons entry entries ih =>
      rw [assign]
      split
      · next same =>
          rw [keys, List.map_cons, keys, List.map_cons, same]
          exact List.subset_cons_self _ _
      · intro other member
        rw [keys, List.map_cons, List.mem_cons] at member
        rw [keys, List.map_cons]
        rcases member with rfl | member
        · exact List.mem_cons_of_mem _ List.mem_cons_self
        · rcases List.mem_cons.mp (ih member) with same | member
          · exact same ▸ List.mem_cons_self
          · exact List.mem_cons_of_mem _ (List.mem_cons_of_mem _ member)

theorem assign_fresh {key : List UInt8} (pValue : JsonValuePtr double)
    {entries : Entries double} (fresh : key ∉ entries.keys) :
    entries.assign key pValue = entries ++ [(key, pValue)] := by
  induction entries with
  | nil => rfl
  | cons entry entries ih =>
      rw [keys, List.map_cons, List.mem_cons, not_or] at fresh
      rw [assign, if_neg (Ne.symm fresh.1), ih fresh.2, List.cons_append]

/-- The map after all assignments. -/
def assignAll (entries assigned : Entries double) : Entries double :=
  assigned.foldl (fun entries entry => entries.assign entry.1 entry.2) entries

theorem assignAll_keys (entries assigned : Entries double) :
    (entries.assignAll assigned).keys ⊆ entries.keys ++ assigned.keys := by
  induction assigned generalizing entries with
  | nil => simp [assignAll, keys]
  | cons entry assigned ih =>
      intro key member
      have member := ih (entries.assign entry.1 entry.2) member
      rw [List.mem_append] at member
      rw [List.mem_append, keys, keys, List.map_cons, List.mem_cons]
      rcases member with member | member
      · rcases List.mem_cons.mp (assign_keys _ _ _ member) with same | member
        · exact Or.inr (Or.inl same)
        · exact Or.inl member
      · exact Or.inr (Or.inr member)

theorem assignAll_distinct {entries assigned : Entries double}
    (distinct : (entries.keys ++ assigned.keys).Nodup) :
    entries.assignAll assigned = entries ++ assigned := by
  induction assigned generalizing entries with
  | nil => rw [assignAll, List.foldl_nil, List.append_nil]
  | cons entry assigned ih =>
      have fresh : entry.1 ∉ entries.keys := by
        intro member
        exact List.disjoint_of_nodup_append distinct member List.mem_cons_self
      have step : (entries.assign entry.1 entry.2).assignAll assigned =
          entries.assign entry.1 entry.2 ++ assigned := by
        refine ih ?_
        rw [assign_fresh _ fresh, keys, List.map_append, List.append_assoc]
        exact distinct
      rw [assignAll, List.foldl_cons, ← assignAll, step, assign_fresh _ fresh,
        List.append_assoc, List.singleton_append]

theorem keys_of_forall₂ {entries read : Entries double}
    (sameKeys : List.Forall₂ (fun entry back => entry.1 = back.1)
      entries read) : read.keys = entries.keys := by
  induction sameKeys with
  | nil => rfl
  | cons same _ ih =>
      simp only [keys, List.map_cons] at ih ⊢
      rw [ih, same]

/-- Entries with one key stand at one place. -/
theorem paired_of_key {entries read : Entries double}
    {related : JsonValuePtr double → JsonValuePtr double → Prop}
    (distinct : entries.keys.Nodup)
    (pairs : List.Forall₂ (fun entry back => entry.1 = back.1 ∧
      related entry.2 back.2) entries read) :
    ∀ entry ∈ entries, ∀ back ∈ read, entry.1 = back.1 →
      related entry.2 back.2 := by
  induction pairs with
  | nil => simp
  | @cons first first' entries read pair pairs ih =>
      have sameKeys := keys_of_forall₂ (pairs.imp fun _ _ pair => pair.1)
      rw [keys, List.map_cons, List.nodup_cons, ← keys] at distinct
      intro entry member back member' same
      rcases List.mem_cons.mp member with rfl | inside <;>
        rcases List.mem_cons.mp member' with rfl | inside'
      · exact pair.2
      · have listed : back.1 ∈ keys read := List.mem_map_of_mem inside'
        rw [sameKeys, ← same] at listed
        exact absurd listed distinct.1
      · have listed : entry.1 ∈ keys entries := List.mem_map_of_mem inside
        rw [same, ← pair.1] at listed
        exact absurd listed distinct.1
      · exact ih distinct.2 entry inside back inside' same

end Entries

/-- Keys of a map that come back shortened make another map: no other key can
take the place of one that was lost. -/
theorem same_obj_keys {entries read : Entries double}
    (distinct : entries.keys.Nodup)
    (shorter : List.Forall₂ (fun entry back => entry.1 = back.1 ∨
      back.1.length < entry.1.length) entries read)
    (same : Same (.obj entries) (.obj (Entries.assignAll [] read))) :
    List.Forall₂ (fun entry back => entry.1 = back.1) entries read := by
  have perm : entries.keys.Perm read.keys := by
    cases same with
    | obj size found values =>
        refine (distinct.subperm fun key member => ?_).perm_of_length_le ?_
        · obtain ⟨entry, inside, rfl⟩ := List.mem_map.mp member
          have listed := Entries.assignAll_keys [] read (found entry inside)
          simpa [Entries.keys] using listed
        · rw [Entries.keys, Entries.keys, List.length_map, List.length_map,
            shorter.length_eq]
  have total : (entries.keys.map List.length).sum =
      (read.keys.map List.length).sum := (perm.map _).sum_eq
  clear perm same distinct
  induction shorter with
  | nil => exact .nil
  | @cons entry back entries read first rest ih =>
      have below : ((Entries.keys read).map List.length).sum ≤
          ((Entries.keys entries).map List.length).sum := by
        clear ih total first
        induction rest with
        | nil => exact Nat.le_refl _
        | cons first rest ih =>
            simp only [Entries.keys, List.map_cons, List.sum_cons] at ih ⊢
            rcases first with same | less
            · rw [same]
              exact Nat.add_le_add_left ih _
            · omega
      simp only [Entries.keys, List.map_cons, List.sum_cons] at total below ih
      rcases first with same | less
      · refine .cons same (ih ?_)
        rw [same] at total
        omega
      · omega

open CString

variable [FloatingPoint double]

def hexDigit (digit : UInt8) : UInt8 :=
  if digit < 10 then 48 + digit else 87 + digit

/-- One turn of the loop in `writeString`. -/
def writeByte (c : UInt8) : List UInt8 :=
  if c = 34 then ascii "\\\""
  else if c = 92 then ascii "\\\\"
  else if c = 47 then ascii "\\/"
  else if c = 8 then ascii "\\b"
  else if c = 12 then ascii "\\f"
  else if c = 10 then ascii "\\n"
  else if c = 13 then ascii "\\r"
  else if c = 9 then ascii "\\t"
  else if c < 32 then ascii "\\u00" ++ [hexDigit (c / 16), hexDigit (c % 16)]
  else [c]

def writeString (s : List UInt8) : List UInt8 :=
  34 :: (s.flatMap writeByte ++ [34])

/-- `ss << (int64_t)lvalue` -/
def writeInt64 (lvalue : BitVec 64) : List UInt8 := decimalInt lvalue.toInt

/-- The loop of `TC_Common::tostr<double>`, from the last byte on. -/
def dropZeros : List UInt8 → List UInt8
  | 48 :: 46 :: rest => rest
  | 48 :: c :: rest => dropZeros (c :: rest)
  | rest => rest

def tostr (t : double) : List UInt8 :=
  (dropZeros (FloatingPoint.to_string t).reverse).reverse

def writeNum (p : JsonValueNum double) : List UInt8 :=
  if FloatingPoint.isnan p.value then ascii "null"
  else if ¬ p.isInt then tostr p.value
  else writeInt64 p.lvalue

def writeBoolean (value : Bool) : List UInt8 :=
  if value then ascii "true" else ascii "false"

/-- A bracket at the front, a separator, and a bracket at the end. -/
def spacedAfter (withSpace : Bool) (c : UInt8) : List UInt8 :=
  if withSpace then [c, 32] else [c]

def spacedBefore (withSpace : Bool) (c : UInt8) : List UInt8 :=
  if withSpace then [32, c] else [c]

mutual

/-- Only the outermost value is written with spaces: `writeObj` and
`writeArray` do not pass `withSpace` on. -/
def writeValue (p : JsonValuePtr double) (withSpace : Bool) :
    Option (List UInt8) :=
  match p with
  | .nullptr => some (ascii "null")
  | .string value => some (writeString value)
  | .num value => some (writeNum value)
  | .obj entries => do
      let text ← writeEntries entries withSpace
      some (spacedAfter withSpace 123 ++ text ++ spacedBefore withSpace 125)
  | .array values => do
      let text ← writeElements values withSpace
      some (spacedAfter withSpace 91 ++ text ++ spacedBefore withSpace 93)
  | .boolean value => some (writeBoolean value)
  | .null => none

/-- The loop of `writeObj`. -/
def writeEntries (entries : List (List UInt8 × JsonValuePtr double))
    (withSpace : Bool) : Option (List UInt8) :=
  match entries with
  | [] => some []
  | (key, value) :: entries => do
      let text ← writeValue value false
      let more ← writeEntries entries withSpace
      some (writeString key ++ spacedAfter withSpace 58 ++ text ++
        (if entries.isEmpty then [] else spacedAfter withSpace 44) ++ more)

/-- The loop of `writeArray`. -/
def writeElements (values : List (JsonValuePtr double)) (withSpace : Bool) :
    Option (List UInt8) :=
  match values with
  | [] => some []
  | value :: values => do
      let text ← writeValue value false
      let more ← writeElements values withSpace
      some (text ++ (if values.isEmpty then [] else spacedAfter withSpace 44) ++
        more)

end

end TarsCpp.Json
