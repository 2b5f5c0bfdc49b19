import TarsCpp.Json.Decoding
import TarsCpp.Json.ParserTotal
import TarsCpp.Json.RoundTrip

/-!
# Which trees decode, and how decoding fails

Decoding asks a sequence of questions about the tree, in the order in which it
comes to the values: whether a value is of the wanted type, whether a string or
an array fits a fixed array, whether the text of a key is an object.  The first
question with the answer no decides how the call ends.  The error branch of
`readJson` asks a null pointer for its type, and the size of a string is
compared as 32 bits.
-/

namespace TarsCpp.JsonInput

open Json

variable {double : Type} [FloatingPoint double]

/-- `EJsonType` -/
def Ty.eJsonType : Ty → ℕ
  | .string => 0
  | .integer _ | .floating _ | .enum _ => 1
  | .map _ _ _ | .enumMap _ _ | .struct _ => 2
  | .vector _ | .set _ | .unorderedSet _ => 3
  | .bool => 4

inductive Check (double : Type)
  | type (wanted : ℕ) (p : JsonValuePtr double) (isRequire : Bool)
  | chars (size : ℕ) (bufLen : UInt32)
  | elements (size : ℕ) (len : UInt32)
  | keyText (text : List UInt8)

namespace Check

/-- The text of a key is an object. -/
def isObject (double : Type) [FloatingPoint double] (text : List UInt8) :
    Bool :=
  match (getValue text : EStateM.Result _ _ (JsonValuePtr double)) with
  | .ok (.obj _) _ => true
  | _ => false

/-- Decoding goes on behind the check. -/
def Passes : Check double → Prop
  | .type wanted p isRequire => p.getType = some wanted ∨ isRequire = false
  | .chars size bufLen => size ≤ bufLen.toNat
  | .elements size len => size ≤ len.toNat
  | .keyText text => isObject double text = true

/-- A value is missing that is required, or a string is as long as the array
only if 32 bits count its bytes. -/
def Breaks : Check double → Prop
  | .type _ p isRequire => isRequire = true ∧ p.getType = none
  | .chars size bufLen =>
      bufLen.toNat < size ∧ size % 2 ^ 32 ≤ bufLen.toNat
  | .elements _ _ => False
  | .keyText _ => False

instance : (check : Check double) → Decidable check.Passes
  | .type _ _ _ => inferInstanceAs (Decidable (_ ∨ _))
  | .chars _ _ => inferInstanceAs (Decidable (_ ≤ _))
  | .elements _ _ => inferInstanceAs (Decidable (_ ≤ _))
  | .keyText _ => inferInstanceAs (Decidable (_ = _))

instance : (check : Check double) → Decidable check.Breaks
  | .type _ _ _ => inferInstanceAs (Decidable (_ ∧ _))
  | .chars _ _ => inferInstanceAs (Decidable (_ ∧ _))
  | .elements _ _ => inferInstanceAs (Decidable False)
  | .keyText _ => inferInstanceAs (Decidable False)

end Check

def charsChecks (bufLen : UInt32) (p : JsonValuePtr double)
    (isRequire : Bool) : List (Check double) :=
  .type 0 p isRequire ::
    match p with
    | .string value => [.chars value.length bufLen]
    | _ => []

def elementsChecks (len : UInt32)
    (checks : JsonValuePtr double → List (Check double))
    (p : JsonValuePtr double) (isRequire : Bool) : List (Check double) :=
  .type 3 p isRequire ::
    match p with
    | .array value => .elements value.length len :: value.flatMap checks
    | _ => []

mutual

def Ty.checks (type : Ty) (p : JsonValuePtr double) (isRequire : Bool) :
    List (Check double) :=
  .type type.eJsonType p isRequire ::
    match type, p with
    | .vector element, .array value | .set element, .array value
    | .unorderedSet element, .array value =>
        value.flatMap fun p => element.checks p true
    | .map _ key element, .obj value =>
        value.flatMap fun entry =>
          key.checks entry.1 ++ element.checks entry.2 true
    | .enumMap _ element, .obj value =>
        value.flatMap fun entry => element.checks entry.2 true
    | .struct members, .obj value => members.checks value
    | _, _ => []

def Key.checks : Key → List UInt8 → List (Check double)
  | .struct members, text =>
      .keyText text ::
        match (getValue text :
            EStateM.Result _ _ (JsonValuePtr double)) with
        | .ok (.obj value) _ => members.checks value
        | _ => []
  | _, _ => []

def Target.checks : Target → JsonValuePtr double → Bool →
    List (Check double)
  | .value type, p, isRequire => type.checks p isRequire
  | .chars bufLen, p, isRequire => charsChecks bufLen p isRequire
  | .elements len element, p, isRequire =>
      elementsChecks len (fun p => element.checks p true) p isRequire

def Members.checks : Members → Entries double → List (Check double)
  | .nil, _ => []
  | .cons name isRequire target rest, value =>
      target.checks (valueAt value name) isRequire ++ rest.checks value

end

inductive Outcome
  | passes
  | throws
  | breaks
deriving DecidableEq, Repr

def Outcome.andThen : Outcome → Outcome → Outcome
  | passes, next => next
  | throws, _ => throws
  | breaks, _ => breaks

@[simp]
theorem Outcome.passes_andThen (next : Outcome) :
    Outcome.passes.andThen next = next :=
  rfl

@[simp]
theorem Outcome.andThen_passes (first : Outcome) :
    first.andThen .passes = first := by
  cases first <;> rfl

theorem Outcome.andThen_assoc (first second third : Outcome) :
    (first.andThen second).andThen third =
      first.andThen (second.andThen third) := by
  cases first <;> rfl

def outcome {α : Type} : Except Failure α → Outcome
  | .ok _ => .passes
  | .error (.TC_Json_Exception _) => .throws
  | .error _ => .breaks

def Check.outcome (check : Check double) : Outcome :=
  if check.Passes then .passes else if check.Breaks then .breaks else .throws

/-- The first check that does not pass decides. -/
def outcomeOf : List (Check double) → Outcome
  | [] => .passes
  | check :: checks => check.outcome.andThen (outcomeOf checks)

theorem outcomeOf_append (first second : List (Check double)) :
    outcomeOf (first ++ second) =
      (outcomeOf first).andThen (outcomeOf second) := by
  induction first with
  | nil => rfl
  | cons check first induction =>
      simp only [List.cons_append, outcomeOf, induction,
        Outcome.andThen_assoc]

theorem outcomeOf_ne_breaks_iff (checks : List (Check double)) :
    outcomeOf checks ≠ .breaks ↔
      ∀ before check behind, checks = before ++ check :: behind →
        (∀ passed ∈ before, passed.Passes) → ¬ check.Passes →
        ¬ check.Breaks := by
  induction checks with
  | nil => simp [outcomeOf]
  | cons first checks induction =>
      unfold outcomeOf Check.outcome
      split
      · rename_i passes
        rw [Outcome.passes_andThen, induction]
        constructor
        · intro rest before check behind split_ passed fails
          cases before with
          | nil =>
              obtain ⟨rfl, _⟩ := List.cons.inj split_
              exact absurd passes fails
          | cons _ before =>
              obtain ⟨_, tail⟩ := List.cons.inj split_
              exact rest before check behind tail
                (fun check member => passed check (.tail _ member)) fails
        · intro all before check behind split_ passed fails
          refine all (first :: before) check behind ?_ ?_ fails
          · rw [split_, List.cons_append]
          · intro check member
            rcases List.mem_cons.mp member with rfl | member
            · exact passes
            · exact passed check member
      · rename_i fails
        split
        · rename_i breaks
          constructor
          · intro ne
            exact absurd rfl ne
          · intro all
            exact absurd breaks (all [] first checks rfl (by simp) fails)
        · rename_i throws
          constructor
          · intro _ before check behind split_ passed _
            cases before with
            | nil =>
                obtain ⟨rfl, _⟩ := List.cons.inj split_
                exact throws
            | cons head before =>
                obtain ⟨rfl, _⟩ := List.cons.inj split_
                exact absurd (passed _ (.head _)) fails
          · intro _ equal
            cases equal

section Sequences

variable {α β γ : Type}

theorem outcome_bind {call : Except Failure α} {next : α → Except Failure β}
    {rest : Outcome} (each : ∀ value, outcome (next value) = rest) :
    outcome (call >>= next) = (outcome call).andThen rest := by
  cases call with
  | ok value => exact each value
  | error failure => cases failure <;> rfl

theorem outcome_return (call : Except Failure α) (make : α → β) :
    outcome (do
      let value ← call
      return make value) = outcome call := by
  cases call with
  | ok value => rfl
  | error failure => cases failure <;> rfl

theorem outcome_foldlM {step : β → α → Except Failure β}
    {checks : α → List (Check double)}
    (each : ∀ state item, outcome (step state item) = outcomeOf (checks item))
    (items : List α) (state : β) :
    outcome (items.foldlM step state) = outcomeOf (items.flatMap checks) := by
  induction items generalizing state with
  | nil => rfl
  | cons item items induction =>
      rw [List.foldlM_cons, List.flatMap_cons, outcomeOf_append,
        outcome_bind fun next => induction next, each]

theorem outcome_mapM {read : α → Except Failure β}
    {checks : α → List (Check double)}
    (each : ∀ item, outcome (read item) = outcomeOf (checks item))
    (items : List α) :
    outcome (items.mapM read) = outcomeOf (items.flatMap checks) := by
  induction items with
  | nil => rfl
  | cons item items induction =>
      rw [List.mapM_cons, List.flatMap_cons, outcomeOf_append, ← each,
        ← induction]
      exact outcome_bind fun first => outcome_return _ _

end Sequences

variable {Floating : FloatingType → Type} (program : Program Floating double)

theorem outcomeOf_singleton (check : Check double) :
    outcomeOf [check] = check.outcome :=
  Outcome.andThen_passes _

theorem outcome_keyText (text : List UInt8) :
    (Check.keyText text : Check double).outcome =
      if Check.isObject double text = true then .passes else .throws := by
  by_cases object : Check.isObject double text = true
  · rw [if_pos object]
    exact if_pos object
  · rw [if_neg object]
    exact (if_neg object).trans (if_neg not_false)

theorem outcome_mismatch {α : Type} (what : String) (x : α) {wanted : ℕ}
    {p : JsonValuePtr double} (other : p.getType ≠ some wanted)
    (isRequire : Bool) :
    outcome (mismatch what x p isRequire) =
      outcomeOf [.type wanted p isRequire] := by
  rw [outcomeOf_singleton]
  unfold mismatch Check.outcome
  cases isRequire with
  | false => simp [Check.Passes, outcome]
  | true =>
      cases type : p.getType with
      | none => simp [Check.Passes, Check.Breaks, type, outcome]
      | some number =>
          have ne : number ≠ wanted := by
            rintro rfl
            exact other type
          simp [Check.Passes, Check.Breaks, type, outcome, ne]

/-- A value of the wanted type is asked what is below it. -/
theorem outcomeOf_type {wanted : ℕ} {p : JsonValuePtr double}
    (same : p.getType = some wanted) (isRequire : Bool)
    (checks : List (Check double)) :
    outcomeOf (.type wanted p isRequire :: checks) = outcomeOf checks := by
  have passes : (Check.type wanted p isRequire).Passes := .inl same
  show Outcome.andThen (if _ then _ else _) _ = _
  rw [if_pos passes, Outcome.passes_andThen]

theorem outcome_memcpy {n : ℕ} (buf : Vector UInt8 n) (value : List UInt8) :
    outcome (memcpy buf value) =
      if value.length ≤ n then .passes else .breaks := by
  unfold memcpy
  split
  · rfl
  · rfl

theorem outcome_readChars {bufLen : UInt32} (target : Chars bufLen)
    (p : JsonValuePtr double) (isRequire : Bool) :
    outcome (readChars target p isRequire) =
      outcomeOf (charsChecks bufLen p isRequire) := by
  unfold readChars charsChecks
  split
  · rename_i value
    rw [outcomeOf_type rfl, outcomeOf_singleton]
    have size : (UInt32.ofNat value.length).toNat = value.length % 2 ^ 32 :=
      UInt32.toNat_ofNat
    unfold Check.outcome
    split
    · rename_i long
      rw [UInt32.lt_iff_toNat_lt, size] at long
      have wraps := Nat.mod_le value.length (2 ^ 32)
      rw [if_neg (by simp only [Check.Passes]; omega),
        if_neg (by simp only [Check.Breaks]; omega)]
      rfl
    · rename_i short
      rw [UInt32.lt_iff_toNat_lt, size] at short
      rw [outcome_return, outcome_memcpy]
      by_cases fits : value.length ≤ bufLen.toNat
      · rw [if_pos fits, if_pos (by exact fits)]
      · rw [if_neg fits, if_neg (by exact fits),
          if_pos (by simp only [Check.Breaks]; omega)]
  · rename_i other
    cases p with
    | string value => exact absurd rfl (other value)
    | _ =>
        exact outcome_mismatch _ _ (by simp [JsonValuePtr.getType]) isRequire

theorem outcome_readFrom {T : Type} {n : ℕ}
    {read : T → JsonValuePtr double → Except Failure T}
    {checks : JsonValuePtr double → List (Check double)}
    (each : ∀ x p, outcome (read x p) = outcomeOf (checks p))
    (value : List (JsonValuePtr double)) (v : Vector T n) (i : ℕ)
    (fits : i + value.length ≤ n) :
    outcome (readFrom read v i value) = outcomeOf (value.flatMap checks) := by
  induction value generalizing v i with
  | nil => rfl
  | cons p value induction =>
      rw [List.length_cons] at fits
      have inside : i < n := by omega
      unfold readFrom
      rw [dif_pos inside, List.flatMap_cons, outcomeOf_append, ← each v[i] p]
      exact outcome_bind fun element => induction _ (i + 1) (by omega)

theorem outcome_readElements {T : Type} {len : UInt32}
    {read : T → JsonValuePtr double → Except Failure T}
    {checks : JsonValuePtr double → List (Check double)}
    (each : ∀ x p, outcome (read x p) = outcomeOf (checks p))
    (target : Elements T len) (p : JsonValuePtr double) (isRequire : Bool) :
    outcome (readElements read target p isRequire) =
      outcomeOf (elementsChecks len checks p isRequire) := by
  unfold readElements elementsChecks
  split
  · rename_i value
    rw [outcomeOf_type rfl]
    show _ = Outcome.andThen (Check.outcome _) _
    unfold Check.outcome
    split
    · rename_i long
      rw [if_neg (by simp only [Check.Passes]; omega),
        if_neg (by simp only [Check.Breaks, not_false_eq_true])]
      rfl
    · rename_i short
      rw [outcome_return, if_pos (by simp only [Check.Passes]; omega),
        Outcome.passes_andThen]
      exact outcome_readFrom each value target.v 0 (by omega)
  · rename_i other
    cases p with
    | array value => exact absurd rfl (other value)
    | _ =>
        exact outcome_mismatch _ _ (by simp [JsonValuePtr.getType]) isRequire

omit [FloatingPoint double] in
theorem flatMap_snd_zip {T : Type} (fresh : T) (v : List T)
    (value : List (JsonValuePtr double))
    (checks : JsonValuePtr double → List (Check double)) :
    ((resize fresh v value.length).zip value).flatMap
      (fun item => checks item.2) = value.flatMap checks := by
  have length : (resize fresh v value.length).length = value.length := by
    simp only [resize, List.length_take, List.length_append,
      List.length_replicate]
    omega
  have second : ((resize fresh v value.length).zip value).map Prod.snd =
      value := List.map_snd_zip length.ge
  rw [← List.flatMap_map, second]

/-- A value of another type is asked for its type only. -/
theorem outcome_other (what : String) {type : Ty} {x : type.Value Floating}
    {p : JsonValuePtr double} {isRequire : Bool}
    (reads : readValue program type x p isRequire =
      mismatch what x p isRequire)
    (single : type.checks p isRequire = [.type type.eJsonType p isRequire])
    (other : p.getType ≠ some type.eJsonType) :
    outcome (readValue program type x p isRequire) =
      outcomeOf (type.checks p isRequire) := by
  rw [reads, single]
  exact outcome_mismatch what x other isRequire

mutual

theorem outcome_readValue (type : Ty) (x : type.Value Floating)
    (p : JsonValuePtr double) (isRequire : Bool) :
    outcome (readValue program type x p isRequire) =
      outcomeOf (type.checks p isRequire) := by
  cases type with
  | bool =>
      cases p with
      | boolean value => exact (outcomeOf_type rfl isRequire []).symm
      | _ =>
          exact outcome_other program "" rfl rfl
            (by simp [JsonValuePtr.getType, Ty.eJsonType])
  | integer type =>
      cases p with
      | num value => exact (outcomeOf_type rfl isRequire []).symm
      | _ =>
          exact outcome_other program "" rfl rfl
            (by simp [JsonValuePtr.getType, Ty.eJsonType])
  | floating type =>
      cases p with
      | num value => exact (outcomeOf_type rfl isRequire []).symm
      | null =>
          cases isRequire with
          | true =>
              exact outcome_other program "" rfl rfl
                (by simp [JsonValuePtr.getType, Ty.eJsonType])
          | false => rfl
      | _ =>
          exact outcome_other program "" rfl rfl
            (by simp [JsonValuePtr.getType, Ty.eJsonType])
  | enum underlying =>
      cases p with
      | num value => exact (outcomeOf_type rfl isRequire []).symm
      | _ =>
          exact outcome_other program "" rfl rfl
            (by simp [JsonValuePtr.getType, Ty.eJsonType])
  | string =>
      cases p with
      | string value => exact (outcomeOf_type rfl isRequire []).symm
      | _ =>
          exact outcome_other program "'string' " rfl rfl
            (by simp [JsonValuePtr.getType, Ty.eJsonType])
  | vector element =>
      cases p with
      | array value =>
          have each : ∀ item : element.Value Floating × JsonValuePtr double,
              outcome (readValue program element item.1 item.2 true) =
                outcomeOf (element.checks item.2 true) :=
            fun item => outcome_readValue element item.1 item.2 true
          refine (outcome_mapM each _).trans ?_
          rw [flatMap_snd_zip (element.fresh program) x value
            fun p => element.checks p true]
          exact (outcomeOf_type rfl isRequire _).symm
      | _ =>
          exact outcome_other program "'vector' " rfl rfl
            (by simp [JsonValuePtr.getType, Ty.eJsonType])
  | set element =>
      cases p with
      | array value =>
          refine (outcome_foldlM (fun v p => ?_) value x).trans
            (outcomeOf_type rfl isRequire _).symm
          exact (outcome_return _ _).trans
            (outcome_readValue element (element.fresh program) p true)
      | _ =>
          exact outcome_other program "'vector' " rfl rfl
            (by simp [JsonValuePtr.getType, Ty.eJsonType])
  | unorderedSet element =>
      cases p with
      | array value =>
          refine (outcome_foldlM (fun v p => ?_) value x).trans
            (outcomeOf_type rfl isRequire _).symm
          exact (outcome_return _ _).trans
            (outcome_readValue element (element.fresh program) p true)
      | _ =>
          exact outcome_other program "'vector' " rfl rfl
            (by simp [JsonValuePtr.getType, Ty.eJsonType])
  | map container key element =>
      cases p with
      | obj value =>
          refine (outcome_foldlM (fun m entry => ?_) value x).trans
            (outcomeOf_type rfl isRequire _).symm
          rw [outcomeOf_append, ← outcome_readKey container key entry.1]
          refine outcome_bind fun first => ?_
          exact (outcome_return _ _).trans
            (outcome_readValue element (element.fresh program) entry.2 true)
      | _ =>
          exact outcome_other program "'map' " rfl rfl
            (by simp [JsonValuePtr.getType, Ty.eJsonType])
  | enumMap underlying element =>
      cases p with
      | obj value =>
          refine (outcome_foldlM (fun m entry => ?_) value x).trans
            (outcomeOf_type rfl isRequire _).symm
          exact (outcome_return _ _).trans
            (outcome_readValue element (element.fresh program) entry.2 true)
      | _ =>
          exact outcome_other program "'map' " rfl rfl
            (by simp [JsonValuePtr.getType, Ty.eJsonType])
  | struct members =>
      cases p with
      | obj value =>
          refine (outcome_readMembers members _ value).trans ?_
          exact (outcomeOf_type rfl isRequire _).symm
      | _ =>
          exact outcome_other program "'Char' " rfl rfl
            (by simp [JsonValuePtr.getType, Ty.eJsonType])

theorem outcome_readKey (container : Container) (key : Key)
    (text : List UInt8) :
    outcome (@readKey Floating double _ program container key text) =
      outcomeOf (key.checks text : List (Check double)) := by
  cases key with
  | string => rfl
  | bool => rfl
  | integer type readable => rfl
  | floating type => rfl
  | struct members =>
      unfold readKey Key.checks
      show _ = Outcome.andThen (Check.outcome _) _
      cases parsed :
          (getValue text : EStateM.Result _ _ (JsonValuePtr double)) with
      | ok p reader =>
          cases p with
          | obj value =>
              rw [outcome_keyText]
              simp only [Check.isObject, parsed, if_true]
              exact outcome_readMembers members _ value
          | _ =>
              rw [outcome_keyText]
              simp only [Check.isObject, parsed, Bool.false_eq_true, if_false]
              rfl
      | error fault reader =>
          obtain ⟨message, rfl⟩ := getValue_ends text parsed
          rw [outcome_keyText]
          simp only [Check.isObject, parsed, Bool.false_eq_true, if_false]
          rfl

theorem outcome_readTarget (target : Target) (x : target.Value Floating)
    (p : JsonValuePtr double) (isRequire : Bool) :
    outcome (readTarget program target x p isRequire) =
      outcomeOf (target.checks p isRequire) := by
  cases target with
  | value type => exact outcome_readValue type x p isRequire
  | chars bufLen => exact outcome_readChars x p isRequire
  | elements len element =>
      exact outcome_readElements
        (fun x p => outcome_readValue element x p true) x p isRequire

theorem outcome_readMembers (members : Members) (v : members.Value Floating)
    (value : Entries double) :
    outcome (readMembers program members v value) =
      outcomeOf (members.checks value) := by
  cases members with
  | nil => rfl
  | cons name isRequire target rest =>
      rw [Members.checks, outcomeOf_append,
        ← outcome_readMembers rest v.2 value,
        ← outcome_readTarget target v.1 (valueAt value name) isRequire]
      exact outcome_bind fun member => outcome_return _ _

end

/-- The call returns or throws `TC_Json_Exception`, whatever the target was,
and a value that is absent and not required leaves it as it was. -/
structure Decodes (target : Target) (p : JsonValuePtr double)
    (isRequire : Bool) : Prop where
  ends : ∀ x, (∃ y, readJson program target x p isRequire = .ok y) ∨
    ∃ buffer, readJson program target x p isRequire =
      .error (.TC_Json_Exception buffer)
  unchanged : isRequire = false → p = .nullptr →
    ∀ x, readJson program target x p isRequire = .ok x

/-- Decoding asks these questions, and the first with the answer no, if there
is one, is not about a value that is required and absent, and not about a
string that fits only if 32 bits count its bytes. -/
def FirstFailureThrows (checks : List (Check double)) : Prop :=
  ∀ before check behind, checks = before ++ check :: behind →
    (∀ passed ∈ before, passed.Passes) → ¬ check.Passes → ¬ check.Breaks

theorem outcome_ne_breaks_iff {α : Type} (result : Except Failure α) :
    outcome result ≠ .breaks ↔
      (∃ y, result = .ok y) ∨
        ∃ buffer, result = .error (.TC_Json_Exception buffer) := by
  cases result with
  | ok y => simp [outcome]
  | error failure => cases failure <;> simp [outcome]

theorem readJson_absent (target : Target) (x : target.Value Floating) :
    readJson program target x (.nullptr : JsonValuePtr double) false =
      .ok x := by
  cases target with
  | value type => cases type <;> rfl
  | chars bufLen => rfl
  | elements len element => rfl

/-- Decoding is total exactly for those trees whose first obstacle is a value
of the wrong type, or too large. -/
theorem decodes_iff (target : Target) (p : JsonValuePtr double)
    (isRequire : Bool) :
    Decodes program target p isRequire ↔
      FirstFailureThrows (target.checks p isRequire) := by
  have same : ∀ x : target.Value Floating,
      outcome (readJson program target x p isRequire) =
        outcomeOf (target.checks p isRequire) :=
    fun x => outcome_readTarget program target x p isRequire
  unfold FirstFailureThrows
  rw [← outcomeOf_ne_breaks_iff]
  constructor
  · rintro ⟨ends, _⟩
    rw [← same (target.fresh program)]
    exact (outcome_ne_breaks_iff _).mpr (ends _)
  · intro ne
    refine ⟨fun x => (outcome_ne_breaks_iff _).mp ((same x).trans_ne ne), ?_⟩
    rintro rfl rfl x
    exact readJson_absent program target x

/-- Numbers are exact, and nothing is compared. -/
def exactProgram : Program (fun _ => Option ℚ) (Option ℚ) where
  cast _ value := value
  quiet_NaN _ := none
  strtoFloating _ text := some (CString.strtol 10 text)
  indeterminate _ := 0
  indeterminateBool := false
  indeterminateFloating _ := some 0
  resetDefautlt _ members := members
  equivalent _ _ _ := false
  equivalentKeys _ _ _ := false
  equivalentEnums _ first second := first = second

/-- An empty object, for a structure with a required member. -/
theorem missing_member : ¬ Decodes exactProgram
    (.value (.struct (.cons (CString.ascii "ok") true (.value .bool) .nil)))
    (.obj []) true := by
  intro decodes
  have ended : readJson exactProgram
      (.value (.struct (.cons (CString.ascii "ok") true (.value .bool) .nil)))
      ((false, ()) : Bool × Unit) (.obj []) true =
        .error .TC_AutoPtrNull_Exception := rfl
  rcases decodes.ends ((false, ()) : Bool × Unit) with
    ⟨y, returned⟩ | ⟨buffer, thrown⟩
  · rw [ended] at returned
    cases returned
  · rw [ended] at thrown
    cases thrown

end TarsCpp.JsonInput
