import TarsCpp.Cron.Reading

/-!
# The six fields of an expression

An expression that is not rejected sets the values its items say, when every
item says something and no increment leads to a value that none of them says.
-/

namespace TarsCpp.Cron

inductive Slot
  | seconds
  | minutes
  | hours
  | days_of_week
  | days_of_month
  | months
deriving DecidableEq, Repr

namespace Slot

def size : Slot → Nat
  | seconds => 60
  | minutes => 60
  | hours => 24
  | days_of_week => 7
  | days_of_month => 31
  | months => 12

def minval : Slot → UInt8
  | seconds => 0
  | minutes => 0
  | hours => 0
  | days_of_week => 0
  | days_of_month => 1
  | months => 1

def maxval : Slot → UInt8
  | seconds => 59
  | minutes => 59
  | hours => 23
  | days_of_week => 6
  | days_of_month => 31
  | months => 12

def names : Slot → List (List UInt8)
  | days_of_week => DAYS
  | months => MONTHS
  | _ => []

theorem sized (slot : Slot) : Sized slot.size slot.minval slot.maxval := by
  cases slot <;> exact ⟨by decide, by decide, by decide⟩

theorem isNames (slot : Slot) : Names slot.names := by
  cases slot with
  | days_of_week => exact names_DAYS
  | months => exact names_MONTHS
  | seconds => exact names_nil
  | minutes => exact names_nil
  | hours => exact names_nil
  | days_of_month => exact names_nil

end Slot

def TcCron.bits (cron : TcCron) : (slot : Slot) → Bitset slot.size
  | .seconds => cron.seconds
  | .minutes => cron.minutes
  | .hours => cron.hours
  | .days_of_week => cron.days_of_week
  | .days_of_month => cron.days_of_month
  | .months => cron.months

/-- The fields of an expression, in their order. -/
structure Fields where
  second : List UInt8
  minute : List UInt8
  hour : List UInt8
  monthday : List UInt8
  month : List UInt8
  weekday : List UInt8

namespace Fields

def Written (fields : Fields) (expr : List UInt8) : Prop :=
  sepstr 32 expr =
    [fields.second, fields.minute, fields.hour, fields.monthday,
      fields.month, fields.weekday]

/-- The text of a field, with `*` for the `?` of a field of days. -/
def text (fields : Fields) : Slot → List UInt8
  | .seconds => fields.second
  | .minutes => fields.minute
  | .hours => fields.hour
  | .days_of_week => wild fields.weekday
  | .days_of_month => wild fields.monthday
  | .months => fields.month

/-- The text that `setCronField` is called with. -/
def value (fields : Fields) : Slot → List UInt8
  | .seconds => fields.second
  | .minutes => fields.minute
  | .hours => fields.hour
  | .days_of_week => wild (replaceOrdinals (upper fields.weekday) DAYS)
  | .days_of_month => wild fields.monthday
  | .months => replaceOrdinals (upper fields.month) MONTHS

end Fields

/-- The field sets exactly the values of its items. -/
def Means (slot : Slot) (text : List UInt8) (bits : Bitset slot.size) : Prop :=
  ∃ items, Consists slot.names slot.minval slot.maxval text items ∧
    ∀ v, bits.Has slot.minval.toNat v ↔ ∃ item ∈ items, item.Denotes v

/-- The expression is rejected, or each field has exactly the values that its
items say. -/
def Exact (expr : List UInt8) : Prop :=
  (∃ buffer, makecron expr = .error (.TC_CronException buffer)) ∨
  ∃ cron fields, makecron expr = .ok cron ∧ Fields.Written fields expr ∧
    ∀ slot, Means slot (fields.text slot) (cron.bits slot)

/-- The values that an increment of eight bits leads to. -/
def Item.Reaches (minval : UInt8) (item : Item) (v : Nat) : Prop :=
  Reached minval.toNat item.first item.last (item.step % 256) v

/-- The field consists of items, and no increment of eight bits leads to a
value that none of them says. -/
def Plain (slot : Slot) (text : List UInt8) : Prop :=
  ∃ items, Consists slot.names slot.minval slot.maxval text items ∧
    ∀ item ∈ items, ∀ v, item.Reaches slot.minval v →
      ∃ other ∈ items, other.Denotes v

theorem Item.reaches_of_denotes {minval maxval : UInt8} {item : Item}
    (small : maxval.toNat ≤ 59) (valid : item.Valid minval maxval) {v : Nat}
    (denoted : item.Denotes v) : item.Reaches minval v := by
  obtain ⟨k, value, limit⟩ := denoted
  obtain ⟨least, ordered, greatest, positive⟩ := valid
  rcases Nat.lt_or_ge item.step 256 with narrow | wide
  · refine Or.inl ⟨k, ?_, limit⟩
    rw [Nat.mod_eq_of_lt narrow]
    exact value
  · cases k with
    | zero => exact Or.inl ⟨0, by omega, limit⟩
    | succ k =>
        rw [Nat.add_mul] at value
        omega

section Values

variable {slot : Slot} {text value : List UInt8} {items : List Item}

theorem Slot.maxval_le (slot : Slot) : slot.maxval.toNat ≤ 59 := by
  cases slot <;> decide

/-- The loops of the field come by what its items reach. -/
theorem sets_iff_reaches
    (consists : Consists slot.names slot.minval slot.maxval text items)
    (renamed : Renamed slot.names text value)
    (accepted : Accepted slot.minval slot.maxval value) (v : Nat) :
    (∃ field ∈ sepstr 44 value, Sets slot.minval slot.maxval field v) ↔
      ∃ item ∈ items, item.Reaches slot.minval v := by
  obtain ⟨reads, valid⟩ := consists
  have read := accepted.read
  have parts := renamed.sepstr slot.isNames mark_comma
  have pairs : List.Forall₂
      (fun item field => ∃ text, Reads slot.names slot.minval slot.maxval text
        item ∧ Renamed slot.names text field)
      items (sepstr 44 value) :=
    forall₂_comp (fun item text field reads renamed => ⟨text, reads, renamed⟩)
      reads.flip parts
  generalize sepstr 44 value = fields at pairs read
  clear reads parts accepted renamed
  induction pairs with
  | nil => simp
  | @cons item field items fields head _ ih =>
      obtain ⟨text, reads, renamed⟩ := head
      obtain ⟨⟨⟨f, l, d⟩, ok⟩, read⟩ := List.forall_mem_cons.mp read
      obtain ⟨good, valid⟩ := List.forall_mem_cons.mp valid
      obtain ⟨first, last, step⟩ := reads.read slot.isNames renamed ok
      have narrow := slot.maxval_le
      obtain ⟨least, ordered, greatest, positive⟩ := good
      rw [Nat.mod_eq_of_lt (by omega)] at first
      rw [Nat.mod_eq_of_lt (by omega)] at last
      have same : Sets slot.minval slot.maxval field v ↔
          item.Reaches slot.minval v := by
        rw [Item.Reaches, ← first, ← last, ← step]
        constructor
        · rintro ⟨f', l', d', ok', reached⟩
          rw [ok] at ok'
          cases ok'
          exact reached
        · intro reached
          exact ⟨f, l, d, ok, reached⟩
      simp only [List.exists_mem_cons_iff, same, ih valid read]

/-- A field that is read has exactly the values its items say when it is
plain. -/
theorem means_iff_plain (renamed : Renamed slot.names text value)
    {bits : Bitset slot.size}
    (accepted : Accepted slot.minval slot.maxval value)
    (has : ∀ v, bits.Has slot.minval.toNat v ↔
      ∃ field ∈ sepstr 44 value, Sets slot.minval slot.maxval field v) :
    Means slot text bits ↔ Plain slot text := by
  constructor
  · rintro ⟨items, consists, exact⟩
    refine ⟨items, consists, fun item member v reached => ?_⟩
    rw [← exact, has, sets_iff_reaches consists renamed accepted]
    exact ⟨item, member, reached⟩
  · rintro ⟨items, consists, within⟩
    refine ⟨items, consists, fun v => ?_⟩
    rw [has, sets_iff_reaches consists renamed accepted]
    constructor
    · rintro ⟨item, member, reached⟩
      exact within item member v reached
    · rintro ⟨item, member, denoted⟩
      exact ⟨item, member, Item.reaches_of_denotes slot.maxval_le
        (consists.valid item member) denoted⟩

end Values

/-- A replacement leaves a question mark alone only where nothing else was. -/
theorem replaced_question {names : List (List UInt8)} {text text' : List UInt8}
    (isNames : Names names) (replaced : Replaced names text text') :
    text' = [63] ↔ text = [63] := by
  refine replaced.keeps (p := fun part => part = [63] ↔ text = [63]) Iff.rfl ?_
  intro part name member same
  rw [← same]
  constructor
  · intro single
    cases found : CString.find name.1 part with
    | none => rwa [replaceOrdinal_missing found] at single
    | some pos =>
        obtain ⟨before, behind, _, touched⟩ :=
          replaceOrdinal_found (isNames.name member) found
        obtain ⟨c, rest, shape⟩ :=
          List.exists_cons_of_ne_nil (decimal_digits name.2).1
        have digit := (decimal_digits name.2).2 c
          (by rw [shape]; exact List.mem_cons_self)
        have inside : c ∈ [63] := by
          rw [← single, touched, shape]
          simp
        rw [List.mem_singleton.mp inside] at digit
        exact absurd digit (by decide)
  · rintro rfl
    refine replaceOrdinal_of_no_letter (isNames.name member) fun c inside => ?_
    rw [List.mem_singleton.mp inside]
    decide

theorem upper_question {text : List UInt8} :
    upper text = [63] ↔ text = [63] := by
  constructor
  · intro same
    obtain ⟨c, rfl, question⟩ := List.map_eq_singleton_iff.mp same
    rw [(toupper_eq_iff mark_question.separator mark_question.noLower).mp
      question]
  · rintro rfl
    decide

theorem Fields.renamed (fields : Fields) (slot : Slot) :
    Renamed slot.names (fields.text slot) (fields.value slot) := by
  cases slot with
  | seconds => exact Or.inl ⟨rfl, rfl⟩
  | minutes => exact Or.inl ⟨rfl, rfl⟩
  | hours => exact Or.inl ⟨rfl, rfl⟩
  | days_of_month => exact Or.inl ⟨rfl, rfl⟩
  | months => exact Or.inr (replaced_replaceOrdinals _ _)
  | days_of_week =>
      refine Or.inr ?_
      have replaced := replaced_replaceOrdinals DAYS (upper fields.weekday)
      have question := replaced_question names_DAYS replaced
      rw [upper_question] at question
      rw [Fields.text, Fields.value, wild, wild]
      by_cases single : fields.weekday = [63]
      · rw [if_pos single, if_pos (question.mpr single)]
        exact .refl
      · rw [if_neg single, if_neg fun same => single (question.mp same)]
        exact replaced

/-- Every field is read, and holds the values that its loops come by. -/
def Holds (fields : Fields) (cron : TcCron) : Prop :=
  ∀ slot, Accepted slot.minval slot.maxval (fields.value slot) ∧
    ∀ v, (cron.bits slot).Has slot.minval.toNat v ↔
      ∃ field ∈ sepstr 44 (fields.value slot),
        Sets slot.minval slot.maxval field v

theorem makecron_reports (expr : List UInt8) :
    Reports (fun cron => ∃ fields, Fields.Written fields expr ∧
      Holds fields cron) (makecron expr) := by
  rw [makecron]
  split
  · exact reports_thrown _
  · split
    · next second minute hour monthday month weekday written =>
        let fields : Fields :=
          { second, minute, hour, monthday, month, weekday }
        have each := fun slot : Slot =>
          setCronField_reports slot.sized (fields.value slot)
        refine (each .seconds).bind fun seconds first => ?_
        refine (each .minutes).bind fun minutes second => ?_
        refine (each .hours).bind fun hours third => ?_
        refine (each .days_of_week).bind fun days_of_week fourth => ?_
        refine (each .days_of_month).bind fun days_of_month fifth => ?_
        refine (each .months).bind fun months sixth => ?_
        refine ⟨fields, written, fun slot => ?_⟩
        cases slot with
        | seconds => exact first
        | minutes => exact second
        | hours => exact third
        | days_of_week => exact fourth
        | days_of_month => exact fifth
        | months => exact sixth
    · exact reports_thrown _

theorem makecron_eq {expr : List UInt8} {fields : Fields} {cron : TcCron}
    (written : fields.Written expr)
    (seconds : setCronField fields.second (fun _ => false) 0 59 =
      .ok cron.seconds)
    (minutes : setCronField fields.minute (fun _ => false) 0 59 =
      .ok cron.minutes)
    (hours : setCronField fields.hour (fun _ => false) 0 23 =
      .ok cron.hours)
    (days_of_week : setCronDaysOfWeek fields.weekday (fun _ => false) =
      .ok cron.days_of_week)
    (days_of_month : setCronDaysOfMonth fields.monthday (fun _ => false) =
      .ok cron.days_of_month)
    (months : setCronMonth fields.month (fun _ => false) = .ok cron.months)
    (isset : cron.isset = true) : makecron expr = .ok cron := by
  have nonempty : expr ≠ [] := by
    rintro rfl
    cases written
  rw [makecron, if_neg nonempty, written]
  dsimp only
  rw [seconds, ok_bind, minutes, ok_bind, hours, ok_bind, days_of_week,
    ok_bind, days_of_month, ok_bind, months, ok_bind, ← isset]
  rfl

theorem makecron_of_accepted {expr : List UInt8} {fields : Fields}
    (written : fields.Written expr)
    (accepted : ∀ slot : Slot,
      Accepted slot.minval slot.maxval (fields.value slot)) :
    ∃ cron, makecron expr = .ok cron := by
  have each := fun slot : Slot =>
    setCronField_of_accepted slot.sized (accepted slot)
  obtain ⟨seconds, first⟩ := each .seconds
  obtain ⟨minutes, second⟩ := each .minutes
  obtain ⟨hours, third⟩ := each .hours
  obtain ⟨days_of_week, fourth⟩ := each .days_of_week
  obtain ⟨days_of_month, fifth⟩ := each .days_of_month
  obtain ⟨months, sixth⟩ := each .months
  exact ⟨⟨seconds, minutes, hours, days_of_week, days_of_month, months, true⟩,
    makecron_eq written first second third fourth fifth sixth rfl⟩

theorem Fields.Written.unique {fields fields' : Fields} {expr : List UInt8}
    (written : fields.Written expr) (written' : fields'.Written expr) :
    fields = fields' := by
  have same := written.symm.trans written'
  simp only [List.cons.injEq, and_true] at same
  obtain ⟨second, minute, hour, monthday, month, weekday⟩ := same
  cases fields
  cases fields'
  simp only at second minute hour monthday month weekday
  subst second minute hour monthday month weekday
  rfl

/-- Every expression is rejected or exact, but for those in which a field that
is read is not plain. -/
theorem exact_iff (expr : List UInt8) :
    Exact expr ↔ ∀ fields : Fields, fields.Written expr →
      (∀ slot : Slot,
        Accepted slot.minval slot.maxval (fields.value slot)) →
      ∀ slot, Plain slot (fields.text slot) := by
  constructor
  · rintro (⟨buffer, failed⟩ | ⟨cron, fields, made, written, means⟩)
    · intro fields written accepted
      obtain ⟨cron, made⟩ := makecron_of_accepted written accepted
      rw [failed] at made
      cases made
    · intro fields' written' accepted slot
      obtain rfl := written.unique written'
      obtain ⟨fields', written', holds⟩ := (makecron_reports expr).of_ok made
      obtain rfl := written.unique written'
      exact (means_iff_plain (fields.renamed slot) (holds slot).1
        (holds slot).2).mp (means slot)
  · intro plain
    cases made : makecron expr with
    | error failure =>
        obtain ⟨buffer, rfl⟩ := (makecron_reports expr).of_error made
        exact Or.inl ⟨buffer, made⟩
    | ok cron =>
        obtain ⟨fields, written, holds⟩ := (makecron_reports expr).of_ok made
        refine Or.inr ⟨cron, fields, made, written, fun slot => ?_⟩
        exact (means_iff_plain (fields.renamed slot) (holds slot).1
          (holds slot).2).mpr
          (plain fields written (fun slot => (holds slot).1) slot)

/-- A number whose first byte is a digit is that number. -/
theorem Number.of_digits {token : List UInt8} {v : Nat}
    (number : Number [] token v) {c : UInt8} {rest : List UInt8}
    (shape : token = c :: rest) (digit : isDigit c = true) :
    v = numbered (0 : Nat) token := by
  obtain ⟨blanks, sign, word, whole, spaces, signed, ordinal⟩ := number
  have isFront : Front (blanks ++ sign) :=
    ⟨blanks, sign, rfl, spaces, signed⟩
  rw [← List.append_assoc] at whole
  cases front : blanks ++ sign with
  | nil =>
      rw [front, List.nil_append] at whole
      rcases ordinal with ⟨_, _, value⟩ | named
      · rw [whole]
        exact value
      · cases named
  | cons d others =>
      rw [front, shape, List.cons_append] at whole
      injection whole with same _
      subst same
      have byte := isFront.byte (c := c)
        (by rw [front]; exact List.mem_cons_self)
      have stays : Stays [c] := stays_digits fun d member => by
        rw [List.mem_singleton.mp member]
        exact digit
      rcases byte with space | plus
      · rw [(stays c rfl).1] at space
        exact absurd space Bool.false_ne_true
      · exact absurd plus (stays c rfl).2.1

/-- The second 300 is the second 44. -/
theorem second_300 : ¬ Exact (CString.ascii "300 * * * * *") := by
  rintro (⟨buffer, failed⟩ | ⟨cron, fields, _, written, means⟩)
  · have accepted : (makecron (CString.ascii "300 * * * * *")).isOk = true := by
      decide +kernel
    rw [failed] at accepted
    cases accepted
  · have second : fields.second = [51, 48, 48] := by
      have parts : sepstr 32 (CString.ascii "300 * * * * *") =
          [[51, 48, 48], [42], [42], [42], [42], [42]] := by decide
      rw [Fields.Written, parts] at written
      injection written with first _
      exact first.symm
    obtain ⟨items, ⟨reads, valid⟩, _⟩ := means .seconds
    have one : sepstr 44 (fields.text .seconds) = [[51, 48, 48]] := by
      rw [Fields.text, second]
      decide
    rw [one] at reads
    obtain ⟨item, rest, read, _, rfl⟩ := List.forall₂_cons_left_iff.mp reads
    have bound := (valid item List.mem_cons_self).greatest
    have most : (Slot.maxval .seconds).toNat = 59 := rfl
    rw [most] at bound
    cases read with
    | range _ range =>
        cases range with
        | single _ number =>
            have value := number.of_digits rfl (by decide)
            have big : numbered (0 : Nat) [51, 48, 48] = 300 := by decide
            rw [big] at value
            dsimp only at bound
            omega
        | between parted _ _ =>
            have whole : split 45 [51, 48, 48] = [[51, 48, 48]] := by decide
            rw [whole] at parted
            cases parted
    | upward parted _ _ _ =>
        have whole : split 47 [51, 48, 48] = [[51, 48, 48]] := by decide
        rw [whole] at parted
        cases parted
    | within parted _ _ _ =>
        have whole : split 47 [51, 48, 48] = [[51, 48, 48]] := by decide
        rw [whole] at parted
        cases parted

end TarsCpp.Cron
