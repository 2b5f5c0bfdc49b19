import TarsCpp.Cron.TcCron

/-!
# The bits of a field

The loop of an item counts with eight bits.  An increment of at most 196 takes
it out of the field, which has at most 60 values.  A larger one takes it past
255 and back, to a smaller value than before.
-/

namespace TarsCpp.Cron

/-- A value that the loop comes by, in front of a field of 60 values. -/
def Reached (minval first last delta v : Nat) : Prop :=
  (∃ k, v = first + k * delta ∧ v ≤ last) ∨
  (196 < delta ∧ minval ≤ v ∧ ∃ k, v + k * (256 - delta) = first)

variable {N : Nat}

theorem Bitset.set_eq {target : Bitset N} {i : Nat} (within : i < N) :
    target.set i = .ok (Function.update target ⟨i, within⟩ true) :=
  dif_pos within

theorem update_iff {target : Bitset N} {i : Nat} (within : i < N)
    (j : Fin N) :
    Function.update target ⟨i, within⟩ true j = true ↔
      target j = true ∨ j.val = i := by
  by_cases same : j = ⟨i, within⟩
  · subst same
    simp
  · have differs : j.val ≠ i := fun equal => same (Fin.ext equal)
    simp [same, differs]

section Loop

variable {last delta i : UInt8}

theorem setLoop_out {turns : Nat} {target : Bitset N}
    (out : last.toNat < i.toNat) :
    setLoop last delta (turns + 1) i target = .ok target := by
  have outside : ¬ i ≤ last := by
    rw [UInt8.le_iff_toNat_le]
    omega
  rw [setLoop, if_neg outside]

theorem setLoop_in {turns : Nat} {target : Bitset N}
    (inside : i.toNat ≤ last.toNat) (within : i.toNat < N) :
    setLoop last delta (turns + 1) i target =
      setLoop last delta turns (i + delta)
        (Function.update target ⟨i.toNat, within⟩ true) := by
  rw [setLoop, if_pos (UInt8.le_iff_toNat_le.mpr inside), Bitset.set_eq within]
  rfl

/-- The loop with a small increment, which goes up. -/
theorem setLoop_up (turns : Nat) (target : Bitset N)
    (field : last.toNat < N) (bound : last.toNat ≤ 59)
    (positive : 0 < delta.toNat) (small : delta.toNat ≤ 196)
    (enough : last.toNat + 1 < turns + i.toNat) (nonzero : 0 < turns) :
    ∃ result, setLoop last delta turns i target = .ok result ∧
      ∀ j, result j = true ↔ target j = true ∨
        ∃ k, j.val = i.toNat + k * delta.toNat ∧ j.val ≤ last.toNat := by
  induction turns generalizing i target with
  | zero => exact absurd nonzero (by omega)
  | succ turns ih =>
      rcases Nat.lt_or_ge last.toNat i.toNat with out | inside
      · refine ⟨target, setLoop_out out, fun j => ?_⟩
        constructor
        · exact Or.inl
        · rintro (set | ⟨k, reached, limit⟩)
          · exact set
          · omega
      · have next : (i + delta).toNat = i.toNat + delta.toNat := by
          rw [UInt8.toNat_add]
          omega
        rw [setLoop_in inside (by omega)]
        obtain ⟨result, run, bits⟩ := ih (i := i + delta)
          (Function.update target ⟨i.toNat, by omega⟩ true)
          (by omega) (by omega)
        refine ⟨result, run, fun j => ?_⟩
        rw [bits, update_iff, next, or_assoc]
        refine or_congr_right ?_
        constructor
        · rintro (here | ⟨k, reached, limit⟩)
          · exact ⟨0, by omega, by omega⟩
          · exact ⟨k + 1, by rw [Nat.add_mul]; omega, limit⟩
        · rintro ⟨k, reached, limit⟩
          cases k with
          | zero => exact Or.inl (by omega)
          | succ k =>
              rw [Nat.add_mul] at reached
              exact Or.inr ⟨k, by omega, limit⟩

/-- The loop with a large increment, which goes down. -/
theorem setLoop_down (turns : Nat) (target : Bitset N)
    (field : last.toNat < N) (bound : last.toNat ≤ 59)
    (large : 196 < delta.toNat) (inside : i.toNat ≤ last.toNat)
    (enough : i.toNat + 1 < turns) :
    ∃ result, setLoop last delta turns i target = .ok result ∧
      ∀ j, result j = true ↔ target j = true ∨
        ∃ k, j.val + k * (256 - delta.toNat) = i.toNat := by
  induction turns generalizing i target with
  | zero => exact absurd enough (by omega)
  | succ turns ih =>
      have narrow := delta.toNat_lt
      have sum : (i + delta).toNat = (i.toNat + delta.toNat) % 256 :=
        UInt8.toNat_add i delta
      rw [setLoop_in inside (by omega)]
      rcases Nat.lt_or_ge i.toNat (256 - delta.toNat) with least | more
      · -- The next value is behind the field.
        obtain ⟨turns, rfl⟩ := Nat.exists_eq_add_one.mpr
          (by omega : 0 < turns)
        have out : last.toNat < (i + delta).toNat := by omega
        refine ⟨_, setLoop_out out, fun j => ?_⟩
        rw [update_iff]
        refine or_congr_right ?_
        constructor
        · intro here
          exact ⟨0, by omega⟩
        · rintro ⟨k, reached⟩
          cases k with
          | zero => omega
          | succ k =>
              rw [Nat.add_mul] at reached
              omega
      · have next : (i + delta).toNat = i.toNat - (256 - delta.toNat) := by
          omega
        obtain ⟨result, run, bits⟩ := ih (i := i + delta)
          (Function.update target ⟨i.toNat, by omega⟩ true)
          (by omega) (by omega)
        refine ⟨result, run, fun j => ?_⟩
        rw [bits, update_iff, next, or_assoc]
        refine or_congr_right ?_
        constructor
        · rintro (here | ⟨k, reached⟩)
          · exact ⟨0, by omega⟩
          · exact ⟨k + 1, by rw [Nat.add_mul]; omega⟩
        · rintro ⟨k, reached⟩
          cases k with
          | zero => exact Or.inl (by omega)
          | succ k =>
              rw [Nat.add_mul] at reached
              exact Or.inr ⟨k, by omega⟩

end Loop

/-- The value `v` is set in a field that begins with `minval`. -/
def Bitset.Has (target : Bitset N) (minval v : Nat) : Prop :=
  ∃ j : Fin N, target j = true ∧ v = minval + j.val

/-- Bits set at places are values set. -/
theorem Bitset.has_iff {target result : Bitset N} (p : Nat → Prop)
    {q : Nat → Prop} {minval : Nat}
    (set : ∀ j : Fin N, result j = true ↔ target j = true ∨ p j.val)
    (same : ∀ v, q v ↔ ∃ j < N, v = minval + j ∧ p j) (v : Nat) :
    result.Has minval v ↔ target.Has minval v ∨ q v := by
  rw [same]
  constructor
  · rintro ⟨j, isSet, value⟩
    rcases (set j).mp isSet with before | now
    · exact Or.inl ⟨j, before, value⟩
    · exact Or.inr ⟨j.val, j.isLt, value, now⟩
  · rintro (⟨j, before, value⟩ | ⟨j, limit, value, now⟩)
    · exact ⟨j, (set j).mpr (Or.inl before), value⟩
    · exact ⟨⟨j, limit⟩, (set ⟨j, limit⟩).mpr (Or.inr now), value⟩

/-- The field has a bit for each of its values. -/
structure Sized (N : Nat) (minval maxval : UInt8) : Prop where
  ordered : minval.toNat ≤ maxval.toNat
  bits : N = maxval.toNat - minval.toNat + 1
  small : N ≤ 60

variable {minval maxval : UInt8}

theorem setLoop_range (sized : Sized N minval maxval)
    {first last delta : UInt8} (least : minval ≤ first)
    (ordered : first ≤ last) (greatest : last ≤ maxval)
    (positive : 0 < delta) (target : Bitset N) :
    ∃ result,
      setLoop (last - minval) delta 257 (first - minval) target =
        .ok result ∧
      ∀ v, result.Has minval.toNat v ↔ target.Has minval.toNat v ∨
        Reached minval.toNat first.toNat last.toNat delta.toNat v := by
  obtain ⟨_, bits, small⟩ := sized
  simp only [UInt8.le_iff_toNat_le] at least ordered greatest
  have positive : 0 < delta.toNat := UInt8.lt_iff_toNat_lt.mp positive
  have start : (first - minval).toNat = first.toNat - minval.toNat :=
    UInt8.toNat_sub_of_le _ _ (UInt8.le_iff_toNat_le.mpr least)
  have stop : (last - minval).toNat = last.toNat - minval.toNat :=
    UInt8.toNat_sub_of_le _ _
      (UInt8.le_iff_toNat_le.mpr (by omega))
  have narrow := first.toNat_lt
  rcases Nat.lt_or_ge 196 delta.toNat with large | moderate
  · obtain ⟨result, run, set⟩ := @setLoop_down N (last - minval) delta
      (first - minval) 257 target (by omega) (by omega) large (by omega)
      (by omega)
    refine ⟨result, run, Bitset.has_iff
      (fun j => ∃ k, j + k * (256 - delta.toNat) = (first - minval).toNat)
      set fun v => ?_⟩
    constructor
    · rintro (⟨k, value, limit⟩ | ⟨_, inside, k, value⟩)
      · cases k with
        | zero => exact ⟨v - minval.toNat, by omega, by omega, 0, by omega⟩
        | succ k =>
            rw [Nat.add_mul] at value
            omega
      · exact ⟨v - minval.toNat, by omega, by omega, k, by omega⟩
    · rintro ⟨j, limit, rfl, k, value⟩
      exact Or.inr ⟨large, by omega, k, by omega⟩
  · obtain ⟨result, run, set⟩ := @setLoop_up N (last - minval) delta
      (first - minval) 257 target (by omega) (by omega) positive moderate
      (by omega) (by omega)
    refine ⟨result, run, Bitset.has_iff
      (fun j => ∃ k, j = (first - minval).toNat + k * delta.toNat ∧
        j ≤ (last - minval).toNat) set fun v => ?_⟩
    constructor
    · rintro (⟨k, value, limit⟩ | ⟨large, _⟩)
      · exact ⟨v - minval.toNat, by omega, by omega, k, by omega, by omega⟩
      · omega
    · rintro ⟨j, limit, rfl, k, value, bound⟩
      exact Or.inl ⟨k, by omega, by omega⟩

/-- A failure that `TC_CronException` reports. -/
def Failure.Reported (failure : Failure) : Prop :=
  ∃ buffer, failure = .TC_CronException buffer

theorem ok_bind {α β : Type} (a : α) (f : α → Except Failure β) :
    (Except.ok a >>= f) = f a := rfl

/-- Failures are reported, and results have the property. -/
def Reports {α : Type} (p : α → Prop) : Except Failure α → Prop
  | .ok a => p a
  | .error failure => failure.Reported

section Reporting

variable {α β : Type} {p : α → Prop} {q : β → Prop}

theorem reports_thrown (text : String) : Reports p (thrown text) :=
  ⟨_, rfl⟩

theorem Reports.bind {x : Except Failure α} {f : α → Except Failure β}
    (reports : Reports p x) (next : ∀ a, p a → Reports q (f a)) :
    Reports q (x >>= f) := by
  cases x with
  | ok a => exact next a reports
  | error failure => exact reports

theorem Reports.of_ok {x : Except Failure α} {a : α} (reports : Reports p x)
    (ok : x = .ok a) : p a := by
  rw [ok] at reports
  exact reports

theorem Reports.of_error {x : Except Failure α} {failure : Failure}
    (reports : Reports p x) (failed : x = .error failure) :
    failure.Reported := by
  rw [failed] at reports
  exact reports

end Reporting

theorem to_cron_int_reports (text : List UInt8) :
    Reports (fun _ => True) (to_cron_int text) := by
  rw [to_cron_int]
  split
  · trivial
  · exact reports_thrown _

theorem rangeEnds_reports (field : List UInt8) (minval maxval : UInt8) :
    Reports (fun _ => True) (rangeEnds field minval maxval) := by
  rw [rangeEnds]
  split
  · trivial
  · split
    · exact (to_cron_int_reports _).bind fun _ _ => trivial
    · split
      · refine (to_cron_int_reports _).bind fun _ _ => ?_
        exact (to_cron_int_reports _).bind fun _ _ => trivial
      · exact reports_thrown _

/-- What an item is read as lies in the field. -/
structure Within (minval maxval : UInt8) (item : UInt8 × UInt8 × UInt8) :
    Prop where
  least : minval ≤ item.1
  ordered : item.1 ≤ item.2.1
  greatest : item.2.1 ≤ maxval
  positive : 0 < item.2.2

theorem makeRange_reports (field : List UInt8) (minval maxval : UInt8) :
    Reports
      (fun range =>
        minval ≤ range.1 ∧ range.1 ≤ range.2 ∧ range.2 ≤ maxval)
      (makeRange field minval maxval) := by
  rw [makeRange]
  refine (rangeEnds_reports _ _ _).bind ?_
  rintro ⟨first, last⟩ -
  dsimp only
  split
  · exact reports_thrown _
  · next most =>
      split
      · exact reports_thrown _
      · next least =>
          split
          · exact reports_thrown _
          · next ordered =>
              rw [not_or] at most least
              exact ⟨UInt8.not_lt.mp least.1, UInt8.not_lt.mp ordered,
                UInt8.not_lt.mp most.2⟩

theorem itemOf_reports (field : List UInt8) (minval maxval : UInt8) :
    Reports (Within minval maxval) (itemOf field minval maxval) := by
  rw [itemOf]
  split
  · refine (makeRange_reports _ _ _).bind ?_
    rintro ⟨first, last⟩ ⟨least, ordered, greatest⟩
    exact ⟨least, ordered, greatest, UInt8.lt_iff_toNat_lt.mpr Nat.one_pos⟩
  · split
    · next base increment _ =>
        refine (makeRange_reports _ _ _).bind ?_
        rintro ⟨first, last⟩ ⟨least, ordered, greatest⟩
        refine (to_cron_int_reports _).bind fun delta _ => ?_
        split
        · exact reports_thrown _
        · next positive =>
            refine ⟨least, ?_, ?_, UInt8.not_le.mp positive⟩
            · dsimp only
              split
              · exact UInt8.le_trans ordered greatest
              · exact ordered
            · dsimp only
              split
              · exact UInt8.le_refl _
              · exact greatest
    · exact reports_thrown _

variable {minval maxval : UInt8}

/-- The loop of the item `field` comes by the value. -/
def Sets (minval maxval : UInt8) (field : List UInt8) (v : Nat) : Prop :=
  ∃ first last delta, itemOf field minval maxval = .ok (first, last, delta) ∧
    Reached minval.toNat first.toNat last.toNat delta.toNat v

/-- Every item of the list is read, and these are the values. -/
def SetsAll (minval maxval : UInt8) (target : Bitset N)
    (fields : List (List UInt8)) (result : Bitset N) : Prop :=
  (∀ field ∈ fields, ∃ item, itemOf field minval maxval = .ok item) ∧
  ∀ v, result.Has minval.toNat v ↔
    target.Has minval.toNat v ∨ ∃ field ∈ fields, Sets minval maxval field v

theorem setItem_reports (sized : Sized N minval maxval) (target : Bitset N)
    (field : List UInt8) :
    Reports (SetsAll minval maxval target [field])
      (setItem minval maxval target field) := by
  rw [setItem]
  cases read : itemOf field minval maxval with
  | error failure => exact (itemOf_reports _ _ _).of_error read
  | ok item =>
      obtain ⟨first, last, delta⟩ := item
      have within := (itemOf_reports _ _ _).of_ok read
      obtain ⟨result, run, has⟩ := setLoop_range sized within.least
        within.ordered within.greatest within.positive target
      rw [ok_bind]
      dsimp only
      rw [run]
      refine ⟨?_, fun v => ?_⟩
      · rintro other member
        rw [List.mem_singleton.mp member]
        exact ⟨_, read⟩
      · rw [has]
        refine or_congr_right ?_
        constructor
        · intro reached
          exact ⟨field, List.mem_singleton_self _, _, _, _, read, reached⟩
        · rintro ⟨other, member, _, _, _, read', reached⟩
          rw [List.mem_singleton.mp member, read] at read'
          cases read'
          exact reached

theorem foldlM_setItem_reports (sized : Sized N minval maxval)
    (target : Bitset N) (fields : List (List UInt8)) :
    Reports (SetsAll minval maxval target fields)
      (fields.foldlM (setItem minval maxval) target) := by
  induction fields generalizing target with
  | nil =>
      refine ⟨fun field member => absurd member List.not_mem_nil, fun v => ?_⟩
      simp
  | cons field fields ih =>
      rw [List.foldlM_cons]
      refine (setItem_reports sized target field).bind ?_
      rintro next ⟨readable, has⟩
      have later := ih next
      cases run : fields.foldlM (setItem minval maxval) next with
      | error failure => exact later.of_error run
      | ok result =>
          obtain ⟨readable', has'⟩ := later.of_ok run
          refine ⟨?_, fun v => ?_⟩
          · exact List.forall_mem_cons.mpr
              ⟨readable field (List.mem_singleton_self _), readable'⟩
          · rw [has', has, or_assoc]
            simp

/-- The items of a field that is not rejected. -/
structure Accepted (minval maxval : UInt8) (value : List UInt8) : Prop where
  ended : value.getLast? ≠ some 44
  nonempty : sepstr 44 value ≠ []
  read : ∀ field ∈ sepstr 44 value,
    ∃ item, itemOf field minval maxval = .ok item

theorem foldlM_setItem_of_readable (sized : Sized N minval maxval)
    (target : Bitset N) {fields : List (List UInt8)}
    (readable :
      ∀ field ∈ fields, ∃ item, itemOf field minval maxval = .ok item) :
    ∃ result, fields.foldlM (setItem minval maxval) target = .ok result := by
  induction fields generalizing target with
  | nil => exact ⟨target, rfl⟩
  | cons field fields ih =>
      obtain ⟨⟨⟨first, last, delta⟩, read⟩, readable⟩ :=
        List.forall_mem_cons.mp readable
      have within := (itemOf_reports _ _ _).of_ok read
      obtain ⟨next, run, _⟩ := setLoop_range sized within.least
        within.ordered within.greatest within.positive target
      have step : setItem minval maxval target field = .ok next := by
        rw [setItem, read, ok_bind]
        exact run
      obtain ⟨result, rest⟩ := ih next readable
      rw [List.foldlM_cons, step, ok_bind]
      exact ⟨result, rest⟩

def Bitset.empty : Bitset N := fun _ => false

theorem Bitset.not_has_empty (minval v : Nat) :
    ¬ (Bitset.empty : Bitset N).Has minval v := by
  rintro ⟨j, set, _⟩
  exact Bool.false_ne_true set

/-- A field is rejected, or it is accepted and has the values that the loops
of its items come by. -/
theorem setCronField_reports (sized : Sized N minval maxval)
    (value : List UInt8) :
    Reports
      (fun result => Accepted minval maxval value ∧
        ∀ v, result.Has minval.toNat v ↔
          ∃ field ∈ sepstr 44 value, Sets minval maxval field v)
      (setCronField value (Bitset.empty : Bitset N) minval maxval) := by
  rw [setCronField]
  split
  · exact reports_thrown _
  · next ended =>
      split
      · exact reports_thrown _
      · next nonempty =>
          have all := foldlM_setItem_reports sized Bitset.empty
            (sepstr 44 value)
          cases run : (sepstr 44 value).foldlM (setItem minval maxval)
              (Bitset.empty : Bitset N) with
          | error failure => exact all.of_error run
          | ok result =>
              obtain ⟨readable, has⟩ := all.of_ok run
              refine ⟨⟨ended, nonempty, readable⟩, fun v => ?_⟩
              rw [has]
              exact or_iff_right (Bitset.not_has_empty _ _)

theorem setCronField_of_accepted (sized : Sized N minval maxval)
    {value : List UInt8} (accepted : Accepted minval maxval value) :
    ∃ result,
      setCronField value (Bitset.empty : Bitset N) minval maxval =
        .ok result := by
  rw [setCronField, if_neg accepted.ended, if_neg accepted.nonempty]
  exact foldlM_setItem_of_readable sized _ accepted.read

end TarsCpp.Cron
