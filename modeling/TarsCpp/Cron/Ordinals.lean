import TarsCpp.Cron.TcCron
import Mathlib.Logic.Relation

/-!
# Parts and names

Writing a number for a name touches one part of a separated text: the other
parts, and the places of the separators, stay.
-/

namespace TarsCpp.Cron

open CString (find First find_eq_some_iff find_eq_none_iff isspace)

section Splitting

variable {sep c : UInt8}

theorem split_ne_nil (sep : UInt8) (text : List UInt8) :
    split sep text ≠ [] := by
  induction text with
  | nil => exact List.cons_ne_nil _ _
  | cons c rest ih =>
      rw [split]
      split
      · exact List.cons_ne_nil _ _
      · split
        · exact List.cons_ne_nil _ _
        · exact List.cons_ne_nil _ _

theorem split_sep (sep : UInt8) (rest : List UInt8) :
    split sep (sep :: rest) = [] :: split sep rest := by
  rw [split, if_pos rfl]

theorem split_other (differs : c ≠ sep) {rest part : List UInt8}
    {parts : List (List UInt8)} (behind : split sep rest = part :: parts) :
    split sep (c :: rest) = (c :: part) :: parts := by
  rw [split, if_neg differs, behind]

theorem split_append {word rest part : List UInt8}
    {parts : List (List UInt8)} (absent : sep ∉ word)
    (behind : split sep rest = part :: parts) :
    split sep (word ++ rest) = (word ++ part) :: parts := by
  induction word with
  | nil => exact behind
  | cons c word ih =>
      rw [List.mem_cons, not_or] at absent
      exact split_other (Ne.symm absent.1) (ih absent.2)

/-- The first part is a prefix. -/
theorem prefix_of_split {text part : List UInt8} {parts : List (List UInt8)}
    (parted : split sep text = part :: parts) : part <+: text := by
  induction text generalizing part parts with
  | nil =>
      cases parted
      exact List.nil_prefix
  | cons c rest ih =>
      by_cases same : c = sep
      · subst same
        rw [split_sep] at parted
        cases parted
        exact List.nil_prefix
      · obtain ⟨head, tail, behind⟩ :=
          List.exists_cons_of_ne_nil (split_ne_nil sep rest)
        rw [split_other same behind] at parted
        cases parted
        exact (List.cons_prefix_cons).mpr ⟨rfl, ih behind⟩

theorem split_map {f : UInt8 → UInt8} (only : ∀ c, f c = sep ↔ c = sep)
    (text : List UInt8) :
    split sep (text.map f) = (split sep text).map (List.map f) := by
  induction text with
  | nil => rfl
  | cons c rest ih =>
      by_cases same : c = sep
      · subst same
        rw [List.map_cons, (only c).mpr rfl, split_sep, split_sep, ih]
        rfl
      · obtain ⟨part, parts, behind⟩ :=
          List.exists_cons_of_ne_nil (split_ne_nil sep rest)
        rw [behind, List.map_cons] at ih
        rw [split_other same behind, List.map_cons,
          split_other (fun equal => same ((only c).mp equal)) ih]
        rfl

theorem sepstr_of_split {text low high : List UInt8}
    (parted : split sep text = [low, high]) (someLow : low ≠ [])
    (someHigh : high ≠ []) : sepstr sep text = [low, high] := by
  rw [sepstr, parted]
  simp [someLow, someHigh]

end Splitting

/-- A name that `replaceOrdinals` looks for. -/
structure Name (name : List UInt8) : Prop where
  three : name.length = 3
  letters : ∀ c ∈ name, 65 ≤ c ∧ c ≤ 90

section Replacing

variable {sep : UInt8} {text other : List UInt8} {name : List UInt8 × Nat}

theorem replaceOrdinal_missing (missing : find name.1 text = none) :
    replaceOrdinal text name = text := by
  rw [replaceOrdinal, missing]

theorem replaceOrdinal_at {pos : Nat} (found : find name.1 text = some pos) :
    replaceOrdinal text name =
      text.take pos ++ (decimal name.2 ++ text.drop (pos + 3)) := by
  rw [replaceOrdinal, found, ← List.append_assoc]

/-- The text around the first occurrence of the name. -/
theorem replaceOrdinal_found (isName : Name name.1) {pos : Nat}
    (found : find name.1 text = some pos) :
    ∃ before behind, text = before ++ (name.1 ++ behind) ∧
      replaceOrdinal text name = before ++ (decimal name.2 ++ behind) := by
  have first := find_eq_some_iff.mp found
  refine ⟨text.take pos, text.drop (pos + 3), ?_, replaceOrdinal_at found⟩
  have parted := first.split
  rwa [isName.three] at parted

theorem replaceOrdinal_cons {c : UInt8} (behind : ¬ name.1 <+: c :: text) :
    replaceOrdinal (c :: text) name = c :: replaceOrdinal text name := by
  cases found : find name.1 text with
  | none =>
      have missing : find name.1 (c :: text) = none := by
        rw [find, if_neg behind, found]
        rfl
      rw [replaceOrdinal_missing missing, replaceOrdinal_missing found]
  | some pos =>
      have later : find name.1 (c :: text) = some (pos + 1) := by
        rw [find, if_neg behind, found]
        rfl
      rw [replaceOrdinal_at later, replaceOrdinal_at found,
        List.take_succ_cons, Nat.add_right_comm, List.drop_succ_cons]
      rfl

theorem replaceOrdinal_front (isName : Name name.1) (behind : List UInt8) :
    replaceOrdinal (name.1 ++ behind) name = decimal name.2 ++ behind := by
  have first : find name.1 (name.1 ++ behind) = some 0 :=
    find_eq_some_iff.mpr
      ⟨List.prefix_append _ _, fun _ before => absurd before (by omega)⟩
  rw [replaceOrdinal_at first, List.take_zero, List.nil_append, Nat.zero_add,
    ← isName.three, List.drop_left]

/-- A byte that stands in no name and no number. -/
structure Separator (sep : UInt8) : Prop where
  noLetter : ¬ (65 ≤ sep ∧ sep ≤ 90)
  noDigit : isDigit sep = false

theorem Separator.absent_name (separator : Separator sep)
    (isName : Name other) : sep ∉ other :=
  fun member => separator.noLetter (isName.letters sep member)

theorem Separator.absent_decimal (separator : Separator sep) (n : Nat) :
    sep ∉ decimal n := by
  intro member
  have digit := (decimal_digits n).2 sep member
  rw [separator.noDigit] at digit
  exact Bool.false_ne_true digit

/-- At most the first occurrence of the name has been replaced. -/
def Touched (name : List UInt8 × Nat) (part part' : List UInt8) : Prop :=
  part' = part ∨ part' = replaceOrdinal part name

theorem split_replaceOrdinal (separator : Separator sep)
    (isName : Name name.1) (text : List UInt8) :
    List.Forall₂ (Touched name) (split sep text)
      (split sep (replaceOrdinal text name)) := by
  have same : ∀ parts : List (List UInt8),
      List.Forall₂ (Touched name) parts parts := fun parts =>
    List.forall₂_same.mpr fun _ _ => Or.inl rfl
  induction text with
  | nil =>
      cases found : find name.1 [] with
      | none =>
          rw [replaceOrdinal_missing found]
          exact same _
      | some pos =>
          have fits := (find_eq_some_iff.mp found).fits
          rw [isName.three, List.length_nil] at fits
          exact absurd fits (by omega)
  | cons c rest ih =>
      by_cases here : name.1 <+: c :: rest
      · obtain ⟨behind, parted⟩ := here
        obtain ⟨part, parts, first⟩ :=
          List.exists_cons_of_ne_nil (split_ne_nil sep behind)
        rw [← parted, replaceOrdinal_front isName,
          split_append (separator.absent_name isName) first,
          split_append (separator.absent_decimal _) first]
        exact .cons (Or.inr (replaceOrdinal_front isName part).symm) (same _)
      · rw [replaceOrdinal_cons here]
        by_cases isSep : c = sep
        · subst isSep
          rw [split_sep, split_sep]
          exact .cons (Or.inl rfl) ih
        · obtain ⟨part, parts, first⟩ :=
            List.exists_cons_of_ne_nil (split_ne_nil sep rest)
          obtain ⟨part', parts', first'⟩ :=
            List.exists_cons_of_ne_nil
              (split_ne_nil sep (replaceOrdinal rest name))
          rw [first, first'] at ih
          rw [split_other isSep first, split_other isSep first']
          obtain ⟨head, tail⟩ := List.forall₂_cons.mp ih
          refine .cons ?_ tail
          rcases head with unchanged | replaced
          · exact Or.inl (congrArg _ unchanged)
          · refine Or.inr ?_
            have later : ¬ name.1 <+: c :: part := fun begins =>
              here (begins.trans
                ((List.cons_prefix_cons).mpr ⟨rfl, prefix_of_split first⟩))
            rw [replaceOrdinal_cons later, replaced]

theorem mem_replaceOrdinal (separator : Separator sep)
    (isName : Name name.1) :
    sep ∈ replaceOrdinal text name ↔ sep ∈ text := by
  cases found : find name.1 text with
  | none => rw [replaceOrdinal_missing found]
  | some pos =>
      obtain ⟨before, behind, whole, replaced⟩ :=
        replaceOrdinal_found isName found
      rw [replaced, whole]
      simp only [List.mem_append, separator.absent_name isName,
        separator.absent_decimal]

theorem replaceOrdinal_eq_nil (isName : Name name.1) :
    replaceOrdinal text name = [] ↔ text = [] := by
  cases found : find name.1 text with
  | none => rw [replaceOrdinal_missing found]
  | some pos =>
      obtain ⟨before, behind, whole, replaced⟩ :=
        replaceOrdinal_found isName found
      have someName : name.1 ≠ [] := by
        intro empty
        have three := isName.three
        rw [empty] at three
        cases three
      rw [replaced, whole]
      simp [(decimal_digits name.2).1, someName]

/-- A text without letters stays. -/
theorem replaceOrdinal_of_no_letter (isName : Name name.1)
    (noLetter : ∀ c ∈ text, ¬ (65 ≤ c ∧ c ≤ 90)) :
    replaceOrdinal text name = text := by
  cases found : find name.1 text with
  | none => exact replaceOrdinal_missing found
  | some pos =>
      obtain ⟨before, behind, whole, _⟩ := replaceOrdinal_found isName found
      obtain ⟨c, rest, shape⟩ :=
        List.exists_cons_of_length_eq_add_one isName.three
      have member : c ∈ text := by
        rw [whole, shape]
        simp
      have letter := isName.letters c (by rw [shape]; exact List.mem_cons_self)
      exact absurd letter (noLetter c member)

end Replacing

structure Names (names : List (List UInt8)) : Prop where
  each : ∀ name ∈ names, Name name
  distinct : names.Nodup

/-- The second part is the first one with some names replaced. -/
def Replaced (names : List (List UInt8)) : List UInt8 → List UInt8 → Prop :=
  Relation.ReflTransGen fun part part' =>
    ∃ name ∈ names.zipIdx, Touched name part part'

section Lists

variable {names : List (List UInt8)} {sep : UInt8}
  {text text' : List UInt8}

theorem Names.name (isNames : Names names) {name : List UInt8 × Nat}
    (member : name ∈ names.zipIdx) : Name name.1 :=
  isNames.each _ (List.fst_mem_of_mem_zipIdx member)

theorem replaced_foldl (order : List (List UInt8 × Nat))
    (among : ∀ name ∈ order, name ∈ names.zipIdx) (text : List UInt8) :
    Replaced names text (order.foldl replaceOrdinal text) := by
  induction order generalizing text with
  | nil => exact .refl
  | cons name order ih =>
      obtain ⟨member, among⟩ := List.forall_mem_cons.mp among
      exact .head ⟨name, member, Or.inr rfl⟩
        (ih among (replaceOrdinal text name))

theorem replaced_replaceOrdinals (names : List (List UInt8))
    (text : List UInt8) : Replaced names text (replaceOrdinals text names) :=
  replaced_foldl names.zipIdx (fun _ member => member) text

/-- What every replacement keeps. -/
theorem Replaced.keeps {p : List UInt8 → Prop} (replaced :
    Replaced names text text') (holds : p text)
    (step : ∀ part, ∀ name ∈ names.zipIdx, p part →
      p (replaceOrdinal part name)) : p text' := by
  induction replaced with
  | refl => exact holds
  | tail _ last ih =>
      obtain ⟨name, member, unchanged | touched⟩ := last
      · exact unchanged ▸ ih
      · exact touched ▸ step _ name member ih

theorem forall₂_comp {α β γ : Type} {r : α → β → Prop} {t : β → γ → Prop}
    {u : α → γ → Prop} (compose : ∀ x y z, r x y → t y z → u x z)
    {xs : List α} {ys : List β} {zs : List γ} (first : List.Forall₂ r xs ys)
    (second : List.Forall₂ t ys zs) : List.Forall₂ u xs zs := by
  induction first generalizing zs with
  | nil =>
      cases second
      exact .nil
  | cons head _ ih =>
      cases second with
      | cons head' tail' => exact .cons (compose _ _ _ head head') (ih tail')

theorem Replaced.split (isNames : Names names) (separator : Separator sep)
    (replaced : Replaced names text text') :
    List.Forall₂ (Replaced names) (split sep text) (split sep text') := by
  induction replaced with
  | refl => exact List.forall₂_same.mpr fun _ _ => .refl
  | @tail middle _ _ last ih =>
      obtain ⟨name, member, unchanged | touched⟩ := last
      · exact unchanged ▸ ih
      · rw [touched]
        have step :=
          split_replaceOrdinal separator (isNames.name member) middle
        refine forall₂_comp ?_ ih step
        intro part part' part'' before last
        exact before.tail ⟨name, member, last⟩

theorem Replaced.eq_nil (isNames : Names names)
    (replaced : Replaced names text text') : text' = [] ↔ text = [] := by
  refine replaced.keeps (p := fun part => part = [] ↔ text = []) Iff.rfl ?_
  intro part name member same
  rw [replaceOrdinal_eq_nil (isNames.name member), same]

theorem Replaced.mem (isNames : Names names) (separator : Separator sep)
    (replaced : Replaced names text text') : sep ∈ text' ↔ sep ∈ text := by
  refine replaced.keeps (p := fun part => sep ∈ part ↔ sep ∈ text) Iff.rfl ?_
  intro part name member same
  rw [mem_replaceOrdinal separator (isNames.name member), same]

theorem Replaced.of_no_letter (isNames : Names names)
    (replaced : Replaced names text text')
    (noLetter : ∀ c ∈ text, ¬ (65 ≤ c ∧ c ≤ 90)) : text' = text := by
  refine replaced.keeps (p := (· = text)) rfl ?_
  rintro part name member rfl
  exact replaceOrdinal_of_no_letter (isNames.name member) noLetter

/-- Text without letters, a name, and the same text with another name in it. -/
theorem eq_of_front_append {front name before other behind : List UInt8}
    (noLetter : ∀ c ∈ front, ¬ (65 ≤ c ∧ c ≤ 90)) (isName : Name name)
    (isOther : Name other)
    (same : front ++ name = before ++ (other ++ behind)) :
    before = front ∧ other = name ∧ behind = [] := by
  have three := isName.three
  have three' := isOther.three
  have lengths := congrArg List.length same
  simp only [List.length_append] at lengths
  rcases List.append_eq_append_iff.mp same with
    ⟨middle, longer, rest⟩ | ⟨middle, shorter, rest⟩
  · have lengths' := congrArg List.length rest
    simp only [List.length_append] at lengths'
    have none : middle = [] := List.eq_nil_of_length_eq_zero (by omega)
    have none' : behind = [] := List.eq_nil_of_length_eq_zero (by omega)
    subst none none'
    simp only [List.append_nil, List.nil_append] at longer rest
    exact ⟨longer, rest.symm, rfl⟩
  · cases middle with
    | nil =>
        have lengths' := congrArg List.length rest
        simp only [List.length_append, List.length_nil] at lengths'
        have none' : behind = [] := List.eq_nil_of_length_eq_zero (by omega)
        subst none'
        simp only [List.append_nil, List.nil_append] at shorter rest
        exact ⟨shorter.symm, rest, rfl⟩
    | cons c middle =>
        obtain ⟨d, others, shape⟩ :=
          List.exists_cons_of_length_eq_add_one three'
        rw [shape, List.cons_append, List.cons_append] at rest
        injection rest with head _
        have letter := isOther.letters d
          (by rw [shape]; exact List.mem_cons_self)
        exact absurd (head ▸ letter) (noLetter c (by rw [shorter]; simp))

/-- A name behind bytes that are no letters. -/
theorem Replaced.of_name (isNames : Names names) {front name : List UInt8}
    {v : Nat} (isName : names[v]? = some name)
    (noLetter : ∀ c ∈ front, ¬ (65 ≤ c ∧ c ≤ 90))
    (replaced : Replaced names (front ++ name) text') :
    text' = front ++ name ∨ text' = front ++ decimal v := by
  have here : Name name := isNames.each name (List.mem_of_getElem? isName)
  refine replaced.keeps
    (p := fun part => part = front ++ name ∨ part = front ++ decimal v)
    (Or.inl rfl) ?_
  rintro part ⟨other, w⟩ member (rfl | rfl)
  · have otherName := isNames.name member
    cases found : find other (front ++ name) with
    | none => exact Or.inl (replaceOrdinal_missing found)
    | some pos =>
        obtain ⟨before, behind, whole, touched⟩ :=
          @replaceOrdinal_found _ (other, w) otherName pos found
        obtain ⟨rfl, rfl, rfl⟩ :=
          eq_of_front_append noLetter here otherName whole
        have place : names[w]? = some other :=
          List.mk_mem_zipIdx_iff_getElem?.mp member
        have index : w = v := by
          obtain ⟨within, value⟩ := List.getElem?_eq_some_iff.mp place
          obtain ⟨within', value'⟩ := List.getElem?_eq_some_iff.mp isName
          exact (isNames.distinct.getElem_inj_iff).mp (value.trans value'.symm)
        subst index
        rw [touched, List.append_nil]
        exact Or.inr rfl
  · refine Or.inr (replaceOrdinal_of_no_letter (isNames.name member) ?_)
    intro c inside
    rcases List.mem_append.mp inside with inside | inside
    · exact noLetter c inside
    · have digit := (decimal_digits v).2 c inside
      simp only [isDigit, decide_eq_true_eq] at digit
      rintro ⟨above, _⟩
      exact absurd (UInt8.le_trans above digit.2) (by decide)

end Lists

theorem names_DAYS : Names DAYS where
  each := by
    intro name member
    have all : ∀ name ∈ DAYS, name.length = 3 ∧
        ∀ c ∈ name, 65 ≤ c ∧ c ≤ 90 := by decide +kernel
    exact ⟨(all name member).1, (all name member).2⟩
  distinct := by decide

theorem names_MONTHS : Names MONTHS where
  each := by
    intro name member
    have all : ∀ name ∈ MONTHS, name.length = 3 ∧
        ∀ c ∈ name, 65 ≤ c ∧ c ≤ 90 := by decide +kernel
    exact ⟨(all name member).1, (all name member).2⟩
  distinct := by decide

theorem names_nil : Names [] where
  each := fun _ member => absurd member List.not_mem_nil
  distinct := List.nodup_nil

end TarsCpp.Cron
