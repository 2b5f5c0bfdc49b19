import Mathlib.Tactic

/-!
# Strings in memory

Functions of `<string.h>` and `<stdlib.h>` on memory whose end they may run
into.  A pointer is the list of bytes from it to the end of its block, and the
result `none` is an access behind that end.  Where a string occurs first in
another one is a relation, which `find` decides.
-/

namespace TarsCpp.CString

abbrev Memory := List UInt8

/-- The bytes of a literal. -/
def ascii (text : String) : List UInt8 :=
  text.toList.map fun c => c.toNat.toUInt8

def tolower (c : UInt8) : UInt8 := if 65 ≤ c ∧ c ≤ 90 then c + 32 else c

/-- A property of the bytes of a constant is checked byte by byte. -/
theorem forall_mem_of_all {p : UInt8 → Prop} [DecidablePred p]
    {text : List UInt8} (all : text.all fun c => decide (p c)) :
    ∀ c ∈ text, p c := fun c member =>
  of_decide_eq_true (List.all_eq_true.mp all c member)

/-- `s2` occurs in `s1` at `place`, and nowhere before. -/
structure First (s2 s1 : List UInt8) (place : Nat) : Prop where
  here : s2 <+: s1.drop place
  notBefore : ∀ earlier < place, ¬ s2 <+: s1.drop earlier

def find (s2 : List UInt8) : List UInt8 → Option Nat
  | [] => if s2 = [] then some 0 else none
  | c :: rest =>
      if s2 <+: c :: rest then some 0 else (find s2 rest).map (· + 1)

section Occurrences

variable {s1 s2 more : List UInt8} {place : Nat}

theorem First.unique {other : Nat} (first : First s2 s1 place)
    (first' : First s2 s1 other) : place = other := by
  rcases Nat.lt_trichotomy place other with before | same | behind
  · exact absurd first.here (first'.notBefore place before)
  · exact same
  · exact absurd first'.here (first.notBefore other behind)

theorem First.fits (first : First s2 s1 place) :
    place + s2.length ≤ s1.length := by
  have short := first.here.length_le
  rw [List.length_drop] at short
  by_cases within : place ≤ s1.length
  · omega
  · have empty : s2 = [] := List.eq_nil_of_length_eq_zero (by omega)
    subst empty
    exact absurd List.nil_prefix (first.notBefore 0 (by omega))

theorem First.split (first : First s2 s1 place) :
    s1 = s1.take place ++ (s2 ++ s1.drop (place + s2.length)) := by
  obtain ⟨tail, same⟩ := first.here
  have rest : s1.drop (place + s2.length) = tail := by
    rw [← List.drop_drop, ← same, List.drop_left]
  rw [rest, same, List.take_append_drop]

theorem First.tail {c : UInt8} {rest : List UInt8}
    (first : First s2 (c :: rest) (place + 1)) : First s2 rest place where
  here := first.here
  notBefore := by
    intro earlier before
    exact first.notBefore (earlier + 1) (by omega)

theorem First.cons {c : UInt8} {rest : List UInt8}
    (first : First s2 rest place) (other : ¬ s2 <+: c :: rest) :
    First s2 (c :: rest) (place + 1) where
  here := first.here
  notBefore := by
    intro earlier before
    cases earlier with
    | zero => exact other
    | succ earlier => exact first.notBefore earlier (by omega)

/-- A cut behind the occurrence keeps it. -/
theorem first_take_iff {bound : Nat} :
    First s2 (s1.take bound) place ↔
      First s2 s1 place ∧ place + s2.length ≤ bound := by
  have cut : ∀ start, start + s2.length ≤ bound →
      (s2 <+: (s1.take bound).drop start ↔ s2 <+: s1.drop start) := by
    intro start within
    rw [List.drop_take, List.prefix_take_iff]
    exact and_iff_left (by omega)
  constructor
  · intro first
    have fits := first.fits
    rw [List.length_take] at fits
    refine ⟨⟨(cut _ (by omega)).mp first.here, ?_⟩, by omega⟩
    intro earlier before occurs
    exact first.notBefore earlier before ((cut _ (by omega)).mpr occurs)
  · rintro ⟨first, bounded⟩
    refine ⟨(cut _ bounded).mpr first.here, ?_⟩
    intro earlier before occurs
    exact first.notBefore earlier before ((cut _ (by omega)).mp occurs)

/-- In front of an occurrence stands text in which none begins. -/
theorem First.behind {text : List UInt8} (first : First s2 s1 place)
    (none : ∀ start < text.length, ¬ s2 <+: (text ++ s1).drop start) :
    First s2 (text ++ s1) (text.length + place) where
  here := by
    rw [List.drop_length_add_append]
    exact first.here
  notBefore := by
    intro earlier before
    by_cases within : earlier < text.length
    · exact none earlier within
    · obtain ⟨past, rfl⟩ := Nat.le.dest (Nat.not_lt.mp within)
      rw [List.drop_length_add_append]
      exact first.notBefore past (by omega)

theorem find_eq_some_iff :
    find s2 s1 = some place ↔ First s2 s1 place := by
  induction s1 generalizing place with
  | nil =>
      rw [find]
      split
      · next empty =>
          subst empty
          constructor
          · rintro found
            cases found
            exact ⟨List.nil_prefix, fun _ before => absurd before (by omega)⟩
          · intro first
            have fits := first.fits
            simp only [List.length_nil, Nat.le_zero, Nat.add_zero] at fits
            rw [fits]
      · next nonempty =>
          constructor
          · intro found
            cases found
          · intro first
            have fits := first.fits
            rw [List.length_nil] at fits
            have empty : s2 = [] :=
              List.eq_nil_of_length_eq_zero (by omega)
            exact absurd empty nonempty
  | cons c rest ih =>
      rw [find]
      split
      · next occurs =>
          constructor
          · rintro found
            cases found
            exact ⟨occurs, fun _ before => absurd before (by omega)⟩
          · intro first
            cases place with
            | zero => rfl
            | succ place =>
                exact absurd occurs (first.notBefore 0 (by omega))
      · next other =>
          constructor
          · intro found
            obtain ⟨later, found', rfl⟩ := Option.map_eq_some_iff.mp found
            exact (ih.mp found').cons other
          · intro first
            cases place with
            | zero => exact absurd first.here other
            | succ place => rw [ih.mpr first.tail, Option.map_some]

theorem find_eq_none_iff :
    find s2 s1 = none ↔ ∀ place, ¬ First s2 s1 place := by
  constructor
  · intro missing place first
    rw [find_eq_some_iff.mpr first] at missing
    cases missing
  · intro missing
    cases found : find s2 s1 with
    | none => rfl
    | some place => exact absurd (find_eq_some_iff.mp found) (missing place)

/-- What occurs somewhere occurs first somewhere. -/
theorem exists_first (occurs : s2 <+: s1.drop place) :
    ∃ least ≤ place, First s2 s1 least := by
  classical
  have some : ∃ start, s2 <+: s1.drop start := ⟨place, occurs⟩
  refine ⟨Nat.find some, Nat.find_min' some occurs, Nat.find_spec some, ?_⟩
  intro earlier before
  exact Nat.find_min some before

end Occurrences

/-- The offset of the first occurrence in front of the terminator. -/
def strstr (s2 : List UInt8) : Memory → Option (Option Nat)
  | [] => none
  | c :: rest =>
      if s2 <+: c :: rest then
        some (some 0)
      else if c = 0 then
        some none
      else
        (strstr s2 rest).map (·.map (· + 1))

/-- What stands in front of the terminator. -/
def string : Memory → Option (List UInt8)
  | [] => none
  | c :: rest => if c = 0 then some [] else (string rest).map (c :: ·)

/-- `strncasecmp(s1, s2, strlen(s2)) == 0`. -/
def strncasecmp : List UInt8 → Memory → Option Bool
  | [], _ => some true
  | _ :: _, [] => none
  | d :: s2, c :: rest =>
      if tolower c = tolower d then strncasecmp s2 rest else some false

/-- `s2` is a prefix but for the case of the letters. -/
def startsWith (s2 s1 : List UInt8) : Bool :=
  s2.map tolower <+: s1.map tolower

section Scanning

variable {s1 s2 : List UInt8} {place : Nat}

theorem strstr_found (nonempty : s2 ≠ []) (first : First s2 s1 place)
    (unended : 0 ∉ s1.take place) :
    strstr s2 s1 = some (some place) := by
  induction s1 generalizing place with
  | nil =>
      have fits := first.fits
      rw [List.length_nil] at fits
      exact absurd (List.eq_nil_of_length_eq_zero (by omega)) nonempty
  | cons c rest ih =>
      cases place with
      | zero =>
          have here : s2 <+: c :: rest := first.here
          rw [strstr, if_pos here]
      | succ place =>
          have other : ¬ s2 <+: c :: rest := first.notBefore 0 (by omega)
          rw [List.take_succ_cons, List.mem_cons, not_or] at unended
          rw [strstr, if_neg other, if_neg (Ne.symm unended.1),
            ih first.tail unended.2]
          rfl

/-- The terminator stands in front of the occurrence. -/
theorem strstr_ended (first : First s2 s1 place) (ended : 0 ∈ s1.take place) :
    strstr s2 s1 = some none := by
  induction s1 generalizing place with
  | nil => simp at ended
  | cons c rest ih =>
      cases place with
      | zero => simp at ended
      | succ place =>
          have other : ¬ s2 <+: c :: rest := first.notBefore 0 (by omega)
          rw [strstr, if_neg other]
          split
          · rfl
          · next nonzero =>
              rw [List.take_succ_cons, List.mem_cons] at ended
              rw [ih first.tail (ended.resolve_left (Ne.symm nonzero))]
              rfl

theorem string_ended (text rest : List UInt8) :
    string (text ++ 0 :: rest) = some (text.takeWhile (· ≠ 0)) := by
  induction text with
  | nil => rfl
  | cons c text ih =>
      rw [List.cons_append, string]
      by_cases zero : c = 0
      · simp [zero]
      · rw [if_neg zero, ih, Option.map_some,
          List.takeWhile_cons_of_pos (by simpa using zero)]

/-- The comparison ends at a byte that does not occur in `s2`. -/
theorem strncasecmp_line {stop : UInt8} (rest : List UInt8)
    (foreign : tolower stop ∉ s2.map tolower) :
    strncasecmp s2 (s1 ++ stop :: rest) = some (startsWith s2 s1) := by
  induction s2 generalizing s1 with
  | nil => simp [strncasecmp, startsWith]
  | cons d s2 ih =>
      rw [List.map_cons, List.mem_cons, not_or] at foreign
      cases s1 with
      | nil =>
          rw [List.nil_append, strncasecmp, if_neg foreign.1]
          simp [startsWith]
      | cons c s1 =>
          rw [List.cons_append, strncasecmp]
          split
          · next same =>
              rw [ih foreign.2]
              simp [startsWith, same]
          · next other =>
              simp [startsWith, Ne.symm other]

end Scanning

def crlf : List UInt8 := [13, 10]

/-- The lines that end in a carriage return and a line feed. -/
def lines : List UInt8 → List (List UInt8)
  | [] => []
  | 13 :: 10 :: rest => [] :: lines rest
  | c :: rest =>
      match lines rest with
      | [] => []
      | line :: more => (c :: line) :: more

theorem lines_first {text : List UInt8} {place : Nat}
    (first : First crlf text place) :
    lines text = text.take place :: lines (text.drop (place + 2)) := by
  induction text generalizing place with
  | nil =>
      have fits := first.fits
      simp [crlf] at fits
  | cons c rest ih =>
      cases place with
      | zero =>
          obtain ⟨tail, same⟩ := first.here
          rw [List.drop_zero] at same
          rw [← same]
          simp [crlf, lines]
      | succ place =>
          have other : ¬ crlf <+: c :: rest := first.notBefore 0 (by omega)
          rw [lines]
          · rw [ih first.tail]
            simp
          · rintro behind rfl rfl
            exact other ⟨behind, rfl⟩

/-- A line without a carriage return. -/
theorem first_of_line {line : List UInt8} (rest : List UInt8)
    (whole : 13 ∉ line) :
    First crlf (line ++ (crlf ++ rest)) line.length where
  here := by
    rw [List.drop_left]
    exact List.prefix_append _ _
  notBefore := by
    intro earlier before occurs
    obtain ⟨tail, same⟩ := occurs
    rw [List.drop_append_of_le_length before.le,
      List.drop_eq_getElem_cons before] at same
    injection same with head _
    exact whole (head ▸ List.getElem_mem before)

/-- A word in which the byte behind it does not occur. -/
theorem first_of_byte {c : UInt8} {word : List UInt8} (rest : List UInt8)
    (absent : c ∉ word) : First [c] (word ++ c :: rest) word.length where
  here := by
    rw [List.drop_left]
    exact List.prefix_append [c] rest
  notBefore := by
    intro earlier before occurs
    obtain ⟨tail, same⟩ := occurs
    rw [List.drop_append_of_le_length before.le,
      List.drop_eq_getElem_cons before] at same
    injection same with head _
    exact absent (head ▸ List.getElem_mem before)

def isspace (c : UInt8) : Bool := c = 32 ∨ (9 ≤ c ∧ c ≤ 13)

def digitValue (c : UInt8) : Option Nat :=
  if 48 ≤ c ∧ c ≤ 57 then some (c.toNat - 48)
  else if 65 ≤ c ∧ c ≤ 90 then some (c.toNat - 55)
  else if 97 ≤ c ∧ c ≤ 122 then some (c.toNat - 87)
  else none

/-- The digits that a number begins with. -/
def digits (base : Nat) : Nat → List UInt8 → Nat
  | value, [] => value
  | value, c :: rest =>
      match digitValue c with
      | none => value
      | some digit =>
          if digit < base then digits base (value * base + digit) rest
          else value

/-- The sign and the magnitude that `strtol` and `strtoul` read. -/
def number (base : Nat) (text : List UInt8) : Bool × Nat :=
  let text := text.dropWhile isspace
  let negative := decide (text.head? = some 45)
  let text :=
    if negative ∨ text.head? = some 43 then text.drop 1 else text
  let text :=
    if base = 16 ∧ startsWith (ascii "0x") text then text.drop 2 else text
  (negative, digits base 0 text)

/-- A `long` of 64 bits. -/
def strtol (base : Nat) (text : List UInt8) : Int :=
  let (negative, magnitude) := number base text
  if negative then
    max (-9223372036854775808) (-magnitude)
  else
    min 9223372036854775807 magnitude

/-- An `unsigned long` of 64 bits. -/
def strtoul (base : Nat) (text : List UInt8) : Nat :=
  let (negative, magnitude) := number base text
  if magnitude > 18446744073709551615 then
    18446744073709551615
  else if negative then
    (18446744073709551616 - magnitude) % 18446744073709551616
  else
    magnitude

/-- What an `int` of 32 bits makes of a number. -/
def toInt (value : Int) : Int :=
  (value + 2147483648) % 4294967296 - 2147483648

theorem toInt_eq {value : Int} (least : -2147483648 ≤ value)
    (most : value < 2147483648) : toInt value = value := by
  unfold toInt
  omega

theorem toInt_le {value : Int} (least : -2147483648 ≤ value) :
    toInt value ≤ value := by
  unfold toInt
  omega

theorem toInt_lt (value : Int) : toInt value < 2147483648 := by
  unfold toInt
  omega

theorem toInt_toInt (value : Int) : toInt (toInt value) = toInt value := by
  unfold toInt
  omega

theorem toInt_add (value other : Int) :
    toInt (toInt value + toInt other) = toInt (value + other) := by
  unfold toInt
  omega

theorem toInt_succ (value : Int) :
    toInt (toInt value + 1) = toInt (value + 1) := by
  unfold toInt
  omega

theorem toInt_sub (value other : Int) :
    toInt (toInt value - toInt other) = toInt (value - other) := by
  unfold toInt
  omega

end TarsCpp.CString
