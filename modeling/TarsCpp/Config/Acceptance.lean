import TarsCpp.Config.Balance

/-!
# Acceptance of a whole file

The parser accepts the files whose tags are properly nested, where a closing
tag has the trimmed name of the opening one.  What goes wrong otherwise depends
on what stands behind a tag that closes the root.
-/

namespace TarsCpp.Config

open Nesting CString

/-- The run of the parser on the names of the open domains. -/
def scan (names : List (List UInt8)) (lines : List Token) :
    Except Fault (List (List UInt8)) :=
  lines.foldlM advance names

theorem scan_cons (names : List (List UInt8)) (line : Token)
    (lines : List Token) :
    scan names (line :: lines) = (advance names line) >>= (scan · lines) :=
  List.foldlM_cons

theorem scan_append (names : List (List UInt8)) (front back : List Token) :
    scan names (front ++ back) = (scan names front) >>= (scan · back) :=
  List.foldlM_append

/-- The parser runs as its stack of names does. -/
theorem Tracks.parseLines {parser : Parser} {names : List (List UInt8)}
    (tracks : Tracks parser names) (lines : List (List UInt8)) :
    Follows (lines.foldlM Parser.parseLine parser)
      (scan names (lines.map token)) := by
  induction lines generalizing parser names with
  | nil => exact .ok tracks
  | cons line lines ih =>
      have first := tracks.parseLine line
      rw [List.foldlM_cons, List.map_cons, scan_cons]
      generalize parser.parseLine line = result at first ⊢
      generalize advance names (token line) = expected at first ⊢
      cases first with
      | ok tracks' => exact ih tracks'
      | thrown buffer => exact .thrown buffer
      | emptyStack => exact .emptyStack

theorem tracks_root : Tracks ⟨.ofLine [], [[]]⟩ [[]] where
  pointers := .cons ⟨_, rfl, rfl⟩ .nil
  wellNamed := .mk (by simp) (by simp)

/-- The three outcomes. -/
theorem parseString_cases (buffer : List UInt8) :
    (∃ names root, scan [[]] (tokens buffer) = .ok names ∧
        names.length = 1 ∧ parseString buffer = .ok root) ∨
      (scan [[]] (tokens buffer) = .error .emptyStack ∧
        parseString buffer = .error .emptyStack) ∨
      (∀ names, scan [[]] (tokens buffer) = .ok names → names.length ≠ 1) ∧
        scan [[]] (tokens buffer) ≠ .error .emptyStack ∧
        ∃ text, parseString buffer = .error (.TC_Config_Exception text) := by
  have follows := tracks_root.parseLines (getlines [] buffer)
  rw [← tokens] at follows
  rw [parseString]
  generalize (getlines [] buffer).foldlM Parser.parseLine _ = result
    at follows ⊢
  generalize scan [[]] (tokens buffer) = expected at follows ⊢
  cases follows with
  | @ok parser names tracks =>
      have length := tracks.pointers.length_eq
      rw [ok_bind, length]
      by_cases one : names.length = 1
      · rw [if_neg (not_not.mpr one)]
        exact .inl ⟨names, parser.root, rfl, one, rfl⟩
      · rw [if_pos one]
        refine .inr (.inr ⟨?_, by simp, _, rfl⟩)
        intro other same
        cases same
        exact one
  | thrown text => exact .inr (.inr ⟨by simp, by simp, text, rfl⟩)
  | emptyStack => exact .inr (.inl ⟨rfl, rfl⟩)

/-- With the root closed nothing can be accepted. -/
theorem scan_closed {lines : List Token} {names : List (List UInt8)}
    (result : scan [] lines = .ok names) : names = [] := by
  induction lines with
  | nil =>
      cases result
      rfl
  | cons line lines ih =>
      rw [scan_cons] at result
      rcases line with item | name | name
      · cases item with
        | blank => exact ih result
        | parameter => cases result
        | malformed => cases result
        | invalid => cases result
      · cases result
      · cases result

theorem scan_of_close {lines : List Token} {names left : List (List UInt8)}
    (closed : close trim Item.Parses names lines = some left) :
    scan (names ++ [[]]) lines = .ok (left ++ [[]]) := by
  induction lines generalizing names with
  | nil =>
      cases closed
      rfl
  | cons line lines ih =>
      rw [scan_cons]
      rcases line with item | name | name
      · rw [close] at closed
        split at closed
        · next holds =>
            rcases holds with rfl | rfl
            · exact ih closed
            · rw [advance, if_neg (by simp)]
              exact ih closed
        · cases closed
      · rw [advance, if_neg (by simp)]
        exact ih closed
      · cases names with
        | nil => cases closed
        | cons expected names =>
            rw [close] at closed
            split at closed
            · next same =>
                rw [List.cons_append, advance, if_pos same]
                exact ih closed
            · cases closed

theorem scan_of_not_close {lines : List Token}
    {names left : List (List UInt8)}
    (open' : close trim Item.Parses names lines = none)
    (result : scan (names ++ [[]]) lines = .ok left) : left = [] := by
  induction lines generalizing names with
  | nil => cases open'
  | cons line lines ih =>
      rw [scan_cons] at result
      rcases line with item | name | name
      · cases item with
        | blank =>
            rw [close, if_pos (.inl rfl)] at open'
            exact ih open' result
        | parameter =>
            rw [close, if_pos (.inr rfl)] at open'
            rw [advance, if_neg (by simp)] at result
            exact ih open' result
        | malformed => cases result
        | invalid =>
            rw [advance, if_neg (by simp)] at result
            cases result
      · rw [advance, if_neg (by simp)] at result
        exact ih open' result
      · cases names with
        | nil =>
            rw [List.nil_append, advance] at result
            split at result
            · exact scan_closed result
            · cases result
        | cons expected names =>
            rw [List.cons_append, advance] at result
            split at result
            · next same =>
                rw [close, if_pos same] at open'
                exact ih open' result
            · cases result

/-- The stack ends with the root alone exactly for nested files. -/
theorem scan_one_iff {lines : List Token} :
    (∃ names, scan [[]] lines = .ok names ∧ names.length = 1) ↔
      Nested (fun opened closed => trim opened = closed) Item.Parses lines := by
  rw [← close_eq_nil_iff]
  constructor
  · rintro ⟨names, result, one⟩
    cases closed : close trim Item.Parses [] lines with
    | none =>
        rw [scan_of_not_close closed result] at one
        cases one
    | some left =>
        have same := (scan_of_close closed).symm.trans result
        cases same
        rw [List.length_append, List.length_singleton] at one
        have nothing : left = [] := List.eq_nil_of_length_eq_zero (by omega)
        rw [nothing]
  · intro closed
    exact ⟨_, scan_of_close closed, rfl⟩

/-- Lines for which the parser needs the top of the stack. -/
def Touches (line : Token) : Prop :=
  line = .leaf .parameter ∨ line = .leaf .invalid ∨
    ∃ name, line = .opening name

theorem scan_touching {between after : List Token} {line : Token}
    (empty : ∀ other ∈ between, other = .leaf .blank)
    (touches : Touches line) :
    scan [] (between ++ line :: after) = .error .emptyStack := by
  induction between with
  | nil =>
      rw [List.nil_append, scan_cons]
      rcases touches with rfl | rfl | ⟨name, rfl⟩ <;> rfl
  | cons other between ih =>
      rw [List.cons_append, scan_cons, empty other List.mem_cons_self]
      exact ih fun line member => empty line (List.mem_cons_of_mem _ member)

theorem touching_of_scan {lines : List Token}
    (result : scan [] lines = .error .emptyStack) :
    ∃ between line after, lines = between ++ line :: after ∧
      (∀ other ∈ between, other = .leaf .blank) ∧ Touches line := by
  induction lines with
  | nil => cases result
  | cons line lines ih =>
      have here (touches : Touches line) :
          ∃ between line' after,
            line :: lines = between ++ line' :: after ∧
            (∀ other ∈ between, other = .leaf .blank) ∧ Touches line' :=
        ⟨[], line, lines, rfl, by simp, touches⟩
      rw [scan_cons] at result
      rcases line with item | name | name
      · cases item with
        | blank =>
            obtain ⟨between, line, after, rfl, empty, touches⟩ := ih result
            refine ⟨.leaf .blank :: between, line, after, rfl, ?_, touches⟩
            intro other member
            rcases List.mem_cons.mp member with first | later
            · exact first
            · exact empty other later
        | parameter => exact here (.inl rfl)
        | malformed => cases result
        | invalid => exact here (.inr (.inl rfl))
      · exact here (.inr (.inr ⟨name, rfl⟩))
      · cases result

/-- A tag closes the root, and the next line that is not blank opens a domain or
sets a parameter. -/
def Abandoned (names : List (List UInt8)) (lines : List Token) : Prop :=
  ∃ before between line after,
    lines = before ++ .closing [] :: (between ++ line :: after) ∧
    close trim Item.Parses names before = some [] ∧
    (∀ other ∈ between, other = .leaf .blank) ∧ Touches line

theorem Abandoned.cons {names names' : List (List UInt8)} {line : Token}
    {lines : List Token} (abandoned : Abandoned names' lines)
    (step : ∀ before, close trim Item.Parses names (line :: before) =
      close trim Item.Parses names' before) :
    Abandoned names (line :: lines) := by
  obtain ⟨before, between, line', after, rfl, closed, empty, touches⟩ :=
    abandoned
  exact ⟨line :: before, between, line', after, rfl,
    (step before).trans closed, empty, touches⟩

theorem scan_emptyStack_iff {names : List (List UInt8)}
    {lines : List Token} :
    scan (names ++ [[]]) lines = .error .emptyStack ↔
      Abandoned names lines := by
  constructor
  · intro result
    induction lines generalizing names with
    | nil => cases result
    | cons line lines ih =>
        rw [scan_cons] at result
        rcases line with item | name | name
        · cases item with
          | blank =>
              exact (ih result).cons fun before => by
                rw [close, if_pos (.inl rfl)]
          | parameter =>
              rw [advance, if_neg (by simp)] at result
              exact (ih result).cons fun before => by
                rw [close, if_pos (.inr rfl)]
          | malformed => cases result
          | invalid =>
              rw [advance, if_neg (by simp)] at result
              cases result
        · rw [advance, if_neg (by simp)] at result
          exact (@ih (trim name :: names) result).cons fun before => rfl
        · cases names with
          | nil =>
              rw [List.nil_append, advance] at result
              split at result
              · next same =>
                  subst same
                  obtain ⟨between, line, after, rfl, empty, touches⟩ :=
                    touching_of_scan result
                  exact ⟨[], between, line, after, rfl, rfl, empty, touches⟩
              · cases result
          | cons expected names =>
              rw [List.cons_append, advance] at result
              split at result
              · next same =>
                  exact (ih result).cons fun before => by
                    rw [close, if_pos same]
              · cases result
  · rintro ⟨before, between, line, after, rfl, closed, empty, touches⟩
    rw [scan_append, scan_of_close closed]
    change scan [[]] (.closing [] :: (between ++ line :: after)) = _
    rw [scan_cons]
    exact scan_touching empty touches

theorem trim_trim (s : List UInt8) : trim (trim s) = trim s := by
  have front (s : List UInt8) : (trim s).dropWhile (· ∈ blanks) = trim s := by
    rw [trim]
    cases rest : s.dropWhile (· ∈ blanks) with
    | nil => rfl
    | cons c rest' =>
        have visible : c ∉ blanks := by
          have first := List.head?_dropWhile_not (· ∈ blanks) s
          rw [rest] at first
          simpa using first
        have kept : (c :: rest').rdropWhile (· ∈ blanks) <+: c :: rest' :=
          List.rdropWhile_prefix _ _
        cases shorter : (c :: rest').rdropWhile (· ∈ blanks) with
        | nil => rfl
        | cons d rest'' =>
            rw [shorter] at kept
            obtain ⟨same, _⟩ := List.cons_prefix_cons.mp kept
            rw [same]
            exact List.dropWhile_cons_of_neg (by simpa using visible)
  rw [trim, front, trim, List.rdropWhile_idempotent]

/-- Every domain that is opened is closed by its name, and every line parses. -/
def Balanced (lines : List Token) : Prop :=
  Nested (fun opened closed => trim opened = trim closed) Item.Parses lines

/-- The parser accepts balanced files, and throws its exception otherwise. -/
def ParsesExactly (buffer : List UInt8) : Prop :=
  ((∃ root, parseString buffer = .ok root) ↔ Balanced (tokens buffer)) ∧
    ∀ failure, parseString buffer = .error failure →
      ∃ text, failure = .TC_Config_Exception text

/-- A tag closes the unnamed root, and the next line that is not blank opens a
domain or sets a parameter. -/
def ClosesRoot (lines : List Token) : Prop :=
  ∃ before between line after,
    lines = before ++ .closing [] :: (between ++ line :: after) ∧
    Nested (fun opened closed => trim opened = closed) Item.Parses before ∧
    (∀ other ∈ between, other = .leaf .blank) ∧ Touches line

theorem abandoned_nil_iff {lines : List Token} :
    Abandoned [] lines ↔ ClosesRoot lines := by
  constructor
  · rintro ⟨before, between, line, after, split, closed, rest⟩
    exact ⟨before, between, line, after, split, close_eq_nil_iff.mp closed,
      rest⟩
  · rintro ⟨before, between, line, after, split, nested, rest⟩
    exact ⟨before, between, line, after, split, close_eq_nil_iff.mpr nested,
      rest⟩

theorem parseString_ok_iff (buffer : List UInt8) :
    (∃ root, parseString buffer = .ok root) ↔
      Nested (fun opened closed => trim opened = closed) Item.Parses
        (tokens buffer) := by
  rw [← scan_one_iff]
  rcases parseString_cases buffer with
    ⟨names, root, result, one, parsed⟩ | ⟨result, parsed⟩ |
    ⟨other, _, text, parsed⟩
  · exact ⟨fun _ => ⟨names, result, one⟩, fun _ => ⟨root, parsed⟩⟩
  · constructor
    · rintro ⟨root, accepted⟩
      rw [parsed] at accepted
      cases accepted
    · rintro ⟨names, accepted, _⟩
      rw [result] at accepted
      cases accepted
  · constructor
    · rintro ⟨root, accepted⟩
      rw [parsed] at accepted
      cases accepted
    · rintro ⟨names, accepted, one⟩
      exact absurd one (other names accepted)

theorem throws_iff (buffer : List UInt8) :
    (∀ failure, parseString buffer = .error failure →
      ∃ text, failure = .TC_Config_Exception text) ↔
      ¬ ClosesRoot (tokens buffer) := by
  have closes := @scan_emptyStack_iff [] (tokens buffer)
  rw [abandoned_nil_iff] at closes
  rw [← closes, List.nil_append]
  rcases parseString_cases buffer with
    ⟨names, root, result, one, parsed⟩ | ⟨result, parsed⟩ |
    ⟨other, safe, text, parsed⟩
  · rw [parsed, result]
    simp
  · rw [parsed, result]
    simp
  · rw [parsed]
    simp [safe]

/-- The parser does what it should unless a tag closes the root and parsing goes
on, or a balanced file has a closing tag with blanks around its name. -/
theorem parsesExactly_iff (buffer : List UInt8) :
    ParsesExactly buffer ↔
      ¬ ClosesRoot (tokens buffer) ∧
        (Balanced (tokens buffer) →
          ∀ name, .closing name ∈ tokens buffer → trim name = name) := by
  rw [ParsesExactly, throws_iff, parseString_ok_iff, and_comm]
  refine and_congr_right fun _ => ?_
  constructor
  · intro exactly balanced name member
    obtain ⟨opened, same⟩ := (exactly.mpr balanced).of_closing member
    rw [← same, trim_trim]
  · intro trimmed
    constructor
    · intro nested
      apply nested.imp
      intro opened closed _ same
      rw [← same, trim_trim]
    · intro balanced
      apply balanced.imp
      intro opened closed member same
      rw [same, trimmed balanced closed member]

namespace Sample

/-- The root is closed in front of a parameter. -/
def rootClosed : List UInt8 := ascii "</>\na=b\n"

/-- The blanks are trimmed where the domain is opened, but not where it is
closed. -/
def blankName : List UInt8 := ascii "< a >\n</ a >\n"

end Sample

theorem closed_root_is_used :
    parseString Sample.rootClosed = .error .emptyStack ∧
      ¬ ParsesExactly Sample.rootClosed ∧
      ¬ ParsesExactly Sample.blankName := by
  have fails : parseString Sample.rootClosed = .error .emptyStack := rfl
  refine ⟨fails, ?_, ?_⟩
  · rintro ⟨_, throws⟩
    obtain ⟨text, same⟩ := throws _ fails
    cases same
  · rintro ⟨accepts, _⟩
    have lines : tokens Sample.blankName =
        [.opening (ascii " a "), .closing (ascii " a ")] := by
      decide +kernel
    rw [parseString_ok_iff, lines] at accepts
    have balanced : Balanced
        [.opening (ascii " a "), .closing (ascii " a ")] :=
      @Nested.element _ _ _ _ _ _ [] [] rfl .nil .nil
    have nested := accepts.mpr balanced
    obtain ⟨opened, same⟩ :=
      nested.of_closing (List.mem_cons_of_mem _ List.mem_cons_self)
    have trimmed : trim (ascii " a ") = ascii " a " := by
      rw [← same, trim_trim]
    exact absurd trimmed (by decide +kernel)

end TarsCpp.Config
