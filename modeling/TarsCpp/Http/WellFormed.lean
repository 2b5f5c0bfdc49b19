import TarsCpp.Http.HeaderScan

/-!
# Well-formed requests

The requests of HTTP/1.1 as the protocol has them: a request line, fields, and
no body, a body of an announced length, or a body in chunks.
-/

namespace TarsCpp.Http

open CString

def isDigit (c : UInt8) : Bool := 48 ≤ c ∧ c ≤ 57

def isHex (c : UInt8) : Bool :=
  isDigit c ∨ (65 ≤ c ∧ c ≤ 70) ∨ (97 ≤ c ∧ c ≤ 102)

def isAlpha (c : UInt8) : Bool := (65 ≤ c ∧ c ≤ 90) ∨ (97 ≤ c ∧ c ≤ 122)

/-- A byte of a method or of a field name. -/
def isToken (c : UInt8) : Bool :=
  isDigit c ∨ isAlpha c ∨ c ∈ ascii "!#$%&'*+-.^_`|~"

/-- A byte of a request target. -/
def isVisible (c : UInt8) : Bool := 33 ≤ c ∧ c ≤ 126

/-- A byte of a field value, which may be one beyond ASCII. -/
def isFieldByte (c : UInt8) : Bool := c = 9 ∨ (32 ≤ c ∧ c ≠ 127)

def isBlank (c : UInt8) : Bool := c = 32 ∨ c = 9

structure Field where
  name : List UInt8
  /-- What stands behind the colon. -/
  value : List UInt8
  named : name ≠ []
  token : ∀ c ∈ name, isToken c
  text : ∀ c ∈ value, isFieldByte c

def Field.line (field : Field) : List UInt8 :=
  field.name ++ (colon ++ field.value)

/-- Field names do not depend on the case of letters. -/
def Field.Named (name : List UInt8) (field : Field) : Prop :=
  field.name.map tolower = name.map tolower

/-- The value is a word between optional blanks. -/
def Field.Says (word : List UInt8 → Prop) (field : Field) : Prop :=
  ∃ before found behind, field.value = before ++ (found ++ behind) ∧
    (∀ c ∈ before, isBlank c) ∧ (∀ c ∈ behind, isBlank c) ∧ word found

structure Chunk where
  size : List UInt8
  data : List UInt8
  hex : ∀ c ∈ size, isHex c
  counts : digits 16 0 size = data.length
  nonempty : data ≠ []

def Chunk.bytes (chunk : Chunk) : List UInt8 :=
  chunk.size ++ (crlf ++ (chunk.data ++ crlf))

inductive Body
  | none
  | sized (content : List UInt8)
  /-- The size of the last chunk is zero, and has some more zeros. -/
  | chunked (chunks : List Chunk) (zeros : Nat)

def lastChunk (zeros : Nat) : List UInt8 := List.replicate (zeros + 1) 48

def Body.bytes : Body → List UInt8
  | none => []
  | sized content => content
  | chunked chunks zeros =>
      chunks.flatMap Chunk.bytes ++ (lastChunk zeros ++ crlfcrlf)

def Body.Chunked : Body → Prop
  | chunked _ _ => True
  | _ => False

/-- The field is not about the length of the body. -/
def Field.Neutral (field : Field) : Prop :=
  ¬ field.Named (ascii "Content-Length") ∧
    ¬ field.Named (ascii "Transfer-Encoding")

/-- `word` is the number `length`. -/
structure Decimal (length : Nat) (word : List UInt8) : Prop where
  nonempty : word ≠ []
  digit : ∀ c ∈ word, isDigit c
  counts : digits 10 0 word = length

/-- One field says what no other one is about. -/
def Only (fields : List Field) (name : List UInt8)
    (word : List UInt8 → Prop) : Prop :=
  ∃ before field behind, fields = before ++ field :: behind ∧
    field.Named name ∧ field.Says word ∧
    (∀ other ∈ before, other.Neutral) ∧ ∀ other ∈ behind, other.Neutral

/-- The fields say how the body is delimited. -/
def Framed (fields : List Field) : Body → Prop
  | .none => ∀ field ∈ fields, field.Neutral
  | .sized content =>
      Only fields (ascii "Content-Length") (Decimal content.length)
  | .chunked _ _ =>
      Only fields (ascii "Transfer-Encoding") fun word =>
        word.map tolower = ascii "chunked"

structure Request where
  method : List UInt8
  target : List UInt8
  fields : List Field
  body : Body
  methodNonempty : method ≠ []
  methodToken : ∀ c ∈ method, isToken c
  targetNonempty : target ≠ []
  targetVisible : ∀ c ∈ target, isVisible c
  framed : Framed fields body

namespace Request

def version : List UInt8 := ascii "HTTP/1.1"

def requestLine (r : Request) : List UInt8 :=
  r.method ++ (space ++ (r.target ++ (space ++ version)))

end Request

/-- Each line with its end. -/
def joined (text : List (List UInt8)) : List UInt8 :=
  text.flatMap (· ++ crlf)

namespace Request

def headLines (r : Request) : List (List UInt8) :=
  r.requestLine :: r.fields.map Field.line

/-- Everything in front of the body. -/
def head (r : Request) : List UInt8 := joined r.headLines ++ crlf

def bytes (r : Request) : List UInt8 := r.head ++ r.body.bytes

end Request

/-- A line that is not blank, without control characters. -/
structure Plain (line : List UInt8) : Prop where
  nonempty : line ≠ []
  unended : (13 : UInt8) ∉ line
  nonzero : (0 : UInt8) ∉ line

section Lines

variable {line rest : List UInt8} {text : List (List UInt8)} {c : UInt8}

theorem not_prefix_cons {s2 : List UInt8} (other : c ≠ 13) :
    ¬ (13 :: s2) <+: c :: rest := by
  rintro ⟨tail, same⟩
  injection same with head
  exact other head.symm

/-- No line end begins in a line. -/
theorem not_prefix_line {s2 : List UInt8} (unended : 13 ∉ line) {start : Nat}
    (within : start < line.length) :
    ¬ (13 :: s2) <+: (line ++ rest).drop start := by
  rw [List.drop_append_of_le_length within.le,
    List.drop_eq_getElem_cons within]
  exact not_prefix_cons fun same => unended (same ▸ List.getElem_mem within)

theorem lines_joined (unended : ∀ line ∈ text, 13 ∉ line) :
    lines (joined text ++ rest) = text ++ lines rest := by
  induction text with
  | nil => rfl
  | cons line text ih =>
      have first := first_of_line (joined text ++ rest)
        (unended line List.mem_cons_self)
      have same : joined (line :: text) ++ rest =
          line ++ (crlf ++ (joined text ++ rest)) := by
        simp [joined]
      rw [same, lines_first first, List.take_left, List.cons_append,
        ← ih fun other member => unended other (List.mem_cons_of_mem _ member)]
      congr 1
      rw [show 2 = crlf.length from rfl, ← List.append_assoc,
        ← List.length_append, List.drop_left]

/-- The blank line behind some lines is the first one. -/
theorem first_blank (plain : ∀ line ∈ text, Plain line) (some : text ≠ []) :
    ∃ pos, pos + 2 = (joined text).length ∧
      First crlfcrlf (joined text ++ (crlf ++ rest)) pos := by
  induction text with
  | nil => exact absurd rfl some
  | cons line text ih =>
      have here := plain line List.mem_cons_self
      cases text with
      | nil =>
          refine ⟨line.length, by simp [joined, crlf], ?_⟩
          have first : First crlfcrlf (crlfcrlf ++ rest) 0 :=
            ⟨List.prefix_append _ _, fun _ before => absurd before (by omega)⟩
          have same : joined [line] ++ (crlf ++ rest) =
              line ++ (crlfcrlf ++ rest) := by
            simp [joined, crlfcrlf]
          rw [same]
          exact first.behind fun start within =>
            not_prefix_line here.unended within
      | cons next text =>
          obtain ⟨pos, length, first⟩ :=
            ih (fun other member => plain other (List.mem_cons_of_mem _ member))
              (List.cons_ne_nil _ _)
          have same : joined (line :: next :: text) ++ (crlf ++ rest) =
              (line ++ crlf) ++ (joined (next :: text) ++ (crlf ++ rest)) := by
            simp [joined]
          refine ⟨(line ++ crlf).length + pos, ?_, ?_⟩
          · rw [Nat.add_assoc, length]
            simp [joined, Nat.add_assoc]
          rw [same]
          refine first.behind fun start within => ?_
          by_cases inside : start < line.length
          · rw [List.append_assoc]
            exact not_prefix_line here.unended inside
          -- at the line end the next line is in the way
          obtain ⟨past, rfl⟩ := Nat.le.dest (Nat.not_lt.mp inside)
          rw [List.length_append] at within
          have short : past < 2 := by
            change _ < line.length + 2 at within
            omega
          rw [List.append_assoc, List.drop_length_add_append]
          have next_plain := plain next (by simp)
          obtain ⟨c, tail, rfl⟩ :=
            List.exists_cons_of_ne_nil next_plain.nonempty
          have other : c ≠ 13 := by
            rintro rfl
            exact next_plain.unended List.mem_cons_self
          rcases Nat.lt_succ_iff_lt_or_eq.mp short with zero | one
          · obtain rfl : past = 0 := by omega
            rintro ⟨behind, same⟩
            simp [crlfcrlf, crlf, joined] at same
            exact other same.1.symm
          · subst one
            rintro ⟨behind, same⟩
            simp [crlfcrlf, crlf, joined] at same

end Lines

theorem tolower_eq_colon {c : UInt8} : tolower c = 58 ↔ c = 58 := by
  unfold tolower
  grind

/-- Bytes of different classes differ. -/
theorem ne_of_class {p : UInt8 → Bool} {c other : UInt8} (member : p c)
    (foreign : p other = false) : c ≠ other := by
  rintro rfl
  rw [foreign] at member
  cases member

theorem Field.line_plain (field : Field) : Plain field.line where
  nonempty := by
    intro empty
    exact field.named (List.append_eq_nil_iff.mp empty).1
  unended := by
    intro member
    rcases List.mem_append.mp member with inName | behind
    · exact ne_of_class (field.token _ inName) (by decide) rfl
    · rcases List.mem_append.mp behind with inColon | inValue
      · exact absurd inColon (by decide)
      · exact ne_of_class (field.text _ inValue) (by decide) rfl
  nonzero := by
    intro member
    rcases List.mem_append.mp member with inName | behind
    · exact ne_of_class (field.token _ inName) (by decide) rfl
    · rcases List.mem_append.mp behind with inColon | inValue
      · exact absurd inColon (by decide)
      · exact ne_of_class (field.text _ inValue) (by decide) rfl

namespace Request

variable (r : Request)

/-- A byte of the request line is one of the method or the target, a space, or
one of the version. -/
theorem mem_requestLine {c : UInt8} (member : c ∈ r.requestLine) :
    isToken c ∨ isVisible c ∨ c ∈ space ++ version := by
  simp only [requestLine, List.mem_append] at member ⊢
  rcases member with method | blank | target | blank | version
  · exact .inl (r.methodToken c method)
  · exact .inr (.inr (.inl blank))
  · exact .inr (.inl (r.targetVisible c target))
  · exact .inr (.inr (.inl blank))
  · exact .inr (.inr (.inr version))

theorem not_mem_requestLine {c : UInt8} (token : isToken c = false)
    (visible : isVisible c = false) (constant : c ∉ space ++ version) :
    c ∉ r.requestLine := by
  intro member
  rcases r.mem_requestLine member with found | found | found
  · exact ne_of_class found token rfl
  · exact ne_of_class found visible rfl
  · exact constant found

theorem requestLine_plain : Plain r.requestLine where
  nonempty := by
    intro empty
    exact r.methodNonempty (List.append_eq_nil_iff.mp empty).1
  unended := r.not_mem_requestLine (by decide) (by decide) (by decide)
  nonzero := r.not_mem_requestLine (by decide) (by decide) (by decide)

theorem headLines_plain : ∀ line ∈ r.headLines, Plain line := by
  intro line member
  rcases List.mem_cons.mp member with rfl | field
  · exact r.requestLine_plain
  · obtain ⟨found, _, rfl⟩ := List.mem_map.mp field
    exact found.line_plain

/-- Where the search for the blank line stops. -/
def pos : Nat := r.head.length - 4

theorem first_blank_line (more : List UInt8) :
    r.pos + 4 = r.head.length ∧ First crlfcrlf (r.head ++ more) r.pos := by
  have some : r.headLines ≠ [] := List.cons_ne_nil _ _
  obtain ⟨place, length, first⟩ :=
    @first_blank more _ r.headLines_plain some
  have whole : r.head.length = place + 4 := by
    rw [head, List.length_append, ← length]
    rfl
  have same : r.pos = place := by
    rw [pos, whole, Nat.add_sub_cancel]
  rw [same, whole, head, List.append_assoc]
  exact ⟨rfl, first⟩

theorem linesFrom_head (more : List UInt8) :
    linesFrom (r.head ++ more) r.pos 0 = r.headLines ++ [[]] := by
  rw [linesFrom, List.drop_zero, (r.first_blank_line more).1, List.take_left,
    head, lines_joined fun line member => (r.headLines_plain line member).unended]
  rfl

theorem headerLines_head (more : List UInt8) :
    headerLines (r.head ++ more) r.pos = r.fields.map Field.line ++ [[]] := by
  rw [headerLines, linesFrom_head]
  rfl

theorem length_head : 16 ≤ r.head.length := by
  have method := List.length_pos_of_ne_nil r.methodNonempty
  have target := List.length_pos_of_ne_nil r.targetNonempty
  have version : version.length = 8 := rfl
  simp [head, headLines, joined, requestLine, space, ascii, crlf, version]
  omega

theorem first_space (more : List UInt8) :
    First space (r.head ++ more) r.method.length := by
  have split : r.head ++ more = r.method ++ (space ++
      (r.target ++ (space ++ version) ++ (crlf ++
        (joined (r.fields.map Field.line) ++ (crlf ++ more))))) := by
    simp [head, headLines, joined, requestLine]
  have first : First space (space ++
      (r.target ++ (space ++ version) ++ (crlf ++
        (joined (r.fields.map Field.line) ++ (crlf ++ more))))) 0 :=
    ⟨List.prefix_append _ _, fun _ before => absurd before (by omega)⟩
  rw [split]
  refine first.behind fun start within => ?_
  rw [List.drop_append_of_le_length within.le,
    List.drop_eq_getElem_cons within]
  rintro ⟨tail, same⟩
  injection same with byte _
  exact ne_of_class (r.methodToken _ (List.getElem_mem within)) (by decide)
    byte.symm

/-- The code knows the method. -/
def Known : Prop := (HEADER.lookup r.method).isSome

theorem knownMethod_iff (more : List UInt8) :
    KnownMethod (r.head ++ more) ↔ r.Known := by
  have split : (r.head ++ more).take r.method.length = r.method := by
    simp [head, headLines, joined, requestLine]
  constructor
  · rintro ⟨place, first, near, known⟩
    rw [first.unique (r.first_space more), split] at known
    exact known
  · intro known
    refine ⟨_, r.first_space more, ?_, by rwa [split]⟩
    have short : ∀ entry ∈ HEADER, entry.1.length < 10 := by decide
    obtain ⟨type, found⟩ := Option.isSome_iff_exists.mp known
    obtain ⟨before, behind, same, _⟩ := List.lookup_eq_some_iff.mp found
    exact short ⟨r.method, type⟩ (by rw [same]; simp)

theorem hasHead (known : r.Known) {more : List UInt8}
    (short : (r.head ++ more).length < 2 ^ 31) :
    HasHead (r.head ++ more) r.pos where
  long := by
    have long := r.length_head
    rw [List.length_append]
    omega
  method := (r.knownMethod_iff more).mpr known
  blank := (r.first_blank_line more).2
  reached := by
    have whole := (r.first_blank_line more).1
    rw [toInt_eq (by omega) (by omega), List.length_append]
    omega

end Request

end TarsCpp.Http
