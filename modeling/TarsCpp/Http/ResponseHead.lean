import TarsCpp.Http.Response
import TarsCpp.Http.WellFormed
import TarsCpp.Http.Decoding
import TarsCpp.NetworkBuffer.QueueRefinement

/-!
# Responses and their heads

`TC_HttpResponse::decode`, which gets all of a response in one string, and
`setResponse` and `encode`.  The memory of the string ends with the zero byte of
`c_str()`, and pointers into it are offsets.

The responses that a connection which is kept can carry: a status line, fields,
and no body, a body of an announced length, or a body in chunks, with the
extensions and the trailer that chunks may have.  Both decoders hand the same
head to `parseResponseHeaderString`, one of them with the blank line and one
without it, and get the same.
-/

namespace TarsCpp.Http.HttpResponse

open CString NetworkBuffer

def getContentLength (response : HttpResponse) : Nat :=
  response.http.getContentLength

/-- The loop over the chunks, from `sBuffer` on. -/
def decodeAllChunks (pHeader : Memory) (iLength : Nat) :
    Nat → Nat → HttpResponse → Except Failure (Option (Bool × HttpResponse))
  | 0, _, _ => .ok none
  | turns + 1, sBuffer, response => do
      match ← access (strnstr (pHeader.drop sBuffer) crlf
          (toInt (iLength - sBuffer))) with
      | none => pure (some (false, response))
      | some pos =>
          let iChunkSize := chunkSize ((pHeader.drop sBuffer).take pos)
          if iChunkSize ≤ 0 then
            pure (some (true,
              response.setContentLength response.iRecvContentLength))
          else
            let size := iChunkSize.toNat
            -- `strlen` does not see what stands behind a zero byte
            let seen ← access (CString.string (pHeader.drop sBuffer))
            if seen.length < pos + 2 + size + 2 then
              pure (some (false, response))
            else do
              let chunk ← load (some pHeader) (sBuffer + pos + 2) size
              decodeAllChunks pHeader iLength turns
                (sBuffer + (pos + 2 + size + 2)) (response.addContent chunk)

/-- A body that does not come in chunks; `addContent` gets a `const char *`. -/
def decodeAllContent (sBuffer : Memory) (iLength : Nat)
    (response : HttpResponse) : Except Failure (Bool × HttpResponse) := do
  if response.iTmpContentLength = 0 then
    let response := response.addContent (← access (CString.string sBuffer))
    pure (true, response.setContentLength response.iRecvContentLength)
  else if response.iTmpContentLength = 2 ^ 64 - 1 then
    if response.status = 304 ∨ response.status = 302 then
      pure (true, response)
    else
      let response := response.addContent (← access (CString.string sBuffer))
      pure (true, response.setContentLength response.iRecvContentLength)
  else
    let response := response.addContent (← access (CString.string sBuffer))
    if response.iTmpContentLength ≤ response.iRecvContentLength then
      pure (true, response)
    else
      -- the sum is a `size_t`
      pure ((response.getContentLength + response.headLength) % 2 ^ 64 ≤
        iLength, response)

def decodeAllBody (turns : Nat) (pHeader : Memory) (iLength : Nat)
    (response : HttpResponse) :
    Except Failure (Option (Bool × HttpResponse)) :=
  if response.bIsChunked then
    decodeAllChunks pHeader iLength turns response.headLength response
  else do
    let decoded ← response.decodeAllContent (pHeader.drop response.headLength)
      iLength
    pure (some decoded)

/-- `decode(const char *, size_t)`. -/
def decodeMemory (turns : Nat) (pHeader : Memory) (iLength : Nat)
    (response : HttpResponse) :
    Except Failure (Option (Bool × HttpResponse)) := do
  match ← access (strnstr pHeader crlfcrlf (toInt iLength)) with
  | none => pure (some (false, response))
  | some p =>
      match ← parseResponseHeaderString turns pHeader (p + 2) response with
      | none => pure none
      | some response =>
          if 204 = response.status ∨ 304 = response.status then
            pure (some (true, response))
          else
            let response := { response with headLength := p + 4 }
            if (response.status = 301 ∨ response.status = 302) ∧
                response.hasHeader (ascii "Location") then
              pure (some (true, response))
            else
              decodeAllBody turns pHeader iLength response.noteChunks

/-- `decode(const string &)`. -/
def decode (turns : Nat) (sBuffer : List UInt8) (response : HttpResponse) :
    Except Failure (Option (Bool × HttpResponse)) :=
  decodeMemory turns (sBuffer ++ [0]) sBuffer.length response

/-- `tostr` of an `int`. -/
def tostr (n : Int) : List UInt8 :=
  let digits := ascii (String.ofList (Nat.toDigits 10 n.natAbs))
  if n < 0 then 45 :: digits else digits

/-- A header without a value is left out. -/
def genHeader (response : HttpResponse) : List UInt8 :=
  response.headers.flatMap fun header =>
    if header.value ≠ [] then
      header.name ++ (ascii ": " ++ (header.value ++ crlf))
    else
      []

def encode (response : HttpResponse) : List UInt8 :=
  response.version ++ (space ++ (tostr response.status ++ (space ++
    (response.about ++ (crlf ++ (response.genHeader ++ (crlf ++
      response.content)))))))

end TarsCpp.Http.HttpResponse

namespace TarsCpp.Http

open CString

/-- What may stand between the size of a chunk and the end of its line. -/
structure Extension where
  text : List UInt8
  opens : ∀ c ∈ text.head?, c = 59 ∨ isBlank c
  plain : ∀ c ∈ text, isFieldByte c

abbrev Piece := Chunk × Extension

def Piece.bytes (piece : Piece) : List UInt8 :=
  piece.1.size ++ (piece.2.text ++ (crlf ++ (piece.1.data ++ crlf)))

inductive ResponseBody
  | none
  | sized (content : List UInt8)
  | chunked (pieces : List Piece) (zeros : Nat) (extension : Extension)
      (trailer : List Field)

/-- The line of the last chunk, with its end. -/
def lastLine (zeros : Nat) (extension : Extension) : List UInt8 :=
  lastChunk zeros ++ (extension.text ++ crlf)

namespace ResponseBody

def bytes : ResponseBody → List UInt8
  | none => []
  | sized content => content
  | chunked pieces zeros extension trailer =>
      pieces.flatMap Piece.bytes ++ (lastLine zeros extension ++
        (joined (trailer.map Field.line) ++ crlf))

end ResponseBody

/-- A response to the request never has a body. -/
def Bodiless (status : Nat) : Prop :=
  status / 100 = 1 ∨ status = 204 ∨ status = 304

/-- The response says where else to look. -/
def Redirects (status : Nat) (fields : List Field) : Prop :=
  (status = 301 ∨ status = 302) ∧
    ∃ field ∈ fields, field.Named (ascii "Location")

/-- Status and fields say how the body is delimited. -/
def Delimited (status : Nat) (fields : List Field) : ResponseBody → Prop
  | .none => status = 304 ∨ (∀ field ∈ fields, field.Neutral) ∧
      (Bodiless status ∨ Redirects status fields)
  | .sized content => ¬ Bodiless status ∧
      Only fields (ascii "Content-Length") (Decimal content.length)
  | .chunked _ _ _ _ => ¬ Bodiless status ∧
      Only fields (ascii "Transfer-Encoding") fun word =>
        word.map tolower = ascii "chunked"

structure Response where
  major : UInt8
  minor : UInt8
  code : List UInt8
  reason : List UInt8
  fields : List Field
  body : ResponseBody
  versioned : isDigit major ∧ isDigit minor
  three : code.length = 3
  digit : ∀ c ∈ code, isDigit c
  text : ∀ c ∈ reason, isFieldByte c
  delimited : Delimited (digits 10 0 code) fields body

namespace Response

variable (r : Response)

def version : List UInt8 := ascii "HTTP/" ++ [r.major, 46, r.minor]

def status : Nat := digits 10 0 r.code

def statusLine : List UInt8 :=
  r.version ++ (space ++ (r.code ++ (space ++ r.reason)))

def headLines : List (List UInt8) := r.statusLine :: r.fields.map Field.line

/-- Everything in front of the body. -/
def head : List UInt8 := joined r.headLines ++ crlf

def bytes : List UInt8 := r.head ++ r.body.bytes

end Response

namespace Response

variable (r : Response)

/-- Behind the spaces in front of it nothing but the word is in the field. -/
def ChunkedBare : Prop :=
  ∀ field ∈ r.fields, field.Named (ascii "Transfer-Encoding") →
    (field.value.dropWhile (· = 32)).map tolower = ascii "chunked"

end Response

open NetworkBuffer

section Lines

variable {sBuffer : List UInt8} {lineStartIt headerIt turns : Nat}
  {parsed : Nat × List Header}

/-- What `parseHeaderString` returns behind some fields. -/
def announcedBy (fields : List Field) (contentLength : Nat) : Nat :=
  fields.foldl (fun contentLength field => field.announced contentLength)
    contentLength

theorem strnstr_nothing {s1 s2 : List UInt8} (nonempty : s2 ≠ []) :
    strnstr s1 s2 0 = some none := by
  rw [strnstr_eq nonempty (Int.natCast_nonneg _), Int.toNat_zero,
    List.take_zero, find, if_neg nonempty]

/-- An empty line is left out. -/
theorem parseHeaderLine_empty :
    parseHeaderLine sBuffer lineStartIt lineStartIt parsed = .ok parsed := by
  have window : toInt ((lineStartIt : Int) - lineStartIt) = 0 := by
    rw [Int.sub_self]
    rfl
  rw [parseHeaderLine, window, strnstr_nothing (by decide)]
  rfl

theorem parseHeaderLoop_end :
    parseHeaderLoop sBuffer headerIt (turns + 1) headerIt false parsed =
      .ok (some parsed) := by
  have window : toInt ((headerIt : Int) - headerIt) = 0 := by
    rw [Int.sub_self]
    rfl
  rw [parseHeaderLoop, window, strnstr_nothing (by decide)]
  simp only [access_some, ok_bind, parseUnlessFirst, Bool.false_eq_true,
    if_false, parseHeaderLine_empty, pure_ok]

theorem parseHeaderLoop_blank {rest : List UInt8}
    (memory : sBuffer.drop lineStartIt = crlf ++ rest)
    (whole : headerIt = lineStartIt + 2) (inside : headerIt ≤ sBuffer.length)
    (short : headerIt < 2 ^ 31) :
    parseHeaderLoop sBuffer headerIt (turns + 2) lineStartIt false parsed =
      .ok (some parsed) := by
  have within : lineStartIt + ([] : List UInt8).length + 2 ≤ headerIt :=
    whole.ge
  rw [parseHeaderLoop_more List.not_mem_nil memory within inside short,
    List.length_nil, Nat.add_zero, parseUnlessFirst, if_neg (by decide),
    parseHeaderLine_empty, ok_bind, ← whole, parseHeaderLoop_end]

theorem parseHeaderLoop_lines {fields : List Field} {rest : List UInt8}
    (memory : sBuffer.drop lineStartIt = joined (fields.map Field.line) ++ rest)
    (within : lineStartIt + (joined (fields.map Field.line)).length ≤ headerIt)
    (inside : headerIt ≤ sBuffer.length) (short : headerIt < 2 ^ 31) :
    parseHeaderLoop sBuffer headerIt (fields.length + turns) lineStartIt false
        parsed =
      parseHeaderLoop sBuffer headerIt turns
        (lineStartIt + (joined (fields.map Field.line)).length) false
        (announcedBy fields parsed.1, inserted parsed.2 fields) := by
  induction fields generalizing lineStartIt parsed with
  | nil => simp [joined, announcedBy, inserted]
  | cons field fields ih =>
      have line : sBuffer.drop lineStartIt = field.line ++ (crlf ++
          (joined (fields.map Field.line) ++ rest)) := by
        rw [memory, List.map_cons, joined_cons]
        simp
      have length : (joined ((field :: fields).map Field.line)).length =
          field.line.length + 2 + (joined (fields.map Field.line)).length := by
        rw [List.map_cons, joined_cons]
        simp [crlf]
        omega
      have behind : sBuffer.drop (lineStartIt + field.line.length + 2) =
          joined (fields.map Field.line) ++ rest := by
        rw [Nat.add_assoc, ← List.drop_drop, line, List.drop_length_add_append]
        rfl
      have turn := parseHeaderLine_field field line (by omega) parsed
      have later := @ih (lineStartIt + field.line.length + 2)
        (field.announced parsed.1,
          HttpRequest.insertHeader field.header parsed.2) behind (by omega)
      have count : (field :: fields).length + turns =
          fields.length + turns + 1 := by
        rw [List.length_cons]
        omega
      rw [count, parseHeaderLoop_more field.line_plain.unended line (by omega)
        inside short, parseUnlessFirst, if_neg (by decide), turn, ok_bind,
        later, length]
      have places : lineStartIt + field.line.length + 2 +
          (joined (fields.map Field.line)).length =
          lineStartIt + (field.line.length + 2 +
            (joined (fields.map Field.line)).length) := by omega
      rw [places]
      rfl

end Lines

/-- A status line and fields. -/
structure Head where
  version : List UInt8
  code : List UInt8
  reason : List UInt8
  fields : List Field
  starts : startsWith (ascii "HTTP/") version
  visible : ∀ c ∈ version ++ code, isVisible c
  text : ∀ c ∈ reason, isFieldByte c

namespace Head

def statusLine (h : Head) : List UInt8 :=
  h.version ++ (space ++ (h.code ++ (space ++ h.reason)))

def headLines (h : Head) : List (List UInt8) :=
  h.statusLine :: h.fields.map Field.line

/-- Everything in front of the body. -/
def bytes (h : Head) : List UInt8 := joined h.headLines ++ crlf

/-- The response behind the head. -/
def parsed (h : Head) (response : HttpResponse) : HttpResponse :=
  { response with
    headers := inserted [] h.fields
    version := h.version
    headComplete := true
    status := strtoInt h.code
    about := h.reason
    headerLine := h.statusLine
    iTmpContentLength := announcedBy h.fields (2 ^ 64 - 1) }

variable (h : Head)

theorem not_mem_visible {c : UInt8} (invisible : isVisible c = false) :
    c ∉ h.version ∧ c ∉ h.code := by
  constructor
  · intro member
    exact ne_of_class (h.visible c (List.mem_append_left _ member)) invisible
      rfl
  · intro member
    exact ne_of_class (h.visible c (List.mem_append_right _ member)) invisible
      rfl

theorem not_mem_statusLine {c : UInt8} (invisible : isVisible c = false)
    (foreign : isFieldByte c = false) : c ∉ h.statusLine := by
  obtain ⟨version, code⟩ := h.not_mem_visible invisible
  have blank : c ∉ space := by
    intro member
    rw [List.mem_singleton.mp member] at foreign
    cases foreign
  have reason : c ∉ h.reason := fun member =>
    ne_of_class (h.text c member) foreign rfl
  simp only [statusLine, List.mem_append, not_or]
  exact ⟨version, blank, code, blank, reason⟩

theorem length_statusLine : h.statusLine.length =
    h.version.length + h.code.length + h.reason.length + 2 := by
  simp [statusLine, space, ascii]
  omega

theorem statusLine_plain : Plain h.statusLine where
  nonempty := by
    apply List.ne_nil_of_length_pos
    rw [length_statusLine]
    omega
  unended := h.not_mem_statusLine (by decide) (by decide)
  nonzero := h.not_mem_statusLine (by decide) (by decide)

theorem headLines_plain : ∀ line ∈ h.headLines, Plain line := by
  intro line member
  rcases List.mem_cons.mp member with rfl | field
  · exact h.statusLine_plain
  · obtain ⟨found, _, rfl⟩ := List.mem_map.mp field
    exact found.line_plain

/-- The blank line ends the head. -/
theorem first_blank_line (more : List UInt8) :
    ∃ p, h.bytes.length = p + 4 ∧ First crlfcrlf (h.bytes ++ more) p := by
  have some : h.headLines ≠ [] := List.cons_ne_nil _ _
  obtain ⟨p, length, first⟩ := @first_blank more _ h.headLines_plain some
  have whole : h.bytes.length = p + 4 := by
    rw [bytes, List.length_append, ← length]
    rfl
  refine ⟨p, whole, ?_⟩
  rw [bytes, List.append_assoc]
  exact first

theorem bytes_split (more : List UInt8) :
    h.bytes ++ more = h.statusLine ++ (crlf ++
      (joined (h.fields.map Field.line) ++ (crlf ++ more))) := by
  simp [bytes, headLines, joined]

theorem length_bytes : h.bytes.length = h.statusLine.length + 2 +
    (joined (h.fields.map Field.line)).length + 2 := by
  simp [bytes, headLines, joined_cons, crlf]
  omega

variable {h} {more : List UInt8} {headerIt turns : Nat}

/-- The end of the head, with or without the blank line. -/
theorem parseHeaderString_head
    (ends : headerIt + 2 = h.bytes.length ∨ headerIt = h.bytes.length)
    (short : h.bytes.length < 2 ^ 31) (enough : h.fields.length + 3 ≤ turns) :
    parseHeaderString turns (h.bytes ++ more) headerIt =
      .ok (some (announcedBy h.fields (2 ^ 64 - 1), inserted [] h.fields)) := by
  obtain ⟨spare, rfl⟩ : ∃ spare, turns = h.fields.length + (spare + 2) + 1 :=
    ⟨turns - h.fields.length - 3, by omega⟩
  have length := h.length_bytes
  have inside : headerIt ≤ (h.bytes ++ more).length := by
    rw [List.length_append]
    omega
  have first : (h.bytes ++ more).drop 0 = h.statusLine ++ (crlf ++
      (joined (h.fields.map Field.line) ++ (crlf ++ more))) :=
    h.bytes_split more
  have lines : (h.bytes ++ more).drop (0 + h.statusLine.length + 2) =
      joined (h.fields.map Field.line) ++ (crlf ++ more) := by
    rw [Nat.zero_add, bytes_split, List.drop_length_add_append]
    rfl
  rw [parseHeaderString, parseHeaderLoop_more h.statusLine_plain.unended first
    (by omega) inside (by omega), parseUnlessFirst, if_pos rfl, ok_bind,
    parseHeaderLoop_lines lines (by omega) inside (by omega)]
  rcases ends with front | whole
  · have place : 0 + h.statusLine.length + 2 +
        (joined (h.fields.map Field.line)).length = headerIt := by omega
    rw [place]
    exact parseHeaderLoop_end
  · have blank : (h.bytes ++ more).drop (0 + h.statusLine.length + 2 +
        (joined (h.fields.map Field.line)).length) = crlf ++ more := by
      rw [← List.drop_drop, lines, List.drop_left]
    exact parseHeaderLoop_blank blank (by omega) inside (by omega)

theorem parseResponseHeaderString_head (response : HttpResponse)
    (ends : headerIt + 2 = h.bytes.length ∨ headerIt = h.bytes.length)
    (short : h.bytes.length < 2 ^ 31) (enough : h.fields.length + 3 ≤ turns) :
    HttpResponse.parseResponseHeaderString turns (h.bytes ++ more) headerIt
      response = .ok (some (h.parsed response)) := by
  have length := h.length_bytes
  have statusLength := h.length_statusLine
  have whole : (h.bytes ++ more).length = h.bytes.length + more.length :=
    List.length_append
  have line : strnstr (h.bytes ++ more) crlf (toInt headerIt) =
      some (some h.statusLine.length) := by
    have first := first_of_line
      (joined (h.fields.map Field.line) ++ (crlf ++ more))
      h.statusLine_plain.unended
    rw [← bytes_split] at first
    rw [toInt_eq (by omega) (by omega), strnstr_eq (by decide) (by omega),
      find_eq_some_iff.mpr (first_take_iff.mpr ⟨first, ?_⟩)]
    change h.statusLine.length + 2 ≤ _
    omega
  have split : h.bytes ++ more = h.version ++ 32 :: (h.code ++ 32 ::
      (h.reason ++ (crlf ++
        (joined (h.fields.map Field.line) ++ (crlf ++ more))))) := by
    rw [bytes_split]
    simp [statusLine, space, ascii]
  have f1 : strnstr (h.bytes ++ more) space (toInt h.statusLine.length) =
      some (some h.version.length) := by
    have first : First space (h.bytes ++ more) h.version.length := by
      rw [split]
      exact first_of_byte _ (h.not_mem_visible (by decide)).1
    rw [toInt_eq (by omega) (by omega), strnstr_eq (by decide) (by omega),
      find_eq_some_iff.mpr (first_take_iff.mpr ⟨first, ?_⟩)]
    change h.version.length + 1 ≤ _
    omega
  have behind : (h.bytes ++ more).drop (h.version.length + 1) =
      h.code ++ 32 :: (h.reason ++ (crlf ++
        (joined (h.fields.map Field.line) ++ (crlf ++ more)))) := by
    rw [split, List.drop_length_add_append]
    rfl
  have room : h.version.length + 1 +
      ((h.bytes ++ more).drop (h.version.length + 1)).length =
        (h.bytes ++ more).length := by
    rw [List.length_drop]
    omega
  have f2 : strnstr ((h.bytes ++ more).drop (h.version.length + 1)) space
      (toInt ((h.statusLine.length : Int) - ((h.version.length : Int) + 1))) =
        some (some h.code.length) := by
    have first : First space ((h.bytes ++ more).drop (h.version.length + 1))
        h.code.length := by
      rw [behind]
      exact first_of_byte _ (h.not_mem_visible (by decide)).2
    rw [toInt_eq (by omega) (by omega), strnstr_eq (by decide) (by omega),
      find_eq_some_iff.mpr (first_take_iff.mpr ⟨first, ?_⟩)]
    change h.code.length + 1 ≤ _
    omega
  have version : (h.bytes ++ more).take h.version.length = h.version := by
    rw [split, List.take_left]
  have headerLine : (h.bytes ++ more).take h.statusLine.length =
      h.statusLine := by
    rw [bytes_split, List.take_left]
  have code : ((h.bytes ++ more).drop (h.version.length + 1)).take
      (h.version.length + 1 + h.code.length - (h.version.length + 1)) =
        h.code := by
    rw [Nat.add_sub_cancel_left, behind, List.take_left]
  have reason : ((h.bytes ++ more).drop
      (h.version.length + 1 + h.code.length + 1)).take
        (h.statusLine.length - (h.version.length + 1 + h.code.length + 1)) =
        h.reason := by
    have count : h.statusLine.length -
        (h.version.length + 1 + h.code.length + 1) = h.reason.length := by omega
    rw [count, Nat.add_assoc, ← List.drop_drop, behind,
      List.drop_length_add_append]
    exact List.take_left
  have starts : strncasecmp (ascii "HTTP/") (h.statusLine ++ [0]) =
      some true := by
    rw [strncasecmp_line [] (by decide), Option.some.injEq, startsWith,
      decide_eq_true_eq, statusLine, List.map_append]
    exact (of_decide_eq_true h.starts).trans (List.prefix_append _ _)
  rw [HttpResponse.parseResponseHeaderString, line]
  simp only [access_some, ok_bind, f1, f2, headerLine, starts, if_true]
  rw [substring_eq (by omega), code, ok_bind, substring_eq (by omega), reason,
    ok_bind, parseHeaderString_head ends short enough, ok_bind, version]
  rfl

end Head

end TarsCpp.Http
