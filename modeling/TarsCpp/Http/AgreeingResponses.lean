import TarsCpp.Http.ResponseAgreement

/-!
# The responses on which both decoders agree

What the code reads from the head of a well-formed response, in terms of its
fields.
-/

namespace TarsCpp.Http

open CString NetworkBuffer

section Numbers

variable {word : List UInt8}

theorem number_digits (nonempty : word ≠ []) (digit : ∀ c ∈ word, isDigit c) :
    number 10 word = (false, digits 10 0 word) ∧
      number 10 (45 :: word) = (true, digits 10 0 word) := by
  obtain ⟨c, tail, rfl⟩ := List.exists_cons_of_ne_nil nonempty
  have first := digit c List.mem_cons_self
  have minus : c ≠ 45 := ne_of_class first (by decide)
  have plus : c ≠ 43 := ne_of_class first (by decide)
  have sign : isspace 45 = false := by decide
  constructor
  · rw [number, List.dropWhile_cons_of_neg (by simp [isDigit_isspace first])]
    simp [minus, plus]
  · rw [number, List.dropWhile_cons_of_neg (by simp [sign])]
    simp

theorem digits_lt (digit : ∀ c ∈ word, isDigit c) (value : Nat) :
    digits 10 value word < (value + 1) * 10 ^ word.length := by
  induction word generalizing value with
  | nil => simp [digits]
  | cons c word ih =>
      obtain ⟨d, here, small⟩ := digitValue_digit (digit c List.mem_cons_self)
      have later := ih (fun other member =>
        digit other (List.mem_cons_of_mem _ member)) (value * 10 + d)
      rw [digits, here]
      simp only [if_pos small]
      calc
        digits 10 (value * 10 + d) word
            < (value * 10 + d + 1) * 10 ^ word.length := later
        _ ≤ (value + 1) * 10 * 10 ^ word.length :=
            Nat.mul_le_mul_right _ (by omega)
        _ = (value + 1) * 10 ^ (c :: word).length := by
            rw [List.length_cons, Nat.pow_succ, Nat.mul_assoc,
              Nat.mul_comm 10]

theorem strtoInt_digits (nonempty : word ≠ []) (digit : ∀ c ∈ word, isDigit c)
    (small : digits 10 0 word ≤ 2 ^ 31) :
    (digits 10 0 word < 2 ^ 31 → strtoInt word = digits 10 0 word) ∧
      strtoInt (45 :: word) = -digits 10 0 word := by
  obtain ⟨read, read'⟩ := number_digits nonempty digit
  have unprefixed : ¬ ascii "0x" <+: word := by
    rintro ⟨rest, same⟩
    have second : (120 : UInt8) ∈ word := by
      rw [← same]
      simp [ascii]
    exact ne_of_class (digit _ second) (by decide) rfl
  constructor
  · intro positive
    rw [strtoInt, if_neg nonempty, if_neg unprefixed, strtol, read]
    simp only [Bool.false_eq_true, if_false]
    rw [min_eq_right (by omega), toInt_eq (by omega) (by omega)]
  · have other : ¬ ascii "0x" <+: 45 :: word := by
      rintro ⟨rest, same⟩
      simp [ascii] at same
    rw [strtoInt, if_neg (List.cons_ne_nil _ _), if_neg other, strtol, read']
    simp only [if_true]
    rw [max_eq_right (by omega), toInt_eq (by omega) (by omega)]

end Numbers

theorem inserted_perm (fields : List Field) (headers : List Header) :
    (inserted headers fields).Perm (headers ++ fields.map Field.header) := by
  induction fields generalizing headers with
  | nil => simp [inserted]
  | cons field fields ih =>
      rw [inserted, List.foldl_cons, ← inserted]
      refine (ih _).trans ?_
      have first := Multimap.insert_perm (fun header => caseKey header.name)
        field.header headers
      refine (first.append_right _).trans ?_
      rw [List.map_cons]
      exact List.perm_middle.symm

theorem inserted_sorted (fields : List Field) {headers : List Header}
    (sorted : Multimap.Sorted (fun header => caseKey header.name) headers) :
    Multimap.Sorted (fun header => caseKey header.name)
      (inserted headers fields) := by
  induction fields generalizing headers with
  | nil => exact sorted
  | cons field fields ih =>
      rw [inserted, List.foldl_cons, ← inserted]
      exact ih sorted.insert

theorem Field.name_nonzero (field : Field) : (0 : UInt8) ∉ field.name :=
  fun zero => ne_of_class (field.token _ zero) (by decide) rfl

theorem Field.named_iff {name : List UInt8} (field : Field)
    (whole : (0 : UInt8) ∉ name) :
    caseKey field.header.name = caseKey name ↔ field.Named name :=
  caseKey_eq_iff field.name_nonzero whole

/-- Of a length at most one field speaks. -/
def Lone (fields : List Field) : Prop :=
  fields.Pairwise fun field other =>
    ¬ (field.Named (ascii "Content-Length") ∧
      other.Named (ascii "Content-Length"))

theorem Lone.of_neutral {fields : List Field}
    (neutral : ∀ field ∈ fields, field.Neutral) : Lone fields :=
  List.Pairwise.imp_of_mem
    (fun member _ _ both => (neutral _ member).1 both.1)
    (List.pairwise_of_forall (R := fun _ _ => True) fun _ _ => trivial)

theorem Lone.of_neutral_but_one {before behind : List Field} {field : Field}
    (neutral : ∀ other ∈ before, other.Neutral)
    (neutral' : ∀ other ∈ behind, other.Neutral) :
    Lone (before ++ field :: behind) := by
  refine List.pairwise_append.mpr ⟨Lone.of_neutral neutral,
    List.pairwise_cons.mpr ⟨?_, Lone.of_neutral neutral'⟩, ?_⟩
  · intro other member both
    exact (neutral' other member).1 both.2
  · intro other member next _ both
    exact (neutral other member).1 both.1

theorem HttpResponse.setContentLength_headers (response : HttpResponse)
    (n : Nat) :
    (response.setContentLength n).headers =
      Multimap.insert (fun header => caseKey header.name)
        ⟨ascii "Content-Length",
          ascii (String.ofList (Nat.toDigits 10 n))⟩
        (response.headers.filter fun header =>
          caseKey header.name ≠ caseKey (ascii "Content-Length")) := by
  have other : caseKey (ascii "Content-Length") ≠
      caseKey (ascii "SET-COOKIE") ∧
      caseKey (ascii "Content-Length") ≠ caseKey (ascii "COOKIE") := by
    decide +kernel
  rw [setContentLength, HttpRequest.setContentLength, HttpRequest.setHeader,
    if_pos other]
  rfl

/-- The header of the length is the one that `setContentLength` writes. -/
theorem HttpResponse.setContentLength_zero_iff {response : HttpResponse}
    {fields : List Field} (headers : response.headers = inserted [] fields)
    (lone : Lone fields) :
    (response.setContentLength 0).headers = response.headers ↔
      ∃ field ∈ fields,
        field.header = ⟨ascii "Content-Length", ascii "0"⟩ := by
  have zero : ascii (String.ofList (Nat.toDigits 10 0)) = ascii "0" := by
    decide +kernel
  rw [setContentLength_headers, zero, headers]
  constructor
  · intro same
    have member : (⟨ascii "Content-Length", ascii "0"⟩ : Header) ∈
        inserted [] fields := by
      rw [← same, Multimap.mem_insert]
      exact .inl rfl
    obtain ⟨field, listed, equal⟩ :=
      (mem_inserted.mp member).resolve_left List.not_mem_nil
    exact ⟨field, listed, equal.symm⟩
  · rintro ⟨field, listed, equal⟩
    obtain ⟨before, behind, rfl⟩ := List.append_of_mem listed
    have named : field.Named (ascii "Content-Length") := by
      rw [← field.named_iff (by decide), equal]
    have others : ∀ other ∈ before ++ behind,
        ¬ other.Named (ascii "Content-Length") := by
      obtain ⟨_, later, apart⟩ := List.pairwise_append.mp lone
      obtain ⟨after, _⟩ := List.pairwise_cons.mp later
      intro other member named'
      rcases List.mem_append.mp member with front | back
      · exact apart other front field List.mem_cons_self ⟨named', named⟩
      · exact after other back ⟨named, named'⟩
    have sorted : Multimap.Sorted (fun header : Header => caseKey header.name)
        (inserted [] (before ++ field :: behind)) :=
      inserted_sorted _ List.Pairwise.nil
    have single : (inserted [] (before ++ field :: behind)).filter
        (fun header => caseKey header.name =
          caseKey (ascii "Content-Length")) = [field.header] := by
      have none : ∀ part : List Field,
          (∀ other ∈ part, ¬ other.Named (ascii "Content-Length")) →
            (part.map Field.header).filter (fun header =>
              caseKey header.name = caseKey (ascii "Content-Length")) = [] := by
        intro part unnamed
        rw [List.filter_eq_nil_iff]
        intro header member
        obtain ⟨other, among, rfl⟩ := List.mem_map.mp member
        rw [decide_eq_true_eq, other.named_iff (by decide)]
        exact unnamed other among
      have listed := (inserted_perm (before ++ field :: behind) []).filter
        fun header => caseKey header.name = caseKey (ascii "Content-Length")
      rw [List.nil_append, List.map_append, List.map_cons, List.filter_append,
        none before fun other member =>
          others other (List.mem_append_left _ member), List.nil_append,
        List.filter_cons_of_pos (by
          rw [decide_eq_true_eq, field.named_iff (by decide)]
          exact named),
        none behind fun other member =>
          others other (List.mem_append_right _ member)] at listed
      exact List.perm_singleton.mp listed
    rw [equal] at single
    exact Multimap.insert_filter sorted single

namespace Response

variable (r : Response)

def toHead : Head where
  version := r.version
  code := r.code
  reason := r.reason
  fields := r.fields
  starts := by
    rw [startsWith, decide_eq_true_eq, version, List.map_append]
    exact List.prefix_append _ _
  visible := by
    have digits : ∀ c, isDigit c → isVisible c := by
      intro c digit
      simp only [isDigit, isVisible, Bool.decide_and, Bool.and_eq_true,
        decide_eq_true_eq] at *
      grind
    intro c member
    rcases List.mem_append.mp member with version | code
    · rcases List.mem_append.mp version with constant | numbers
      · exact forall_mem_of_all (p := fun c => isVisible c)
          (by decide +kernel) c constant
      · simp only [List.mem_cons, List.not_mem_nil, or_false] at numbers
        rcases numbers with rfl | rfl | rfl
        · exact digits _ r.versioned.1
        · rfl
        · exact digits _ r.versioned.2
    · exact digits c (r.digit c code)
  text := r.text

theorem bytes_eq : r.bytes = r.toHead.bytes ++ r.body.bytes := rfl

theorem status_eq : r.toHead.started.status = r.status := by
  have nonempty : r.code ≠ [] := by
    intro empty
    have three := r.three
    rw [empty] at three
    cases three
  have bound := digits_lt r.digit 0
  rw [r.three] at bound
  exact (strtoInt_digits nonempty r.digit (by omega)).1 (by omega)

/-- The clients do not look at the body. -/
def Skipped : Prop :=
  r.status = 204 ∨ r.status = 304 ∨ Redirects r.status r.fields

theorem hasLocation_iff :
    r.toHead.started.hasHeader (ascii "Location") = true ↔
      ∃ field ∈ r.fields, field.Named (ascii "Location") := by
  have headers : r.toHead.started.http.headers = inserted [] r.fields := rfl
  rw [HttpResponse.hasHeader]
  constructor
  · intro found
    obtain ⟨header, found⟩ := Option.isSome_iff_exists.mp found
    obtain ⟨field, listed, _, named⟩ :=
      findHeader_sound headers (by decide) found
    exact ⟨field, listed, named⟩
  · rintro ⟨field, listed, named⟩
    rw [HttpRequest.findHeader, List.find?_isSome]
    refine ⟨field.header, ?_, ?_⟩
    · rw [headers, mem_inserted]
      exact .inr ⟨field, listed, rfl⟩
    · rw [decide_eq_true_eq, field.named_iff (by decide)]
      exact named

theorem bodiless_iff : r.toHead.Bodiless ↔ r.Skipped := by
  have noContent : (204 : Int) = r.status ↔ r.status = 204 := by omega
  have unmodified : (304 : Int) = r.status ↔ r.status = 304 := by omega
  have moved : (r.status : Int) = 301 ↔ r.status = 301 := by omega
  have found : (r.status : Int) = 302 ↔ r.status = 302 := by omega
  rw [Head.Bodiless, r.hasLocation_iff, r.status_eq, noContent, unmodified,
    moved, found, or_assoc, Skipped, Redirects]

/-- The length that the code takes from the fields, or `-1`. -/
def announced : Nat := announcedBy r.fields (2 ^ 64 - 1)

/-- Both read to the end of a body that does not come in chunks for them. -/
def ReadWhole : Prop :=
  if r.announced = 0 then
    0 ∉ r.body.bytes ∧ (r.body.bytes = [] →
      ∃ field ∈ r.fields, field.header = ⟨ascii "Content-Length", ascii "0"⟩)
  else if r.announced = 2 ^ 64 - 1 then
    r.status = 302
  else
    0 ∉ r.body.bytes ∧ r.announced ≤ r.body.bytes.length

variable {r} in
theorem ReadWhole.absent (whole : r.ReadWhole) :
    r.status = 302 ∨ 0 ∉ r.body.bytes := by
  unfold ReadWhole at whole
  split at whole
  · exact .inr whole.1
  · split at whole
    · exact .inl whole
    · exact .inr whole.1

/-- The chunks are without zero bytes and without extensions. -/
def ReadChunks (pieces : List Piece) : Prop :=
  ∀ piece ∈ pieces, piece.2.text = [] ∧ 0 ∉ piece.1.data

/-- What both decoders can read. -/
def Readable : Prop :=
  match r.body with
  | .chunked pieces _ _ _ =>
      r.ChunkedBare ∧ ReadChunks pieces ∨ ¬ r.ChunkedBare ∧ r.ReadWhole
  | _ => r.ReadWhole

/-- No chunk has an extension. -/
def Unextended : Prop :=
  match r.body with
  | .chunked pieces _ _ _ => ∀ piece ∈ pieces, piece.2.text = []
  | _ => True

/-- The code sees that the body comes in chunks. -/
def SeesChunks : Prop :=
  r.toHead.started.noteChunks.bIsChunked = true

theorem seesChunks_iff : r.SeesChunks ↔
    r.toHead.started.checkHeader (ascii "Transfer-Encoding")
      (ascii "chunked") = true := by
  rw [SeesChunks, HttpResponse.noteChunks_eq]
  split
  · next sees => exact iff_of_true rfl sees
  · next misses => exact iff_of_false Bool.false_ne_true misses

theorem not_seesChunks
    (unnamed : ∀ field ∈ r.fields,
      ¬ field.Named (ascii "Transfer-Encoding")) : ¬ r.SeesChunks := by
  have headers : r.toHead.started.http.headers = inserted [] r.fields := rfl
  rw [seesChunks_iff, HttpResponse.checkHeader, HttpRequest.checkHeader,
    findHeader_none headers (by decide) unnamed]
  exact Bool.false_ne_true

theorem named_apart {field : Field}
    (named : field.Named (ascii "Content-Length")) :
    ¬ field.Named (ascii "Transfer-Encoding") := by
  intro named'
  have lengths := congrArg List.length (named.symm.trans named')
  exact absurd lengths (by decide)

/-- The word `chunked` has to be all of the value. -/
theorem seesChunks_chunked {word : List UInt8 → Prop}
    (only : Only r.fields (ascii "Transfer-Encoding") word) :
    r.SeesChunks ↔ r.ChunkedBare := by
  have headers : r.toHead.started.http.headers = inserted [] r.fields := rfl
  obtain ⟨before, field, behind, fields, named, _, neutral, neutral'⟩ := only
  have alone : ∀ other ∈ r.fields,
      other.Named (ascii "Transfer-Encoding") → other = field := by
    intro other member named'
    rw [fields] at member
    rcases List.mem_append.mp member with front | back
    · exact absurd named' (neutral other front).2
    · rcases List.mem_cons.mp back with same | back
      · exact same
      · exact absurd named' (neutral' other back).2
  have listed : field ∈ r.fields := by
    rw [fields]
    simp
  have nonzero : (0 : UInt8) ∉ field.value.dropWhile (· = 32) := by
    intro zero
    have member := (List.dropWhile_sublist _).subset zero
    exact ne_of_class (field.text _ member) (by decide) rfl
  have lower : (ascii "chunked").map tolower = ascii "chunked" := by
    decide +kernel
  rw [seesChunks_iff, HttpResponse.checkHeader, HttpRequest.checkHeader,
    findHeader_only headers (by decide) listed named alone, decide_eq_true_eq,
    Field.header, caseKey_eq_iff nonzero (by decide), lower, ChunkedBare]
  constructor
  · intro chunked other member named'
    rw [alone other member named']
    exact chunked
  · intro bare
    exact bare field listed named

theorem agreesWith_iff (other : ¬ r.Skipped) (lone : Lone r.fields)
    (unseen : ¬ r.SeesChunks) :
    r.toHead.started.noteChunks.AgreesWith r.body.bytes ↔ r.ReadWhole := by
  have note : r.toHead.started.noteChunks =
      { r.toHead.started with bIsChunked := false } := by
    rw [HttpResponse.noteChunks_eq, if_neg (mt r.seesChunks_iff.mpr unseen)]
  have canonical := @HttpResponse.setContentLength_zero_iff
    r.toHead.started.noteChunks r.fields (by rw [note]; rfl) lone
  have announced : r.toHead.started.noteChunks.iTmpContentLength =
      r.announced := by
    rw [note]
    rfl
  have status : r.toHead.started.noteChunks.status = r.status := by
    rw [note, ← status_eq]
  have final : r.toHead.started.noteChunks.status = 304 ∨
      r.toHead.started.noteChunks.status = 302 ↔ r.status = 302 := by
    have modified : r.status ≠ 304 := fun same => other (.inr (.inl same))
    rw [status]
    omega
  rw [HttpResponse.AgreesWith, ReadWhole, announced, final, canonical]

/-- What the fields say, where the body is looked at. -/
theorem delimited_cases (other : ¬ r.Skipped) : Lone r.fields ∧
    ((∃ pieces zeros extension trailer,
        r.body = .chunked pieces zeros extension trailer ∧
          (r.SeesChunks ↔ r.ChunkedBare)) ∨
      (∀ pieces zeros extension trailer,
        r.body ≠ .chunked pieces zeros extension trailer) ∧
        ¬ r.SeesChunks) := by
  have delimited := r.delimited
  cases body : r.body with
  | none =>
      rw [body] at delimited
      have unmodified : digits 10 0 r.code ≠ 304 := fun same =>
        other (.inr (.inl same))
      have neutral := (delimited.resolve_left unmodified).1
      refine ⟨.of_neutral neutral, .inr ⟨by simp, ?_⟩⟩
      exact r.not_seesChunks fun field member => (neutral field member).2
  | sized content =>
      rw [body] at delimited
      obtain ⟨_, before, field, behind, fields, named, _, neutral, neutral'⟩ :=
        delimited
      rw [fields]
      refine ⟨.of_neutral_but_one neutral neutral', .inr ⟨by simp, ?_⟩⟩
      apply r.not_seesChunks
      intro next member
      rw [fields] at member
      rcases List.mem_append.mp member with front | back
      · exact (neutral next front).2
      · rcases List.mem_cons.mp back with rfl | back
        · exact named_apart named
        · exact (neutral' next back).2
  | chunked pieces zeros extension trailer =>
      rw [body] at delimited
      have only := delimited.2
      have sees := r.seesChunks_chunked only
      obtain ⟨before, field, behind, fields, _, _, neutral, neutral'⟩ := only
      rw [fields]
      exact ⟨.of_neutral_but_one neutral neutral',
        .inl ⟨pieces, zeros, extension, trailer, rfl, sees⟩⟩

/-- Both decoders take `r` for complete and make the same of it, however the
buffer divides it. -/
def Agrees (garbage : Garbage) : Prop :=
  ∀ net : NetWorkBuffer, net.Refines r.bytes → AgreesOn garbage net r.bytes

/-- The condition for that. -/
def Agreeable : Prop := r.bytes.length < 2 ^ 31 ∧ (r.Skipped ∨ r.Readable)

variable {r} {garbage : Garbage} {net : NetWorkBuffer}

theorem agreesOn_whole (refines : net.Refines r.bytes)
    (short : r.bytes.length < 2 ^ 31) (other : ¬ r.Skipped)
    (unseen : ¬ r.SeesChunks) :
    AgreesOn garbage net r.bytes ↔ r.ReadWhole := by
  rw [← r.agreesWith_iff other (r.delimited_cases other).1 unseen]
  rw [bytes_eq] at refines short ⊢
  exact Head.agreesOn_content garbage refines short
    (mt r.bodiless_iff.mp other) (Bool.eq_false_iff.mpr unseen)

theorem agreesOn_chunked {pieces : List Piece} {zeros : Nat}
    {extension : Extension} {trailer : List Field}
    (refines : net.Refines r.bytes) (short : r.bytes.length < 2 ^ 31)
    (other : ¬ r.Skipped) (seen : r.SeesChunks)
    (body : r.body = .chunked pieces zeros extension trailer)
    (bare : ∀ piece ∈ pieces, piece.2.text = []) :
    AgreesOn garbage net r.bytes ↔ ∀ piece ∈ pieces, 0 ∉ piece.1.data := by
  have chunks : r.body.bytes = pieces.flatMap Piece.bytes ++
      (lastLine zeros extension ++ (joined (trailer.map Field.line) ++ crlf)) :=
    by rw [body, ResponseBody.bytes]
  rw [bytes_eq] at refines short ⊢
  exact Head.agreesOn_chunks garbage chunks refines short
    (mt r.bodiless_iff.mp other) seen bare

theorem agreesOn_skipped (refines : net.Refines r.bytes)
    (short : r.bytes.length < 2 ^ 31) (skipped : r.Skipped) :
    AgreesOn garbage net r.bytes := by
  rw [bytes_eq] at refines short ⊢
  exact Head.agreesOn_bodiless garbage refines short
    (r.bodiless_iff.mpr skipped)

/-- Without extensions the condition is exact. -/
theorem agreesOn_iff (refines : net.Refines r.bytes)
    (short : r.bytes.length < 2 ^ 31) (unextended : r.Unextended) :
    AgreesOn garbage net r.bytes ↔ r.Skipped ∨ r.Readable := by
  by_cases skipped : r.Skipped
  · exact iff_of_true (agreesOn_skipped refines short skipped) (.inl skipped)
  · rw [or_iff_right skipped]
    rcases (r.delimited_cases skipped).2 with
      ⟨pieces, zeros, extension, trailer, body, sees⟩ | ⟨others, unseen⟩
    · simp only [Unextended, body] at unextended
      by_cases seen : r.SeesChunks
      · rw [agreesOn_chunked refines short skipped seen body unextended]
        simp only [Readable, body, sees.mp seen, not_true_eq_false, true_and,
          false_and, or_false, ReadChunks]
        constructor
        · intro absent piece member
          exact ⟨unextended piece member, absent piece member⟩
        · intro readable piece member
          exact (readable piece member).2
      · rw [agreesOn_whole refines short skipped seen]
        simp only [Readable, body, mt sees.mpr seen, not_false_eq_true,
          true_and, false_and, false_or]
    · rw [agreesOn_whole refines short skipped unseen]
      cases body : r.body with
      | chunked pieces zeros extension trailer =>
          exact absurd body (others _ _ _ _)
      | none => simp only [Readable, body]
      | sized content => simp only [Readable, body]

/-- With extensions it is enough. -/
theorem Readable.agreesOn (readable : r.Readable)
    (refines : net.Refines r.bytes) (short : r.bytes.length < 2 ^ 31)
    (other : ¬ r.Skipped) : AgreesOn garbage net r.bytes := by
  rcases (r.delimited_cases other).2 with
    ⟨pieces, zeros, extension, trailer, body, sees⟩ | ⟨others, unseen⟩
  · simp only [Readable, body] at readable
    rcases readable with ⟨bare, chunks⟩ | ⟨notBare, whole⟩
    · exact (agreesOn_chunked refines short other (sees.mpr bare) body
        fun piece member => (chunks piece member).1).mpr
          fun piece member => (chunks piece member).2
    · exact (agreesOn_whole refines short other
        (mt sees.mp notBare)).mpr whole
  · apply (agreesOn_whole refines short other unseen).mpr
    cases body : r.body with
    | chunked pieces zeros extension trailer =>
        exact absurd body (others _ _ _ _)
    | none => simpa only [Readable, body] using readable
    | sized content => simpa only [Readable, body] using readable

theorem Agreeable.agrees (agreeable : r.Agreeable) : r.Agrees garbage := by
  obtain ⟨short, readable⟩ := agreeable
  intro net refines
  by_cases skipped : r.Skipped
  · exact agreesOn_skipped refines short skipped
  · exact (readable.resolve_left skipped).agreesOn refines short skipped

theorem Agrees.agreeable (agrees : r.Agrees garbage)
    (bounded : r.bytes.length < 2 ^ 32) (unextended : r.Unextended) :
    r.Agreeable := by
  obtain ⟨net, refines, _⟩ := NetWorkBuffer.exists_refines r.bytes
  have agreed := agrees net refines
  by_cases short : r.bytes.length < 2 ^ 31
  · exact ⟨short, (agreesOn_iff refines short unextended).mp agreed⟩
  · refine absurd agreed (@not_agreesOn garbage net r.bytes 0 ?_)
    intro turns _
    exact ⟨_, decode_long (Nat.not_lt.mp short) bounded⟩

end Response

end TarsCpp.Http
