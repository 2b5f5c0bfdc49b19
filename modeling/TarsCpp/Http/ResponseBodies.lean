import TarsCpp.Http.Arrival
import TarsCpp.Http.ResponseHead

/-!
# The body of a response, decoded in two ways

The chunks of a body, read from a string that ends at the first zero byte, and
read from a buffer that knows its length.
-/

namespace TarsCpp.Http

open CString NetworkBuffer

theorem Extension.ends (extension : Extension) :
    ∀ c ∈ extension.text.head?, digitValue c = none := by
  intro c member
  rcases extension.opens c member with rfl | blank
  · rfl
  · exact digitValue_blank blank

theorem Extension.not_mem {c : UInt8} (extension : Extension)
    (foreign : isFieldByte c = false) : c ∉ extension.text := fun member =>
  ne_of_class (extension.plain c member) foreign rfl

theorem Chunk.not_mem_size {c : UInt8} (chunk : Chunk)
    (foreign : isHex c = false) : c ∉ chunk.size := fun member =>
  ne_of_class (chunk.hex c member) foreign rfl

theorem isHex_lastChunk (zeros : Nat) : ∀ c ∈ lastChunk zeros, isHex c := by
  intro c member
  rw [List.eq_of_mem_replicate member]
  rfl

theorem chunkSize_lastLine (zeros : Nat) (extension : Extension) :
    chunkSize (lastChunk zeros ++ extension.text) = 0 := by
  have zero : digits 16 0 (lastChunk zeros) = 0 := digits_zeros _
  have nonempty : lastChunk zeros ≠ [] := List.cons_ne_nil _ _
  rw [chunkSize_line nonempty (isHex_lastChunk zeros) extension.ends
    (by omega), zero]
  rfl

namespace Piece

variable (piece : Piece)

theorem length_bytes : piece.bytes.length =
    piece.1.size.length + piece.2.text.length + 2 + piece.1.data.length +
      2 := by
  simp [Piece.bytes, crlf]
  omega

theorem bytes_split (rest : List UInt8) : piece.bytes ++ rest =
    (piece.1.size ++ piece.2.text) ++ (crlf ++ (piece.1.data ++
      (crlf ++ rest))) := by
  simp [Piece.bytes]

/-- Nothing but the data can contain a zero byte. -/
theorem zero_mem_bytes : 0 ∈ piece.bytes ↔ 0 ∈ piece.1.data := by
  have size := piece.1.not_mem_size (by decide : isHex 0 = false)
  have text := piece.2.not_mem (by decide : isFieldByte 0 = false)
  simp [Piece.bytes, crlf, size, text]

theorem first_line (rest : List UInt8) :
    First crlf (piece.bytes ++ rest)
      (piece.1.size ++ piece.2.text).length := by
  rw [bytes_split]
  apply first_of_line
  rw [List.mem_append, not_or]
  exact ⟨piece.1.not_mem_size (by decide), piece.2.not_mem (by decide)⟩

theorem chunkSize_line (short : piece.1.data.length < 2 ^ 31) :
    chunkSize (piece.1.size ++ piece.2.text) = piece.1.data.length := by
  have counts := piece.1.counts
  rw [Http.chunkSize_line piece.1.size_nonempty piece.1.hex piece.2.ends
    (by omega), counts]

end Piece

theorem first_lastLine (zeros : Nat) (extension : Extension)
    (rest : List UInt8) : First crlf (lastLine zeros extension ++ rest)
      (lastChunk zeros ++ extension.text).length := by
  have split : lastLine zeros extension ++ rest =
      (lastChunk zeros ++ extension.text) ++ (crlf ++ rest) := by
    simp [lastLine]
  rw [split]
  apply first_of_line
  rw [List.mem_append, not_or]
  refine ⟨?_, extension.not_mem (by decide)⟩
  intro member
  exact ne_of_class (isHex_lastChunk _ _ member) (by decide) rfl

section Strings

variable {text rest : List UInt8}

/-- The string is cut within a text only at a zero byte of it. -/
theorem length_takeWhile_lt_iff :
    ((text ++ rest).takeWhile (· ≠ 0)).length < text.length ↔ 0 ∈ text := by
  induction text with
  | nil => simp
  | cons c text ih =>
      by_cases zero : c = 0
      · simp [zero]
      · rw [List.cons_append,
          List.takeWhile_cons_of_pos (by simpa using zero)]
        simp only [List.length_cons, Nat.add_lt_add_iff_right, ih,
          List.mem_cons, Ne.symm zero, false_or]

theorem takeWhile_eq_self_iff :
    text.takeWhile (· ≠ 0) = text ↔ 0 ∉ text := by
  rw [List.takeWhile_eq_self_iff]
  constructor
  · intro all zero
    simpa using all 0 zero
  · intro absent c member
    simpa using fun zero : c = 0 => absent (zero ▸ member)

end Strings

namespace HttpResponse

variable {response : HttpResponse} {pHeader rest : List UInt8}
  {iLength sBuffer turns : Nat} {piece : Piece} {pieces : List Piece}

@[simp] theorem addContent_nil : response.addContent [] = response := by
  simp [addContent]

theorem addContent_append (first second : List UInt8) :
    (response.addContent first).addContent second =
      response.addContent (first ++ second) := by
  simp [addContent, Nat.add_assoc]

/-- A line within the string is found. -/
theorem strnstr_line {text : List UInt8} {pos : Nat}
    (memory : pHeader.drop sBuffer = text ++ [0])
    (whole : sBuffer + text.length = iLength) (short : iLength < 2 ^ 31)
    (first : First crlf text pos) :
    strnstr (pHeader.drop sBuffer) crlf (toInt (iLength - sBuffer)) =
      some (some pos) := by
  have window : toInt ((iLength : Int) - sBuffer) = text.length := by
    rw [toInt_eq (by omega) (by omega)]
    omega
  rw [window, memory, strnstr_eq (by decide) (by simp), Int.toNat_natCast,
    List.take_left, find_eq_some_iff.mpr first]

theorem decodeAllChunks_piece
    (memory : pHeader.drop sBuffer = piece.bytes ++ rest ++ [0])
    (whole : sBuffer + (piece.bytes ++ rest).length = iLength)
    (short : iLength < 2 ^ 31) :
    decodeAllChunks pHeader iLength (turns + 1) sBuffer response =
      if 0 ∈ piece.1.data then .ok (some (false, response))
      else decodeAllChunks pHeader iLength turns
        (sBuffer + piece.bytes.length) (response.addContent piece.1.data) := by
  have length := piece.length_bytes
  rw [List.length_append] at whole
  have found := strnstr_line memory (by rw [List.length_append]; omega) short
    (piece.first_line rest)
  have line : (pHeader.drop sBuffer).take
      (piece.1.size ++ piece.2.text).length = piece.1.size ++ piece.2.text := by
    rw [memory, List.append_assoc, Piece.bytes_split, List.take_left]
  have size := piece.chunkSize_line (by omega)
  have positive := List.length_pos_of_ne_nil piece.1.nonempty
  have seen : CString.string (pHeader.drop sBuffer) =
      some ((piece.bytes ++ rest).takeWhile (· ≠ 0)) := by
    rw [memory]
    exact string_ended _ []
  have places : (piece.1.size ++ piece.2.text).length + 2 +
      (piece.1.data.length : Int).toNat + 2 = piece.bytes.length := by
    rw [length, List.length_append, Int.toNat_natCast]
  have loaded : load (some pHeader)
      (sBuffer + (piece.1.size ++ piece.2.text).length + 2)
      (piece.1.data.length : Int).toNat = .ok piece.1.data := by
    have front : (pHeader.take sBuffer ++ (piece.1.size ++ piece.2.text ++
        crlf)).length =
        sBuffer + (piece.1.size ++ piece.2.text).length + 2 := by
      have room : sBuffer ≤ pHeader.length := by
        have lengths := congrArg List.length memory
        simp only [List.length_drop, List.length_append] at lengths
        omega
      rw [List.length_append, List.length_take_of_le room,
        List.length_append]
      rfl
    have split : pHeader =
        (pHeader.take sBuffer ++ (piece.1.size ++ piece.2.text ++ crlf)) ++
          (piece.1.data ++ (crlf ++ rest ++ [0])) := by
      have behind := memory
      rw [List.append_assoc, Piece.bytes_split] at behind
      calc
        pHeader = pHeader.take sBuffer ++ pHeader.drop sBuffer :=
          (List.take_append_drop _ _).symm
        _ = _ := by
          rw [behind]
          simp only [List.append_assoc]
    have middle := load_middle
      (pHeader.take sBuffer ++ (piece.1.size ++ piece.2.text ++ crlf))
      piece.1.data (crlf ++ rest ++ [0])
    rwa [← split, front] at middle
  rw [decodeAllChunks, found]
  simp only [access_some, ok_bind, line, size]
  rw [if_neg (by omega)]
  simp only [seen, access_some, ok_bind, places, length_takeWhile_lt_iff,
    piece.zero_mem_bytes, loaded, pure_ok]

theorem decodeAllChunks_last {zeros : Nat} {extension : Extension}
    (memory : pHeader.drop sBuffer = lastLine zeros extension ++ rest ++ [0])
    (whole : sBuffer + (lastLine zeros extension ++ rest).length = iLength)
    (short : iLength < 2 ^ 31) :
    decodeAllChunks pHeader iLength (turns + 1) sBuffer response =
      .ok (some (true,
        response.setContentLength response.iRecvContentLength)) := by
  have found := strnstr_line memory whole short
    (first_lastLine zeros extension rest)
  have line : (pHeader.drop sBuffer).take
      (lastChunk zeros ++ extension.text).length =
        lastChunk zeros ++ extension.text := by
    rw [memory, lastLine, ← List.append_assoc, List.append_assoc,
      List.append_assoc, List.take_left]
  rw [decodeAllChunks, found]
  simp only [access_some, ok_bind, line, chunkSize_lastLine]
  rfl

/-- All data arrive, unless there is a zero byte in them. -/
theorem decodeAllChunks_pieces {zeros : Nat} {extension : Extension}
    (memory : pHeader.drop sBuffer =
      pieces.flatMap Piece.bytes ++ (lastLine zeros extension ++ rest) ++ [0])
    (whole : sBuffer + (pieces.flatMap Piece.bytes ++
      (lastLine zeros extension ++ rest)).length = iLength)
    (short : iLength < 2 ^ 31) (enough : pieces.length < turns) :
    ∃ decoded, decodeAllChunks pHeader iLength turns sBuffer response =
        .ok (some decoded) ∧
      if ∀ piece ∈ pieces, 0 ∉ piece.1.data then
        decoded = (true, (response.addContent (pieces.flatMap fun piece =>
          piece.1.data)).setContentLength (response.addContent
            (pieces.flatMap fun piece => piece.1.data)).iRecvContentLength)
      else decoded.1 = false := by
  induction pieces generalizing sBuffer response turns with
  | nil =>
      obtain ⟨turns, rfl⟩ : ∃ fewer, turns = fewer + 1 :=
        ⟨turns - 1, by simp at enough; omega⟩
      rw [List.flatMap_nil, List.nil_append] at memory whole
      refine ⟨_, decodeAllChunks_last memory whole short, ?_⟩
      rw [if_pos (by simp), List.flatMap_nil, addContent_nil]
  | cons piece pieces ih =>
      obtain ⟨turns, rfl⟩ : ∃ fewer, turns = fewer + 1 :=
        ⟨turns - 1, by simp at enough; omega⟩
      rw [List.length_cons] at enough
      rw [List.flatMap_cons, List.append_assoc piece.bytes] at memory whole
      rw [decodeAllChunks_piece memory whole short]
      by_cases zero : 0 ∈ piece.1.data
      · refine ⟨_, if_pos zero, ?_⟩
        rw [if_neg fun all => all piece List.mem_cons_self zero]
      · have behind : pHeader.drop (sBuffer + piece.bytes.length) =
            pieces.flatMap Piece.bytes ++
              (lastLine zeros extension ++ rest) ++ [0] := by
          rw [← List.drop_drop, memory, List.append_assoc piece.bytes,
            List.drop_left]
        obtain ⟨decoded, run, described⟩ :=
          @ih (response.addContent piece.1.data)
            (sBuffer + piece.bytes.length) turns behind
            (by simp only [List.length_append] at whole ⊢; omega) (by omega)
        refine ⟨decoded, by rw [if_neg zero, run], ?_⟩
        simp only [List.forall_mem_cons, zero, not_false_eq_true, true_and,
          List.flatMap_cons, ← addContent_append]
        exact described

end HttpResponse

end TarsCpp.Http

namespace TarsCpp.NetworkBuffer

/-- Behind the queue the block may go on. -/
theorem Holds.memory {buff : Buffer} {queue : List UInt8}
    (holds : Holds buff queue) : ∃ spare, buff.memory = queue ++ spare := by
  obtain ⟨consumed, spare, rfl⟩ := holds
  refine ⟨spare, ?_⟩
  rw [Buffer.memory, parts_block, parts_readIdx]
  exact List.drop_left

theorem Represents.holds_of_ne_nil {buff : Buffer} {queue : List UInt8}
    (represents : Represents buff queue) (nonempty : queue ≠ []) :
    Holds buff queue := by
  cases represents with
  | null capacity => exact absurd rfl nonempty
  | parts consumed queue spare => exact ⟨consumed, spare, rfl⟩

end TarsCpp.NetworkBuffer

namespace TarsCpp.Http

open CString NetworkBuffer

theorem countWhile_stops {p : UInt8 → Bool} {c : UInt8} {word : List UInt8}
    (rest : List UInt8) (all : ∀ d ∈ word, p d) (other : p c = false) :
    countWhile p (word ++ c :: rest) = some word.length := by
  induction word with
  | nil => simp [countWhile, other]
  | cons d word ih =>
      rw [List.cons_append, countWhile, if_pos (all d List.mem_cons_self),
        ih fun e member => all e (List.mem_cons_of_mem _ member)]
      rfl

theorem isHexDigit_of_isHex {c : UInt8} (hex : isHex c) : isHexDigit c := by
  obtain ⟨d, value, small⟩ := digitValue_hex hex
  simp [isHexDigit, value, small]

theorem isHexDigit_none {c : UInt8} (none : digitValue c = none) :
    isHexDigit c = false := by
  simp [isHexDigit, none]

/-- The number ends at the first byte that is no digit. -/
theorem strtolEnd_line {c : UInt8} {size : List UInt8} (rest : List UInt8)
    (nonempty : size ≠ []) (hex : ∀ d ∈ size, isHex d)
    (ends : digitValue c = none) :
    strtolEnd (size ++ c :: rest) = some (strtol 16 size, size.length) := by
  obtain ⟨first, tail, rfl⟩ := List.exists_cons_of_ne_nil nonempty
  have digit := hex first List.mem_cons_self
  have spaces : countWhile isspace (first :: tail ++ c :: rest) = some 0 := by
    rw [List.cons_append, countWhile, if_neg (by simp [isHex_isspace digit])]
  have unsigned : isSign first = false := by
    have minus : first ≠ 45 := ne_of_class digit (by decide)
    have plus : first ≠ 43 := ne_of_class digit (by decide)
    simp [isSign, minus, plus]
  have other : ∃ d more, tail ++ c :: rest = d :: more ∧ tolower d ≠ 120 := by
    cases tail with
    | nil =>
        refine ⟨c, rest, rfl, ?_⟩
        intro lower
        unfold tolower at lower
        simp only [digitValue] at ends
        grind
    | cons d tail => exact ⟨d, _, rfl, tolower_hex (hex d (by simp))⟩
  have unprefixed : hexPrefix (first :: tail ++ c :: rest) = some 0 := by
    obtain ⟨d, more, same, lower⟩ := other
    rw [List.cons_append, same, hexPrefix]
    simp [lower]
  have count := countWhile_stops rest
    (fun d member => isHexDigit_of_isHex (hex d member)) (isHexDigit_none ends)
  have sign : (first :: tail ++ c :: rest)[0]? = some first := rfl
  rw [strtolEnd, spaces, Option.bind_eq_bind, Option.bind_some, sign]
  simp only [Option.bind_eq_bind, Option.bind_some, unsigned,
    Bool.false_eq_true, if_false, List.drop_zero, unprefixed, count,
    Nat.zero_add]
  rw [if_neg (by simp), List.take_left]

namespace HttpResponse

variable {response : HttpResponse} {data : Buffer} {rest : List UInt8}
  {turns : Nat} {piece : Piece} {pieces : List Piece}

/-- A chunk without an extension is taken out. -/
theorem decodeChunks_piece (bare : piece.2.text = [])
    (holds : Holds data (piece.bytes ++ rest))
    (short : (piece.bytes ++ rest).length < 2 ^ 31) :
    ∃ data', Holds data' rest ∧
      decodeChunks (turns + 1) response data =
        decodeChunks turns (response.addContent piece.1.data) data' := by
  have lengthBytes := piece.length_bytes
  rw [bare, List.length_nil, Nat.add_zero] at lengthBytes
  have total : (piece.bytes ++ rest).length =
      piece.bytes.length + rest.length := List.length_append
  have positive := List.length_pos_of_ne_nil piece.1.nonempty
  have split : piece.bytes ++ rest =
      piece.1.size ++ 13 :: 10 :: (piece.1.data ++ (crlf ++ rest)) := by
    rw [Piece.bytes_split, bare, List.append_nil]
    rfl
  obtain ⟨spare, memory⟩ := holds.memory
  have line : strtolEnd data.memory =
      some (strtol 16 piece.1.size, piece.1.size.length) := by
    rw [memory, split, List.append_assoc, List.cons_append]
    exact strtolEnd_line _ piece.1.size_nonempty piece.1.hex (by decide)
  have size : toInt (strtol 16 piece.1.size) = piece.1.data.length := by
    have read := piece.chunkSize_line (by omega)
    rwa [bare, List.append_nil] at read
  have found : find crlf (piece.bytes ++ rest) = some piece.1.size.length := by
    have first := piece.first_line rest
    rw [bare, List.append_nil] at first
    exact find_eq_some_iff.mpr first
  have sizes : piece.1.size.length + 2 < 2 ^ 32 ∧
      piece.1.data.length + 2 < 2 ^ 32 := by omega
  have toData : (UInt32.ofNat (piece.1.size.length + 2)).toNat =
      piece.1.size.length + 2 := UInt32.toNat_ofNat_of_lt' sizes.1
  have behindData : (UInt32.ofInt ((piece.1.data.length : Int) + 2)).toNat =
      piece.1.data.length + 2 := by
    have count : (((piece.1.data.length : Int) + 2) % 2 ^ 32).toNat =
        piece.1.data.length + 2 := by omega
    rw [UInt32.ofInt, count]
    exact UInt32.toNat_ofNat_of_lt' sizes.2
  obtain ⟨opened, opens, holds'⟩ := @addReadIdx_holds _ _
    (.ofNat (piece.1.size.length + 2)) holds (by omega)
  have remaining : (piece.bytes ++ rest).drop (piece.1.size.length + 2) =
      piece.1.data ++ (crlf ++ rest) := by
    rw [split, List.drop_length_add_append]
    rfl
  rw [toData, remaining] at holds'
  have loaded : load opened.block opened.readIdx piece.1.data.length =
      .ok piece.1.data := by
    have front := holds'.load piece.1.data.length
    rwa [holds'.length_eq, List.length_append,
      Nat.min_eq_left (Nat.le_add_right _ _), List.take_left] at front
  obtain ⟨next, advance, holds''⟩ := @addReadIdx_holds _ _
    (.ofInt ((piece.1.data.length : Int) + 2)) holds'
    (by simp only [behindData, List.length_append, crlf, List.length_cons]
        omega)
  have left : (piece.1.data ++ (crlf ++ rest)).drop
      (piece.1.data.length + 2) = rest := by
    rw [List.drop_length_add_append]
    rfl
  rw [behindData, left] at holds''
  refine ⟨next, holds'', ?_⟩
  rw [decodeChunks, holds.represents.content_eq, ok_bind, found]
  simp only [line, access_some, ok_bind, size, Int.toNat_natCast]
  rw [if_neg (by omega), holds.length_eq, if_neg (by omega), opens, ok_bind,
    loaded, ok_bind, advance, ok_bind]

theorem decodeChunks_last {zeros : Nat} {extension : Extension}
    (holds : Holds data (lastLine zeros extension ++ rest)) :
    decodeChunks (turns + 1) response data =
      .ok (some (true,
        response.setContentLength response.iRecvContentLength, data.clear)) := by
  obtain ⟨spare, memory⟩ := holds.memory
  obtain ⟨c, more, same, ends⟩ : ∃ c more,
      extension.text ++ (crlf ++ (rest ++ spare)) = c :: more ∧
        digitValue c = none := by
    cases text : extension.text with
    | nil => exact ⟨13, 10 :: (rest ++ spare), rfl, rfl⟩
    | cons c tail =>
        exact ⟨c, _, rfl, extension.ends c (by rw [text]; rfl)⟩
  have line : strtolEnd data.memory =
      some (strtol 16 (lastChunk zeros), (lastChunk zeros).length) := by
    have split : lastLine zeros extension ++ rest ++ spare =
        lastChunk zeros ++ c :: more := by
      rw [← same]
      simp [lastLine]
    rw [memory, split]
    exact strtolEnd_line more (List.cons_ne_nil _ _) (isHex_lastChunk zeros) ends
  have size : toInt (strtol 16 (lastChunk zeros)) = 0 := by
    have zero : digits 16 0 (lastChunk zeros) = 0 := digits_zeros _
    have nonempty : lastChunk zeros ≠ [] := List.cons_ne_nil _ _
    have read := chunkSize_hex nonempty (isHex_lastChunk zeros) (by omega)
    rwa [zero] at read
  rw [decodeChunks, holds.represents.content_eq, ok_bind,
    find_eq_some_iff.mpr (first_lastLine zeros extension rest)]
  simp only [line, access_some, ok_bind, size]
  rfl

theorem decodeChunks_pieces {zeros : Nat} {extension : Extension}
    (bare : ∀ piece ∈ pieces, piece.2.text = [])
    (holds : Holds data (pieces.flatMap Piece.bytes ++
      (lastLine zeros extension ++ rest)))
    (short : (pieces.flatMap Piece.bytes ++
      (lastLine zeros extension ++ rest)).length < 2 ^ 31)
    (enough : pieces.length < turns) :
    ∃ data', decodeChunks turns response data =
        .ok (some (true, (response.addContent (pieces.flatMap fun piece =>
          piece.1.data)).setContentLength (response.addContent
            (pieces.flatMap fun piece => piece.1.data)).iRecvContentLength,
          data')) ∧ data'.length = 0 := by
  induction pieces generalizing data response turns with
  | nil =>
      obtain ⟨turns, rfl⟩ : ∃ fewer, turns = fewer + 1 :=
        ⟨turns - 1, by simp at enough; omega⟩
      rw [List.flatMap_nil, List.nil_append] at holds
      refine ⟨data.clear, ?_, rfl⟩
      rw [decodeChunks_last holds, List.flatMap_nil, addContent_nil]
  | cons piece pieces ih =>
      obtain ⟨turns, rfl⟩ : ∃ fewer, turns = fewer + 1 :=
        ⟨turns - 1, by simp at enough; omega⟩
      rw [List.length_cons] at enough
      rw [List.forall_mem_cons] at bare
      rw [List.flatMap_cons, List.append_assoc] at holds short
      obtain ⟨next, holds', turn⟩ :=
        @decodeChunks_piece response data _ turns piece bare.1 holds short
      rw [List.length_append] at short
      obtain ⟨last, run, cleared⟩ := @ih (response.addContent piece.1.data)
        next turns bare.2 holds' (by omega) (by omega)
      refine ⟨last, ?_, cleared⟩
      rw [turn, run, addContent_append, List.flatMap_cons]

end HttpResponse

end TarsCpp.Http
