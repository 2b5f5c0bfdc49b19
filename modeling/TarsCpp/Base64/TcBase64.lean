import TarsCpp.CString
import TarsCpp.DoubleRounding

/-!
# `TC_Base64`

`char` is signed.  The encoder writes its output from the first byte of its
buffer on, one behind the other, and so does the decoder, so that the writes
stay within a buffer exactly if what is written, with the NUL, is not longer.

What the decoder looks up and what it writes follows from the text alone: a
turn of its loop deals with one piece of the text, unless it looks up a byte
that is no index of the table.
-/

namespace TarsCpp.Base64

open CString DoubleRounding

inductive Failure
  /-- The size of the buffer is no `int`. -/
  | overflow
  | outsideSource
  | outsideTable
  | outsideBuffer
  /-- The loop goes on. -/
  | endless
  /-- A `string` cannot be as long as this. -/
  | length_error
deriving DecidableEq

def EnBase64Tab : List UInt8 :=
  ascii "ABCDEFGHIJKLMNOPQRSTUVWXYZabcdefghijklmnopqrstuvwxyz0123456789+/"

def encoded (value : Nat) : UInt8 := EnBase64Tab.getD value 0

/-- The loop over three bytes at a time, and what is left behind it. -/
def encodeFrom (bChangeLine : Bool) : Nat → List UInt8 → List UInt8
  | nLineLen, c1 :: c2 :: c3 :: pSrc =>
      let group :=
        [encoded (c1.toNat >>> 2),
         encoded ((c1.toNat <<< 4 ||| c2.toNat >>> 4) &&& 0x3f),
         encoded ((c2.toNat <<< 2 ||| c3.toNat >>> 6) &&& 0x3f),
         encoded (c3.toNat &&& 0x3f)]
      if bChangeLine && nLineLen + 4 > 72 then
        group ++ 13 :: 10 :: encodeFrom bChangeLine 0 pSrc
      else group ++ encodeFrom bChangeLine (nLineLen + 4) pSrc
  | _, [c1] =>
      [encoded ((c1.toNat &&& 0xfc) >>> 2),
       encoded ((c1.toNat &&& 0x03) <<< 4), 61, 61]
  | _, [c1, c2] =>
      [encoded ((c1.toNat &&& 0xfc) >>> 2),
       encoded ((c1.toNat &&& 0x03) <<< 4 ||| (c2.toNat &&& 0xf0) >>> 4),
       encoded ((c2.toNat &&& 0x0f) <<< 2), 61]
  | _, [] => []

/-- `data.size() * 1.4` -/
def scaledSize (size : Nat) : ℚ :=
  toDouble (toDouble size * toDouble (7 / 5))

def encode (data : List UInt8) (bChangeLine : Bool) :
    Except Failure (List UInt8) :=
  if data.isEmpty then .ok []
  else
    let iBufSize := truncate (scaledSize data.length) + 6
    if iBufSize ≥ 2 ^ 31 then .error .overflow
    else
      let text := encodeFrom bChangeLine 0 data
      if (text.length + 1 : Int) > iBufSize then .error .outsideBuffer
      else .ok text

def DeBase64Tab : List Nat :=
  List.replicate 43 0 ++ [62, 0, 0, 0, 63] ++
    [52, 53, 54, 55, 56, 57, 58, 59, 60, 61] ++ List.replicate 7 0 ++
    [0, 1, 2, 3, 4, 5, 6, 7, 8, 9, 10, 11, 12,
     13, 14, 15, 16, 17, 18, 19, 20, 21, 22, 23, 24, 25] ++
    List.replicate 6 0 ++
    [26, 27, 28, 29, 30, 31, 32, 33, 34, 35, 36, 37, 38,
     39, 40, 41, 42, 43, 44, 45, 46, 47, 48, 49, 50, 51] ++
    List.replicate 133 0

def value (c : UInt8) : Nat := DeBase64Tab.getD c.toNat 0

/-- `DeBase64Tab[int(c)]` -/
def lookup (c : UInt8) : Except Failure Nat :=
  let index := c.toInt8.toInt
  if index < 0 then .error .outsideTable
  else .ok (DeBase64Tab.getD index.toNat 0)

structure State where
  i : Nat
  pSrc : Nat
  pDst : List UInt8

def read (data : List UInt8) (pSrc : Nat) : Except Failure UInt8 :=
  match data[pSrc]? with
  | some c => .ok c
  | none => .error .outsideSource

/-- The three bytes of a group. -/
def first (nValue : Nat) : UInt8 := UInt8.ofNat ((nValue &&& 0x00ff0000) >>> 16)
def second (nValue : Nat) : UInt8 := UInt8.ofNat ((nValue &&& 0x0000ff00) >>> 8)
def third (nValue : Nat) : UInt8 := UInt8.ofNat (nValue &&& 0x000000ff)

/-- The part of a turn behind the first two bytes of a group. -/
def turnThird (data : List UInt8) (nValue : Nat) (st : State) :
    Except Failure (Bool × State) := do
  let c3 ← read data st.pSrc
  if c3 = 61 then pure (false, st)
  else
    let v3 ← lookup c3
    let nValue := nValue + v3 <<< 6
    let st := ⟨st.i + 1, st.pSrc + 1, st.pDst ++ [second nValue]⟩
    if st.i ≥ data.length then pure (true, st)
    else
      let c4 ← read data st.pSrc
      if c4 = 61 then pure (false, st)
      else
        let v4 ← lookup c4
        let nValue := nValue + v4
        let st := ⟨st.i + 1, st.pSrc + 1, st.pDst ++ [third nValue]⟩
        pure (decide (st.i ≥ data.length), st)

/-- One turn of the loop, with whether it is the last one. -/
def turn (data : List UInt8) (st : State) : Except Failure (Bool × State) := do
  let c1 ← read data st.pSrc
  if c1 = 13 ∨ c1 = 10 then
    pure (false, { st with pSrc := st.pSrc + 1, i := st.i + 1 })
  else if st.i + 2 ≥ data.length then
    pure (true, st)
  else
    let v1 ← lookup c1
    let c2 ← read data (st.pSrc + 1)
    let v2 ← lookup c2
    let nValue := v1 <<< 18 + v2 <<< 12
    turnThird data nValue
      ⟨st.i + 2, st.pSrc + 2, st.pDst ++ [first nValue]⟩

/-- `while (i < nSrcLen)`, for a number of turns. -/
def loop (data : List UInt8) : Nat → State → Except Failure State
  | turns, st =>
      if st.i < data.length then
        match turns with
        | 0 => .error .endless
        | turns + 1 => do
            let (last, st) ← turn data st
            if last then pure st else loop data turns st
      else .ok st

def decode (data : List UInt8) : Except Failure (List UInt8) :=
  if data.isEmpty then .ok []
  else do
    let st ← loop data data.length ⟨0, 0, []⟩
    if st.pDst.length + 1 > data.length then .error .outsideBuffer
    else
      let nDstLen := toInt st.pDst.length
      let iDstLen := (nDstLen % 2 ^ 64).toNat
      if iDstLen > st.pDst.length then .error .length_error
      else .ok (st.pDst.take iDstLen)

/-- The bytes that are looked up in one turn, those that are written, and the
text behind. -/
structure Piece where
  consulted : List UInt8
  written : List UInt8
  rest : List UInt8

def pair (c1 c2 : UInt8) : Nat := value c1 <<< 18 + value c2 <<< 12

def triple (c1 c2 c3 : UInt8) : Nat := pair c1 c2 + value c3 <<< 6

def quadruple (c1 c2 c3 c4 : UInt8) : Nat := triple c1 c2 c3 + value c4

/-- The end of a group that has a third byte. -/
def fourth (c1 c2 c3 : UInt8) : List UInt8 → Piece
  | [] =>
      ⟨[c1, c2, c3], [first (pair c1 c2), second (triple c1 c2 c3)], []⟩
  | c4 :: later =>
      if c4 = 61 then
        ⟨[c1, c2, c3], [first (pair c1 c2), second (triple c1 c2 c3)],
          c4 :: later⟩
      else
        ⟨[c1, c2, c3, c4],
          [first (pair c1 c2), second (triple c1 c2 c3),
            third (quadruple c1 c2 c3 c4)], later⟩

/-- A group of up to four bytes.  An equals sign ends it, and is left for the
next one. -/
def group (c1 : UInt8) : List UInt8 → Option Piece
  | c2 :: c3 :: later =>
      if c3 = 61 then some ⟨[c1, c2], [first (pair c1 c2)], c3 :: later⟩
      else some (fourth c1 c2 c3 later)
  | _ => none

/-- What one turn deals with, if it is not the end. -/
def piece : List UInt8 → Option Piece
  | [] => none
  | c1 :: rest =>
      if c1 = 13 ∨ c1 = 10 then some ⟨[], [], rest⟩ else group c1 rest

/-- The pieces of a text, at most so many. -/
def pieces : Nat → List UInt8 → List Piece
  | 0, _ => []
  | turns + 1, text =>
      match piece text with
      | none => []
      | some piece => piece :: pieces turns piece.rest

/-- Each byte that is looked up is an index of the table. -/
def Piece.Low (piece : Piece) : Prop := ∀ c ∈ piece.consulted, c < 128

instance : DecidablePred Piece.Low := fun piece =>
  inferInstanceAs (Decidable (∀ c ∈ piece.consulted, c < 128))

theorem lookup_low {c : UInt8} (low : c < 128) : lookup c = .ok (value c) := by
  have small : c.toNat < 128 := low
  have index : c.toInt8.toInt = c.toNat :=
    BitVec.toInt_eq_toNat_of_lt (by
      change 2 * c.toNat < 2 ^ 8
      omega)
  rw [lookup, index]
  exact if_neg (by omega)

theorem lookup_high {c : UInt8} (high : ¬ c < 128) :
    lookup c = .error .outsideTable := by
  have large : ¬ c.toNat < 128 := high
  have negative : c.toInt8.toInt < 0 := by
    change c.toBitVec.toInt < 0
    rw [BitVec.toInt_neg_iff]
    change 2 ^ 8 ≤ 2 * c.toNat
    omega
  rw [lookup]
  exact if_pos negative

section Turn

variable {data rest : List UInt8} {i : Nat} {pDst : List UInt8}

theorem read_eq {front back : List UInt8} {c : UInt8}
    (facing : data.drop i = front ++ c :: back) :
    read data (i + front.length) = .ok c := by
  have here : data[i + front.length]? = some c := by
    rw [← List.getElem?_drop, facing, List.getElem?_append_right (le_refl _),
      Nat.sub_self, List.getElem?_cons_zero]
  rw [read, here]

theorem length_eq (facing : data.drop i = rest) (more : rest ≠ []) :
    data.length = i + rest.length := by
  have length := congrArg List.length facing
  rw [List.length_drop] at length
  have positive := List.length_pos_iff.mpr more
  omega

theorem drop_behind {front back : List UInt8}
    (facing : data.drop i = front ++ back) :
    data.drop (i + front.length) = back := by
  rw [← List.drop_drop, facing, List.drop_left]

/-- The end of a turn that has dealt with a piece. -/
def Piece.after (data : List UInt8) (pDst : List UInt8) (piece : Piece) :
    Bool × State :=
  let i := data.length - piece.rest.length
  (piece.rest.isEmpty, ⟨i, i, pDst ++ piece.written⟩)

/-- How a turn deals with a group. -/
def Piece.outcome (data : List UInt8) (pDst : List UInt8) (piece : Piece) :
    Except Failure (Bool × State) :=
  if piece.Low then .ok (piece.after data pDst) else .error .outsideTable

theorem outcome_low (piece : Piece) (low : ∀ c ∈ piece.consulted, c < 128) :
    piece.outcome data pDst = .ok (piece.after data pDst) := if_pos low

theorem outcome_high (piece : Piece) {c : UInt8}
    (member : c ∈ piece.consulted) (high : ¬ c < 128) :
    piece.outcome data pDst = .error .outsideTable :=
  if_neg fun low => high (low c member)

theorem subset_fourth (c1 c2 c3 : UInt8) (later : List UInt8) :
    [c1, c2, c3] ⊆ (fourth c1 c2 c3 later).consulted := by
  cases later with
  | nil => exact List.Subset.refl _
  | cons c4 later =>
      rw [fourth]
      split
      · exact List.Subset.refl _
      · exact List.subset_append_left [c1, c2, c3] [c4]

theorem turnThird_eq {c1 c2 c3 : UInt8} {later : List UInt8}
    (facing : data.drop i = c3 :: later) (other : c3 ≠ 61)
    (low1 : c1 < 128) (low2 : c2 < 128) :
    turnThird data (pair c1 c2) ⟨i, i, pDst ++ [first (pair c1 c2)]⟩ =
      (fourth c1 c2 c3 later).outcome data pDst := by
  have length := length_eq facing (List.cons_ne_nil _ _)
  have read3 : read data i = .ok c3 := @read_eq data i [] later c3 facing
  by_cases low3 : c3 < 128
  · have low : ∀ c ∈ [c1, c2, c3], c < 128 := by
      simp [low1, low2, low3]
    cases later with
    | nil =>
        rw [outcome_low (fourth c1 c2 c3 []) low]
        simp [turnThird, read3, other, lookup_low low3, bind, Except.bind,
          length, pure, Except.pure, fourth, Piece.after, triple]
    | cons c4 later =>
        have read4 : read data (i + 1) = .ok c4 :=
          @read_eq data i [c3] later c4 facing
        rw [List.length_cons, List.length_cons] at length
        have more : ¬ i + 1 ≥ data.length := by omega
        have place : data.length - (later.length + 1) = i + 1 := by omega
        have start : turnThird data (pair c1 c2)
              ⟨i, i, pDst ++ [first (pair c1 c2)]⟩ =
            if c4 = 61 then .ok ((⟨[c1, c2, c3],
              [first (pair c1 c2), second (triple c1 c2 c3)],
              c4 :: later⟩ : Piece).after data pDst)
            else lookup c4 >>= fun v4 =>
              .ok (decide (i + 2 ≥ data.length), ⟨i + 2, i + 2,
                pDst ++ [first (pair c1 c2), second (triple c1 c2 c3),
                  third (triple c1 c2 c3 + v4)]⟩) := by
          simp [turnThird, read3, other, lookup_low low3, bind, Except.bind,
            more, read4, pure, Except.pure, Piece.after, triple, place]
        rw [start]
        by_cases equals : c4 = 61
        · rw [if_pos equals, fourth, if_pos equals,
            outcome_low ⟨[c1, c2, c3], _, _⟩ low]
        · rw [if_neg equals, fourth, if_neg equals]
          by_cases low4 : c4 < 128
          · have all : ∀ c ∈ [c1, c2, c3, c4], c < 128 := by
              simp [low1, low2, low3, low4]
            have behind : data.length - later.length = i + 2 := by omega
            have last : decide (i + 2 ≥ data.length) = later.isEmpty := by
              cases later with
              | nil => simp [length]
              | cons c later =>
                  rw [List.length_cons] at length
                  simp
                  omega
            rw [lookup_low low4, outcome_low ⟨[c1, c2, c3, c4], _, _⟩ all,
              last]
            simp [bind, Except.bind, Piece.after, behind, quadruple]
          · rw [lookup_high low4,
              outcome_high ⟨[c1, c2, c3, c4], _, _⟩ (by simp) low4]
            rfl
  · rw [outcome_high _ (subset_fourth c1 c2 c3 later (by simp)) low3]
    simp [turnThird, read3, other, lookup_high low3, bind, Except.bind]

theorem turn_group {c1 : UInt8} {piece : Piece}
    (facing : data.drop i = c1 :: rest) (other : ¬ (c1 = 13 ∨ c1 = 10))
    (found : group c1 rest = some piece) :
    turn data ⟨i, i, pDst⟩ = piece.outcome data pDst := by
  have length := length_eq facing (List.cons_ne_nil _ _)
  have read1 : read data i = .ok c1 := @read_eq data i [] rest c1 facing
  rcases rest with _ | ⟨c2, _ | ⟨c3, later⟩⟩
  · cases found
  · cases found
  · have read2 : read data (i + 1) = .ok c2 :=
      @read_eq data i [c1] (c3 :: later) c2 facing
    have behind : data.drop (i + 2) = c3 :: later :=
      @drop_behind data i [c1, c2] (c3 :: later) facing
    have read3 : read data (i + 2) = .ok c3 :=
      @read_eq data i [c1, c2] later c3 facing
    rw [List.length_cons, List.length_cons, List.length_cons] at length
    have more : ¬ i + 2 ≥ data.length := by omega
    have start : turn data ⟨i, i, pDst⟩ =
        lookup c1 >>= fun v1 => lookup c2 >>= fun v2 =>
          turnThird data (v1 <<< 18 + v2 <<< 12) ⟨i + 2, i + 2,
            pDst ++ [first (v1 <<< 18 + v2 <<< 12)]⟩ := by
      simp [turn, read1, read2, other, more, bind, Except.bind]
    have members : c1 ∈ piece.consulted ∧ c2 ∈ piece.consulted := by
      rw [group] at found
      split at found
      · cases found
        simp
      · cases found
        have members := subset_fourth c1 c2 c3 later
        exact ⟨members (by simp), members (by simp)⟩
    rw [start]
    by_cases low1 : c1 < 128
    · by_cases low2 : c2 < 128
      · rw [lookup_low low1, lookup_low low2]
        change turnThird data (pair c1 c2)
          ⟨i + 2, i + 2, pDst ++ [first (pair c1 c2)]⟩ = _
        rw [group] at found
        split at found
        · next equals =>
            cases found
            have low : ∀ c ∈ [c1, c2], c < 128 := by simp [low1, low2]
            have place : data.length - (later.length + 1) = i + 2 := by omega
            rw [outcome_low ⟨[c1, c2], _, _⟩ low]
            simp [turnThird, read3, equals, Piece.after, place, bind,
              Except.bind, pure, Except.pure]
        · next other =>
            cases found
            exact turnThird_eq behind other low1 low2
      · rw [lookup_low low1, lookup_high low2,
          outcome_high piece members.2 low2]
        rfl
    · rw [lookup_high low1, outcome_high piece members.1 low1]
      rfl

end Turn

end TarsCpp.Base64
