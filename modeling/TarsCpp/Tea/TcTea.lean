import TarsCpp.ByteOrder
import TarsCpp.CString

/-!
# `TC_Tea`

The block cipher, the two functions that stream bytes through it, and `encrypt`
and `decrypt`, which place the result in a `vector`.  A block is an array of
eight bytes; pointers into the input are offsets.  `rand` gives the bytes that
`rand()` is converted to, one call after the other.
-/

namespace TarsCpp.Tea

open ByteOrder CString

abbrev Block := Fin 8 → UInt8

abbrev Key := Fin 16 → UInt8

def DELTA : UInt32 := 0x9e3779b9

/-- `ntohl` of four bytes in memory. -/
def word (c0 c1 c2 c3 : UInt8) : UInt32 :=
  UInt32.ofNat (ofBigEndian [c0, c1, c2, c3])

/-- The variables `y`, `z` and `sum`. -/
structure Words where
  y : UInt32
  z : UInt32
  sum : UInt32

def loadWords (pInBuf : Block) (sum : UInt32) : Words where
  y := word (pInBuf 0) (pInBuf 1) (pInBuf 2) (pInBuf 3)
  z := word (pInBuf 4) (pInBuf 5) (pInBuf 6) (pInBuf 7)
  sum := sum

def storeWords (words : Words) : Block := fun j =>
  (bigEndian 4 words.y.toNat ++ bigEndian 4 words.z.toNat).getD j 0

structure KeyWords where
  k0 : UInt32
  k1 : UInt32
  k2 : UInt32
  k3 : UInt32

def loadKey (pKey : Key) : KeyWords where
  k0 := word (pKey 0) (pKey 1) (pKey 2) (pKey 3)
  k1 := word (pKey 4) (pKey 5) (pKey 6) (pKey 7)
  k2 := word (pKey 8) (pKey 9) (pKey 10) (pKey 11)
  k3 := word (pKey 12) (pKey 13) (pKey 14) (pKey 15)

/-- What is added to `y` and to `z`. -/
def mixY (k : KeyWords) (z sum : UInt32) : UInt32 :=
  ((z <<< 4) + k.k0) ^^^ (z + sum) ^^^ ((z >>> 5) + k.k1)

def mixZ (k : KeyWords) (y sum : UInt32) : UInt32 :=
  ((y <<< 4) + k.k2) ^^^ (y + sum) ^^^ ((y >>> 5) + k.k3)

def encryptRound (k : KeyWords) (words : Words) : Words :=
  let sum := words.sum + DELTA
  let y := words.y + mixY k words.z sum
  let z := words.z + mixZ k y sum
  ⟨y, z, sum⟩

def decryptRound (k : KeyWords) (words : Words) : Words :=
  let z := words.z - mixZ k words.y words.sum
  let y := words.y - mixY k z words.sum
  ⟨y, z, words.sum - DELTA⟩

def ROUNDS : Nat := 16

def TeaEncryptECB (pInBuf : Block) (pKey : Key) : Block :=
  storeWords ((encryptRound (loadKey pKey))^[ROUNDS] (loadWords pInBuf 0))

def TeaDecryptECB (pInBuf : Block) (pKey : Key) : Block :=
  storeWords ((decryptRound (loadKey pKey))^[ROUNDS]
    (loadWords pInBuf (DELTA <<< 4)))

def SALT_LEN : Nat := 2

def ZERO_LEN : Nat := 7

def xor (block other : Block) : Block := fun j => block j ^^^ other j

def nPadSaltBodyZeroLen (nInBufLen : Nat) : Nat :=
  nInBufLen + 1 + SALT_LEN + ZERO_LEN

def nPadlen (nInBufLen : Nat) : Nat :=
  if nPadSaltBodyZeroLen nInBufLen % 8 ≠ 0 then
    8 - nPadSaltBodyZeroLen nInBufLen % 8
  else 0

def oi_symmetry_encrypt2_len (nInBufLen : Nat) : Nat :=
  nPadSaltBodyZeroLen nInBufLen + nPadlen nInBufLen

/-- The variables of the encryption, and what has been written. -/
structure Encryption where
  src_buf : Block := fun _ => 0
  src_i : Nat := 0
  iv_plain : Block := fun _ => 0
  iv_crypt : Block := fun _ => 0
  pOutBuf : List UInt8 := []

namespace Encryption

/-- `src_buf[src_i++] = c` -/
def push (c : UInt8) (st : Encryption) : Encryption :=
  { st with
    src_buf := fun j => if j = st.src_i then c else st.src_buf j
    src_i := st.src_i + 1 }

/-- The branch for `src_i == 8`. -/
def flush (pKey : Key) (st : Encryption) : Encryption :=
  let src_buf := xor st.src_buf st.iv_crypt
  let written := xor (TeaEncryptECB src_buf pKey) st.iv_plain
  { src_buf := src_buf
    src_i := 0
    iv_plain := src_buf
    iv_crypt := written
    pOutBuf := st.pOutBuf ++ List.ofFn written }

def flushFull (pKey : Key) (st : Encryption) : Encryption :=
  if st.src_i = 8 then st.flush pKey else st

/-- The loops over salt, body and zeros.  A turn that finds the block full does
not take a byte, and the next one does. -/
def stream (pKey : Key) : List UInt8 → Encryption → Encryption
  | [], st => st
  | c :: bytes, st =>
      stream pKey bytes (((st.flushFull pKey).push c).flushFull pKey)

end Encryption

def oi_symmetry_encrypt2 (pInBuf : List UInt8) (pKey : Key)
    (rand : Nat → UInt8) : List UInt8 :=
  let nPadlen := nPadlen pInBuf.length
  let start := Encryption.push
    ((rand 0 &&& 0x0f8) ||| UInt8.ofNat nPadlen) {}
  let padded := (List.range nPadlen).foldl
    (fun st call => st.push (rand (call + 1))) start
  let salted := padded.stream pKey [rand (nPadlen + 1), rand (nPadlen + 2)]
  let body := salted.stream pKey pInBuf
  (body.stream pKey (List.replicate ZERO_LEN 0)).pOutBuf

inductive Stop
  /-- `return false` -/
  | rejected
  | outsideInput
  | outsideOutput
  /-- `dest_i` is larger than 8. -/
  | endless
deriving DecidableEq

/-- The variables of the decryption, and what has been written.  `none` is
`zero_buf`. -/
structure Decryption where
  dest_buf : Block
  dest_i : Nat
  iv_pre_crypt : Option Nat
  iv_cur_crypt : Option Nat
  pInBuf : Nat
  nBufPos : Nat
  pOutBuf : List UInt8

def readByte (sIn : List UInt8) (offset : Nat) : Except Stop UInt8 :=
  match sIn[offset]? with
  | some c => .ok c
  | none => .error .outsideInput

/-- `iv_pre_crypt[i]` -/
def readIv (sIn : List UInt8) (iv : Option Nat) (i : Nat) :
    Except Stop UInt8 :=
  match iv with
  | none => .ok 0
  | some offset => readByte sIn (offset + i)

/-- The block that `TeaDecryptECB(pInBuf, ...)` reads. -/
def readBlock (sIn : List UInt8) : Except Stop Block :=
  if sIn.length < 8 then .error .outsideInput
  else .ok fun j => sIn.getD j 0

namespace Decryption

section Loops

variable (sIn : List UInt8) (nInBufLen : Nat) (pKey : Key) (size : Nat)

/-- `dest_buf[j] ^= pInBuf[j]` -/
def mixByte (st : Decryption) (dest_buf : Block) (j : Fin 8) :
    Except Stop Block :=
  if st.nBufPos + j ≥ nInBufLen then .error .rejected
  else do
    let c ← readByte sIn (st.pInBuf + j)
    pure (Function.update dest_buf j (dest_buf j ^^^ c))

/-- The branch for `dest_i == 8`. -/
def load (st : Decryption) : Except Stop Decryption := do
  let dest_buf ← (List.finRange 8).foldlM (mixByte sIn nInBufLen st) st.dest_buf
  pure { st with
    iv_pre_crypt := st.iv_cur_crypt
    iv_cur_crypt := some st.pInBuf
    dest_buf := TeaDecryptECB dest_buf pKey
    pInBuf := st.pInBuf + 8
    nBufPos := st.nBufPos + 8
    dest_i := 0 }

/-- A turn that finds nothing left of the block loads another one, and the next
turn goes on. -/
def ready (st : Decryption) : Except Stop Decryption :=
  if st.dest_i < 8 then .ok st
  else if st.dest_i = 8 then load sIn nInBufLen pKey st
  else .error .endless

/-- `dest_buf[dest_i] ^ iv_pre_crypt[dest_i]` -/
def byte (st : Decryption) : Except Stop UInt8 := do
  let c ← readIv sIn st.iv_pre_crypt st.dest_i
  pure (st.dest_buf (Fin.ofNat 8 st.dest_i) ^^^ c)

def skip : Nat → Decryption → Except Stop Decryption
  | 0, st => .ok st
  | turns + 1, st => do
      let st ← ready sIn nInBufLen pKey st
      skip turns { st with dest_i := st.dest_i + 1 }

def copy : Nat → Decryption → Except Stop Decryption
  | 0, st => .ok st
  | nPlainLen + 1, st => do
      let st ← ready sIn nInBufLen pKey st
      let c ← byte sIn st
      if st.pOutBuf.length ≥ size then .error .outsideOutput
      else
        copy nPlainLen { st with
          pOutBuf := st.pOutBuf ++ [c]
          dest_i := st.dest_i + 1 }

def check : Nat → Decryption → Except Stop Decryption
  | 0, st => .ok st
  | turns + 1, st => do
      let st ← ready sIn nInBufLen pKey st
      let c ← byte sIn st
      if c ≠ 0 then .error .rejected
      else check turns { st with dest_i := st.dest_i + 1 }

/-- The loops, which drop the salt, copy the body and check the zeros. -/
def loops (nPlainLen : Nat) (st : Decryption) : Except Stop (List UInt8) := do
  let salted ← skip sIn nInBufLen pKey SALT_LEN st
  let copied ← copy sIn nInBufLen pKey size nPlainLen salted
  let checked ← check sIn nInBufLen pKey ZERO_LEN copied
  pure checked.pOutBuf

end Loops

end Decryption

/-- The text that is written from `pOutBuf` on, where there is room for `size`
bytes. -/
def oi_symmetry_decrypt2 (sIn : List UInt8) (nInBufLen : Int) (pKey : Key)
    (size pOutBufLen : Nat) : Except Stop (List UInt8) :=
  if nInBufLen.tmod 8 ≠ 0 ∨ nInBufLen < 16 then .error .rejected
  else do
    let block ← readBlock sIn
    let dest_buf := TeaDecryptECB block pKey
    let nPadLen := (dest_buf 0 &&& 0x7).toNat
    let i : Int := nInBufLen - 1 - nPadLen - SALT_LEN - ZERO_LEN
    if (pOutBufLen : Int) < i ∨ i < 0 then .error .rejected
    else
      Decryption.loops sIn nInBufLen.toNat pKey size i.toNat
        { dest_buf := dest_buf, dest_i := 1 + nPadLen, iv_pre_crypt := none,
          iv_cur_crypt := some 0, pInBuf := 8, nBufPos := 8, pOutBuf := [] }

/-- A `vector<char>`: the memory it has allocated, of which the first `size`
bytes are its elements. -/
structure Buffer where
  memory : List UInt8
  size : Nat
  inside : size ≤ memory.length

namespace Buffer

def capacity (buffer : Buffer) : Nat := buffer.memory.length

def elements (buffer : Buffer) : List UInt8 := buffer.memory.take buffer.size

/-- New elements are zero. -/
def resize (buffer : Buffer) (size : Nat) : Buffer :=
  if shrinks : size ≤ buffer.size then
    { buffer with size := size, inside := shrinks.trans buffer.inside }
  else
    { memory := buffer.elements ++ List.replicate (size - buffer.size) 0 ++
        buffer.memory.drop size
      size := size
      inside := by
        have inside := buffer.inside
        simp only [elements, List.length_append, List.length_take,
          List.length_replicate]
        omega }

/-- What is written through `buffer.data()`. -/
def write (buffer : Buffer) (text : List UInt8) : Buffer where
  memory := text ++ buffer.memory.drop text.length
  size := buffer.size
  inside := by
    have inside := buffer.inside
    rw [List.length_append, List.length_drop]
    omega

end Buffer

def encrypt (key : Key) (sIn : List UInt8) (rand : Nat → UInt8)
    (buffer : Buffer) : Buffer :=
  let outlen := oi_symmetry_encrypt2_len sIn.length
  let buffer :=
    if buffer.capacity < outlen * 2 then buffer.resize (outlen * 2) else buffer
  let text := oi_symmetry_encrypt2 sIn key rand
  (buffer.write text).resize text.length

/-- What `decrypt` makes of the result; `none` is `false`, and what the vector
holds then is left open. -/
def decrypted (buffer : Buffer) :
    Except Stop (List UInt8) → Except Stop (Option Buffer)
  | .ok text => .ok (some ((buffer.write text).resize text.length))
  | .error .rejected => .ok none
  | .error stop => .error stop

def decrypt (key : Key) (sIn : List UInt8) (buffer : Buffer) :
    Except Stop (Option Buffer) :=
  let outlen := sIn.length
  let buffer :=
    if buffer.capacity < outlen * 2 then buffer.resize (outlen * 2) else buffer
  let buffer := buffer.resize (outlen * 2)
  decrypted buffer
    (oi_symmetry_decrypt2 sIn (toInt outlen) key buffer.size outlen)

end TarsCpp.Tea
