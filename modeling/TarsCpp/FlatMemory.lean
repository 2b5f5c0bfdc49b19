import TarsCpp.ByteOrder
import TarsCpp.Interruption

/-!
# Words in a flat memory

A memory of finitely many bytes in which words of any width lie at any
address, least significant byte first.  A load depends on its own bytes only,
so a store elsewhere does not change it.  An access outside of the memory
raises a failure.
-/

namespace TarsCpp

namespace FlatMemory

open Interruption

structure Memory where
  size : Nat
  byte : Nat → UInt8

/-- The `count` bytes from `address` on are replaced. -/
def Memory.patch (memory : Memory) (address count : Nat)
    (replacement : Nat → UInt8) : Memory :=
  { memory with byte := fun place =>
      if address ≤ place ∧ place < address + count then
        replacement (place - address)
      else memory.byte place }

def Memory.bytes (memory : Memory) (address count : Nat) : List UInt8 :=
  (List.range count).map fun i => memory.byte (address + i)

def Memory.word (memory : Memory) (width address : Nat) : Nat :=
  ByteOrder.ofBigEndian (memory.bytes address width).reverse

def Memory.withWord (memory : Memory) (width address value : Nat) :
    Memory :=
  memory.patch address width fun i =>
    ((ByteOrder.bigEndian width value).reverse)[i]?.getD 0

def Memory.filled (memory : Memory) (address count : Nat) : Memory :=
  memory.patch address count fun _ => 0

/-- Two memories of one size that agree on the `count` bytes from
`address`. -/
def SameOn (address count : Nat) (memory memory' : Memory) : Prop :=
  ∀ place, address ≤ place → place < address + count →
    memory.byte place = memory'.byte place

variable {memory memory' : Memory} {address count width value : Nat}

section Words

@[simp] theorem size_patch (replacement : Nat → UInt8) :
    (memory.patch address count replacement).size = memory.size :=
  rfl

@[simp] theorem size_withWord :
    (memory.withWord width address value).size = memory.size :=
  rfl

@[simp] theorem size_filled :
    (memory.filled address count).size = memory.size :=
  rfl

theorem SameOn.trans {memory'' : Memory}
    (first : SameOn address count memory memory')
    (second : SameOn address count memory' memory'') :
    SameOn address count memory memory'' := by
  intro place low high
  exact (first place low high).trans (second place low high)

theorem SameOn.within {address' count' : Nat}
    (same : SameOn address count memory memory') (low : address ≤ address')
    (high : address' + count' ≤ address + count) :
    SameOn address' count' memory memory' := by
  intro place low' high'
  exact same place (Nat.le_trans low low') (Nat.lt_of_lt_of_le high' high)

/-- A patch is not noticed where it is not. -/
theorem sameOn_patch {address' count' : Nat} {replacement : Nat → UInt8}
    (apart : address + count ≤ address' ∨ address' + count' ≤ address) :
    SameOn address count (memory.patch address' count' replacement)
      memory := by
  intro place low high
  refine if_neg ?_
  omega

theorem word_congr (same : SameOn address width memory memory') :
    memory.word width address = memory'.word width address := by
  unfold Memory.word Memory.bytes
  congr 2
  apply List.map_congr_left
  intro i member
  exact same _ (Nat.le_add_right _ _)
    (Nat.add_lt_add_left (List.mem_range.mp member) _)

theorem word_withWord_mod :
    (memory.withWord width address value).word width address =
      value % 256 ^ width := by
  have stored : (memory.withWord width address value).bytes address width =
      (ByteOrder.bigEndian width value).reverse := by
    apply List.ext_getElem
    · simp [Memory.bytes]
    · intro i inside inside'
      simp only [Memory.bytes, List.length_map, List.length_range] at inside
      simp only [Memory.bytes, List.getElem_map, List.getElem_range,
        Memory.withWord, Memory.patch]
      rw [if_pos (by omega), Nat.add_sub_cancel_left,
        List.getElem?_eq_getElem inside', Option.getD_some]
  rw [Memory.word, stored, List.reverse_reverse,
    ByteOrder.ofBigEndian_bigEndian_mod]

theorem word_withWord (fits : value < 256 ^ width) :
    (memory.withWord width address value).word width address = value := by
  rw [word_withWord_mod, Nat.mod_eq_of_lt fits]

theorem word_withWord_apart {width' address' : Nat}
    (apart : address + width ≤ address' ∨ address' + width' ≤ address) :
    (memory.withWord width' address' value).word width address =
      memory.word width address :=
  word_congr (sameOn_patch apart)

theorem word_filled_apart {address' : Nat}
    (apart : address + width ≤ address' ∨ address' + count ≤ address) :
    (memory.filled address' count).word width address =
      memory.word width address :=
  word_congr (sameOn_patch apart)

theorem word_lt (memory : Memory) (width address : Nat) :
    memory.word width address < 256 ^ width := by
  have bound := ByteOrder.ofBigEndian_lt (memory.bytes address width).reverse
  simpa [Memory.word, Memory.bytes] using bound

end Words

section Access

variable {ε α : Type} (outside : ε) {allowed : ε → Prop}
  {returns : Unit → Memory → Prop} {crashes : Memory → Prop}

def load (width address : Nat) : Task ε Memory Nat := do
  let size ← read (·.size)
  require (address + width ≤ size) outside
  read (·.word width address)

def store (width address value : Nat) : Task ε Memory Unit := do
  let size ← read (·.size)
  require (address + width ≤ size) outside
  write (·.withWord width address value)

def fill (address count : Nat) : Task ε Memory Unit := do
  let size ← read (·.size)
  require (address + count ≤ size) outside
  write (·.filled address count)

theorem load_yields (inside : address + width ≤ memory.size) :
    Yields (load outside width address) memory
      (memory.word width address) :=
  (Yields.read _).bind ((Yields.require inside _).bind (Yields.read _))

theorem store_performs (inside : address + width ≤ memory.size)
    (before : crashes memory)
    (holds : returns () (memory.withWord width address value)) :
    Performs allowed (store outside width address value) memory returns
      crashes :=
  Performs.bindRead (Performs.bindRequire inside
    (Performs.write before holds))

theorem fill_performs (inside : address + count ≤ memory.size)
    (before : crashes memory)
    (holds : returns () (memory.filled address count)) :
    Performs allowed (fill outside address count) memory returns crashes :=
  Performs.bindRead (Performs.bindRequire inside
    (Performs.write before holds))

end Access

end FlatMemory

end TarsCpp
