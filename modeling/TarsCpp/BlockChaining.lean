import Mathlib.Tactic

/-!
# Chaining blocks in both directions

A block is mixed with the encrypted block before it, encrypted, and mixed with
what was encrypted before.  Only that mixing twice with the same block changes
nothing is used of the mixing, and of the cipher that it can be undone.
-/

namespace TarsCpp.BlockChaining

structure Mode (β : Type) where
  mix : β → β → β
  zero : β
  encrypt : β → β
  decrypt : β → β
  mix_mix : ∀ first second, mix (mix first second) second = first
  mix_comm : ∀ first second, mix first second = mix second first
  mix_zero : ∀ block, mix block zero = block
  decrypt_encrypt : ∀ block, decrypt (encrypt block) = block

variable {β : Type} (m : Mode β)

/-- The block in front, which is zero for the first one. -/
def before (blocks : Nat → β) : Nat → β
  | 0 => m.zero
  | block + 1 => blocks block

/-- What is encrypted for a block, and the encrypted block. -/
def chain (plain : Nat → β) : Nat → β × β
  | 0 =>
      let mixed := m.mix (plain 0) m.zero
      (mixed, m.mix (m.encrypt mixed) m.zero)
  | block + 1 =>
      let mixed := m.mix (plain (block + 1)) (chain plain block).2
      (mixed, m.mix (m.encrypt mixed) (chain plain block).1)

def mixed (plain : Nat → β) (block : Nat) : β := (chain m plain block).1

def sealed (plain : Nat → β) (block : Nat) : β := (chain m plain block).2

/-- What is decrypted for a block. -/
def unmixed (cipher : Nat → β) : Nat → β
  | 0 => m.decrypt (cipher 0)
  | block + 1 => m.decrypt (m.mix (unmixed cipher block) (cipher (block + 1)))

def opened (cipher : Nat → β) (block : Nat) : β :=
  m.mix (unmixed m cipher block) (before m cipher block)

theorem mixed_eq (plain : Nat → β) (block : Nat) :
    mixed m plain block =
      m.mix (plain block) (before m (sealed m plain) block) := by
  cases block <;> rfl

theorem sealed_eq (plain : Nat → β) (block : Nat) :
    sealed m plain block =
      m.mix (m.encrypt (mixed m plain block))
        (before m (mixed m plain) block) := by
  cases block <;> rfl

theorem unmixed_congr {cipher cipher' : Nat → β} {block : Nat}
    (same : ∀ earlier ≤ block, cipher earlier = cipher' earlier) :
    unmixed m cipher block = unmixed m cipher' block := by
  induction block with
  | zero => rw [unmixed, unmixed, same 0 le_rfl]
  | succ block induction =>
      rw [unmixed, unmixed, same _ le_rfl,
        induction fun earlier older => same earlier (older.trans block.le_succ)]

theorem opened_congr {cipher cipher' : Nat → β} {block : Nat}
    (same : ∀ earlier ≤ block, cipher earlier = cipher' earlier) :
    opened m cipher block = opened m cipher' block := by
  rw [opened, opened, unmixed_congr m same]
  cases block with
  | zero => rfl
  | succ block => rw [before, before, same block block.le_succ]

theorem unmixed_sealed (plain : Nat → β) (block : Nat) :
    unmixed m (sealed m plain) block = mixed m plain block := by
  cases block with
  | zero =>
      rw [unmixed, sealed_eq, before, m.mix_zero, m.decrypt_encrypt]
  | succ block =>
      rw [unmixed, unmixed_sealed plain block, sealed_eq, before, m.mix_comm,
        m.mix_mix, m.decrypt_encrypt]

/-- The blocks come back. -/
theorem opened_sealed (plain : Nat → β) (block : Nat) :
    opened m (sealed m plain) block = plain block := by
  rw [opened, unmixed_sealed, mixed_eq, m.mix_mix]

end TarsCpp.BlockChaining
