import Mathlib.Algebra.Group.Nat.Defs
import Mathlib.Tactic.Ring

/-!
# Exp-Golomb codes

The bits of a list of bytes, the most significant bit of each byte first, and the
Exp-Golomb codes in them: `k` zeros, a one, and `k` more bits.
-/

namespace Tntsat

/-- The bit at position `i`, `false` behind the last byte. -/
def bitAt (buffer : List UInt8) (i : Nat) : Bool :=
  (buffer.getD (i / 8) 0).toNat.testBit (7 - i % 8)

/-- The number that `k` bits from position `i` on stand for. -/
def bitsVal (buffer : List UInt8) : Nat → Nat → Nat
  | _, 0 => 0
  | i, k + 1 => (bitAt buffer i).toNat * 2 ^ k + bitsVal buffer (i + 1) k

theorem bitsVal_accumulate (buffer : List UInt8) (i k acc : Nat) :
    (acc * 2 + (bitAt buffer i).toNat) * 2 ^ k + bitsVal buffer (i + 1) k =
      acc * 2 ^ (k + 1) + bitsVal buffer i (k + 1) := by
  rw [bitsVal, Nat.pow_succ]
  ring

/-- A code with `k` leading zeros starts at position `i`. -/
structure UeCode (buffer : List UInt8) (i k : Nat) : Prop where
  zeros : ∀ j, j < k → bitAt buffer (i + j) = false
  one : bitAt buffer (i + k) = true

/-- The whole code lies inside the bytes. -/
def UeInside (buffer : List UInt8) (i k : Nat) : Prop :=
  UeCode buffer i k ∧ i + (2 * k + 1) ≤ 8 * buffer.length

/-- The value of a code with `k` leading zeros. -/
def ueValue (buffer : List UInt8) (i k : Nat) : Nat :=
  2 ^ k - 1 + bitsVal buffer (i + k + 1) k

/-- At most one code starts at a position. -/
theorem UeCode.unique {buffer : List UInt8} {i k k' : Nat} (h : UeCode buffer i k)
    (h' : UeCode buffer i k') : k = k' := by
  rcases Nat.lt_trichotomy k k' with hlt | heq | hlt
  · exact absurd h.one (by rw [h'.zeros k hlt]; decide)
  · exact heq
  · exact absurd h'.one (by rw [h.zeros k' hlt]; decide)

/-- A zero in front of a code makes a longer one. -/
theorem UeCode.cons {buffer : List UInt8} {i k : Nat} (h : UeCode buffer (i + 1) k)
    (hzero : bitAt buffer i = false) : UeCode buffer i (k + 1) where
  zeros
    | 0, _ => hzero
    | j + 1, hj => by
      have := h.zeros j (by omega)
      rwa [show i + 1 + j = i + (j + 1) by omega] at this
  one := by
    have := h.one
    rwa [show i + 1 + k = i + (k + 1) by omega] at this

/-- What follows the first zero of a code is a shorter one. -/
theorem UeCode.tail {buffer : List UInt8} {i k : Nat} (h : UeCode buffer i (k + 1)) :
    UeCode buffer (i + 1) k where
  zeros j hj := by
    have := h.zeros (j + 1) (by omega)
    rwa [show i + (j + 1) = i + 1 + j by omega] at this
  one := by
    have := h.one
    rwa [show i + (k + 1) = i + 1 + k by omega] at this

end Tntsat
