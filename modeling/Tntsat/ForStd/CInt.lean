import Mathlib.Algebra.Group.Nat.Defs
import Mathlib.Data.List.Basic

/-!
# C integer arithmetic

Fixed-width results of C expressions, computed on unbounded integers and then
reduced: `s32` is what a 32-bit `int` holds, `u32` and `u64` what unsigned
32-bit and 64-bit objects hold.
-/

namespace Tntsat

/-- The value of a 32-bit two's complement object after storing `n`. -/
def s32 (n : Int) : Int := Int.bmod n 4294967296

theorem s32_of_range {n : Int} (h0 : -2147483648 ≤ n) (h1 : n < 2147483648) : s32 n = n := by
  unfold s32
  rw [Int.bmod_eq_of_le] <;> omega

/-- What is left of an unsigned value read as an `int` once negative values are set to 0. -/
theorem toNat_s32 {n : Nat} (hn : n < 4294967296) :
    (s32 n).toNat = if n < 2147483648 then n else 0 := by
  split
  · rw [s32_of_range (by omega) (by omega), Int.toNat_natCast]
  · have hneg : s32 (n : Int) = (n : Int) - 4294967296 := by
      rw [← s32_of_range (n := (n : Int) - 4294967296) (by omega) (by omega), s32, s32]
      exact (Int.sub_bmod_right (n : Int) 4294967296).symm
    rw [hneg]
    omega

/-- The value of a 16-bit unsigned object after storing `n`. -/
def u16 (n : Nat) : Nat := n % 65536

/-- The value of a 32-bit unsigned object after storing `n`. -/
def u32 (n : Nat) : Nat := n % 4294967296

/-- The value of a 64-bit unsigned object after storing `n`. -/
def u64 (n : Nat) : Nat := n % 18446744073709551616

/-- The value of a 32-bit unsigned object after storing an `int`. -/
def u32OfInt (n : Int) : Nat := (n % 4294967296).toNat

/-- Subtraction of 32-bit unsigned objects. -/
def u32sub (a b : Nat) : Nat := u32 (a + 4294967296 - b)

/-- Subtraction of 64-bit unsigned objects. -/
def u64sub (a b : Nat) : Nat := u64 (a + 18446744073709551616 - b)

theorem u16_of_lt {n : Nat} (h : n < 65536) : u16 n = n := Nat.mod_eq_of_lt h

theorem u32_of_lt {n : Nat} (h : n < 4294967296) : u32 n = n := Nat.mod_eq_of_lt h

theorem u64_of_lt {n : Nat} (h : n < 18446744073709551616) : u64 n = n := Nat.mod_eq_of_lt h

theorem u32sub_of_le {a b : Nat} (hle : b ≤ a) (ha : a < 4294967296) : u32sub a b = a - b := by
  unfold u32sub u32
  rw [show a + 4294967296 - b = a - b + 4294967296 by omega, Nat.add_mod_right,
    Nat.mod_eq_of_lt (by omega)]

theorem u64sub_of_le {a b : Nat} (hle : b ≤ a) (ha : a < 18446744073709551616) :
    u64sub a b = a - b := by
  unfold u64sub u64
  rw [show a + 18446744073709551616 - b = a - b + 18446744073709551616 by omega,
    Nat.add_mod_right, Nat.mod_eq_of_lt (by omega)]

theorem u32OfInt_of_nonneg {n : Int} (h0 : 0 ≤ n) (h1 : n < 4294967296) :
    u32OfInt n = n.toNat := by
  unfold u32OfInt
  rw [Int.emod_eq_of_lt h0 h1]

/-- A negative number survives being stored in an unsigned object and read back as an `int`. -/
theorem s32_u32OfInt {n : Int} (h0 : -2147483648 ≤ n) (h1 : n < 2147483648) :
    s32 (u32OfInt n) = n := by
  unfold s32 u32OfInt
  rw [Int.bmod_eq_iff (by omega)]
  omega

theorem u32sub_lt (a b : Nat) : u32sub a b < 4294967296 := Nat.mod_lt _ (by decide)

/-- The number that four bytes stand for, most significant byte first. -/
def be32 (b : List UInt8) : Nat :=
  (b[0]?.getD 0).toNat * 2 ^ 24 + (b[1]?.getD 0).toNat * 2 ^ 16 +
    (b[2]?.getD 0).toNat * 2 ^ 8 + (b[3]?.getD 0).toNat

end Tntsat
