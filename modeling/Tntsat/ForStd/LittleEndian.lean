import Mathlib.Algebra.Group.Nat.Defs
import Mathlib.Data.List.Basic

/-!
# Little-endian fields

`le n x` are the `n` bytes of a value, least significant byte first, and `ofLe`
reads them back.  A record laid out field after field is taken apart with
`field`, which reads one value and returns the rest.
-/

namespace Tntsat

/-- The low `n` bytes of `x`, least significant first. -/
def le : Nat → Nat → List UInt8
  | 0, _ => []
  | n + 1, x => UInt8.ofNat x :: le n (x / 256)

/-- The value of bytes, least significant first. -/
def ofLe : List UInt8 → Nat
  | [] => 0
  | b :: bs => b.toNat + 256 * ofLe bs

/-- Read a field of `n` bytes; what follows it is returned beside its value. -/
def field (n : Nat) (bs : List UInt8) : Nat × List UInt8 := (ofLe (bs.take n), bs.drop n)

@[simp] theorem length_le (n x : Nat) : (le n x).length = n := by
  induction n generalizing x with
  | zero => rfl
  | succ n ih => simp [le, ih]

/-- Reading back keeps what fits. -/
theorem ofLe_le (n x : Nat) : ofLe (le n x) = x % 256 ^ n := by
  induction n generalizing x with
  | zero => simp [le, ofLe, Nat.mod_one]
  | succ n ih =>
    rw [le, ofLe, ih, Nat.pow_succ', Nat.mod_mul]
    simp

theorem ofLe_le_of_lt {n x : Nat} (h : x < 256 ^ n) : ofLe (le n x) = x := by
  rw [ofLe_le, Nat.mod_eq_of_lt h]

theorem field_le_append {n x : Nat} (h : x < 256 ^ n) (bs : List UInt8) :
    field n (le n x ++ bs) = (x, bs) := by
  rw [field, List.take_left' (length_le n x), List.drop_left' (length_le n x), ofLe_le_of_lt h]

end Tntsat
