import Mathlib.Algebra.Group.Nat.Defs
import Mathlib.Data.List.Basic

/-!
# Files that grow

A file is the list of its bytes.  `pwrite` stores a block at any position: it may
overwrite, extend the file, or leave a gap behind the old end, which reads as
`z` from then on.  `pread` returns what the file has from a position on, which
is less than was asked for when the file ends earlier.
-/

namespace Tntsat

variable {α : Type*}

/-- Store `d` from position `p` on. -/
def pwrite (z : α) (f : List α) (p : Nat) (d : List α) : List α :=
  match d with
  | [] => f
  | _ :: _ => f.take p ++ List.replicate (p - f.length) z ++ d ++ f.drop (p + d.length)

/-- The at most `n` values stored from position `p` on. -/
def pread (f : List α) (p n : Nat) : List α := (f.drop p).take n

@[simp] theorem pwrite_nil (z : α) (f : List α) (p : Nat) : pwrite z f p [] = f := rfl

theorem length_pwrite (z : α) (f : List α) (p : Nat) {d : List α} (hd : d ≠ []) :
    (pwrite z f p d).length = max f.length (p + d.length) := by
  cases d with
  | nil => exact absurd rfl hd
  | cons x xs =>
    simp only [pwrite, List.length_append, List.length_take, List.length_replicate,
      List.length_drop]
    omega

/-- A write fills its own range. -/
theorem getElem?_pwrite_inside (z : α) (f : List α) {p i : Nat} {d : List α} (hp : p ≤ i)
    (hi : i < p + d.length) : (pwrite z f p d)[i]? = d[i - p]? := by
  cases d with
  | nil => simp at hi; omega
  | cons x xs =>
    have hlen : (f.take p ++ List.replicate (p - f.length) z).length = p := by
      simp only [List.length_append, List.length_take, List.length_replicate]
      omega
    rw [pwrite, List.getElem?_append_left (by rw [List.length_append, hlen]; exact hi),
      List.getElem?_append_right (by rw [hlen]; exact hp), hlen]

/-- A write leaves what the file had outside its range. -/
theorem getElem?_pwrite_outside (z : α) (f : List α) {p i : Nat} {d : List α} {b : α}
    (h : i < p ∨ p + d.length ≤ i) (hb : f[i]? = some b) : (pwrite z f p d)[i]? = some b := by
  obtain ⟨hlt, -⟩ := List.getElem?_eq_some_iff.mp hb
  cases d with
  | nil => exact hb
  | cons x xs =>
    rw [pwrite, List.append_assoc, List.append_assoc]
    cases h with
    | inl h =>
      rw [List.getElem?_append_left (by simp only [List.length_take]; omega),
        List.getElem?_take_of_lt h, hb]
    | inr h =>
      rw [show p - f.length = 0 by omega, List.replicate_zero, List.nil_append,
        List.getElem?_append_right (by simp only [List.length_take]; omega),
        List.getElem?_append_right (by simp only [List.length_take]; omega), List.getElem?_drop,
        ← hb]
      congr 1
      simp only [List.length_take]
      omega

theorem length_pread_le (f : List α) (p n : Nat) : (pread f p n).length ≤ n :=
  List.length_take_le _ _

theorem getElem?_pread (f : List α) (p : Nat) {n k : Nat} (h : k < n) :
    (pread f p n)[k]? = f[p + k]? := by
  rw [pread, List.getElem?_take_of_lt h, List.getElem?_drop]

end Tntsat
