import Mathlib.Algebra.Group.Nat.Defs
import Mathlib.Data.List.Basic

/-!
# Flat memories

A `Memory α` gives every address a value.  `write` is `memcpy` into it and
`read` is `memcpy` out of it; both take any address, so a copy that runs past
the end of a buffer reads or clobbers whatever lies there.
-/

namespace Tntsat

/-- A flat memory: a value at every address. -/
def Memory (α : Type*) := Nat → α

namespace Memory

variable {α : Type*}

/-- Store the list `xs` at addresses `a, a + 1, ...`. -/
def write (m : Memory α) (a : Nat) (xs : List α) : Memory α :=
  fun i => if a ≤ i then (xs[i - a]?).getD (m i) else m i

/-- Store one value. -/
def set (m : Memory α) (a : Nat) (x : α) : Memory α := fun i => if i = a then x else m i

@[simp] theorem set_self (m : Memory α) (a : Nat) (x : α) : m.set a x a = x := if_pos rfl

theorem set_of_ne (m : Memory α) {a i : Nat} (x : α) (h : i ≠ a) : m.set a x i = m i :=
  if_neg h

@[simp] theorem set_set (m : Memory α) (a : Nat) (x y : α) : (m.set a x).set a y = m.set a y := by
  funext i
  by_cases h : i = a
  · subst h; rw [set_self, set_self]
  · rw [set_of_ne _ _ h, set_of_ne _ _ h, set_of_ne _ _ h]

/-- The `n` values stored from address `a` on. -/
def read (m : Memory α) (a n : Nat) : List α :=
  (List.range n).map fun k => m (a + k)

@[simp] theorem length_read (m : Memory α) (a n : Nat) : (m.read a n).length = n := by
  simp [read]

@[simp] theorem read_zero (m : Memory α) (a : Nat) : m.read a 0 = [] := rfl

theorem getElem?_read (m : Memory α) (a n k : Nat) :
    (m.read a n)[k]? = if k < n then some (m (a + k)) else none := by
  simp only [read, List.getElem?_map]
  split
  · rename_i h; simp [List.getElem?_range h]
  · rename_i h; simp [h]

theorem read_add (m : Memory α) (a n k : Nat) :
    m.read a (n + k) = m.read a n ++ m.read (a + n) k := by
  simp only [read, List.range_add, List.map_append, List.map_map]
  congr 1
  apply List.map_congr_left
  intro i _
  simp [Nat.add_assoc]

/-- Reads that see the same values are equal. -/
theorem read_congr {m m' : Memory α} {a b n : Nat}
    (h : ∀ k, k < n → m (a + k) = m' (b + k)) : m.read a n = m'.read b n := by
  apply List.map_congr_left
  intro k hk
  exact h k (List.mem_range.mp hk)

@[simp] theorem write_nil (m : Memory α) (a : Nat) : m.write a [] = m := by
  funext i; simp [write]

theorem write_apply_lt (m : Memory α) {a i : Nat} (xs : List α) (h : i < a) :
    m.write a xs i = m i := by
  simp [write, show ¬ a ≤ i by omega]

theorem write_apply_ge (m : Memory α) {a i : Nat} (xs : List α) (h : a + xs.length ≤ i) :
    m.write a xs i = m i := by
  simp only [write]
  split
  · rw [List.getElem?_eq_none (by omega)]; rfl
  · rfl

/-- A write leaves every address outside `[a, a + xs.length)` alone. -/
theorem write_apply_of_notMem (m : Memory α) {a i : Nat} (xs : List α)
    (h : i < a ∨ a + xs.length ≤ i) : m.write a xs i = m i := by
  cases h with
  | inl h => exact write_apply_lt m xs h
  | inr h => exact write_apply_ge m xs h

theorem write_apply_add (m : Memory α) (a : Nat) {k : Nat} (xs : List α) (h : k < xs.length) :
    m.write a xs (a + k) = xs[k] := by
  simp [write, h]

/-- The first of several values stored after the others. -/
theorem write_cons (m : Memory α) (a : Nat) (x : α) (xs : List α) :
    m.write a (x :: xs) = (m.write (a + 1) xs).set a x := by
  funext i
  by_cases h : i = a
  · subst h
    simp [write]
  · rw [set_of_ne _ x h]
    by_cases hlo : a ≤ i
    · obtain ⟨k, rfl⟩ : ∃ k, i = a + 1 + k := ⟨i - (a + 1), by omega⟩
      simp only [write, if_pos hlo, if_pos (Nat.le_add_right _ _), Nat.add_sub_cancel_left]
      rw [show a + 1 + k - a = k + 1 by omega, List.getElem?_cons_succ]
    · rw [write_apply_lt _ _ (by omega), write_apply_lt _ _ (by omega)]

/-- Two writes one behind the other. -/
theorem write_append (m : Memory α) (a : Nat) (xs ys : List α) :
    (m.write a xs).write (a + xs.length) ys = m.write a (xs ++ ys) := by
  funext i
  simp only [write]
  by_cases hlo : a ≤ i
  · rw [if_pos hlo, if_pos hlo]
    by_cases hhi : a + xs.length ≤ i
    · rw [if_pos hhi, List.getElem?_eq_none (show xs.length ≤ i - a by omega),
        List.getElem?_append_right (by omega), show i - a - xs.length = i - (a + xs.length) by omega]
      rfl
    · rw [if_neg hhi, List.getElem?_append_left (by omega)]
  · rw [if_neg hlo, if_neg hlo, if_neg (by omega)]

/-- Reading back what was just written. -/
@[simp] theorem read_write_self (m : Memory α) (a : Nat) (xs : List α) :
    (m.write a xs).read a xs.length = xs := by
  apply List.ext_getElem?
  intro k
  rw [getElem?_read]
  split
  · rename_i h; rw [write_apply_add m a xs h, List.getElem?_eq_getElem h]
  · rename_i h; rw [List.getElem?_eq_none (by omega)]

/-- A read of a range the write does not touch is unchanged. -/
theorem read_write_disjoint (m : Memory α) {a b n : Nat} (xs : List α)
    (h : a + n ≤ b ∨ b + xs.length ≤ a) : (m.write b xs).read a n = m.read a n := by
  apply read_congr
  intro k hk
  exact write_apply_of_notMem m xs (by omega)

end Memory

end Tntsat
