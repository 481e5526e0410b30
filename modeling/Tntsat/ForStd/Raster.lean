import Mathlib.Algebra.Group.Nat.Defs
import Mathlib.Data.List.Basic
import Mathlib.Data.List.Range

/-!
# Pictures, row by row

A picture of `w` columns and `h` rows is kept as the list of its rows, one after another: the
cell of column `col` and row `row` is the one at `row * w + col`.

## Key results

- `eq_rows_iff`: a list is a picture when each of its cells is
- `rows_add`: pictures one under another
- `append_replicate_comm_iff`: blank rows may stand behind or in front of blank rows only
-/

namespace Tntsat.Raster

variable {α : Type*}

/-- The rows of a picture, one after another. -/
def rows (w h : Nat) (f : Nat → Nat → α) : List α :=
  (List.range h).flatMap fun row => (List.range w).map fun col => f col row

@[simp] theorem length_rows (w h : Nat) (f : Nat → Nat → α) : (rows w h f).length = h * w := by
  simp [rows, List.length_flatMap]

@[simp] theorem rows_zero (w : Nat) (f : Nat → Nat → α) : rows w 0 f = [] := rfl

theorem rows_congr {w h : Nat} {f g : Nat → Nat → α}
    (hfg : ∀ row < h, ∀ col < w, f col row = g col row) : rows w h f = rows w h g := by
  refine List.flatMap_congr fun row hrow => List.map_congr_left fun col hcol => ?_
  exact hfg row (List.mem_range.mp hrow) col (List.mem_range.mp hcol)

/-- The rows of a picture are those of its upper and of its lower part. -/
theorem rows_add (w h k : Nat) (f : Nat → Nat → α) :
    rows w (h + k) f = rows w h f ++ rows w k fun col row => f col (h + row) := by
  simp only [rows, List.range_add, List.flatMap_append, List.flatMap_map]

theorem rows_const (w h : Nat) (c : α) : rows w h (fun _ _ => c) = List.replicate (h * w) c := by
  refine List.eq_replicate_iff.mpr ⟨length_rows w h _, fun b hb => ?_⟩
  simp only [rows, List.mem_flatMap, List.mem_map] at hb
  obtain ⟨_, _, _, _, rfl⟩ := hb
  rfl

/-- Every index of a picture is that of a column and a row. -/
theorem index_lt {w h col row : Nat} (hcol : col < w) (hrow : row < h) :
    row * w + col < h * w := by
  calc row * w + col < row * w + w := by omega
    _ = (row + 1) * w := by rw [Nat.add_mul, Nat.one_mul]
    _ ≤ h * w := Nat.mul_le_mul_right w hrow

theorem getElem?_rows {w h col row : Nat} (hcol : col < w) (hrow : row < h)
    (f : Nat → Nat → α) : (rows w h f)[row * w + col]? = some (f col row) := by
  induction h with
  | zero => omega
  | succ h ih =>
    rw [rows_add]
    by_cases hlast : row < h
    · rw [List.getElem?_append_left (by rw [length_rows]; exact index_lt hcol hlast), ih hlast]
    · obtain rfl : row = h := by omega
      rw [List.getElem?_append_right (by simp), length_rows, Nat.add_sub_cancel_left]
      simp [rows, hcol]

/-- A list is a picture when each of its cells is. -/
theorem eq_rows_iff {w h : Nat} {xs : List α} (hlen : xs.length = h * w) (f : Nat → Nat → α) :
    xs = rows w h f ↔ ∀ row < h, ∀ col < w, xs[row * w + col]? = some (f col row) := by
  constructor
  · rintro rfl row hrow col hcol
    exact getElem?_rows hcol hrow f
  · intro hcells
    refine List.ext_getElem? fun k => ?_
    by_cases hk : k < h * w
    · have hw : 0 < w := Nat.pos_of_ne_zero fun hw => by simp [hw] at hk
      have hrow : k / w < h := (Nat.div_lt_iff_lt_mul hw).mpr hk
      have hcol : k % w < w := Nat.mod_lt k hw
      rw [← Nat.div_add_mod' k w, hcells _ hrow _ hcol, getElem?_rows hcol hrow]
    · rw [List.getElem?_eq_none (by omega), List.getElem?_eq_none (by rw [length_rows]; omega)]

theorem rows_eq_rows_iff (w h : Nat) (f g : Nat → Nat → α) :
    rows w h f = rows w h g ↔ ∀ row < h, ∀ col < w, f col row = g col row := by
  rw [eq_rows_iff (length_rows w h f)]
  constructor
  · intro hcells row hrow col hcol
    have hcell := hcells row hrow col hcol
    rw [getElem?_rows hcol hrow] at hcell
    exact Option.some.inj hcell
  · intro hfg row hrow col hcol
    rw [getElem?_rows hcol hrow, hfg row hrow col hcol]

/-- Blank cells may stand behind or in front of blank cells only. -/
theorem append_replicate_comm_iff (xs : List α) (n : Nat) (c : α) :
    xs ++ List.replicate n c = List.replicate n c ++ xs ↔
      n = 0 ∨ xs = List.replicate xs.length c := by
  constructor
  · intro h
    cases n with
    | zero => exact .inl rfl
    | succ n =>
      right
      induction xs with
      | nil => rfl
      | cons x xs ih =>
        rw [List.replicate_succ, List.cons_append, List.cons_append, List.cons.injEq] at h
        obtain ⟨rfl, htail⟩ := h
        have hshift : List.replicate n x ++ x :: xs = List.replicate (n + 1) x ++ xs := by
          rw [List.replicate_succ', List.append_assoc, List.singleton_append]
        rw [List.length_cons, List.replicate_succ, ← ih (htail.trans hshift)]
  · rintro (rfl | hblank)
    · simp
    · rw [hblank, List.replicate_append_replicate, List.replicate_append_replicate, Nat.add_comm]

end Tntsat.Raster
