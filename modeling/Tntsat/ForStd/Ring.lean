import Tntsat.ForStd.Memory

/-!
# Cyclic buffers in a flat memory

A cyclic buffer is a range of `len` addresses starting at `start`; cell number
`k` lies at `start + k % len`.  `readRing` reads cells in cyclic order and
`writeRing` stores a list the way C code does it: one `memcpy` when it fits
before the end of the buffer, otherwise one up to the end and one from the
start.

The rule used by client proofs is `readRing_writeRing`: writing `xs` right
behind `n` unread cells, with room for both, appends `xs` to what is read.
-/

namespace Tntsat

/-- A position that passes the end of a buffer of length `len` at most once. -/
theorem wrap_eq {a len : Nat} (h : a < len + len) :
    a % len = if a < len then a else a - len := by
  split
  · exact Nat.mod_eq_of_lt ‹_›
  · rw [Nat.mod_eq_sub_mod (by omega), Nat.mod_eq_of_lt (by omega)]

/-- A position set back to the start when it reaches the end. -/
theorem wrap_end {a len : Nat} (hlen : 0 < len) (h : a ≤ len) :
    (if a = len then 0 else a) = a % len := by
  rw [wrap_eq (by omega)]
  split <;> split <;> omega

/-- Distinct offsets within one turn are distinct cells. -/
theorem wrap_ne {off len i j : Nat} (hij : i < j) (hj : j < i + len) :
    (off + i) % len ≠ (off + j) % len := by
  intro h
  have hd : len ∣ (off + j) - (off + i) := Nat.dvd_of_mod_eq_zero (Nat.sub_mod_eq_zero_of_mod_eq h.symm)
  have : len ≤ (off + j) - (off + i) := Nat.le_of_dvd (by omega) hd
  omega

namespace Memory

variable {α : Type*}

/-- The `n` cells from cell number `off` on, in cyclic order. -/
def readRing (m : Memory α) (start len off n : Nat) : List α :=
  (List.range n).map fun k => m (start + (off + k) % len)

/-- Store `xs` from cell number `off` on, with one copy or two. -/
def writeRing (m : Memory α) (start len off : Nat) (xs : List α) : Memory α :=
  if off + xs.length ≤ len then m.write (start + off) xs
  else (m.write (start + off) (xs.take (len - off))).write start (xs.drop (len - off))

@[simp] theorem length_readRing (m : Memory α) (start len off n : Nat) :
    (m.readRing start len off n).length = n := by
  simp [readRing]

@[simp] theorem readRing_zero (m : Memory α) (start len off : Nat) :
    m.readRing start len off 0 = [] := rfl

theorem readRing_add (m : Memory α) (start len off n k : Nat) :
    m.readRing start len off (n + k) =
      m.readRing start len off n ++ m.readRing start len (off + n) k := by
  simp only [readRing, List.range_add, List.map_append, List.map_map]
  congr 1
  apply List.map_congr_left
  intro i _
  simp [Nat.add_assoc]

/-- Only the residue of the first cell number matters. -/
@[simp] theorem readRing_mod (m : Memory α) (start len off n : Nat) :
    m.readRing start len (off % len) n = m.readRing start len off n := by
  simp [readRing]

/-- Reads that see the same cells are equal. -/
theorem readRing_congr {m m' : Memory α} {start len off n : Nat}
    (h : ∀ k, k < n → m (start + (off + k) % len) = m' (start + (off + k) % len)) :
    m.readRing start len off n = m'.readRing start len off n := by
  apply List.map_congr_left
  intro k hk
  exact h k (List.mem_range.mp hk)

/-- A cyclic read that stays before the end of the buffer is one copy. -/
theorem readRing_eq_read (m : Memory α) (start : Nat) {len off n : Nat} (h : off + n ≤ len) :
    m.readRing start len off n = m.read (start + off) n := by
  apply List.map_congr_left
  intro k hk
  have hk := List.mem_range.mp hk
  show m (start + (off + k) % len) = m (start + off + k)
  rw [Nat.mod_eq_of_lt (by omega), Nat.add_assoc]

/-- A cyclic read that passes the end of the buffer is two copies. -/
theorem readRing_eq_read_append (m : Memory α) (start : Nat) {len off n : Nat} (hoff : off ≤ len)
    (hn : len ≤ off + n) (hlen : n ≤ len) :
    m.readRing start len off n =
      m.read (start + off) (len - off) ++ m.read start (n - (len - off)) := by
  have hsplit : n = (len - off) + (n - (len - off)) := by omega
  conv_lhs => rw [hsplit, readRing_add]
  rw [readRing_eq_read m _ (by omega)]
  congr 1
  rw [← readRing_mod, show off + (len - off) = len by omega, Nat.mod_self,
    readRing_eq_read m _ (by omega)]
  rfl

/-- The value a cyclic write leaves in each cell it covers. -/
theorem writeRing_apply_mem (m : Memory α) {start len off k : Nat} (xs : List α)
    (hoff : off < len) (hlen : xs.length ≤ len) (hk : k < xs.length) :
    m.writeRing start len off xs (start + (off + k) % len) = xs[k] := by
  rw [wrap_eq (show off + k < len + len by omega)]
  unfold writeRing
  split
  · rw [if_pos (by omega), ← Nat.add_assoc, write_apply_add m _ xs hk]
  · split
    · -- the cell lies in the first of the two copies
      rw [write_apply_of_notMem _ _ (by simp; omega), ← Nat.add_assoc,
        write_apply_add m _ _ (by simp; omega)]
      simp
    · -- the cell lies behind the wrap
      rw [write_apply_add _ _ _ (by simp; omega), List.getElem_drop]
      congr 1; omega

/-- A cyclic write leaves every other cell of the buffer alone. -/
theorem writeRing_apply_of_notMem (m : Memory α) {start len off j : Nat} (xs : List α)
    (hoff : off < len) (hlen : xs.length ≤ len) (hj : j < len)
    (hout : ∀ k, k < xs.length → j ≠ (off + k) % len) :
    m.writeRing start len off xs (start + j) = m (start + j) := by
  have hout' : ∀ k, k < xs.length → j ≠ if off + k < len then off + k else off + k - len := by
    -- the same places without the remainder
    intro k hk
    rw [← wrap_eq (by omega)]
    exact hout k hk
  unfold writeRing
  split
  -- one write, or two that meet at the start
  · apply write_apply_of_notMem
    by_contra hc
    have h1 := hout' (j - off) (by omega)
    rw [if_pos (by omega)] at h1
    omega
  · rw [write_apply_of_notMem, write_apply_of_notMem]
    · by_contra hc
      simp only [List.length_take] at hc
      have h1 := hout' (j - off) (by omega)
      rw [if_pos (by omega)] at h1
      omega
    · by_contra hc
      simp only [List.length_drop] at hc
      have h1 := hout' (len - off + j) (by omega)
      rw [if_neg (by omega)] at h1
      omega

/-- Writing behind `n` unread cells, with room for all of it, leaves the unread
    cells alone and appends what was written. -/
theorem readRing_writeRing (m : Memory α) {start len off n : Nat} (xs : List α)
    (hoff : off < len) (hroom : n + xs.length ≤ len) :
    (m.writeRing start len ((off + n) % len) xs).readRing start len off (n + xs.length) =
      m.readRing start len off n ++ xs := by
  have hpos : (off + n) % len < len := Nat.mod_lt _ (by omega)
  rw [readRing_add]
  congr 1
  · apply readRing_congr
    intro k hk
    apply writeRing_apply_of_notMem m xs hpos (by omega) (Nat.mod_lt _ (by omega))
    intro i hi
    rw [Nat.mod_add_mod, Nat.add_assoc]
    exact wrap_ne (by omega) (by omega)
  · apply List.ext_getElem (by simp)
    intro k hk1 hk2
    have hcell : (off + n + k) % len = ((off + n) % len + k) % len := by rw [Nat.mod_add_mod]
    simp only [readRing, List.getElem_map, List.getElem_range, hcell]
    exact writeRing_apply_mem m xs hpos (by omega) hk2

/-- The first cell and the others. -/
theorem readRing_succ (m : Memory α) (start len off n : Nat) :
    m.readRing start len off (n + 1) =
      m (start + off % len) :: m.readRing start len (off + 1) n := by
  rw [Nat.add_comm n 1, readRing_add]
  rfl

/-- Setting the cell behind `n` unread ones, with room for it. -/
theorem readRing_set (m : Memory α) {start len off n : Nat} (x : α) (hroom : n < len) :
    (m.set (start + (off + n) % len) x).readRing start len off (n + 1) =
      m.readRing start len off n ++ [x] := by
  rw [readRing_add]
  congr 1
  · apply readRing_congr
    intro k hk
    apply set_of_ne
    have hne : (off + k) % len ≠ (off + n) % len := wrap_ne hk (by omega)
    omega
  · simp [readRing]

/-- Setting the oldest cell of a full turn makes it the last one. -/
theorem readRing_set_full (m : Memory α) {start len off : Nat} (x : α) (hlen : 0 < len) :
    (m.set (start + off % len) x).readRing start len (off + 1) len =
      (m.readRing start len off len).tail ++ [x] := by
  cases len with
  | zero => omega
  | succ n =>
    have hcell : off % (n + 1) = (off + 1 + n) % (n + 1) := by
      rw [Nat.add_assoc, Nat.add_comm 1 n, Nat.add_mod_right]
    conv_rhs => rw [readRing_succ, List.tail_cons]
    rw [hcell]
    exact readRing_set m x (Nat.lt_succ_self n)

end Memory

end Tntsat
