import Tntsat.Native.PvrIndexPos

/-!
# Moving the read position frame by frame

`Pvr_Move_Readpos_forward` and `Pvr_Move_Readpos_backward` on a ring from `s` to `e`
whose last frame is `l`, and the two functions that put the read position of a handle
back into its ring with them.

The forward loop leaves the ring at its last frame for position 0, so it never stops at
`l`; the backward loop leaves it at position 0 for `l`, so it never stops at 0, and
from 0 itself it goes down through `2 ^ 32 - 1`.

## Key results

- `moves_iff`: the moves are right exactly for `SafeMove`, and the read position of a
  handle is put into its ring exactly for `SafeStart`.
-/

namespace Tntsat.PvrIndex

variable {s e l r n : Nat}

/-! ## Forward -/

@[simp] theorem moveReadposForward_zero : moveReadposForward s e l r 0 = r := rfl

@[simp] theorem moveReadposForward_end (n : Nat) : moveReadposForward s e l e n = e := by
  cases n with
  | zero => rfl
  | succ n => exact if_pos rfl

theorem moveReadposForward_succ (h : r ≠ e) (n : Nat) :
    moveReadposForward s e l r (n + 1) =
      moveReadposForward s e l (if u32 (r + 1) = l then 0 else u32 (r + 1)) n :=
  if_neg h

/-- Moves in one go. -/
theorem moveReadposForward_add (r n m : Nat) :
    moveReadposForward s e l r (n + m) =
      moveReadposForward s e l (moveReadposForward s e l r n) m := by
  induction n generalizing r with
  | zero => rw [Nat.zero_add, moveReadposForward_zero]
  | succ n ih =>
    by_cases h : r = e
    · rw [h, moveReadposForward_end, moveReadposForward_end, moveReadposForward_end]
    · rw [Nat.add_right_comm, moveReadposForward_succ h, moveReadposForward_succ h, ih]

/-- Nothing in the way: neither the end nor the last frame. -/
theorem moveReadposForward_straight (he : e < r ∨ r + n ≤ e) (hl : l ≤ r ∨ r + n < l)
    (hr : r + n < 4294967296) : moveReadposForward s e l r n = r + n := by
  induction n generalizing r with
  | zero => rfl
  | succ n ih =>
    rw [moveReadposForward_succ (by omega), u32_of_lt (by omega), if_neg (by omega),
      ih (by omega) (by omega) (by omega), Nat.add_right_comm, Nat.add_assoc]

/-- Up to an end that comes before the last frame. -/
theorem moveReadposForward_stop (hr : r ≤ e) (he : e < l) (hl : l < 4294967296) (n : Nat) :
    moveReadposForward s e l r n = min (r + n) e := by
  rcases Nat.le_total n (e - r) with h | h
  · rw [moveReadposForward_straight (by omega) (by omega) (by omega)]
    omega
  · have hstop : moveReadposForward s e l r (e - r) = e := by
      rw [moveReadposForward_straight (by omega) (by omega) (by omega)]
      omega
    rw [show n = (e - r) + (n - (e - r)) by omega, moveReadposForward_add, hstop,
      moveReadposForward_end]
    omega

/-- Up to the last frame, and from there to position 0. -/
theorem moveReadposForward_last (he : e < r ∨ l ≤ e) (hr : r < l) (hl : l < 4294967296) :
    moveReadposForward s e l r (l - r) = 0 := by
  have hlast : moveReadposForward s e l r (l - 1 - r) = l - 1 := by
    rw [moveReadposForward_straight (by omega) (by omega) (by omega)]
    omega
  rw [show l - r = (l - 1 - r) + 1 by omega, moveReadposForward_add, hlast,
    moveReadposForward_succ (by omega), show l - 1 + 1 = l by omega, u32_of_lt hl, if_pos rfl,
    moveReadposForward_zero]

/-- From the part behind the end over the last frame. -/
theorem moveReadposForward_wrapped (he : e < r) (hr : r < l) (hl : l < 4294967296)
    (hn : l ≤ r + n) : moveReadposForward s e l r n = min (r + n - l) e := by
  rw [show n = (l - r) + (r + n - l) by omega, moveReadposForward_add,
    moveReadposForward_last (.inl he) hr hl, moveReadposForward_stop (by omega) (by omega) hl]
  omega

/-- An end at the last frame is never met: the position goes round. -/
theorem moveReadposForward_circles (he : l ≤ e) (hr : r < l) (hl : l < 4294967296) (n : Nat) :
    moveReadposForward s e l r n = (r + n) % l := by
  induction n generalizing r with
  | zero => exact (Nat.mod_eq_of_lt hr).symm
  | succ n ih =>
    rw [moveReadposForward_succ (by omega), u32_of_lt (by omega)]
    split
    · rw [ih (by omega), show r + (n + 1) = l + n by omega, Nat.add_mod_left, Nat.zero_add]
    · rw [ih (by omega), Nat.add_right_comm, Nat.add_assoc]

/-- From the last frame or behind it the position leaves the ring, up to `2 ^ 32`. -/
theorem moveReadposForward_overflow (he : e < r) (hl : l ≤ r) (hr : r < 4294967296)
    (hn : 4294967296 ≤ r + n) :
    moveReadposForward s e l r n = moveReadposForward s e l 0 (r + n - 4294967296) := by
  have htop : moveReadposForward s e l r (4294967295 - r) = 4294967295 := by
    rw [moveReadposForward_straight (by omega) (by omega) (by omega)]
    omega
  have hzero : u32 (4294967295 + 1) = 0 := by decide
  conv_lhs =>
    rw [show n = (4294967295 - r) + ((r + n - 4294967296) + 1) by omega,
      moveReadposForward_add, htop, moveReadposForward_succ (by omega), hzero, ite_self]

/-! ## Backward -/

@[simp] theorem moveReadposBackward_zero : moveReadposBackward s e l r 0 = r := rfl

@[simp] theorem moveReadposBackward_start (n : Nat) : moveReadposBackward s e l s n = s := by
  cases n with
  | zero => rfl
  | succ n => exact if_pos rfl

theorem moveReadposBackward_succ (h : r ≠ s) (n : Nat) :
    moveReadposBackward s e l r (n + 1) =
      moveReadposBackward s e l (if u32sub r 1 = 0 then l else u32sub r 1) n :=
  if_neg h

theorem moveReadposBackward_add (r n m : Nat) :
    moveReadposBackward s e l r (n + m) =
      moveReadposBackward s e l (moveReadposBackward s e l r n) m := by
  induction n generalizing r with
  | zero => rw [Nat.zero_add, moveReadposBackward_zero]
  | succ n ih =>
    by_cases h : r = s
    · rw [h, moveReadposBackward_start, moveReadposBackward_start, moveReadposBackward_start]
    · rw [Nat.add_right_comm, moveReadposBackward_succ h, moveReadposBackward_succ h, ih]

/-- Nothing in the way: neither the start nor position 0. -/
theorem moveReadposBackward_straight (hs : r < s ∨ s ≤ r - n) (hn : n < r)
    (hr : r < 4294967296) : moveReadposBackward s e l r n = r - n := by
  induction n generalizing r with
  | zero => rfl
  | succ n ih =>
    rw [moveReadposBackward_succ (by omega), u32sub_of_le (by omega) hr, if_neg (by omega),
      ih (by omega) (by omega) (by omega), Nat.sub_sub, Nat.add_comm 1 n]

/-- Down to a start that is not position 0. -/
theorem moveReadposBackward_stop (hs : 0 < s) (hr : s ≤ r) (hlt : r < 4294967296) (n : Nat) :
    moveReadposBackward s e l r n = max (r - n) s := by
  rcases Nat.le_total n (r - s) with h | h
  · rw [moveReadposBackward_straight (by omega) (by omega) hlt]
    omega
  · have hstop : moveReadposBackward s e l r (r - s) = s := by
      rw [moveReadposBackward_straight (by omega) (by omega) hlt]
      omega
    rw [show n = (r - s) + (n - (r - s)) by omega, moveReadposBackward_add, hstop,
      moveReadposBackward_start]
    omega

/-- Down to position 0, which is left at once for the last frame. -/
theorem moveReadposBackward_last (hs : r < s ∨ s = 0) (hr : 0 < r) (hlt : r < 4294967296) :
    moveReadposBackward s e l r r = l := by
  obtain ⟨m, rfl⟩ := Nat.exists_eq_succ_of_ne_zero (Nat.ne_of_gt hr)
  have hone : moveReadposBackward s e l (m + 1) m = 1 := by
    rw [moveReadposBackward_straight (by omega) (by omega) hlt]
    omega
  have hzero : u32sub 1 1 = 0 := by decide
  rw [Nat.succ_eq_add_one, moveReadposBackward_add, hone, moveReadposBackward_succ (by omega),
    hzero, if_pos rfl, moveReadposBackward_zero]

/-- From the part before the start over position 0. -/
theorem moveReadposBackward_wrapped (hr : 0 < r) (hs : r < s) (hsl : s ≤ l)
    (hl : l < 4294967296) (hn : r ≤ n) :
    moveReadposBackward s e l r n = max (l + r - n) s := by
  rw [show n = r + (n - r) by omega, moveReadposBackward_add,
    moveReadposBackward_last (.inl hs) hr (by omega),
    moveReadposBackward_stop (by omega) hsl hl]
  congr 1
  omega

/-- A start at position 0 is never met. -/
theorem moveReadposBackward_pos (hr : 0 < r) (hrl : r ≤ l) (hl : l < 4294967296) (n : Nat) :
    0 < moveReadposBackward 0 e l r n := by
  induction n generalizing r with
  | zero => exact hr
  | succ n ih =>
    rw [moveReadposBackward_succ (by omega), u32sub_of_le (by omega) (by omega)]
    split
    · exact ih (by omega) (Nat.le_refl l)
    · exact ih (by omega) (by omega)

/-- From position 0 the position leaves the ring, down from `2 ^ 32`. -/
theorem moveReadposBackward_underflow (hs : 0 < s) (hsl : s < 4294967296) (hn : 0 < n) :
    moveReadposBackward s e l 0 n = max (4294967296 - n) s := by
  have htop : u32sub 0 1 = 4294967295 := by decide
  obtain ⟨m, rfl⟩ := Nat.exists_eq_succ_of_ne_zero (Nat.ne_of_gt hn)
  rw [Nat.succ_eq_add_one, moveReadposBackward_succ (by omega), htop, if_neg (by decide),
    moveReadposBackward_stop hs (by omega) (by decide)]
  congr 1
  omega

/-! ## The moves are right -/

/-- A position that `Pvr_Adjust_ReadInGoodRange` leaves alone. -/
def InGoodRange (s e l r : Nat) : Prop :=
  r ≤ l ∧ checkReadInRange s e r = true

theorem inGoodRange_iff : InGoodRange s e l r ↔
    r ≤ l ∧ (s ≤ e ∧ s ≤ r ∧ r ≤ e ∨ e < s ∧ (r ≤ e ∨ s ≤ r)) := by
  unfold InGoodRange checkReadInRange
  split <;> simp only [decide_eq_true_eq] <;> omega

theorem calcDistance_eq {x : Nat} (hs : s ≤ l) (hl : l < 4294967296) :
    calcDistance s l x = if s ≤ x then x - s else l + x - s := by
  unfold calcDistance
  split
  · rfl
  · rw [u32sub_of_le (by omega) hl]
    omega

/-- A forward move stays in the ring and goes `n` frames, or as many as there are to the
    end, counted by `Pvr_Calc_distance`. -/
def ForwardWell (s e l r n : Nat) : Prop :=
  InGoodRange s e l (moveReadposForward s e l r n) ∧
    calcDistance s l (moveReadposForward s e l r n) =
      calcDistance s l r + min n (calcDistance r l e)

/-- A backward move stays in the ring and goes `n` frames, or as many as there are from
    the start. -/
def BackwardWell (s e l r n : Nat) : Prop :=
  InGoodRange s e l (moveReadposBackward s e l r n) ∧
    calcDistance s l (moveReadposBackward s e l r n) + min n (calcDistance s l r) =
      calcDistance s l r

/-- A forward move that is not cut short is undone by the backward one. -/
def Undone (s e l r n : Nat) : Prop :=
  n ≤ calcDistance r l e → moveReadposBackward s e l (moveReadposForward s e l r n) n = r

section Ring

variable (hs : s ≤ l) (he : e ≤ l) (hl : l < 4294967296) (hr : InGoodRange s e l r)
  (hn : n < 4294967296)

include hs he hl hr hn

/-- A forward move goes wrong where the end is the last frame and the move reaches it,
    and where it begins at the last frame of a wrapped ring. -/
theorem forwardWell_iff : ForwardWell s e l r n ↔
    n = 0 ∨ s ≤ e ∧ (e < l ∨ r = l ∨ r + n < l) ∨
      e < s ∧ (r < l ∨ 4294967296 + e ≤ n + l) := by
  rw [inGoodRange_iff] at hr
  rw [ForwardWell, inGoodRange_iff, calcDistance_eq hs hl, calcDistance_eq hs hl,
    calcDistance_eq hr.1 hl]
  obtain ⟨hrl, ⟨hse, hsr, hre⟩ | ⟨hes, hring⟩⟩ := hr
  · rw [if_pos hsr, if_pos hre]
    by_cases hel : e < l
    · rw [moveReadposForward_stop hre hel hl, if_pos (by omega)]
      omega
    · by_cases hrn : r + n < l ∨ r = l
      · have hf : moveReadposForward s e l r n = min (r + n) e := by
          rcases hrn with hrn | hrn
          · rw [moveReadposForward_straight (by omega) (by omega) (by omega)]
            omega
          · rw [show r = e by omega, moveReadposForward_end]
            omega
        rw [hf, if_pos (by omega)]
        omega
      · -- it goes round below the end
        have hlt : (r + n) % l < l := Nat.mod_lt _ (by omega)
        rw [moveReadposForward_circles (by omega) (by omega) hl]
        split <;> omega
  · rcases Nat.lt_or_ge e r with her | hre
    · rw [if_pos (show s ≤ r by omega), if_neg (show ¬ r ≤ e by omega)]
      rcases Nat.lt_or_ge r l with hlt | hge
      · rcases Nat.lt_or_ge (r + n) l with hrn | hrn
        · rw [moveReadposForward_straight (by omega) (by omega) (by omega), if_pos (by omega)]
          omega
        · rw [moveReadposForward_wrapped her hlt hl hrn, if_neg (by omega)]
          omega
      · -- it leaves the ring, and comes back to the end only after 2 ^ 32
        rcases Nat.lt_or_ge (r + n) 4294967296 with hrn | hrn
        · rw [moveReadposForward_straight (by omega) (by omega) (by omega), if_pos (by omega)]
          omega
        · rw [moveReadposForward_overflow her hge (by omega) hrn,
            moveReadposForward_stop (by omega) (by omega) hl, if_neg (by omega)]
          omega
    · rw [moveReadposForward_stop hre (by omega) hl, if_neg (by omega), if_neg (by omega),
        if_pos hre]
      omega

/-- A backward move goes wrong where the start is position 0 and the move reaches it, and
    where it begins at position 0 of a wrapped ring. -/
theorem backwardWell_iff : BackwardWell s e l r n ↔
    n = 0 ∨ s ≤ e ∧ (0 < s ∨ r = 0 ∨ n < r) ∨ e < s ∧ (0 < r ∨ 4294967296 ≤ n + s) := by
  rw [inGoodRange_iff] at hr
  rw [BackwardWell, inGoodRange_iff, calcDistance_eq hs hl, calcDistance_eq hs hl]
  obtain ⟨hrl, ⟨hse, hsr, hre⟩ | ⟨hes, hring⟩⟩ := hr
  · rw [if_pos hsr]
    rcases Nat.eq_zero_or_pos s with rfl | hpos
    · by_cases hrn : n < r ∨ r = 0
      · have hb : moveReadposBackward 0 e l r n = r - n := by
          rcases hrn with hrn | rfl
          · exact moveReadposBackward_straight (by omega) hrn (by omega)
          · rw [moveReadposBackward_start, Nat.zero_sub]
        rw [hb, if_pos (by omega)]
        omega
      · -- it never stops at 0
        have hb := moveReadposBackward_pos (e := e) (show 0 < r by omega) hrl hl n
        rw [if_pos (by omega)]
        omega
    · rw [moveReadposBackward_stop hpos hsr (by omega), if_pos (by omega)]
      omega
  · rcases Nat.lt_or_ge r s with hrs | hsr
    · rw [if_neg (show ¬ s ≤ r by omega)]
      rcases Nat.eq_zero_or_pos r with rfl | hpos
      · rcases Nat.eq_zero_or_pos n with rfl | hn0
        · rw [moveReadposBackward_zero, if_neg (by omega)]
          omega
        · rw [moveReadposBackward_underflow (by omega) (by omega) hn0, if_pos (by omega)]
          omega
      · rcases Nat.lt_or_ge n r with hnr | hnr
        · rw [moveReadposBackward_straight (by omega) hnr (by omega), if_neg (by omega)]
          omega
        · rw [moveReadposBackward_wrapped hpos hrs hs hl hnr, if_pos (by omega)]
          omega
    · rw [moveReadposBackward_stop (by omega) hsr (by omega), if_pos hsr, if_pos (by omega)]
      omega

/-- Where the forward move is right, the backward one undoes it unless it comes to
    position 0: there it cannot stop, and from there it cannot go back. -/
theorem undone_iff (hf : ForwardWell s e l r n) : Undone s e l r n ↔
    n = 0 ∨ s ≤ e ∧ (0 < s ∨ 0 < r ∨ e < n) ∨
      e < s ∧ (0 < r ∨ e < n) ∧ (s ≤ r → r + n ≠ l) := by
  rw [forwardWell_iff hs he hl hr hn] at hf
  rw [inGoodRange_iff] at hr
  rw [Undone, calcDistance_eq hr.1 hl]
  rcases Nat.eq_zero_or_pos n with rfl | hn0
  · simp
  obtain ⟨hrl, ⟨hse, hsr, hre⟩ | ⟨hes, hring⟩⟩ := hr
  · rw [if_pos hre]
    rcases Nat.lt_or_ge (e - r) n with hcut | hle
    · omega
    rw [moveReadposForward_straight (by omega) (by omega) (by omega)]
    rcases Nat.eq_zero_or_pos s with rfl | hpos
    · rcases Nat.eq_zero_or_pos r with rfl | hr0
      · rw [Nat.zero_add, moveReadposBackward_last (.inr rfl) hn0 hn]
        omega
      · rw [moveReadposBackward_straight (by omega) (by omega) (by omega)]
        omega
    · rw [moveReadposBackward_stop hpos (by omega) (by omega)]
      omega
  · rcases Nat.lt_or_ge e r with her | hre
    · rw [if_neg (show ¬ r ≤ e by omega)]
      rcases Nat.lt_or_ge (l + e - r) n with hcut | hle
      · omega
      have hlt : r < l := by omega
      rcases Nat.lt_trichotomy (r + n) l with hrn | hrn | hrn
      · rw [moveReadposForward_straight (by omega) (by omega) (by omega),
          moveReadposBackward_stop (by omega) (by omega) (by omega)]
        omega
      · -- back from 0 it goes down from 2 ^ 32
        rw [show n = l - r by omega, moveReadposForward_last (.inl her) hlt hl,
          moveReadposBackward_underflow (by omega) (by omega) (by omega)]
        omega
      · rw [moveReadposForward_wrapped her hlt hl (by omega),
          show min (r + n - l) e = r + n - l by omega,
          moveReadposBackward_wrapped (by omega) (by omega) hs hl (by omega)]
        omega
    · rw [if_pos hre]
      rcases Nat.lt_or_ge (e - r) n with hcut | hle
      · omega
      rw [moveReadposForward_straight (by omega) (by omega) (by omega)]
      rcases Nat.eq_zero_or_pos r with rfl | hr0
      · rw [Nat.zero_add, moveReadposBackward_last (.inl (by omega)) hn0 hn]
        omega
      · rw [moveReadposBackward_straight (by omega) (by omega) (by omega)]
        omega

end Ring

/-- When the moves from `r` by `n` are right.  The last line of each case is about
    position 0: `Pvr_Move_Readpos_backward` does not stop there, and does not come back
    from there. -/
def SafeMove (s e l r n : Nat) : Prop :=
  n = 0 ∨
  s ≤ e ∧ (e < l ∨ r = l ∨ r + n < l) ∧
    (0 < s ∨ 0 < r ∧ n < r ∨ r = 0 ∧ e < n) ∨
  e < s ∧ (r < l ∨ 4294967296 + e ≤ n + l) ∧
    (0 < r ∨ 4294967296 ≤ n + s ∧ e < n) ∧ (s ≤ r → r + n ≠ l)

theorem movesWell_iff (hs : s ≤ l) (he : e ≤ l) (hl : l < 4294967296)
    (hr : InGoodRange s e l r) (hn : n < 4294967296) :
    ForwardWell s e l r n ∧ BackwardWell s e l r n ∧ Undone s e l r n ↔ SafeMove s e l r n := by
  rw [backwardWell_iff hs he hl hr hn, and_congr_right fun hf =>
    and_congr_right fun _ => undone_iff hs he hl hr hn hf, forwardWell_iff hs he hl hr hn,
    SafeMove]
  rw [inGoodRange_iff] at hr
  omega

/-! ## Putting a read position into the ring -/

/-- Where `Pvr_Move_Readpos_forward` from the start ends in the ring. -/
def SafeStart (s e l : Nat) : Prop :=
  s ≤ e ∧ (e < l ∨ s = l ∨ s ≤ (s + tplayMinDistance) % l) ∨
    e < s ∧ (s < l ∨ 4294967296 ≤ s + tplayMinDistance)

theorem moveReadposForward_start_iff (hs : s ≤ l + 1) (he : e ≤ l) (hl : l < 4294967295) :
    InGoodRange s e l (moveReadposForward s e l s tplayMinDistance) ↔ SafeStart s e l := by
  rw [inGoodRange_iff, SafeStart, tplayMinDistance]
  rcases Nat.lt_or_ge e s with hes | hse
  -- the good frames go around the end of the ring
  · rcases Nat.lt_or_ge s l with hsl | hls
    · rcases Nat.lt_or_ge (s + 120) l with hn | hn
      · rw [moveReadposForward_straight (by omega) (by omega) (by omega)]
        omega
      · rw [moveReadposForward_wrapped hes hsl (by omega) hn]
        omega
    · rcases Nat.lt_or_ge (s + 120) 4294967296 with hn | hn
      · rw [moveReadposForward_straight (by omega) (by omega) hn]
        omega
      -- the sum is cut off, and what is left of it counted from the front
      · have hk : moveReadposForward s e l 0 (s + 120 - 4294967296) =
            min (s + 120 - 4294967296) e := by
          rcases Nat.lt_or_ge e l with hel | hle
          · rw [moveReadposForward_stop (by omega) hel (by omega)]
            omega
          · rw [moveReadposForward_straight (by omega) (by omega) (by omega)]
            omega
        rw [moveReadposForward_overflow hes hls (by omega) hn, hk]
        omega
  -- the good frames lie between start and end, or everything is good
  · rcases Nat.lt_or_ge e l with hel | hle
    · rw [moveReadposForward_stop hse hel (by omega)]
      omega
    · rcases Nat.eq_or_lt_of_le (Nat.le_trans hse he) with rfl | hsl
      · rw [show e = s by omega, moveReadposForward_end]
        omega
      · have hlt : (s + 120) % l < l := Nat.mod_lt _ (by omega)
        rw [moveReadposForward_circles hle hsl (by omega)]
        omega

/-- `Pvr_Adjust_ReadInGoodRange` moves the read position to the start. -/
def AdjustsToStart (s e l r : Nat) (dirct : Bool) : Prop :=
  l < r ∨ checkReadInRange s e r = false ∧ dirct = true

/-- The read position of a handle lies in its ring, with the end and the last frame one
    less than in the handle. -/
def ReadInRange {σ : Type} (h : Index σ) : Prop :=
  InGoodRange h.stCycMgr.u32StartFrame (h.stCycMgr.u32EndFrame - 1)
    (h.stCycMgr.u32LastFrame - 1) h.u32ReadFrame

section Handle

variable {σ : Type} {h : Index σ} (hs : h.stCycMgr.u32StartFrame ≤ h.stCycMgr.u32LastFrame)
  (he : h.stCycMgr.u32EndFrame ≤ h.stCycMgr.u32LastFrame)
  (hl : h.stCycMgr.u32LastFrame < 4294967296)

include hs he hl

theorem seekToStartAndDistance_iff : ReadInRange (seekToStartAndDistance h) ↔
    SafeStart h.stCycMgr.u32StartFrame (h.stCycMgr.u32EndFrame - 1)
      (h.stCycMgr.u32LastFrame - 1) := by
  have hstart := moveReadposForward_start_iff (s := h.stCycMgr.u32StartFrame)
    (e := h.stCycMgr.u32EndFrame - 1) (l := h.stCycMgr.u32LastFrame - 1) (by omega) (by omega)
    (by omega)
  exact hstart

theorem adjustReadInGoodRange_iff (dirct : Bool) :
    ReadInRange (adjustReadInGoodRange h dirct) ↔
      (AdjustsToStart h.stCycMgr.u32StartFrame (h.stCycMgr.u32EndFrame - 1)
          (h.stCycMgr.u32LastFrame - 1) h.u32ReadFrame dirct →
        SafeStart h.stCycMgr.u32StartFrame (h.stCycMgr.u32EndFrame - 1)
          (h.stCycMgr.u32LastFrame - 1)) := by
  have hstart := seekToStartAndDistance_iff hs he hl
  unfold adjustReadInGoodRange
  dsimp only
  split
  · rename_i hlt
    exact ⟨fun h _ => hstart.mp h, fun h => hstart.mpr (h (.inl hlt))⟩
  rename_i hle
  split
  · rename_i hin
    have hstays : ReadInRange h := ⟨by omega, hin⟩
    refine ⟨fun _ hmove => ?_, fun _ => hstays⟩
    rcases hmove with hlt | ⟨hout, _⟩
    · exact absurd hlt hle
    · simp [hin] at hout
  rename_i hout
  split
  · rename_i hdirct
    exact ⟨fun h _ => hstart.mp h,
      fun h => hstart.mpr (h (.inr ⟨Bool.eq_false_iff.mpr hout, hdirct⟩))⟩
  · -- the end is in range
    rename_i hdirct
    have hend : ReadInRange { h with u32ReadFrame := h.stCycMgr.u32EndFrame - 1 } := by
      unfold ReadInRange
      rw [inGoodRange_iff]
      dsimp only
      omega
    refine ⟨fun _ hmove => ?_, fun _ => hend⟩
    rcases hmove with hlt | ⟨_, hd⟩
    · exact absurd hlt hle
    · exact absurd hd hdirct

end Handle

/-! ## All together -/

/-- The moves by `n` from a position of a ring are right exactly for `SafeMove`, and the
    functions that put a handle's read position into its ring do so exactly for
    `SafeStart`, where they move it to the start at all. -/
theorem moves_iff {σ : Type} (hs : s ≤ l) (he : e ≤ l) (hl : l < 4294967296)
    (hr : InGoodRange s e l r) (hn : n < 4294967296) (h : Index σ) (dirct : Bool)
    (hstart : h.stCycMgr.u32StartFrame ≤ h.stCycMgr.u32LastFrame)
    (hend : h.stCycMgr.u32EndFrame ≤ h.stCycMgr.u32LastFrame)
    (hlast : h.stCycMgr.u32LastFrame < 4294967296) :
    (ForwardWell s e l r n ∧ BackwardWell s e l r n ∧ Undone s e l r n ↔ SafeMove s e l r n) ∧
      (ReadInRange (adjustReadInGoodRange h dirct) ↔
        (AdjustsToStart h.stCycMgr.u32StartFrame (h.stCycMgr.u32EndFrame - 1)
            (h.stCycMgr.u32LastFrame - 1) h.u32ReadFrame dirct →
          SafeStart h.stCycMgr.u32StartFrame (h.stCycMgr.u32EndFrame - 1)
            (h.stCycMgr.u32LastFrame - 1))) ∧
      (ReadInRange (seekToStartAndDistance h) ↔
        SafeStart h.stCycMgr.u32StartFrame (h.stCycMgr.u32EndFrame - 1)
          (h.stCycMgr.u32LastFrame - 1)) :=
  ⟨movesWell_iff hs he hl hr hn, adjustReadInGoodRange_iff hstart hend hlast dirct,
    seekToStartAndDistance_iff hstart hend hlast⟩

/-- A wrapped ring, three frames forward over its last one. -/
theorem moves_iff_wrapped :
    let h : Index Unit := { store := (), stCycMgr :=
      { u32StartFrame := 25, u32EndFrame := 11, u32LastFrame := 99 } }
    (ForwardWell 25 10 98 97 3 ∧ BackwardWell 25 10 98 97 3 ∧ Undone 25 10 98 97 3 ↔
        SafeMove 25 10 98 97 3) ∧
      (ReadInRange (adjustReadInGoodRange h true) ↔
        (AdjustsToStart 25 10 98 0 true → SafeStart 25 10 98)) ∧
      (ReadInRange (seekToStartAndDistance h) ↔ SafeStart 25 10 98) :=
  moves_iff (by decide) (by decide) (by decide) ⟨by decide, by decide⟩ (by decide) _ true
    (by decide) (by decide) (by decide)

/-- Two frames back from frame 2 of a recording that does not loop end at its last
    frame; and one frame back from frame 0 of a wrapped ring ends at `2 ^ 32 - 1`. -/
theorem backward_misses_first :
    InGoodRange 0 8 9 2 ∧ moveReadposBackward 0 8 9 2 2 = 9 ∧ ¬ InGoodRange 0 8 9 9 ∧
      InGoodRange 25 10 98 0 ∧ moveReadposBackward 25 10 98 0 1 = 4294967295 := by
  refine ⟨⟨by decide, by decide⟩, by decide, fun h => absurd h.2 (by decide),
    ⟨by decide, by decide⟩, by decide⟩

end Tntsat.PvrIndex
