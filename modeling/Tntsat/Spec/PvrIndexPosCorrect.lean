import Tntsat.Native.PvrIndexPos

/-!
# Moving a position along the ring of frames

`PVRIndexCalcNewPos` is compared with arithmetic on natural numbers: `ahead` and
`behind` say where it goes, without machine integers.

## Key results

- `isFrameValid_calcNewPos`: the position that is returned can be played.
- `calcNewPos_add_iff`: moving by `a` and then by `b` is moving by `a + b`, unless the
  first move goes exactly one frame past the last one (`WrapsOntoFirst`,
  `WrapsOntoLast`), or the start and the end of the ring are one position and the first
  move is stopped there (`RestartsForward`, `RestartsBackward`).
-/

namespace Tntsat.PvrIndex

namespace CycMgr

/-- The ring lies below its last frame, and its positions are far from the bounds of an
    `int`. -/
structure InBounds (c : CycMgr) : Prop where
  start_le : c.u32StartFrame ≤ c.u32LastFrame
  end_le : c.u32EndFrame ≤ c.u32LastFrame
  last_lt : c.u32LastFrame < 1073741824

/-! ## Valid positions -/

variable {c : CycMgr} {p : Nat}

theorem isFrameValid_iff : c.isFrameValid p = true ↔
    c.u32StartFrame < c.u32EndFrame ∧ c.u32StartFrame ≤ p ∧ p ≤ c.u32EndFrame ∨
      c.u32EndFrame ≤ c.u32StartFrame ∧
        (c.u32StartFrame ≤ p ∧ p ≤ c.u32LastFrame ∨ p ≤ c.u32EndFrame) := by
  unfold isFrameValid
  split <;> simp only [decide_eq_true_eq] <;> omega

theorem le_last_of_isFrameValid (hc : c.InBounds) (hp : c.isFrameValid p = true) :
    p ≤ c.u32LastFrame := by
  have := isFrameValid_iff.mp hp
  have := hc.end_le
  omega

/-! ## Where the moves go -/

/-- The position `k` frames away from the start.  Past the last frame the source
    subtracts `u32LastFrame`, so position 1 is never reached from there. -/
def ahead (c : CycMgr) (p k : Nat) : Nat :=
  if c.u32EndFrame ≤ c.u32StartFrame ∧ c.u32StartFrame ≤ p then
    if p + k ≤ c.u32LastFrame then p + k
    else if p + k = c.u32LastFrame + 1 then 0
    else min (p + k - c.u32LastFrame) c.u32EndFrame
  else min (p + k) c.u32EndFrame

/-- The position `k` frames towards the start. -/
def behind (c : CycMgr) (p k : Nat) : Nat :=
  if c.u32EndFrame ≤ c.u32StartFrame ∧ p ≤ c.u32EndFrame then
    if k ≤ p then p - k
    else if k = p + 1 then c.u32LastFrame
    else max (c.u32LastFrame + p - k) c.u32StartFrame
  else max (p - k) c.u32StartFrame

theorem calcNewPos_natCast (hc : c.InBounds) (hp : c.isFrameValid p = true) {k : Nat}
    (hk : k < 2147483648) : c.calcNewPos p k = c.ahead p k := by
  have hle := le_last_of_isFrameValid hc hp
  have hlast := hc.last_lt
  have hnew : u32OfInt ((p : Int) + k) = p + k := by
    rw [u32OfInt_of_nonneg (by omega) (by omega)]
    omega
  have hsucc : u32 (c.u32LastFrame + 1) = c.u32LastFrame + 1 := u32_of_lt (by omega)
  rw [calcNewPos, if_pos hp, if_pos (Int.natCast_nonneg k), hnew, forwardNewPos, hsucc, ahead]
  by_cases hring : c.u32EndFrame ≤ c.u32StartFrame ∧ c.u32StartFrame ≤ p
  · rw [if_pos ⟨hring.1, hring.2, hle⟩, if_pos hring]
    split_ifs <;> dsimp only <;> split_ifs <;> omega
  · rw [if_neg (fun h => hring ⟨h.1, h.2.1⟩), if_neg hring]
    dsimp only
    split <;> omega

theorem calcNewPos_neg_natCast (hc : c.InBounds) (hp : c.isFrameValid p = true) {k : Nat}
    (hk0 : 0 < k) (hk : k ≤ 2147483648) : c.calcNewPos p (-(k : Int)) = c.behind p k := by
  have hle := le_last_of_isFrameValid hc hp
  have hlast := hc.last_lt
  have hstart := hc.start_le
  have hsigned : s32 (u32OfInt ((p : Int) + -(k : Int))) = p - k :=
    s32_u32OfInt (by omega) (by omega)
  have hS : s32 (c.u32StartFrame : Nat) = c.u32StartFrame := s32_of_range (by omega) (by omega)
  rw [calcNewPos, if_pos hp, if_neg (by omega), backwardNewPos, hsigned, behind]
  by_cases hring : c.u32EndFrame ≤ c.u32StartFrame ∧ p ≤ c.u32EndFrame
  · rw [if_pos hring, if_pos hring]
    by_cases hwrap : (p : Int) - k < 0
    · rw [if_pos hwrap, if_neg (show ¬ k ≤ p by omega)]
      by_cases hone : k = p + 1
      · have hL : s32 (c.u32LastFrame : Nat) = c.u32LastFrame := s32_of_range (by omega) (by omega)
        rw [if_pos (by omega), if_pos hone]
        dsimp only
        rw [hL, hS, if_neg (by omega)]
      · -- the sum with the last frame passes 2 ^ 32 unless it is negative again
        have hsum : u32 (c.u32LastFrame + u32OfInt ((p : Int) + -(k : Int))) =
            u32OfInt ((c.u32LastFrame : Int) + p - k) := by
          unfold u32 u32OfInt
          omega
        have hnew : s32 (u32OfInt ((c.u32LastFrame : Int) + p - k)) = c.u32LastFrame + p - k :=
          s32_u32OfInt (by omega) (by omega)
        rw [if_neg (by omega), if_neg hone]
        dsimp only
        rw [hsum, hnew, hS]
        split
        · omega
        · rw [u32OfInt_of_nonneg (by omega) (by omega)]
          omega
    · have hnew : u32OfInt ((p : Int) + -(k : Int)) = p - k := by
        rw [u32OfInt_of_nonneg (by omega) (by omega)]
        omega
      have h0 : s32 ((0 : Nat) : Int) = 0 := by decide
      rw [if_neg hwrap, if_pos (show k ≤ p by omega)]
      dsimp only
      rw [hsigned, h0, if_neg hwrap, hnew]
  · rw [if_neg hring, if_neg hring]
    dsimp only
    rw [hsigned, hS]
    split
    · omega
    · rw [u32OfInt_of_nonneg (by omega) (by omega)]
      omega

/-! ## The moves stay in the ring -/

theorem isFrameValid_ahead (hc : c.InBounds) (hp : c.isFrameValid p = true) (k : Nat) :
    c.isFrameValid (c.ahead p k) = true := by
  have hend := hc.end_le
  rw [isFrameValid_iff] at hp ⊢
  unfold ahead
  split_ifs <;> omega

theorem isFrameValid_behind (hc : c.InBounds) (hp : c.isFrameValid p = true) (k : Nat) :
    c.isFrameValid (c.behind p k) = true := by
  have hstart := hc.start_le
  have hend := hc.end_le
  rw [isFrameValid_iff] at hp ⊢
  unfold behind
  split_ifs <;> omega

/-- `PVRIndexCalcNewPos` returns a position that can be played. -/
theorem isFrameValid_calcNewPos (hc : c.InBounds) (hp : c.isFrameValid p = true) {a : Int}
    (hlo : -2147483648 ≤ a) (hhi : a < 2147483648) :
    c.isFrameValid (c.calcNewPos p a) = true := by
  rcases Int.eq_nat_or_neg a with ⟨k, rfl | rfl⟩
  · rw [calcNewPos_natCast hc hp (by omega)]
    exact isFrameValid_ahead hc hp k
  · rcases Nat.eq_zero_or_pos k with rfl | hk
    · rw [Int.natCast_zero, Int.neg_zero, ← Int.natCast_zero, calcNewPos_natCast hc hp (by omega)]
      exact isFrameValid_ahead hc hp 0
    · rw [calcNewPos_neg_natCast hc hp hk (by omega)]
      exact isFrameValid_behind hc hp k

/-! ## Two moves in one direction -/

/-- The first move goes one frame past the last one, to position 0, and the second does
    not reach the end from there: the code's ring has no position 1 behind 0. -/
def WrapsOntoFirst (c : CycMgr) (p : Nat) (a b : Int) : Prop :=
  c.u32EndFrame ≤ c.u32StartFrame ∧ c.u32StartFrame ≤ p ∧ p + a = c.u32LastFrame + 1 ∧ 0 < b ∧
    (b < c.u32EndFrame ∨ c.u32StartFrame = 0 ∧ b ≤ c.u32LastFrame)

/-- The first move goes one frame before position 0, to the last frame, and the second
    does not reach the start from there. -/
def WrapsOntoLast (c : CycMgr) (p : Nat) (a b : Int) : Prop :=
  c.u32EndFrame ≤ c.u32StartFrame ∧ p ≤ c.u32EndFrame ∧ p + a = -1 ∧ b < 0 ∧
    (c.u32StartFrame < c.u32LastFrame + b ∨
      c.u32EndFrame = c.u32StartFrame ∧ c.u32StartFrame = c.u32LastFrame ∧
        0 ≤ c.u32LastFrame + b)

/-- The end is the start, the first move is stopped there, and the second goes on from
    there as from the start and does not come back. -/
def RestartsForward (c : CycMgr) (p : Nat) (a b : Int) : Prop :=
  c.u32EndFrame = c.u32StartFrame ∧
    (p < c.u32StartFrame ∧ c.u32StartFrame ≤ p + a ∨
      c.u32StartFrame ≤ p ∧ c.u32LastFrame + 2 ≤ p + a ∧
        c.u32LastFrame + c.u32StartFrame ≤ p + a) ∧
    0 < b ∧ (b < c.u32LastFrame ∨ b = c.u32LastFrame ∧ c.u32StartFrame ≤ 1)

/-- The start is the end, the first move is stopped there, and the second goes on from
    there as from the end and does not come back. -/
def RestartsBackward (c : CycMgr) (p : Nat) (a b : Int) : Prop :=
  c.u32EndFrame = c.u32StartFrame ∧
    (c.u32StartFrame < p ∧ p + a ≤ c.u32StartFrame ∨
      p ≤ c.u32StartFrame ∧ p + a ≤ -2 ∧ c.u32LastFrame + p + a ≤ c.u32StartFrame) ∧
    b < 0 ∧ ¬(c.u32StartFrame + b ≤ -2 ∧ c.u32LastFrame + b ≤ 0) ∧
    ¬(c.u32StartFrame + b = -1 ∧ c.u32LastFrame = c.u32StartFrame)

/-- None of the four ways in which two moves differ from one. -/
structure MovesAdd (c : CycMgr) (p : Nat) (a b : Int) : Prop where
  not_first : ¬ c.WrapsOntoFirst p a b
  not_last : ¬ c.WrapsOntoLast p a b
  not_forward : ¬ c.RestartsForward p a b
  not_backward : ¬ c.RestartsBackward p a b

theorem ahead_zero (hc : c.InBounds) (hp : c.isFrameValid p = true) : c.ahead p 0 = p := by
  have hle := le_last_of_isFrameValid hc hp
  rw [isFrameValid_iff] at hp
  unfold ahead
  split_ifs <;> omega

theorem movesAdd_iff_of_nonneg {a b : Int} (hb : 0 ≤ b) :
    c.MovesAdd p a b ↔ ¬ c.WrapsOntoFirst p a b ∧ ¬ c.RestartsForward p a b := by
  constructor
  · intro h
    exact ⟨h.not_first, h.not_forward⟩
  · rintro ⟨h1, h2⟩
    exact ⟨h1, fun h => by have := h.2.2.2.1; omega, h2, fun h => by have := h.2.2.1; omega⟩

theorem movesAdd_iff_of_nonpos {a b : Int} (hb : b ≤ 0) :
    c.MovesAdd p a b ↔ ¬ c.WrapsOntoLast p a b ∧ ¬ c.RestartsBackward p a b := by
  constructor
  · intro h
    exact ⟨h.not_last, h.not_backward⟩
  · rintro ⟨h1, h2⟩
    exact ⟨fun h => by have := h.2.2.2.1; omega, h1, fun h => by have := h.2.2.1; omega, h2⟩

theorem ahead_lower (h : c.u32StartFrame < c.u32EndFrame ∨ p < c.u32StartFrame) (k : Nat) :
    c.ahead p k = min (p + k) c.u32EndFrame :=
  if_neg (by omega)

section Upper

variable (hE : c.u32EndFrame ≤ c.u32StartFrame) (hS : c.u32StartFrame ≤ p) {k : Nat}

include hE hS

theorem ahead_upper (h : p + k ≤ c.u32LastFrame) : c.ahead p k = p + k := by
  rw [ahead, if_pos ⟨hE, hS⟩, if_pos h]

theorem ahead_first (h : p + k = c.u32LastFrame + 1) : c.ahead p k = 0 := by
  rw [ahead, if_pos ⟨hE, hS⟩, if_neg (by omega), if_pos h]

theorem ahead_wrapped (h : c.u32LastFrame + 1 < p + k) :
    c.ahead p k = min (p + k - c.u32LastFrame) c.u32EndFrame := by
  rw [ahead, if_pos ⟨hE, hS⟩, if_neg (by omega), if_neg (by omega)]

/-- Up to the last frame a move is an addition. -/
theorem ahead_add_upper (a b : Nat) : c.ahead (p + a) b = c.ahead p (a + b) := by
  have hupper : c.u32EndFrame ≤ c.u32StartFrame ∧ c.u32StartFrame ≤ p + a := ⟨hE, by omega⟩
  unfold ahead
  rw [if_pos hupper, if_pos (And.intro hE hS), Nat.add_assoc]

end Upper

theorem ahead_ahead_of_lt (h : c.u32StartFrame < c.u32EndFrame) (a b : Nat) :
    c.ahead (c.ahead p a) b = c.ahead p (a + b) := by
  rw [ahead_lower (.inl h), ahead_lower (.inl h), ahead_lower (.inl h)]
  omega

theorem ahead_ahead_iff_of_gt (h : c.u32EndFrame < c.u32StartFrame) (a b : Nat) :
    c.ahead (c.ahead p a) b = c.ahead p (a + b) ↔
      ¬(c.u32StartFrame ≤ p ∧ p + a = c.u32LastFrame + 1 ∧ 0 < b ∧ b < c.u32EndFrame) := by
  rcases Nat.lt_or_ge p c.u32StartFrame with hp | hp
  · -- both moves stay before the end
    rw [ahead_lower (.inr hp), ahead_lower (.inr (by omega)), ahead_lower (.inr hp)]
    omega
  have hE := Nat.le_of_lt h
  rcases Nat.lt_trichotomy (p + a) (c.u32LastFrame + 1) with ha | ha | ha
  · rw [ahead_upper hE hp (by omega), ahead_add_upper hE hp]
    omega
  · rw [ahead_first hE hp ha, ahead_lower (.inr (by omega))]
    rcases Nat.eq_zero_or_pos b with rfl | hb
    · rw [ahead_first hE hp (by omega)]
      omega
    · rw [ahead_wrapped hE hp (by omega)]
      omega
  · rw [ahead_wrapped hE hp ha, ahead_lower (.inr (by omega)), ahead_wrapped hE hp (by omega)]
    omega

/-- Where the end is the start, a move from there comes back to it. -/
theorem ahead_start_eq_iff (hc : c.InBounds) (h : c.u32EndFrame = c.u32StartFrame) (b : Nat) :
    c.ahead c.u32StartFrame b = c.u32StartFrame ↔
      ¬(0 < b ∧ (b < c.u32LastFrame ∨ b = c.u32LastFrame ∧ c.u32StartFrame ≤ 1)) := by
  have hstart := hc.start_le
  rcases Nat.lt_trichotomy (c.u32StartFrame + b) (c.u32LastFrame + 1) with hb | hb | hb
  · rw [ahead_upper (Nat.le_of_eq h) (Nat.le_refl _) (by omega)]
    omega
  · rw [ahead_first (Nat.le_of_eq h) (Nat.le_refl _) hb]
    omega
  · rw [ahead_wrapped (Nat.le_of_eq h) (Nat.le_refl _) hb]
    omega

theorem ahead_ahead_iff_of_eq (hc : c.InBounds) (hle : p ≤ c.u32LastFrame)
    (h : c.u32EndFrame = c.u32StartFrame) (a b : Nat) :
    c.ahead (c.ahead p a) b = c.ahead p (a + b) ↔ c.MovesAdd p a b := by
  have hstart := hc.start_le
  have hback := ahead_start_eq_iff hc h b
  have hE := Nat.le_of_eq h
  rw [movesAdd_iff_of_nonneg (by omega), WrapsOntoFirst, RestartsForward]
  rcases Nat.lt_or_ge p c.u32StartFrame with hp | hp
  · rw [ahead_lower (.inr hp), ahead_lower (.inr hp)]
    rcases Nat.lt_or_ge (p + a) c.u32StartFrame with ha | ha
    · rw [ahead_lower (.inr (by omega))]
      omega
    · rw [show min (p + a) c.u32EndFrame = c.u32StartFrame by omega,
        show min (p + (a + b)) c.u32EndFrame = c.u32StartFrame by omega, hback]
      omega
  rcases Nat.lt_trichotomy (p + a) (c.u32LastFrame + 1) with ha | ha | ha
  · rw [ahead_upper hE hp (by omega), ahead_add_upper hE hp]
    omega
  · -- at position 0, which is the start itself when that is 0
    have hsum : c.ahead p (a + b) = if b = 0 then 0 else min (1 + b) c.u32EndFrame := by
      split
      · exact ahead_first hE hp (by omega)
      · rw [ahead_wrapped hE hp (by omega)]
        omega
    rw [ahead_first hE hp ha, hsum]
    rcases Nat.eq_zero_or_pos c.u32StartFrame with h0 | h0
    · rw [h0] at hback
      split <;> omega
    · rw [ahead_lower (.inr h0)]
      split <;> omega
  · rw [ahead_wrapped hE hp ha, ahead_wrapped hE hp (by omega)]
    rcases Nat.lt_or_ge (p + a - c.u32LastFrame) c.u32StartFrame with hq | hq
    · rw [ahead_lower (.inr (by omega))]
      omega
    · rw [show min (p + a - c.u32LastFrame) c.u32EndFrame = c.u32StartFrame by omega,
        show min (p + (a + b) - c.u32LastFrame) c.u32EndFrame = c.u32StartFrame by omega, hback]
      omega

theorem behind_lower (h : c.u32StartFrame < c.u32EndFrame ∨ c.u32EndFrame < p) (k : Nat) :
    c.behind p k = max (p - k) c.u32StartFrame :=
  if_neg (by omega)

section Lower

variable (hE : c.u32EndFrame ≤ c.u32StartFrame) (hp : p ≤ c.u32EndFrame) {k : Nat}

include hE hp

theorem behind_upper (h : k ≤ p) : c.behind p k = p - k := by
  rw [behind, if_pos ⟨hE, hp⟩, if_pos h]

theorem behind_last (h : k = p + 1) : c.behind p k = c.u32LastFrame := by
  rw [behind, if_pos ⟨hE, hp⟩, if_neg (by omega), if_pos h]

theorem behind_wrapped (h : p + 1 < k) :
    c.behind p k = max (c.u32LastFrame + p - k) c.u32StartFrame := by
  rw [behind, if_pos ⟨hE, hp⟩, if_neg (by omega), if_neg (by omega)]

/-- Down to position 0 a move is a subtraction. -/
theorem behind_sub_upper {a : Nat} (ha : a ≤ p) (b : Nat) :
    c.behind (p - a) b = c.behind p (a + b) := by
  rcases Nat.lt_trichotomy (a + b) (p + 1) with h | h | h
  · rw [behind_upper hE (by omega) (by omega), behind_upper hE hp (by omega)]
    omega
  · rw [behind_last hE (by omega) (by omega), behind_last hE hp h]
  · rw [behind_wrapped hE (by omega) (by omega), behind_wrapped hE hp h]
    congr 1
    omega

end Lower

theorem behind_behind_of_lt (h : c.u32StartFrame < c.u32EndFrame) (a b : Nat) :
    c.behind (c.behind p a) b = c.behind p (a + b) := by
  rw [behind_lower (.inl h), behind_lower (.inl h), behind_lower (.inl h)]
  omega

theorem behind_behind_iff_of_gt (hc : c.InBounds) (h : c.u32EndFrame < c.u32StartFrame)
    (a b : Nat) :
    c.behind (c.behind p a) b = c.behind p (a + b) ↔
      ¬(p ≤ c.u32EndFrame ∧ a = p + 1 ∧ 0 < b ∧ c.u32StartFrame + b < c.u32LastFrame) := by
  have hstart := hc.start_le
  rcases Nat.lt_or_ge c.u32EndFrame p with hp | hp
  · -- both moves stay behind the start
    rw [behind_lower (.inr hp), behind_lower (.inr (by omega)), behind_lower (.inr hp)]
    omega
  have hE := Nat.le_of_lt h
  rcases Nat.lt_trichotomy a (p + 1) with ha | ha | ha
  · rw [behind_upper hE hp (by omega), behind_sub_upper hE hp (by omega)]
    omega
  · rw [behind_last hE hp ha, behind_lower (.inr (by omega))]
    rcases Nat.eq_zero_or_pos b with rfl | hb
    · rw [behind_last hE hp (by omega)]
      omega
    · rw [behind_wrapped hE hp (by omega)]
      omega
  · rw [behind_wrapped hE hp ha, behind_lower (.inr (by omega)), behind_wrapped hE hp (by omega)]
    omega

/-- Where the start is the end, a move from there comes back to it. -/
theorem behind_start_eq_iff (h : c.u32EndFrame = c.u32StartFrame) (b : Nat) :
    c.behind c.u32StartFrame b = c.u32StartFrame ↔
      b = 0 ∨ (c.u32StartFrame + 2 ≤ b ∧ c.u32LastFrame ≤ b) ∨
        (b = c.u32StartFrame + 1 ∧ c.u32LastFrame = c.u32StartFrame) := by
  rcases Nat.lt_trichotomy b (c.u32StartFrame + 1) with hb | hb | hb
  · rw [behind_upper (Nat.le_of_eq h) (Nat.le_of_eq h.symm) (by omega)]
    omega
  · rw [behind_last (Nat.le_of_eq h) (Nat.le_of_eq h.symm) hb]
    omega
  · rw [behind_wrapped (Nat.le_of_eq h) (Nat.le_of_eq h.symm) hb]
    omega

theorem behind_behind_iff_of_eq (hc : c.InBounds) (hle : p ≤ c.u32LastFrame)
    (h : c.u32EndFrame = c.u32StartFrame) (a b : Nat) :
    c.behind (c.behind p a) b = c.behind p (a + b) ↔ c.MovesAdd p (-(a : Int)) (-(b : Int)) := by
  have hstart := hc.start_le
  have hback := behind_start_eq_iff h b
  have hE := Nat.le_of_eq h
  rw [movesAdd_iff_of_nonpos (by omega), WrapsOntoLast, RestartsBackward]
  rcases Nat.lt_or_ge c.u32EndFrame p with hp | hp
  · rw [behind_lower (.inr hp), behind_lower (.inr hp)]
    rcases Nat.lt_or_ge c.u32StartFrame (p - a) with ha | ha
    · rw [behind_lower (.inr (by omega))]
      omega
    · rw [show max (p - a) c.u32StartFrame = c.u32StartFrame by omega,
        show max (p - (a + b)) c.u32StartFrame = c.u32StartFrame by omega, hback]
      omega
  rcases Nat.lt_trichotomy a (p + 1) with ha | ha | ha
  · rw [behind_upper hE hp (by omega), behind_sub_upper hE hp (by omega)]
    omega
  · -- at the last frame, which is the end itself when there is nothing behind it
    have hsum : c.behind p (a + b) =
        if b = 0 then c.u32LastFrame else max (c.u32LastFrame - 1 - b) c.u32StartFrame := by
      split
      · exact behind_last hE hp (by omega)
      · rw [behind_wrapped hE hp (by omega)]
        omega
    rw [behind_last hE hp ha, hsum]
    rcases Nat.lt_or_ge c.u32StartFrame c.u32LastFrame with h0 | h0
    · rw [behind_lower (.inr (by omega))]
      split <;> omega
    · have hmax : (if b = 0 then c.u32LastFrame else max (c.u32LastFrame - 1 - b) c.u32StartFrame)
          = c.u32StartFrame := by
        split <;> omega
      rw [hmax, show c.u32LastFrame = c.u32StartFrame by omega, hback]
      omega
  · rw [behind_wrapped hE hp ha, behind_wrapped hE hp (by omega)]
    rcases Nat.lt_or_ge c.u32StartFrame (c.u32LastFrame + p - a) with hq | hq
    · rw [behind_lower (.inr (by omega))]
      omega
    · rw [show max (c.u32LastFrame + p - a) c.u32StartFrame = c.u32StartFrame by omega,
        show max (c.u32LastFrame + p - (a + b)) c.u32StartFrame = c.u32StartFrame by omega, hback]
      omega

theorem ahead_ahead_iff (hc : c.InBounds) (hp : c.isFrameValid p = true) (a b : Nat) :
    c.ahead (c.ahead p a) b = c.ahead p (a + b) ↔ c.MovesAdd p a b := by
  rcases Nat.lt_trichotomy c.u32StartFrame c.u32EndFrame with h | h | h
  · rw [ahead_ahead_of_lt h, movesAdd_iff_of_nonneg (by omega), WrapsOntoFirst, RestartsForward]
    omega
  · exact ahead_ahead_iff_of_eq hc (le_last_of_isFrameValid hc hp) h.symm a b
  · rw [ahead_ahead_iff_of_gt h, movesAdd_iff_of_nonneg (by omega), WrapsOntoFirst,
      RestartsForward]
    omega

theorem behind_behind_iff (hc : c.InBounds) (hp : c.isFrameValid p = true) (a b : Nat) :
    c.behind (c.behind p a) b = c.behind p (a + b) ↔
      c.MovesAdd p (-(a : Int)) (-(b : Int)) := by
  rcases Nat.lt_trichotomy c.u32StartFrame c.u32EndFrame with h | h | h
  · rw [behind_behind_of_lt h, movesAdd_iff_of_nonpos (by omega), WrapsOntoLast,
      RestartsBackward]
    omega
  · exact behind_behind_iff_of_eq hc (le_last_of_isFrameValid hc hp) h.symm a b
  · rw [behind_behind_iff_of_gt hc h, movesAdd_iff_of_nonpos (by omega), WrapsOntoLast,
      RestartsBackward]
    omega

/-- A move by nothing. -/
theorem calcNewPos_zero (hc : c.InBounds) (hp : c.isFrameValid p = true) :
    c.calcNewPos p 0 = p := by
  rw [← Int.natCast_zero, calcNewPos_natCast hc hp (by omega), ahead_zero hc hp]

/-- The position returned by `PVRIndexCalcNewPos` can be played, and moving by `a` and
    then by `b` is moving by `a + b` exactly when neither move is one of the four that
    `MovesAdd` excludes. -/
theorem calcNewPos_add_iff (hc : c.InBounds) (hp : c.isFrameValid p = true) {a b : Int}
    (hsign : 0 ≤ a ∧ 0 ≤ b ∨ a ≤ 0 ∧ b ≤ 0) (hlo : -2147483648 ≤ a + b)
    (hhi : a + b < 2147483648) :
    c.isFrameValid (c.calcNewPos p a) = true ∧
      (c.calcNewPos (c.calcNewPos p a) b = c.calcNewPos p (a + b) ↔ c.MovesAdd p a b) := by
  have hq := isFrameValid_calcNewPos hc hp (show -2147483648 ≤ a by omega) (by omega)
  refine ⟨hq, ?_⟩
  rcases hsign with ⟨ha, hb⟩ | ⟨ha, hb⟩
  · obtain ⟨a, rfl⟩ := Int.eq_ofNat_of_zero_le ha
    obtain ⟨b, rfl⟩ := Int.eq_ofNat_of_zero_le hb
    rw [calcNewPos_natCast hc hp (by omega)] at hq ⊢
    rw [calcNewPos_natCast hc hq (by omega), ← Int.natCast_add,
      calcNewPos_natCast hc hp (by omega), ahead_ahead_iff hc hp]
  · obtain ⟨a, rfl⟩ := Int.exists_eq_neg_ofNat ha
    obtain ⟨b, rfl⟩ := Int.exists_eq_neg_ofNat hb
    have hle := le_last_of_isFrameValid hc hp
    rcases Nat.eq_zero_or_pos a with rfl | ha
    · -- nothing happens in the first move, and it is none of the four
      rw [show -((0 : Nat) : Int) = 0 by rfl, calcNewPos_zero hc hp, Int.zero_add,
        movesAdd_iff_of_nonpos hb, WrapsOntoLast, RestartsBackward]
      omega
    rcases Nat.eq_zero_or_pos b with rfl | hb'
    · rw [show -((0 : Nat) : Int) = 0 by rfl, calcNewPos_zero hc hq, Int.add_zero,
        movesAdd_iff_of_nonpos (Int.le_refl 0), WrapsOntoLast, RestartsBackward]
      omega
    rw [calcNewPos_neg_natCast hc hp ha (by omega)] at hq ⊢
    rw [calcNewPos_neg_natCast hc hq hb' (by omega), ← Int.neg_add, ← Int.natCast_add,
      calcNewPos_neg_natCast hc hp (by omega) (by omega), behind_behind_iff hc hp]

/-- Two frames back from the end of a wrapped ring, one at a time, stay in it. -/
theorem calcNewPos_add_iff_wrapped :
    let c : CycMgr := { u32StartFrame := 25, u32EndFrame := 10, u32LastFrame := 99 }
    c.isFrameValid (c.calcNewPos 1 (-1)) = true ∧
      (c.calcNewPos (c.calcNewPos 1 (-1)) (-1) = c.calcNewPos 1 (-2) ↔ c.MovesAdd 1 (-1) (-1)) :=
  calcNewPos_add_iff ⟨by decide, by decide, by decide⟩ (by decide) (by decide) (by decide)
    (by decide)

/-- One frame and then another from the last frame of a wrapped ring are not two. -/
theorem calcNewPos_ne_of_wraps :
    let c : CycMgr := { u32StartFrame := 25, u32EndFrame := 10, u32LastFrame := 99 }
    c.InBounds ∧ c.isFrameValid 99 = true ∧
      c.calcNewPos (c.calcNewPos 99 1) 1 ≠ c.calcNewPos 99 (1 + 1) :=
  ⟨⟨by decide, by decide, by decide⟩, by decide, by decide⟩

end CycMgr

end Tntsat.PvrIndex
