import Mathlib.Algebra.Group.Nat.Defs
import Mathlib.Data.Nat.Find
import Tntsat.Native.PvrIndexSeek
import Tntsat.Spec.PvrIndexPosCorrect

/-!
# Seeking by time

The stored frames of a ring follow one another from the start to the last frame and on
from position 0.  `PVR_Index_SeekToTime` should start at the last of them whose display
time is not behind the time that is asked for.

The bisection never returns its upper bound, so the last frame of each part is missed,
and the distance from the start that is handed on names the frame before or none where
the frame is one of the first two behind the wrap.

## Key results

- `seachByTime_spec`: the frame that the bisection returns.
- `seekToTime_iff`: exactly when the frame found is the right one and the search for an
  I frame starts there.
-/

namespace Tntsat.PvrIndex

open PvrIdxCache (sizeofEntry)

/-! ## The bisection -/

/-- The bisection returns, within as many calls as there are frames between its bounds,
    the last frame below the upper bound that is not behind the time, or the lower
    bound. -/
theorem seachByTime_spec {file : SeekFile} (t fuel start stop : Nat) (hlt : start < stop)
    (hfuel : stop - start ≤ fuel) (hstop : stop < 2147483648)
    (hread : ∀ i, start < i → i < stop → ∃ e, file.read i = .entry e)
    (hmono : ∀ i j, start ≤ i → i ≤ j → j < stop → file.time i ≤ file.time j) :
    ∃ r, seachByTime file t fuel start stop = some r ∧ start ≤ r ∧ r < stop ∧
      (r = start ∨ file.time r ≤ t) ∧ ∀ i, r < i → i < stop → t < file.time i := by
  induction fuel generalizing start stop with
  | zero => omega
  | succ fuel ih =>
    rw [seachByTime, u32_of_lt (by omega)]
    generalize hm : (start + stop) / 2 = target
    rcases Nat.eq_or_lt_of_le (show start ≤ target by omega) with heq | hgt
    · rw [if_pos (.inl heq.symm)]
      exact ⟨target, rfl, by omega, by omega, .inl heq.symm, fun i h1 h2 => by omega⟩
    rw [if_neg (by omega)]
    obtain ⟨e, he⟩ := hread target hgt (by omega)
    have htime : file.time target = e.u32DisplayTimeMs := by
      unfold SeekFile.time
      rw [he]
    rw [he]
    dsimp only
    split
    · -- the frame is not behind the time
      obtain ⟨r, hr, hle, hlt', hin, hbehind⟩ := ih target stop (by omega) (by omega)
        hstop (fun i h1 h2 => hread i (by omega) h2) (fun i j h1 h2 h3 => hmono i j (by omega) h2 h3)
      refine ⟨r, hr, by omega, hlt', ?_, hbehind⟩
      rcases hin with rfl | hin
      · exact .inr (by omega)
      · exact .inr hin
    · obtain ⟨r, hr, hle, hlt', hin, hbehind⟩ := ih start target (by omega) (by omega)
        (by omega) (fun i h1 h2 => hread i h1 (by omega))
        (fun i j h1 h2 h3 => hmono i j h1 h2 (by omega))
      refine ⟨r, hr, hle, by omega, hin, fun i h1 h2 => ?_⟩
      rcases Nat.lt_or_ge i target with hi | hi
      · exact hbehind i h1 hi
      · have := hmono target i (by omega) hi h2
        omega

/-- With one bound the bisection returns it. -/
theorem seachByTime_self (file : SeekFile) (t start : Nat) {fuel : Nat} (hfuel : 0 < fuel)
    (hstart : start < 2147483648) : seachByTime file t fuel start start = some start := by
  obtain ⟨fuel, rfl⟩ := Nat.exists_eq_succ_of_ne_zero (Nat.ne_of_gt hfuel)
  rw [Nat.succ_eq_add_one, seachByTime, u32_of_lt (by omega),
    show (start + start) / 2 = start by omega, if_pos (.inl rfl)]

/-! ## The stored frames -/

/-- The number of frames that are stored, where `n` is the number of those from position
    0 on: one up to the end, or up to the frame before it. -/
def CycMgr.count (c : CycMgr) (n : Nat) : Nat :=
  if c.u32StartFrame < c.u32EndFrame then n - c.u32StartFrame
  else c.u32LastFrame + 1 - c.u32StartFrame + n

/-- The position of the `k`-th stored frame. -/
def CycMgr.frameAt (c : CycMgr) (k : Nat) : Nat :=
  if c.u32StartFrame < c.u32EndFrame ∨ c.u32StartFrame + k ≤ c.u32LastFrame then
    c.u32StartFrame + k
  else k - (c.u32LastFrame + 1 - c.u32StartFrame)

/-- A ring whose stored frames can be read and are in the order of their times.  Whether
    the end is the last frame or the position behind it depends on where the ring comes
    from. -/
structure SeekState (c : CycMgr) (n : Nat) (file : SeekFile) : Prop where
  shape : c.u32StartFrame < c.u32EndFrame ∧ c.u32EndFrame ≤ c.u32LastFrame ∨
    c.u32EndFrame ≤ c.u32StartFrame ∧ c.u32StartFrame ≤ c.u32LastFrame ∧ n ≤ c.u32StartFrame
  stored : n = c.u32EndFrame ∨ n = c.u32EndFrame + 1
  fits : (c.u32LastFrame + 1) * sizeofEntry ≤ 4294967296
  readable : ∀ k, k < c.count n → ∃ e, file.read (c.frameAt k) = .entry e
  ordered : ∀ j k, j ≤ k → k < c.count n → file.time (c.frameAt j) ≤ file.time (c.frameAt k)

/-- The last stored frame whose display time is not behind `t`. -/
def LastAt (c : CycMgr) (n : Nat) (file : SeekFile) (t f : Nat) : Prop :=
  ∃ k, k < c.count n ∧ c.frameAt k = f ∧ file.time f ≤ t ∧
    ∀ j, k < j → j < c.count n → t < file.time (c.frameAt j)

/-- The frames of a wrapped ring from the start to the last position. -/
theorem CycMgr.frameAt_sub {c : CycMgr} (n : Nat) (h : c.u32EndFrame ≤ c.u32StartFrame) {f : Nat}
    (h1 : c.u32StartFrame ≤ f) (h2 : f ≤ c.u32LastFrame) :
    c.frameAt (f - c.u32StartFrame) = f ∧ f - c.u32StartFrame < c.count n := by
  unfold CycMgr.frameAt CycMgr.count
  rw [if_pos (by omega), if_neg (by omega)]
  omega

section State

variable {c : CycMgr} {n : Nat} {file : SeekFile} (hs : SeekState c n file)

include hs

theorem SeekState.inBounds : c.InBounds := by
  have hfits := hs.fits
  have hshape := hs.shape
  unfold sizeofEntry at hfits
  constructor <;> omega

/-- There is a last frame. -/
theorem SeekState.exists_lastAt {t : Nat} (ht : file.time c.u32StartFrame ≤ t) :
    ∃ f, LastAt c n file t f := by
  have hshape := hs.shape
  have hstored := hs.stored
  have hpos : 0 < c.count n := by
    unfold CycMgr.count
    split <;> omega
  have hfirst : c.frameAt 0 = c.u32StartFrame := by
    unfold CycMgr.frameAt
    split <;> omega
  let k := Nat.findGreatest (fun k => file.time (c.frameAt k) ≤ t) (c.count n - 1)
  have hk : k ≤ c.count n - 1 := Nat.findGreatest_le _
  refine ⟨c.frameAt k, k, by omega, rfl, ?_, fun j h1 h2 => ?_⟩
  · have hzero : file.time (c.frameAt 0) ≤ t := by rwa [hfirst]
    exact Nat.findGreatest_spec (P := fun k => file.time (c.frameAt k) ≤ t) (Nat.zero_le _) hzero
  · exact Nat.lt_of_not_le
      (Nat.findGreatest_is_greatest (P := fun k => file.time (c.frameAt k) ≤ t) h1 (by omega))

/-- The frames of a ring that is not wrapped. -/
theorem SeekState.straight (h : c.u32StartFrame < c.u32EndFrame) :
    (∀ f, c.u32StartFrame ≤ f → f < n → ∃ e, file.read f = .entry e) ∧
      (∀ f g, c.u32StartFrame ≤ f → f ≤ g → g < n → file.time f ≤ file.time g) ∧
      ∀ t f, LastAt c n file t f → c.u32StartFrame ≤ f ∧ f < n ∧ file.time f ≤ t ∧
        ∀ i, f < i → i < n → t < file.time i := by
  have hframe (k : Nat) : c.frameAt k = c.u32StartFrame + k := if_pos (.inl h)
  have hcount : c.count n = n - c.u32StartFrame := if_pos h
  refine ⟨fun f h1 h2 => ?_, fun f g h1 h2 h3 => ?_, fun t f hl => ?_⟩
  · obtain ⟨e, he⟩ := hs.readable (f - c.u32StartFrame) (by omega)
    rw [hframe, Nat.add_sub_cancel' h1] at he
    exact ⟨e, he⟩
  · have hle := hs.ordered (f - c.u32StartFrame) (g - c.u32StartFrame) (by omega) (by omega)
    rwa [hframe, hframe, Nat.add_sub_cancel' h1, Nat.add_sub_cancel' (Nat.le_trans h1 h2)] at hle
  · obtain ⟨k, hk, rfl, htime, hbehind⟩ := hl
    rw [hframe] at htime ⊢
    refine ⟨by omega, by omega, htime, fun i h1 h2 => ?_⟩
    have hlt := hbehind (i - c.u32StartFrame) (by omega) (by omega)
    rwa [hframe, Nat.add_sub_cancel' (by omega)] at hlt

/-- The frames from position 0 on. -/
theorem SeekState.lower (h : c.u32EndFrame ≤ c.u32StartFrame) {f : Nat} (hf : f < n) :
    c.frameAt (c.u32LastFrame + 1 - c.u32StartFrame + f) = f ∧
      c.u32LastFrame + 1 - c.u32StartFrame + f < c.count n := by
  have hshape := hs.shape
  unfold CycMgr.frameAt CycMgr.count
  rw [if_neg (by omega), if_neg (by omega)]
  omega

/-- The last frame of a wrapped ring not behind a time lies in one part or the other. -/
theorem SeekState.lastAt_cases (h : c.u32EndFrame ≤ c.u32StartFrame) {t f : Nat}
    (hl : LastAt c n file t f) :
    file.time f ≤ t ∧
      ((c.u32StartFrame ≤ f ∧ f ≤ c.u32LastFrame ∧
          (∀ i, f < i → i ≤ c.u32LastFrame → t < file.time i) ∧
          ∀ i, i < n → t < file.time i) ∨
        (f < n ∧ ∀ i, f < i → i < n → t < file.time i)) := by
  obtain ⟨k, hk, rfl, htime, hbehind⟩ := hl
  refine ⟨htime, ?_⟩
  rcases Nat.lt_or_ge c.u32LastFrame (c.u32StartFrame + k) with hlow | hup
  -- position `k` is in the newer part, at the front of the file
  · right
    have hframe : c.frameAt k = k - (c.u32LastFrame + 1 - c.u32StartFrame) := if_neg (by omega)
    have hcount : c.count n = c.u32LastFrame + 1 - c.u32StartFrame + n := if_neg (by omega)
    rw [hframe]
    refine ⟨by omega, fun i h1 h2 => ?_⟩
    obtain ⟨hi, hlt⟩ := hs.lower h h2
    rw [← hi]
    exact hbehind _ (by omega) hlt
  -- it is in the older part, and all of the newer part lies behind it
  · left
    have hframe : c.frameAt k = c.u32StartFrame + k := if_pos (.inr hup)
    rw [hframe]
    refine ⟨by omega, hup, fun i h1 h2 => ?_, fun i h2 => ?_⟩
    · obtain ⟨hi, hlt⟩ := c.frameAt_sub n h (by omega) h2
      rw [← hi]
      exact hbehind _ (by omega) hlt
    · obtain ⟨hi, hlt⟩ := hs.lower h h2
      rw [← hi]
      exact hbehind _ (by omega) hlt

/-- The order of the times in a wrapped ring. -/
theorem SeekState.wrapped_le (h : c.u32EndFrame ≤ c.u32StartFrame) :
    (∀ f g, c.u32StartFrame ≤ f → f ≤ g → g ≤ c.u32LastFrame → file.time f ≤ file.time g) ∧
      (∀ f, f < n → file.time c.u32LastFrame ≤ file.time f) ∧
      ∀ f g, f ≤ g → g < n → file.time f ≤ file.time g := by
  have hshape := hs.shape
  refine ⟨fun f g h1 h2 h3 => ?_, fun f hf => ?_, fun f g h1 h2 => ?_⟩
  · obtain ⟨hf, -⟩ := c.frameAt_sub n h h1 (Nat.le_trans h2 h3)
    obtain ⟨hg, hlt⟩ := c.frameAt_sub n h (Nat.le_trans h1 h2) h3
    have hle := hs.ordered _ _ (show f - c.u32StartFrame ≤ g - c.u32StartFrame by omega) hlt
    rwa [hf, hg] at hle
  · obtain ⟨hl, -⟩ := c.frameAt_sub n h (show c.u32StartFrame ≤ c.u32LastFrame by omega)
      (Nat.le_refl _)
    obtain ⟨hf', hlt⟩ := hs.lower h hf
    have hle := hs.ordered _ _ (show c.u32LastFrame - c.u32StartFrame ≤
      c.u32LastFrame + 1 - c.u32StartFrame + f by omega) hlt
    rwa [hl, hf'] at hle
  · obtain ⟨hf, -⟩ := hs.lower h (Nat.lt_of_le_of_lt h1 h2)
    obtain ⟨hg, hlt⟩ := hs.lower h h2
    have hle := hs.ordered _ _ (Nat.add_le_add_left h1 _) hlt
    rwa [hf, hg] at hle

theorem SeekState.wrapped_readable (h : c.u32EndFrame ≤ c.u32StartFrame) {f : Nat}
    (hf : c.u32StartFrame ≤ f ∧ f ≤ c.u32LastFrame ∨ f < n) : ∃ e, file.read f = .entry e := by
  rcases hf with ⟨h1, h2⟩ | h1
  · obtain ⟨hf, hlt⟩ := c.frameAt_sub n h h1 h2
    rw [← hf]
    exact hs.readable _ hlt
  · obtain ⟨hf, hlt⟩ := hs.lower h h1
    rw [← hf]
    exact hs.readable _ hlt

/-! ## The frame that is found -/

omit hs in
/-- When `PVRIndexFindFrameByTime` returns the last frame not behind `t`: it is not the last
    one of its part of the ring, which the bisection does not return, and in a wrapped
    ring there is one in the part from position 0 where the time lies behind the last
    frame of the other. -/
def FindsFrame (c : CycMgr) (n : Nat) (file : SeekFile) (t : Nat) : Prop :=
  if c.u32StartFrame < c.u32EndFrame then n = c.u32EndFrame ∨ t < file.time c.u32EndFrame
  else
    t < file.time c.u32LastFrame ∨
    (t = file.time c.u32LastFrame ∧ c.u32StartFrame = c.u32LastFrame ∧
      (n = 0 ∨ t < file.time 0)) ∨
    (file.time c.u32LastFrame < t ∧
      (n = 0 ∧ c.u32LastFrame = 0 ∨
        0 < n ∧ file.time 0 ≤ t ∧
          (n ≤ c.u32EndFrame ∨ c.u32EndFrame = 0 ∨ t < file.time c.u32EndFrame)))

theorem findFrameByTime_straight (h : c.u32StartFrame < c.u32EndFrame) {t f fuel : Nat}
    (hl : LastAt c n file t f) (hfuel : c.u32LastFrame < fuel) :
    ∃ r, findFrameByTime file c t fuel = some r ∧ r < c.u32EndFrame ∧
      (r = f ↔ FindsFrame c n file t) := by
  have hshape := hs.shape
  have hstored := hs.stored
  have hlast := hs.inBounds.last_lt
  obtain ⟨hread, hmono, hcases⟩ := hs.straight h
  obtain ⟨hf1, hf2, hf3, hf4⟩ := hcases t f hl
  obtain ⟨r, hr, hr1, hr2, hr3, hr4⟩ := seachByTime_spec t fuel _ _ h (by omega)
    (by omega) (fun i h1 h2 => hread i (by omega) (by omega))
    (fun i j h1 h2 h3 => hmono i j h1 h2 (by omega))
  refine ⟨r, ?_, hr2, ?_⟩
  · rw [findFrameByTime, if_pos h, hr]
  rw [FindsFrame, if_pos h]
  constructor
  · rintro rfl
    -- the answer is below the end, where times are not behind `t`
    rcases hstored with hn | hn
    · exact .inl hn
    · exact .inr (hf4 _ hr2 (by omega))
  · intro hn
    -- the frame itself is below the end
    have hfe : f < c.u32EndFrame := by
      rcases hn with hn | hn
      · omega
      · by_contra hge
        have hfe : f = c.u32EndFrame := by omega
        rw [hfe] at hf3
        omega
    rcases Nat.lt_trichotomy r f with hrf | hrf | hrf
    · exact absurd (hr4 f hrf hfe) (by omega)
    · exact hrf
    · have hrt := hf4 r hrf (by omega)
      rcases hr3 with hr3 | hr3 <;> omega

/-- The search in the part of a wrapped ring that ends with its last position. -/
theorem findFrameByTime_upper (h : c.u32EndFrame ≤ c.u32StartFrame) {t f fuel : Nat}
    (hl : LastAt c n file t f) (hfuel : c.u32LastFrame < fuel)
    (hstart : file.time c.u32StartFrame ≤ t) (ht : t ≤ file.time c.u32LastFrame) :
    ∃ r, seachByTime file t fuel c.u32StartFrame c.u32LastFrame = some r ∧
      (r = f ↔ FindsFrame c n file t) := by
  have hshape := hs.shape
  have hlast := hs.inBounds.last_lt
  obtain ⟨hup, hcross, hlow⟩ := hs.wrapped_le h
  obtain ⟨hft, hcases⟩ := hs.lastAt_cases h hl
  rw [FindsFrame, if_neg (Nat.not_lt.mpr h)]
  rcases Nat.eq_or_lt_of_le (show c.u32StartFrame ≤ c.u32LastFrame by omega) with heq | hlt
  · -- the start is the last position: it is returned
    refine ⟨c.u32LastFrame, ?_, ?_⟩
    · rw [heq]
      exact seachByTime_self file t _ (by omega) (by omega)
    rw [heq] at hstart
    constructor
    · rintro rfl
      rcases hcases with ⟨-, -, -, hbehind⟩ | ⟨hfn, -⟩
      · refine .inr (.inl ⟨by omega, heq, ?_⟩)
        exact (Nat.eq_zero_or_pos n).imp_right (hbehind 0)
      · omega
    · intro hfinds
      rcases hcases with ⟨hf1, hf2, -⟩ | ⟨hfn, -⟩
      · omega
      · have := hlow 0 f (Nat.zero_le f) hfn
        omega
  · obtain ⟨r, hr, hr1, hr2, hr3, hr4⟩ := seachByTime_spec t fuel _ _ hlt (by omega)
      (by omega) (fun i h1 h2 => hs.wrapped_readable h (.inl ⟨by omega, by omega⟩))
      (fun i j h1 h2 h3 => hup i j h1 h2 (by omega))
    refine ⟨r, hr, ?_⟩
    constructor
    · rintro rfl
      rcases hcases with ⟨-, -, hbehind, -⟩ | ⟨hfn, -⟩
      · exact .inl (hbehind _ hr2 (Nat.le_refl _))
      · omega
    · intro hfinds
      have htl : t < file.time c.u32LastFrame := by omega
      rcases hcases with ⟨hf1, hf2, hbehind, -⟩ | ⟨hfn, -⟩
      · have hfl : f ≠ c.u32LastFrame := by
          rintro rfl
          omega
        rcases Nat.lt_trichotomy r f with hrf | hrf | hrf
        · exact absurd (hr4 f hrf (by omega)) (by omega)
        · exact hrf
        · have := hbehind r hrf (by omega)
          rcases hr3 with hr3 | hr3 <;> omega
      · have := hcross f hfn
        omega

/-- The search in the part of a wrapped ring from position 0. -/
theorem findFrameByTime_lower (h : c.u32EndFrame ≤ c.u32StartFrame) {t f fuel : Nat}
    (hl : LastAt c n file t f) (hfuel : c.u32LastFrame < fuel)
    (ht : file.time c.u32LastFrame < t) :
    ∃ r, (if c.u32EndFrame = 0 then some c.u32EndFrame
        else seachByTime file t fuel 0 c.u32EndFrame) = some r ∧
      (r = f ↔ FindsFrame c n file t) := by
  have hshape := hs.shape
  have hstored := hs.stored
  have hlast := hs.inBounds.last_lt
  obtain ⟨hup, hcross, hlow⟩ := hs.wrapped_le h
  obtain ⟨hft, hcases⟩ := hs.lastAt_cases h hl
  rw [FindsFrame, if_neg (Nat.not_lt.mpr h)]
  -- with no frame at the front the search is skipped, and frame 0 is the answer
  by_cases hE : c.u32EndFrame = 0
  · refine ⟨0, by rw [if_pos hE, hE], ?_⟩
    constructor
    · rintro rfl
      rcases hcases with ⟨hf1, hf2, hbehind, -⟩ | ⟨hfn, -⟩
      · have hL : c.u32LastFrame = 0 := by
          by_contra hne
          exact absurd (hbehind _ (Nat.pos_of_ne_zero hne) (Nat.le_refl _)) (by omega)
        exact .inr (.inr ⟨ht, .inl ⟨by omega, hL⟩⟩)
      · exact .inr (.inr ⟨ht, .inr ⟨hfn, hft, .inr (.inl hE)⟩⟩)
    · intro hfinds
      rcases hcases with ⟨hf1, hf2, -, hbehind⟩ | ⟨hfn, -⟩
      · rcases Nat.eq_zero_or_pos n with hn | hn
        · omega
        · have := hbehind 0 hn
          omega
      · omega
  -- otherwise the search runs over the front of the file, where the times ascend
  · obtain ⟨r, hr, -, hr2, hr3, hr4⟩ := seachByTime_spec t fuel _ _
      (show 0 < c.u32EndFrame by omega) (by omega) (by omega)
      (fun i h1 h2 => hs.wrapped_readable h (.inr (by omega)))
      (fun i j h1 h2 h3 => hlow i j h2 (by omega))
    refine ⟨r, by rw [if_neg hE, hr], ?_⟩
    constructor
    · rintro rfl
      -- the answer lies in the front, so `f` does
      rcases hcases with ⟨hf1, -⟩ | ⟨hfn, hbehind⟩
      · omega
      · have h0 := hlow 0 r (Nat.zero_le r) hfn
        refine .inr (.inr ⟨ht, .inr ⟨by omega, by omega, ?_⟩⟩)
        rcases hstored with hn | hn
        · exact .inl (Nat.le_of_eq hn)
        · exact .inr (.inr (hbehind _ hr2 (by omega)))
    · intro hfinds
      rcases hcases with ⟨hf1, -, -, hbehind⟩ | ⟨hfn, hbehind⟩
      · have := hbehind 0 (by omega)
        omega
      · have hfe : f < c.u32EndFrame := by
          by_contra hge
          obtain rfl : f = c.u32EndFrame := by omega
          omega
        -- neither a smaller nor a greater number fits what the search ends with
        rcases Nat.lt_trichotomy r f with hrf | hrf | hrf
        · exact absurd (hr4 f hrf hfe) (by omega)
        · exact hrf
        · have := hbehind r hrf (by omega)
          rcases hr3 with hr3 | hr3 <;> omega

theorem findFrameByTime_wrapped (h : c.u32EndFrame ≤ c.u32StartFrame) {t f fuel : Nat}
    (hl : LastAt c n file t f) (hfuel : c.u32LastFrame < fuel)
    (hstart : file.time c.u32StartFrame ≤ t) :
    ∃ r, findFrameByTime file c t fuel = some r ∧ (r = f ↔ FindsFrame c n file t) := by
  have hshape := hs.shape
  obtain ⟨e, he⟩ := hs.wrapped_readable h
    (.inl ⟨show c.u32StartFrame ≤ c.u32LastFrame by omega, Nat.le_refl _⟩)
  have htime : file.time c.u32LastFrame = e.u32DisplayTimeMs := by
    unfold SeekFile.time
    rw [he]
  rw [findFrameByTime, if_neg (by omega), he]
  dsimp only
  rw [← htime]
  split
  · exact findFrameByTime_upper hs h hl hfuel hstart ‹_›
  · exact findFrameByTime_lower hs h hl hfuel (by omega)

end State

/-! ## Where the search for an I frame starts -/

namespace CycMgr

variable {c : CycMgr}

/-- A position handed on as its distance from the start is reached from there, unless it is
    one of the first two behind the wrap: the distance does not count the step from the
    last frame to position 0, and the move takes that step only for the position right
    behind the last frame. -/
theorem calcNewPos_offsetFromStart (hc : c.InBounds) {f : Nat} (hf : c.isFrameValid f = true) :
    c.calcNewPos c.u32StartFrame (s32 (c.offsetFromStart f)) = f ↔
      c.u32StartFrame ≤ f ∨ 2 ≤ f := by
  have hfl := le_last_of_isFrameValid hc hf
  have hstart := hc.start_le
  have hlast := hc.last_lt
  have hvalid : c.isFrameValid c.u32StartFrame = true := by
    rw [isFrameValid_iff]
    omega
  rw [isFrameValid_iff] at hf
  have hoff : c.offsetFromStart f = if c.u32StartFrame ≤ f then f - c.u32StartFrame
      else c.u32LastFrame - c.u32StartFrame + f := by
    unfold offsetFromStart
    rw [if_pos (isFrameValid_iff.mpr hf), u32sub_of_le hstart (by omega)]
    dsimp only
    rw [u32_of_lt (by omega)]
  have hlt : c.offsetFromStart f < 2147483648 := by
    rw [hoff]
    split <;> omega
  rw [s32_of_range (by omega) (by omega), calcNewPos_natCast hc hvalid hlt, hoff, ahead]
  split_ifs <;> omega

/-- A position handed on as it is. -/
theorem calcNewPos_unchanged (hc : c.InBounds) {f : Nat} (hf : f ≤ c.u32LastFrame)
    (hend : f < c.u32EndFrame ∨ c.u32EndFrame ≤ c.u32StartFrame) :
    c.calcNewPos c.u32StartFrame (s32 f) = f ↔
      c.u32StartFrame = 0 ∨ c.u32EndFrame ≤ c.u32StartFrame ∧
        c.u32StartFrame = c.u32LastFrame ∧ 2 ≤ f ∧ f ≤ c.u32EndFrame := by
  have hstart := hc.start_le
  have hlast := hc.last_lt
  have hvalid : c.isFrameValid c.u32StartFrame = true := by
    rw [isFrameValid_iff]
    omega
  rw [s32_of_range (by omega) (by omega), calcNewPos_natCast hc hvalid (by omega), ahead]
  split_ifs <;> omega

end CycMgr

/-- When the search for an I frame starts at the frame that was found, where that is the
    right one: in a recording that loops it is not one of the first two behind the wrap,
    in any other the start is position 0 (or, where the ring is wrapped all the same, the
    start is its last position and the frame is at most the end). -/
def LandsOnFrame (c : CycMgr) (n : Nat) (file : SeekFile) (t : Nat) : Prop :=
  if c.bIsRewind then
    c.u32EndFrame ≤ c.u32StartFrame → file.time c.u32LastFrame < t → 0 < n →
      2 < n ∧ file.time 2 ≤ t
  else
    c.u32StartFrame = 0 ∨ c.u32EndFrame ≤ c.u32StartFrame ∧ c.u32StartFrame = c.u32LastFrame ∧
      (t = file.time c.u32LastFrame ∧ c.u32EndFrame = c.u32StartFrame ∧ 2 ≤ c.u32StartFrame ∨
        file.time c.u32LastFrame < t ∧ 2 < n ∧ file.time 2 ≤ t)

section State

variable {c : CycMgr} {n : Nat} {file : SeekFile} (hs : SeekState c n file)

include hs

/-- The part of a wrapped ring that the frame lies in shows in the times. -/
theorem lower_iff (h : c.u32EndFrame ≤ c.u32StartFrame) {t f : Nat} (hl : LastAt c n file t f)
    (hfinds : FindsFrame c n file t) :
    (f < n ∧ (2 ≤ f ↔ 2 < n ∧ file.time 2 ≤ t) ∧ file.time c.u32LastFrame < t ∧ 0 < n) ∨
      (c.u32StartFrame ≤ f ∧ f ≤ c.u32LastFrame ∧
        (0 < n → t ≤ file.time c.u32LastFrame) ∧
        (t = file.time c.u32LastFrame → f = c.u32LastFrame)) := by
  obtain ⟨hup, hcross, hlow⟩ := hs.wrapped_le h
  obtain ⟨hft, hcases⟩ := hs.lastAt_cases h hl
  rw [FindsFrame, if_neg (Nat.not_lt.mpr h)] at hfinds
  rcases hcases with ⟨hf1, hf2, hbehind, hbehind'⟩ | ⟨hfn, hbehind⟩
  · refine .inr ⟨hf1, hf2, fun hn => ?_, fun ht => ?_⟩
    · have := hbehind' 0 hn
      omega
    · by_contra hne
      have := hbehind c.u32LastFrame (by omega) (Nat.le_refl _)
      omega
  · have h0 := hlow 0 f (Nat.zero_le f) hfn
    have hL := hcross f hfn
    have hL0 := hcross 0 (by omega)
    refine .inl ⟨hfn, ⟨fun h2 => ?_, fun ⟨h2, h2'⟩ => ?_⟩, by omega, by omega⟩
    · have := hlow 2 f h2 hfn
      exact ⟨by omega, by omega⟩
    · by_contra hlt
      have := hbehind 2 (by omega) h2
      omega

theorem lands_iff {σ : Type} {h : Index σ} (hc : h.stCycMgr = c) {t f : Nat}
    (hl : LastAt c n file t f) (hfinds : FindsFrame c n file t)
    (hend : f < c.u32EndFrame ∨ c.u32EndFrame ≤ c.u32StartFrame) :
    (seekByFrame2ISet h (s32 (if h.stCycMgr.bIsRewind then h.stCycMgr.offsetFromStart f
      else f : Nat))).u32ReadFrame = f ↔ LandsOnFrame c n file t := by
  have hshape := hs.shape
  have hstored := hs.stored
  have hbounds := hs.inBounds
  -- the frame is stored and not behind `t`
  obtain ⟨hft, hfl⟩ : file.time f ≤ t ∧ f ≤ c.u32LastFrame := by
    rcases Nat.lt_or_ge c.u32StartFrame c.u32EndFrame with h | h
    · obtain ⟨-, -, hcases⟩ := hs.straight h
      exact ⟨(hcases t f hl).2.2.1, by omega⟩
    · obtain ⟨hft, hcases⟩ := hs.lastAt_cases h hl
      exact ⟨hft, by omega⟩
  have hlast : f = c.u32LastFrame → file.time c.u32LastFrame ≤ t := fun h => h ▸ hft
  rw [seekByFrame2ISet, cycMoveReadFrame, hc, LandsOnFrame]
  dsimp only
  cases c.bIsRewind with
  | true =>
    -- rewinding: the number is counted from the start of the cycle and back
    rw [if_pos rfl, if_pos rfl]
    rcases Nat.lt_or_ge c.u32StartFrame c.u32EndFrame with h | h
    · obtain ⟨-, -, hcases⟩ := hs.straight h
      obtain ⟨hf1, hf2, -⟩ := hcases t f hl
      rw [CycMgr.calcNewPos_offsetFromStart hbounds (CycMgr.isFrameValid_iff.mpr (by omega))]
      omega
    · have hcases := lower_iff hs h hl hfinds
      rw [CycMgr.calcNewPos_offsetFromStart hbounds (CycMgr.isFrameValid_iff.mpr (by omega))]
      omega
  | false =>
    -- not rewinding: the number is the position
    rw [if_neg Bool.false_ne_true, if_neg Bool.false_ne_true,
      CycMgr.calcNewPos_unchanged hbounds hfl hend]
    rcases Nat.lt_or_ge c.u32StartFrame c.u32EndFrame with h | h
    · omega
    · have hcases := lower_iff hs h hl hfinds
      omega

/-- `PVRIndexFindFrameByTime` returns a frame, and exactly under the two conditions it is
    the last stored frame not behind `t` and the search for an I frame starts there. -/
theorem seekToTime_iff {σ : Type} (h : Index σ) (hc : h.stCycMgr = c) {t fuel : Nat}
    (hstart : file.time c.u32StartFrame ≤ t) (hfuel : c.u32LastFrame < fuel) :
    ∃ f r h', LastAt c n file t f ∧ findFrameByTime file c t fuel = some r ∧
      seekToTime file h t fuel = some h' ∧
      (r = f ∧ h'.u32ReadFrame = f ↔ FindsFrame c n file t ∧ LandsOnFrame c n file t) := by
  have hshape := hs.shape
  obtain ⟨f, hl⟩ := hs.exists_lastAt hstart
  obtain ⟨r, hr, hrE, hiff⟩ : ∃ r, findFrameByTime file c t fuel = some r ∧
      (r < c.u32EndFrame ∨ c.u32EndFrame ≤ c.u32StartFrame) ∧ (r = f ↔ FindsFrame c n file t) := by
    rcases Nat.lt_or_ge c.u32StartFrame c.u32EndFrame with h | h
    · obtain ⟨r, hr, hlt, hiff⟩ := findFrameByTime_straight hs h hl hfuel
      exact ⟨r, hr, .inl hlt, hiff⟩
    · obtain ⟨r, hr, hiff⟩ := findFrameByTime_wrapped hs h hl hfuel hstart
      exact ⟨r, hr, .inr h, hiff⟩
  have hseek : seekToTime file h t fuel = some (seekByFrame2ISet h (s32
      (if h.stCycMgr.bIsRewind then h.stCycMgr.offsetFromStart r else r : Nat))) := by
    rw [seekToTime, hc, hr, Option.map_some]
  refine ⟨f, r, _, hl, hr, hseek, ?_⟩
  constructor
  · rintro ⟨rfl, hread⟩
    exact ⟨hiff.mp rfl, (lands_iff hs hc hl (hiff.mp rfl) hrE).mp hread⟩
  · rintro ⟨hfinds, hlands⟩
    obtain rfl := hiff.mpr hfinds
    exact ⟨rfl, (lands_iff hs hc hl hfinds hrE).mpr hlands⟩

end State

/-- A wrapped ring of five frames, at positions 3, 4, 5, 0 and 1. -/
def fiveFrames : CycMgr :=
  { bIsRewind := true, u32StartFrame := 3, u32EndFrame := 2, u32LastFrame := 5 }

/-- Their entries: a frame each 100 ms. -/
def fiveEntries : SeekFile where
  read m := .entry { u32DisplayTimeMs := if m < 3 then 300 + 100 * m else 100 * (m - 3) }

theorem seekState_fiveFrames : SeekState fiveFrames 2 fiveEntries where
  shape := by decide
  stored := by decide
  fits := by decide
  readable _ _ := ⟨_, rfl⟩
  ordered j k hjk hk := by
    have hall : ∀ k, k < 5 → ∀ j, j ≤ k →
        fiveEntries.time (fiveFrames.frameAt j) ≤ fiveEntries.time (fiveFrames.frameAt k) := by
      decide
    exact hall k hk j hjk

/-- The second of the five frames. -/
theorem seekToTime_iff_fiveFrames :
    let h : Index Unit := { store := (), stCycMgr := fiveFrames }
    ∃ f r h', LastAt fiveFrames 2 fiveEntries 150 f ∧
      findFrameByTime fiveEntries fiveFrames 150 6 = some r ∧
      seekToTime fiveEntries h 150 6 = some h' ∧
      (r = f ∧ h'.u32ReadFrame = f ↔
        FindsFrame fiveFrames 2 fiveEntries 150 ∧ LandsOnFrame fiveFrames 2 fiveEntries 150) :=
  seekToTime_iff seekState_fiveFrames _ rfl (by decide) (by decide)

/-- At 400 ms lies frame 1, which is found, but the search for an I frame starts at frame
    0; at 200 ms lies frame 5, and frame 4 is found. -/
theorem seekToTime_misses :
    let h : Index Unit := { store := (), stCycMgr := fiveFrames }
    SeekState fiveFrames 2 fiveEntries ∧
      LastAt fiveFrames 2 fiveEntries 400 1 ∧
      (seekToTime fiveEntries h 400 6).map (·.u32ReadFrame) = some 0 ∧
      LastAt fiveFrames 2 fiveEntries 200 5 ∧
      findFrameByTime fiveEntries fiveFrames 200 6 = some 4 := by
  refine ⟨seekState_fiveFrames, ⟨4, by decide, by decide, by decide, ?_⟩, by decide,
    ⟨2, by decide, by decide, by decide, ?_⟩, by decide⟩
  · intro j h1 h2
    have h5 : j < 5 := h2
    omega
  · intro j h1 h2
    have hall : ∀ j, j < 5 → 2 < j → 200 < fiveEntries.time (fiveFrames.frameAt j) := by decide
    exact hall j h2 h1

end Tntsat.PvrIndex
