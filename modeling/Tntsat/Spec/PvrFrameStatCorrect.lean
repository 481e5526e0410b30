import Tntsat.Native.PvrFrameStat
import Tntsat.Spec.PvrIndexPosCorrect

/-!
# Figures about the frames of a recording

`MT_Index_GetTotalCntI_IP` should count the frames on the way from the start to the end of
the ring, and `PVR_Index_GetStreamBitRate` add up the bytes of those between two frames.

The loop that counts goes on from the last position to position 1: it leaves out the frame
at the last position and the one at 0, and where the ring ends at 0 it goes round without
an end.  It looks at the limit only after it has counted a frame.  The bit rate leaves out
the frame at the last position as well, and divides by the whole seconds between the two
frames without a look at whether there are any.

## Key results

- `getTotalCntIIP_iff`: exactly when the counts are those of the first frames of the walk.
- `getStreamBitRate_iff`: exactly when there is no division by zero and the bytes are those
  of the frames between the two.
-/

namespace Tntsat.PvrIndex

/-! ## The walk along the ring -/

/-- The number of positions on the ring.  A ring that has been wrapped holds a frame at its
    last position, one that has not holds none there yet. -/
def CycMgr.ringSize (c : CycMgr) : Nat :=
  if c.u32EndFrame ≤ c.u32StartFrame then c.u32LastFrame + 1 else c.u32LastFrame

/-- The frames from position `i` up to, not including, `stop`; the ring goes on at position
    0. -/
def CycMgr.walk (c : CycMgr) (i stop : Nat) : List Nat :=
  if i ≤ stop then List.range' i (stop - i)
  else List.range' i (c.ringSize - i) ++ List.range' 0 stop

/-- The frames from the start to the end of the ring. -/
def CycMgr.ringWalk (c : CycMgr) : List Nat := c.walk c.u32StartFrame c.u32EndFrame

variable {c : CycMgr} {read : Nat → ReadRes} {Max : Nat}

/-- Behind the start of a wrapped ring lies its last position. -/
theorem CycMgr.getElem?_ringWalk_last (hlt : c.u32EndFrame < c.u32StartFrame)
    (hle : c.u32StartFrame ≤ c.u32LastFrame) :
    c.ringWalk[c.u32LastFrame - c.u32StartFrame]? = some c.u32LastFrame := by
  have hsize : c.ringSize = c.u32LastFrame + 1 := if_pos (by omega)
  rw [ringWalk, walk, if_neg (by omega), hsize,
    List.getElem?_append_left (by rw [List.length_range']; omega), List.getElem?_range' (by omega)]
  congr
  omega

/-- The first frames of the walk, where it does not reach the last position. -/
theorem CycMgr.take_ringWalk (hle : c.u32StartFrame ≤ c.u32LastFrame)
    (hshort : c.u32StartFrame ≤ c.u32EndFrame ∨ Max ≤ c.u32LastFrame - c.u32StartFrame) :
    c.ringWalk.take Max = List.range' c.u32StartFrame
      (if c.u32StartFrame ≤ c.u32EndFrame then min Max (c.u32EndFrame - c.u32StartFrame)
      else Max) := by
  unfold ringWalk walk
  split
  · rcases Nat.le_total Max (c.u32EndFrame - c.u32StartFrame) with h | h
    · rw [List.take_range'_of_length_ge h, Nat.min_eq_left h]
    · rw [List.take_range'_of_length_le h, Nat.min_eq_right h]
  · have hsize : c.ringSize = c.u32LastFrame + 1 := if_pos (by omega)
    rw [List.take_append_of_le_length (by rw [List.length_range']; omega),
      List.take_range'_of_length_ge (by omega)]

/-- How many of these frames have a type for which `p` holds. -/
def countOf (read : Nat → ReadRes) (p : IndexEntry → Bool) (frames : List Nat) : Nat :=
  frames.countP fun i =>
    match read i with
    | .entry e => p e
    | _ => false

/-! ## Counting -/

/-- The counts are those of the frames that have been counted. -/
structure FrameCounts.Tally (read : Nat → ReadRes) (n : FrameCounts) : Prop where
  i : n.ICnt = countOf read (·.isIframe) n.counted
  ip : n.IPCnt = countOf read (fun e => e.isIframe || e.isPframe) n.counted
  ipb : n.IPBCnt = n.counted.length

theorem FrameCounts.Tally.empty : FrameCounts.Tally read {} := ⟨rfl, rfl, rfl⟩

@[simp] theorem FrameCounts.counted_count (n : FrameCounts) (i : Nat) (e : IndexEntry) :
    (n.count i e).counted = n.counted ++ [i] := by
  unfold count noteIframe
  split <;> rfl

@[simp] theorem FrameCounts.IPBCnt_count (n : FrameCounts) (i : Nat) (e : IndexEntry) :
    (n.count i e).IPBCnt = n.IPBCnt + 1 := by
  unfold count noteIframe
  split <;> rfl

theorem FrameCounts.ICnt_count (n : FrameCounts) (i : Nat) (e : IndexEntry) :
    (n.count i e).ICnt = n.ICnt + if e.isIframe then 1 else 0 := by
  unfold count noteIframe
  split <;> rfl

theorem FrameCounts.IPCnt_count (n : FrameCounts) (i : Nat) (e : IndexEntry) :
    (n.count i e).IPCnt = n.IPCnt + if e.isIframe || e.isPframe then 1 else 0 := by
  unfold count noteIframe
  cases e.isIframe <;> cases e.isPframe <;> rfl

theorem countOf_append_entry {i : Nat} {e : IndexEntry} (he : read i = .entry e)
    (p : IndexEntry → Bool) (frames : List Nat) :
    countOf read p (frames ++ [i]) = countOf read p frames + if p e then 1 else 0 := by
  simp [countOf, List.countP_append, List.countP_singleton, he]

/-- Counting a frame keeps the counts right. -/
theorem FrameCounts.Tally.count {n : FrameCounts} (hn : n.Tally read) {i : Nat}
    {e : IndexEntry} (he : read i = .entry e) : (n.count i e).Tally read where
  i := by rw [ICnt_count, counted_count, countOf_append_entry he, hn.i]
  ip := by rw [IPCnt_count, counted_count, countOf_append_entry he, hn.ip]
  ipb := by rw [IPBCnt_count, counted_count, List.length_append, hn.ipb]; rfl

/-- One round at a frame that is counted. -/
theorem countLoop_entry {i : Nat} {e : IndexEntry} (hend : i ≠ c.u32EndFrame)
    (hlast : i ≠ c.u32LastFrame) (hv : c.isFrameValid i = true) (he : read i = .entry e)
    (fuel : Nat) (n : FrameCounts) :
    countLoop c read Max (fuel + 1) i n =
      if n.IPBCnt + 1 ≥ Max then some (n.count i e)
      else countLoop c read Max fuel (i + 1) (n.count i e) := by
  rw [countLoop, if_neg hend, if_neg hlast, hv, he]
  simp

/-- Frames in a row are counted one after the other, up to the limit. -/
theorem countLoop_row {i k : Nat}
    (hrow : ∀ j, i ≤ j → j < i + k → j ≠ c.u32EndFrame ∧ j ≠ c.u32LastFrame ∧
      c.isFrameValid j = true ∧ ∃ e, read j = .entry e)
    {n : FrameCounts} (hn : n.Tally read) (hmax : n.IPBCnt + k < Max) (fuel : Nat) :
    ∃ n', n'.Tally read ∧ n'.counted = n.counted ++ List.range' i k ∧
      countLoop c read Max (fuel + k) i n = countLoop c read Max fuel (i + k) n' := by
  induction k generalizing i n with
  | zero => exact ⟨n, hn, by simp, rfl⟩
  | succ k ih =>
    obtain ⟨hend, hlast, hv, e, he⟩ := hrow i (Nat.le_refl i) (by omega)
    obtain ⟨n', hn', hcounted, hloop⟩ := ih
      (i := i + 1) (fun j h1 h2 => hrow j (by omega) (by omega)) (hn.count he)
      (by rw [FrameCounts.IPBCnt_count]; omega)
    have hrange : List.range' i (k + 1) = [i] ++ List.range' (i + 1) k := by
      rw [List.range'_succ, List.singleton_append]
    have hround : countLoop c read Max (fuel + k + 1) i n =
        countLoop c read Max (fuel + k) (i + 1) (n.count i e) := by
      rw [countLoop_entry hend hlast hv he, if_neg (by omega)]
    refine ⟨n', hn', ?_, ?_⟩
    · rw [hcounted, FrameCounts.counted_count, hrange, List.append_assoc]
    · rw [← Nat.add_assoc, hround, hloop, show i + 1 + k = i + (k + 1) by omega]

/-- The limit is reached with the last of the frames in a row. -/
theorem countLoop_reaches {i : Nat} (hpos : 0 < Max)
    (hrow : ∀ j, i ≤ j → j < i + Max → j ≠ c.u32EndFrame ∧ j ≠ c.u32LastFrame ∧
      c.isFrameValid j = true ∧ ∃ e, read j = .entry e) :
    ∃ fuel n, countLoop c read Max fuel i {} = some n ∧ n.Tally read ∧
      n.counted = List.range' i Max := by
  obtain ⟨k, rfl⟩ := Nat.exists_eq_succ_of_ne_zero (Nat.ne_of_gt hpos)
  obtain ⟨n, hn, hcounted, hloop⟩ := @countLoop_row c read (k + 1) i k
    (fun j h1 h2 => hrow j h1 (by omega)) _ FrameCounts.Tally.empty (Nat.lt_succ_of_le (by simp)) 1
  obtain ⟨hend, hlast, hv, e, he⟩ := hrow (i + k) (by omega) (by omega)
  have hlen : n.IPBCnt = k := by
    rw [hn.ipb, hcounted]
    simp
  refine ⟨1 + k, n.count (i + k) e, ?_, hn.count he, ?_⟩
  · rw [hloop, countLoop_entry hend hlast hv he, if_pos (by omega)]
  · rw [FrameCounts.counted_count, hcounted, List.range'_concat]
    simp

/-- The frame at the last position is never counted. -/
theorem last_notMem_countLoop (fuel i : Nat) {n n' : FrameCounts}
    (hloop : countLoop c read Max fuel i n = some n') (hn : c.u32LastFrame ∉ n.counted) :
    c.u32LastFrame ∉ n'.counted := by
  induction fuel generalizing i n with
  | zero => simp [countLoop] at hloop
  | succ fuel ih =>
    unfold countLoop at hloop
    split at hloop
    · cases hloop
      exact hn
    split at hloop
    -- from the last frame the loop wraps around without looking at it
    · exact ih 1 hloop hn
    rename_i hlast
    split at hloop
    · exact ih (i + 1) hloop hn
    split at hloop
    · rename_i e he
      -- so the frame it counts is another one
      have hcount : c.u32LastFrame ∉ (n.count i e).counted := by
        rw [FrameCounts.counted_count, List.mem_append, List.mem_singleton]
        exact fun h => h.elim hn fun h => hlast h.symm
      dsimp only at hloop
      split at hloop
      · cases hloop
        exact hcount
      · exact ih (i + 1) hloop hcount
    · cases hloop
      exact hn

/-- A ring of one frame that ends at position 0 is walked round and round. -/
theorem countLoop_never (hend : c.u32EndFrame = 0) (hstart : c.u32StartFrame = c.u32LastFrame)
    (fuel : Nat) {i : Nat} (hpos : 0 < i) (hle : i ≤ c.u32LastFrame) (n : FrameCounts) :
    countLoop c read Max fuel i n = none := by
  induction fuel generalizing i with
  | zero => rfl
  | succ fuel ih =>
    rw [countLoop, if_neg (by omega)]
    split
    · exact ih Nat.one_pos (by omega)
    · have hv : c.isFrameValid i = false := by
        rw [← Bool.not_eq_true, CycMgr.isFrameValid_iff]
        omega
      rw [hv]
      exact ih (Nat.succ_pos i) (by omega)

/-- Every frame from `i` on is on the way to the end and before the last position. -/
theorem isFrameValid_row {i : Nat} (hi : c.u32StartFrame ≤ i) (hle : i < c.u32LastFrame)
    (hshort : c.u32StartFrame ≤ c.u32EndFrame → i < c.u32EndFrame) :
    c.isFrameValid i = true ∧ i ≠ c.u32EndFrame := by
  rw [CycMgr.isFrameValid_iff]
  omega

/-- Where the walk does not reach the last position before the limit, the counts are those
    of its first frames. -/
theorem getTotalCntIIP_of_short (hstart : c.u32StartFrame ≤ c.u32LastFrame)
    (hend : c.u32EndFrame ≤ c.u32LastFrame)
    (hread : ∀ i, i ≤ c.u32LastFrame → ∃ e, read i = .entry e) (hpos : 0 < Max)
    (hshort : c.u32StartFrame ≤ c.u32EndFrame ∨ Max ≤ c.u32LastFrame - c.u32StartFrame) :
    ∃ fuel n, getTotalCntIIP c read Max fuel = some (true, n) ∧
      n.counted = c.ringWalk.take Max ∧ n.Tally read := by
  have hguard : ¬ (c.u32StartFrame > c.u32LastFrame ∨ c.u32EndFrame > c.u32LastFrame) := by omega
  have hrow : ∀ j, c.u32StartFrame ≤ j → j < c.u32LastFrame →
      (c.u32StartFrame ≤ c.u32EndFrame → j < c.u32EndFrame) →
      j ≠ c.u32EndFrame ∧ j ≠ c.u32LastFrame ∧ c.isFrameValid j = true ∧ ∃ e, read j = .entry e := by
    intro j h1 h2 h3
    obtain ⟨hv, hne⟩ := isFrameValid_row h1 h2 h3
    exact ⟨hne, by omega, hv, hread j (by omega)⟩
  rw [CycMgr.take_ringWalk hstart hshort]
  by_cases hall : c.u32StartFrame ≤ c.u32EndFrame ∧ c.u32EndFrame - c.u32StartFrame < Max
  · -- the walk ends before the limit is reached
    obtain ⟨hle, hlt⟩ := hall
    obtain ⟨n, hn, hcounted, hloop⟩ := @countLoop_row c read Max _
      (c.u32EndFrame - c.u32StartFrame)
      (fun j h1 h2 => hrow j h1 (by omega) (by omega)) _ FrameCounts.Tally.empty
      (by rwa [Nat.zero_add]) 1
    refine ⟨1 + (c.u32EndFrame - c.u32StartFrame), n, ?_, ?_, hn⟩
    · rw [getTotalCntIIP, if_neg hguard, hloop, countLoop, if_pos (by omega)]
      rfl
    · rw [hcounted, if_pos hle, Nat.min_eq_right (by omega)]
      rfl
  · obtain ⟨fuel, n, hloop, hn, hcounted⟩ := countLoop_reaches hpos
      (fun j h1 h2 => hrow j h1 (by omega) (by omega))
    refine ⟨fuel, n, ?_, ?_, hn⟩
    · rw [getTotalCntIIP, if_neg hguard, hloop]
      rfl
    · rw [hcounted]
      split
      · rw [Nat.min_eq_left (by omega)]
      · rfl

/-- The frame at the last position is not among those that are counted. -/
theorem last_notMem_of_getTotalCntIIP {fuel : Nat} {n : FrameCounts}
    (h : getTotalCntIIP c read Max fuel = some (true, n)) : c.u32LastFrame ∉ n.counted := by
  unfold getTotalCntIIP at h
  split at h
  · cases h
  · obtain ⟨n', hloop, heq⟩ := Option.map_eq_some_iff.mp h
    cases heq
    exact last_notMem_countLoop fuel _ hloop (List.not_mem_nil)

/-- With a limit of 0 no frame should be counted; that is so where the loop comes to the
    end before it comes to a frame. -/
theorem countLoop_zero_iff (hstart : c.u32StartFrame ≤ c.u32LastFrame)
    (hend : c.u32EndFrame ≤ c.u32LastFrame)
    (hread : ∀ i, i ≤ c.u32LastFrame → ∃ e, read i = .entry e) :
    (∃ fuel n, countLoop c read 0 fuel c.u32StartFrame {} = some n ∧ n.counted = [] ∧
        n.Tally read) ↔
      c.u32StartFrame = c.u32EndFrame ∨
        c.u32StartFrame = c.u32LastFrame ∧ c.u32EndFrame = 1 := by
  -- a frame that is looked at is counted
  have hcounts : ∀ i fuel n, i ≠ c.u32EndFrame → i < c.u32LastFrame → c.isFrameValid i = true →
      countLoop c read 0 (fuel + 1) i {} = some n → n.counted ≠ [] := by
    intro i fuel n h1 h2 h3 hloop
    obtain ⟨e, he⟩ := hread i (by omega)
    rw [countLoop_entry h1 (by omega) h3 he, if_pos (Nat.zero_le _)] at hloop
    cases hloop
    simp
  constructor
  · rintro ⟨_ | fuel, n, hloop, hnil, -⟩
    · cases hloop
    rcases Decidable.em (c.u32StartFrame = c.u32EndFrame) with heq | hne
    · exact .inl heq
    rcases Decidable.em (c.u32StartFrame = c.u32LastFrame) with hlast | hlast
    -- from the last frame the loop wraps to the front and looks at frame 1
    · refine .inr ⟨hlast, ?_⟩
      rw [countLoop, if_neg hne, if_pos hlast] at hloop
      rcases Decidable.em (c.u32EndFrame = 0) with hzero | hzero
      · rw [countLoop_never hzero hlast fuel Nat.one_pos (by omega)] at hloop
        cases hloop
      obtain _ | fuel := fuel
      · cases hloop
      by_contra hone
      exact hcounts 1 fuel n (Ne.symm hone) (by omega)
        (CycMgr.isFrameValid_iff.mpr (by omega)) hloop hnil
    · exact absurd hnil (hcounts _ fuel n hne (by omega)
        (CycMgr.isFrameValid_iff.mpr (by omega)) hloop)
  -- in both cases the loop ends before it looks at a frame
  · rintro (heq | ⟨hlast, hone⟩)
    · exact ⟨1, {}, by rw [countLoop, if_pos heq], rfl, .empty⟩
    · refine ⟨2, {}, ?_, rfl, .empty⟩
      rw [countLoop, if_pos hlast]
      split
      · rfl
      · rw [countLoop, if_pos hone.symm]

/-- The counts are those of the first `Max` frames of the walk from the start to the end
    exactly when these do not reach the last position of a wrapped ring, and, where `Max` is
    0, the loop comes to the end before it comes to a frame. -/
theorem getTotalCntIIP_iff (c : CycMgr) (hstart : c.u32StartFrame ≤ c.u32LastFrame)
    (hend : c.u32EndFrame ≤ c.u32LastFrame) (read : Nat → ReadRes)
    (hread : ∀ i, i ≤ c.u32LastFrame → ∃ e, read i = .entry e) (Max : Nat) :
    (∃ fuel n, getTotalCntIIP c read Max fuel = some (true, n) ∧
      n.counted = c.ringWalk.take Max ∧ n.Tally read) ↔
    (c.u32StartFrame ≤ c.u32EndFrame ∨ Max ≤ c.u32LastFrame - c.u32StartFrame) ∧
      (Max = 0 → c.u32StartFrame = c.u32EndFrame ∨
        c.u32StartFrame = c.u32LastFrame ∧ c.u32EndFrame = 1) := by
  have hguard : ¬ (c.u32StartFrame > c.u32LastFrame ∨ c.u32EndFrame > c.u32LastFrame) := by omega
  constructor
  · rintro ⟨fuel, n, hget, hcounted, hn⟩
    constructor
    · by_contra hlong
      -- the last position is the next frame of the walk
      have hmem : c.u32LastFrame ∈ c.ringWalk.take Max := by
        rw [List.mem_take_iff_getElem]
        obtain ⟨hlt, hget⟩ := List.getElem?_eq_some_iff.mp
          (c.getElem?_ringWalk_last (by omega) hstart)
        exact ⟨c.u32LastFrame - c.u32StartFrame, by omega, hget⟩
      exact last_notMem_of_getTotalCntIIP hget (hcounted ▸ hmem)
    · rintro rfl
      rw [getTotalCntIIP, if_neg hguard] at hget
      obtain ⟨n', hloop, heq⟩ := Option.map_eq_some_iff.mp hget
      cases heq
      exact (countLoop_zero_iff hstart hend hread).mp ⟨fuel, n, hloop, hcounted, hn⟩
  · rintro ⟨hshort, hzero⟩
    rcases Nat.eq_zero_or_pos Max with rfl | hpos
    · obtain ⟨fuel, n, hloop, hnil, hn⟩ := (countLoop_zero_iff hstart hend hread).mpr (hzero rfl)
      refine ⟨fuel, n, ?_, hnil, hn⟩
      rw [getTotalCntIIP, if_neg hguard, hloop]
      rfl
    · exact getTotalCntIIP_of_short hstart hend hread hpos hshort

/-- Frames 2, 3 and 0 are on the walk from 2 to 1 in a ring of four, and frame 3 is left
    out. -/
theorem getTotalCntIIP_misses_last :
    ¬ ∃ fuel n, getTotalCntIIP { u32StartFrame := 2, u32EndFrame := 1, u32LastFrame := 3 }
        (fun _ => .entry {}) 50000 fuel = some (true, n) ∧
      n.counted = [2, 3, 0] ∧ n.Tally (fun _ => .entry {}) := by
  rintro ⟨fuel, n, hget, hcounted, -⟩
  exact last_notMem_of_getTotalCntIIP hget (by rw [hcounted]; decide)

theorem getTotalCntIIP_iff_straight :
    ∃ fuel n, getTotalCntIIP { u32EndFrame := 2, u32LastFrame := 2 } (fun _ => .entry {}) 50000
        fuel = some (true, n) ∧
      n.counted = (CycMgr.ringWalk { u32EndFrame := 2, u32LastFrame := 2 }).take 50000 ∧
      n.Tally (fun _ => .entry {}) :=
  (getTotalCntIIP_iff { u32EndFrame := 2, u32LastFrame := 2 } (by decide) (by decide)
    (fun _ => .entry {}) (fun _ _ => ⟨{}, rfl⟩) 50000).mpr ⟨by decide, fun h => nomatch h⟩

/-! ## The bit rate -/

/-- `u32FrameSize` of a frame, 0 where there is none. -/
def sizeAt (read : Nat → ReadRes) (num : Nat) : Nat :=
  match read num with
  | .entry e => e.u32FrameSize
  | _ => 0

/-- The bytes of these frames. -/
def bytesOf (read : Nat → ReadRes) (frames : List Nat) : Nat := (frames.map (sizeAt read)).sum

theorem sizeAt_of_entry {i : Nat} {e : IndexEntry} (he : read i = .entry e) :
    sizeAt read i = e.u32FrameSize := by
  rw [sizeAt, he]

/-- The loop adds up the bytes of the frames it goes along. -/
theorem sumSizes_eq {i n : Nat} (hread : ∀ j, i ≤ j → j < i + n → ∃ e, read j = .entry e)
    (u64TotalBytes : Nat) :
    sumSizes read i n u64TotalBytes = some (u64TotalBytes + bytesOf read (List.range' i n)) := by
  induction n generalizing i u64TotalBytes with
  | zero => simp [sumSizes, bytesOf]
  | succ n ih =>
    obtain ⟨e, he⟩ := hread i (Nat.le_refl i) (by omega)
    have hcons : bytesOf read (List.range' i (n + 1)) =
        e.u32FrameSize + bytesOf read (List.range' (i + 1) n) := by
      rw [bytesOf, List.range'_succ, List.map_cons, List.sum_cons, sizeAt_of_entry he]
      rfl
    rw [sumSizes, he]
    dsimp only
    rw [ih (fun j h1 h2 => hread j (by omega) (by omega)), hcons, Nat.add_assoc]

/-- The bytes between two frames, where the last position of a wrapped ring is left out. -/
theorem totalBytes_spec {i stop : Nat}
    (hread : ∀ j, j ≤ c.u32LastFrame ∨ j < stop → ∃ e, read j = .entry e) :
    ∃ u64TotalBytes, totalBytes c read i stop = some u64TotalBytes ∧
      bytesOf read (c.walk i stop) = u64TotalBytes +
        if stop < i ∧ c.u32EndFrame ≤ c.u32StartFrame ∧ i ≤ c.u32LastFrame then
          sizeAt read c.u32LastFrame
        else 0 := by
  unfold totalBytes CycMgr.walk
  by_cases hback : stop < i
  -- the way back is two ranges, up to the last frame and from the front on
  · rw [if_pos hback, if_neg (Nat.not_le_of_lt hback), sumSizes_eq
      (fun j h1 h2 => hread j (by omega))]
    dsimp only
    rw [sumSizes_eq (fun j h1 h2 => hread j (by omega))]
    refine ⟨_, rfl, ?_⟩
    by_cases hin : c.u32EndFrame ≤ c.u32StartFrame ∧ i ≤ c.u32LastFrame
    -- the walk takes the last frame, the sum leaves it out
    · have hlen : c.ringSize - i = c.u32LastFrame - i + 1 := by
        rw [CycMgr.ringSize, if_pos hin.1]
        omega
      have hlast : i + 1 * (c.u32LastFrame - i) = c.u32LastFrame := by omega
      rw [if_pos ⟨hback, hin⟩, hlen, List.range'_concat, hlast]
      simp only [bytesOf, List.map_append, List.sum_append, List.map_cons, List.map_nil,
        List.sum_cons, List.sum_nil]
      omega
    -- neither takes it
    · have hlen : c.ringSize - i = c.u32LastFrame - i := by
        rw [CycMgr.ringSize]
        split <;> omega
      rw [if_neg (fun h => hin h.2), hlen]
      simp only [bytesOf, List.map_append, List.sum_append]
      omega
  · rw [if_neg hback, if_pos (Nat.le_of_not_lt hback), sumSizes_eq
      (fun j h1 h2 => hread j (by omega)), if_neg (fun h => hback h.1)]
    exact ⟨_, rfl, by omega⟩

/-- The display time of a frame, 0 where there is none. -/
def timeAt (read : Nat → ReadRes) (num : Nat) : Nat := SeekFile.time { read } num

theorem timeAt_of_entry {i : Nat} {e : IndexEntry} (he : read i = .entry e) :
    timeAt read i = e.u32DisplayTimeMs := by
  unfold timeAt SeekFile.time
  dsimp only
  rw [he]

/-- There is no division by zero, and the bytes that were added up are those of the frames
    between the two. -/
def BitRate.Ok (read : Nat → ReadRes) (frames : List Nat) : BitRate → Prop
  | .fails => True
  | .byZero => False
  | .rate u64TotalBytes _ => u64TotalBytes = bytesOf read frames

/-- The bit rate between two frames is right exactly when they are not less than a second
    apart, and no bytes of the frame at the last position lie on the way from one to the
    other. -/
theorem getStreamBitRate_iff (c : CycMgr) (read : Nat → ReadRes)
    (hread : ∀ i, i ≤ c.u32LastFrame ∨ i ≤ c.u32EndFrame → ∃ e, read i = .entry e)
    (u32StartFrameNum u32EndFrameNum : Nat) (hstart : c.isFrameValid u32StartFrameNum = true)
    (hend : c.isFrameValid u32EndFrameNum = true) :
    (getStreamBitRate c read u32StartFrameNum u32EndFrameNum).Ok read
        (c.walk u32StartFrameNum u32EndFrameNum) ↔
      timeAt read u32StartFrameNum < timeAt read u32EndFrameNum →
        timeAt read u32StartFrameNum + 1000 ≤ timeAt read u32EndFrameNum ∧
        (u32EndFrameNum < u32StartFrameNum → c.u32EndFrame ≤ c.u32StartFrame →
          u32StartFrameNum ≤ c.u32LastFrame → sizeAt read c.u32LastFrame = 0) := by
  -- a valid number is one of a stored frame
  have hle : ∀ i, c.isFrameValid i = true → i ≤ c.u32LastFrame ∨ i ≤ c.u32EndFrame := by
    intro i hi
    have := CycMgr.isFrameValid_iff.mp hi
    omega
  obtain ⟨first, hfirst⟩ := hread _ (hle _ hstart)
  obtain ⟨last, hlast⟩ := hread _ (hle _ hend)
  obtain ⟨total, htotal, hbytes⟩ := @totalBytes_spec c read u32StartFrameNum
    u32EndFrameNum
    (fun j hj => hread j (by have := hle _ hend; omega))
  rw [getStreamBitRate, hstart, hend, timeAt_of_entry hfirst, timeAt_of_entry hlast, hfirst,
    hlast, htotal]
  simp only [Bool.not_true, Bool.or_self, Bool.false_eq_true, if_false]
  split
  -- times that do not ascend give no rate at all
  · exact iff_of_true trivial fun h => by omega
  split
  -- less than a second is a division by zero
  · rename_i hsec
    refine iff_of_false id fun h => ?_
    have := (h (by omega)).1
    omega
  -- the code leaves the last frame out where the range wraps around
  · rename_i hlt hsec
    simp only [BitRate.Ok, hbytes]
    constructor
    · intro h _
      refine ⟨by omega, fun h1 h2 h3 => ?_⟩
      rw [if_pos ⟨h1, h2, h3⟩] at h
      omega
    · intro h
      have hzero := (h (by omega)).2
      split
      · rename_i hin
        rw [hzero hin.1 hin.2.1 hin.2.2, Nat.add_zero]
      · rfl

/-- Two frames that are half a second apart. -/
theorem getStreamBitRate_byZero :
    getStreamBitRate { u32EndFrame := 2, u32LastFrame := 2 }
      (fun i => .entry { u32DisplayTimeMs := 500 * i, u32FrameSize := 1000 }) 0 1 = .byZero := by
  decide

theorem getStreamBitRate_iff_straight :
    (getStreamBitRate { u32EndFrame := 2, u32LastFrame := 2 }
      (fun i => .entry { u32DisplayTimeMs := 1000 * i, u32FrameSize := 10 }) 0 2).Ok
      (fun i => .entry { u32DisplayTimeMs := 1000 * i, u32FrameSize := 10 })
      (CycMgr.walk { u32EndFrame := 2, u32LastFrame := 2 } 0 2) :=
  (getStreamBitRate_iff { u32EndFrame := 2, u32LastFrame := 2 }
    (fun i => .entry { u32DisplayTimeMs := 1000 * i, u32FrameSize := 10 })
    (fun _ _ => ⟨_, rfl⟩) 0 2 (by decide) (by decide)).mpr
    fun _ => ⟨by decide, fun h => nomatch h⟩

end Tntsat.PvrIndex
