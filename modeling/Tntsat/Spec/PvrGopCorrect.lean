import Tntsat.Native.PvrGop

/-!
# The books on groups of pictures

`PVR_Index_RecIdxInfo` and `PVR_Index_UpdateIdxInfoWhenRewind` run under the lock of the
index for frames that are saved, so both should return whatever the reads of entries come
to.

The second one goes on to the next frame after each read, and stops at the latest where the
file ends.  The first one reads a frame again whose read has failed.  It stops at the
I frame behind the start of the ring, if the reads ever get there.

## Key results

- `exists_nextIframe_iff`: exactly when the loop that looks for an I frame ends.
- `updateLoop_returns`: the loop of the other function always ends.
- `recIdxInfo_returns_iff`: exactly when both functions return.
-/

namespace Tntsat.PvrIndex

open PvrIdxCache (sizeofEntry)

/-! ## What a read leaves in an entry -/

/-- The first two bytes of an entry hold its type. -/
theorem u16FrameTypeAndGop_ofBytes (bs : List UInt8) :
    (IndexEntry.ofBytes bs).u16FrameTypeAndGop = ofLe (bs.take 2) := rfl

theorem frameType_ofBytes (b₀ b₁ : UInt8) (bs : List UInt8) :
    (IndexEntry.ofBytes (b₀ :: b₁ :: bs)).frameType = b₁.toNat / 64 := by
  have h0 := b₀.toNat_lt
  have h1 := b₁.toNat_lt
  rw [IndexEntry.frameType, u16FrameTypeAndGop_ofBytes]
  simp only [List.take_succ_cons, List.take_zero, ofLe]
  omega

/-- Two bytes or more of an entry replace the type, fewer leave it alone. -/
theorem isIframe_fill (e : IndexEntry) (bytes : List UInt8) :
    (e.fill bytes).isIframe =
      if 2 ≤ bytes.length then (IndexEntry.ofBytes bytes).isIframe else e.isIframe := by
  have htoBytes : e.toBytes = UInt8.ofNat e.u16FrameTypeAndGop ::
      UInt8.ofNat (e.u16FrameTypeAndGop / 256) :: e.toBytes.drop 2 := rfl
  have hold : (UInt8.ofNat (e.u16FrameTypeAndGop / 256)).toNat / 64 = e.frameType := by
    rw [UInt8.toNat_ofNat', IndexEntry.frameType]
    omega
  unfold IndexEntry.fill IndexEntry.isIframe
  match bytes with
  | [] =>
    rw [if_neg (by decide), List.length_nil, List.drop_zero, List.nil_append, htoBytes,
      frameType_ofBytes, hold]
  | [b] =>
    rw [if_neg (by simp), List.length_singleton, htoBytes, List.drop_one, List.tail_cons,
      List.singleton_append, frameType_ofBytes, hold]
  | b₀ :: b₁ :: bs =>
    rw [if_pos (by simp), List.cons_append, List.cons_append, frameType_ofBytes,
      frameType_ofBytes]

/-! ## The way to the next I frame -/

variable {r : IndexReads} {c : CycMgr}

/-- The `k`-th frame behind the start of the ring, the next one first. -/
def CycMgr.frameBehind (c : CycMgr) : Nat → Nat
  | 0 => nextGopFrmNum c.u32LastFrame c.u32StartFrame
  | k + 1 => nextGopFrmNum c.u32LastFrame (c.frameBehind k)

/-- How many of the first `n` reads behind the one of the start frame are complete, if each
    is one of the frame behind those. -/
def IndexReads.passed (r : IndexReads) (c : CycMgr) : Nat → Nat
  | 0 => 0
  | n + 1 =>
    if r.complete (n + 1) (c.frameBehind (r.passed c n)) then r.passed c n + 1 else r.passed c n

/-- Read number `n` behind that of the start frame gives the type of an I frame. -/
def IndexReads.GetsIframe (r : IndexReads) (c : CycMgr) (n : Nat) : Prop :=
  2 ≤ (r.given (n + 1) (c.frameBehind (r.passed c n))).length ∧
    (IndexEntry.ofBytes (r.given (n + 1) (c.frameBehind (r.passed c n)))).isIframe = true

/-- One round of the loop. -/
theorem nextIframe_succ (fuel n : Nat) (e : IndexEntry) :
    nextIframe r c.u32LastFrame (fuel + 1) (n + 1) (c.frameBehind (r.passed c n)) e =
      let e' := e.fill (r.given (n + 1) (c.frameBehind (r.passed c n)))
      if e'.isIframe then some (n + 2, c.frameBehind (r.passed c (n + 1)), e')
      else nextIframe r c.u32LastFrame fuel (n + 2) (c.frameBehind (r.passed c (n + 1))) e' := by
  have hnum : (if r.complete (n + 1) (c.frameBehind (r.passed c n)) then
      nextGopFrmNum c.u32LastFrame (c.frameBehind (r.passed c n))
      else c.frameBehind (r.passed c n)) = c.frameBehind (r.passed c (n + 1)) := by
    rw [IndexReads.passed]
    split <;> rfl
  rw [nextIframe, IndexReads.getEntryByNum]
  dsimp only
  rw [hnum]

theorem isIframe_fill_given {e : IndexEntry} (he : e.isIframe = false) (n : Nat) :
    (e.fill (r.given (n + 1) (c.frameBehind (r.passed c n)))).isIframe = true ↔
      r.GetsIframe c n := by
  rw [isIframe_fill, IndexReads.GetsIframe]
  split
  · exact (and_iff_right ‹_›).symm
  · exact iff_of_false (by rw [he]; decide) fun h => absurd h.1 ‹_›

/-- Once the last type that was read is not that of an I frame, the loop ends exactly when
    some read gives the type of one. -/
theorem exists_nextIframe_iff {e : IndexEntry} (he : e.isIframe = false) (n : Nat) :
    (∃ fuel res, nextIframe r c.u32LastFrame fuel (n + 1) (c.frameBehind (r.passed c n)) e =
      some res) ↔ ∃ m, n ≤ m ∧ r.GetsIframe c m := by
  constructor
  · rintro ⟨fuel, res, hres⟩
    induction fuel generalizing n e with
    | zero => cases hres
    | succ fuel ih =>
      -- the round that returns gets an I frame
      rw [nextIframe_succ] at hres
      dsimp only at hres
      split at hres
      · exact ⟨n, Nat.le_refl n, (isIframe_fill_given he n).mp ‹_›⟩
      · rename_i hno
        obtain ⟨m, hm, hgets⟩ := ih (by simpa using hno) (n + 1) hres
        exact ⟨m, by omega, hgets⟩
  · rintro ⟨m, hm, hgets⟩
    obtain ⟨k, rfl⟩ := Nat.exists_eq_add_of_le hm
    induction k generalizing n e with
    | zero =>
      exact ⟨1, _, (nextIframe_succ 0 n e).trans (if_pos ((isIframe_fill_given he n).mpr hgets))⟩
    | succ k ih =>
      -- the search may also end before the I frame that is known
      by_cases hnow : (e.fill (r.given (n + 1) (c.frameBehind (r.passed c n)))).isIframe = true
      · exact ⟨1, _, (nextIframe_succ 0 n e).trans (if_pos hnow)⟩
      · obtain ⟨fuel, res, hres⟩ := ih (by simpa using hnow) (n + 1) (by omega)
          (by rwa [show n + 1 + k = n + (k + 1) by omega])
        exact ⟨fuel + 1, res, ((nextIframe_succ fuel n e).trans (if_neg hnow)).trans hres⟩

/-- The first read may also leave the type of the start frame in place. -/
theorem exists_nextIframe_start_iff {e : IndexEntry} (he : e.isIframe = true) :
    (∃ fuel res, nextIframe r c.u32LastFrame fuel 1 (c.frameBehind 0) e = some res) ↔
      (r.given 1 (c.frameBehind 0)).length < 2 ∨ ∃ n, r.GetsIframe c n := by
  have hround : ∀ fuel, nextIframe r c.u32LastFrame (fuel + 1) 1 (c.frameBehind 0) e =
      let e' := e.fill (r.given 1 (c.frameBehind 0))
      if e'.isIframe then some (2, c.frameBehind (r.passed c 1), e')
      else nextIframe r c.u32LastFrame fuel 2 (c.frameBehind (r.passed c 1)) e' :=
    fun fuel => nextIframe_succ fuel 0 e
  by_cases hnow : (e.fill (r.given 1 (c.frameBehind 0))).isIframe = true
  -- an I frame at once: the next entry is one, or nothing is read over the given one
  · refine iff_of_true ⟨1, _, (hround 0).trans (if_pos hnow)⟩ ?_
    rw [isIframe_fill] at hnow
    split at hnow
    · exact .inr ⟨0, ‹_›, hnow⟩
    · exact .inl (by omega)
  · have hlong : ¬ (r.given 1 (c.frameBehind 0)).length < 2 := by
      rw [isIframe_fill] at hnow
      split at hnow
      · omega
      · exact absurd he hnow
    have hlater : ¬ r.GetsIframe c 0 := by
      rintro ⟨htwo, hi⟩
      exact hnow (by rw [isIframe_fill]; exact (if_pos htwo).trans hi)
    -- later entries fill whatever has been read before
    have hrest := exists_nextIframe_iff (r := r) (c := c) (by simpa using hnow) 1
    constructor
    · rintro ⟨_ | fuel, res, hres⟩
      · cases hres
      · obtain ⟨m, -, hgets⟩ := hrest.mp
          ⟨fuel, res, ((hround fuel).trans (if_neg hnow)).symm.trans hres⟩
        exact .inr ⟨m, hgets⟩
    · rintro (hshort | ⟨m, hgets⟩)
      · exact absurd hshort hlong
      · obtain _ | m := m
        · exact absurd hgets hlater
        · obtain ⟨fuel, res, hres⟩ := hrest.mpr ⟨m + 1, by omega, hgets⟩
          exact ⟨fuel + 1, res, ((hround fuel).trans (if_neg hnow)).trans hres⟩

/-! ## The two functions -/

/-- The entry of the start frame is read, and it is that of an I frame. -/
def IndexReads.IframeAtStart (r : IndexReads) (c : CycMgr) : Prop :=
  r.complete 0 c.u32StartFrame = true ∧
    (IndexEntry.ofBytes (r.given 0 c.u32StartFrame)).isIframe = true

/-- A read that succeeds gives more than the type. -/
theorem IndexReads.two_le_given {n num : Nat} (h : r.complete n num = true) :
    2 ≤ (r.given n num).length := by
  rw [complete, Bool.and_eq_true, decide_eq_true_eq, decide_eq_true_eq] at h
  rw [given, h.1]
  exact h.2 ▸ (by decide)

/-- The test with which the search begins. -/
theorem IndexReads.iframeAtStart_iff : r.IframeAtStart c ↔
    ¬ (!(r.getEntryByNum 0 {} c.u32StartFrame).2 ||
      !(r.getEntryByNum 0 {} c.u32StartFrame).1.isIframe) = true := by
  have htype : r.complete 0 c.u32StartFrame = true →
      (IndexEntry.fill {} (r.given 0 c.u32StartFrame)).isIframe =
        (IndexEntry.ofBytes (r.given 0 c.u32StartFrame)).isIframe := fun hok => by
    rw [isIframe_fill, if_pos (two_le_given hok)]
  rw [Bool.or_eq_true, not_or, Bool.not_eq_true', Bool.not_eq_true', Bool.not_eq_false,
    Bool.not_eq_false]
  exact and_congr_right fun hok => by rw [getEntryByNum, htype hok]

/-- The group at the start of the ring is taken out exactly when the search for the next
    I frame ends, where there is one. -/
theorem exists_dropFirstGop_iff (info : RecIdxInfo) (writeOk : Bool) :
    (∃ fuel res, dropFirstGop r c info writeOk fuel = some res) ↔
      (c.s32CycTimes ≠ 0 → r.IframeAtStart c →
        (r.given 1 (c.frameBehind 0)).length < 2 ∨ ∃ n, r.GetsIframe c n) := by
  unfold dropFirstGop
  -- the code returns at once without a cycle, and without an I frame at its start
  by_cases hcyc : c.s32CycTimes = 0
  · simp only [if_pos hcyc]
    exact iff_of_true ⟨0, _, rfl⟩ fun h => absurd hcyc h
  simp only [if_neg hcyc]
  by_cases hin : r.IframeAtStart c
  · have hi : (r.getEntryByNum 0 {} c.u32StartFrame).1.isIframe = true := by
      have := IndexReads.iframeAtStart_iff.mp hin
      simp only [Bool.or_eq_true, not_or, Bool.not_eq_true', Bool.not_eq_false] at this
      exact this.2
    -- otherwise it looks for the next I frame
    have hnext := exists_nextIframe_start_iff (r := r) (c := c) hi
    rw [CycMgr.frameBehind] at hnext
    simp only [if_neg (IndexReads.iframeAtStart_iff.mp hin)]
    constructor
    · rintro ⟨fuel, res, hres⟩ _ _
      split at hres
      · cases hres
      · exact hnext.mp ⟨fuel, _, ‹_›⟩
    · intro h
      obtain ⟨fuel, res, hres⟩ := hnext.mpr (h hcyc hin)
      refine ⟨fuel, ?_⟩
      rw [hres]
      exact ⟨_, rfl⟩
  · simp only [if_pos (not_not.mp (mt IndexReads.iframeAtStart_iff.mpr hin))]
    exact iff_of_true ⟨0, _, rfl⟩ fun _ h => absurd h hin

/-- The frame number that an offset of 32 bits cannot reach beyond is not in the file. -/
theorem IndexReads.complete_last (n : Nat) : r.complete n 4294967295 = false := by
  have hshort : (r.bytes (4294967295 % frameNums)).length < sizeofEntry := r.short
  rw [complete, decide_eq_false (p := (r.bytes (4294967295 % frameNums)).length = sizeofEntry)
    (by omega), Bool.and_false]

/-- The loop ends, at the latest where the file does. -/
theorem updateLoop_returns (hstart : c.u32StartFrame < 4294967296) {i : Nat}
    (hi : i < 4294967296) (n : Nat) (e : IndexEntry) (info : RecIdxInfo) :
    ∃ fuel res, updateLoop r c fuel n i e info = some res := by
  -- at the latest the loop ends with the greatest number there is
  obtain ⟨left, hleft⟩ : ∃ left, i + left = 4294967295 := ⟨4294967295 - i, by omega⟩
  induction left generalizing i n e info with
  | zero =>
    obtain rfl : i = 4294967295 := hleft
    refine ⟨1, info, ?_⟩
    simp only [updateLoop, IndexReads.getEntryByNum, IndexReads.complete_last,
      Bool.false_eq_true, if_false]
    rw [if_pos (by omega)]
  | succ left ih =>
    have hnext : u32 (i + 1) = i + 1 := u32_of_lt (by omega)
    have hrest := fun n e info => ih (i := i + 1) (by omega) n e info (by omega)
    -- a round that does not return goes on with the next number
    have hround : ∀ {x : Nat → Option RecIdxInfo},
        (∃ fuel res, x fuel = some res) →
        (∀ fuel, updateLoop r c (fuel + 1) n i e info = x fuel) →
        ∃ fuel res, updateLoop r c fuel n i e info = some res :=
      fun ⟨fuel, res, hres⟩ h => ⟨fuel + 1, res, (h fuel).trans hres⟩
    cases hok : (r.getEntryByNum n e i).2 with
    | false =>
      -- a number that cannot be read ends the loop from the first frame of the cycle on
      by_cases hge : c.u32StartFrame ≤ i
      · exact ⟨1, info, by simp only [updateLoop, hok, Bool.false_eq_true, if_false, if_pos hge]⟩
      · exact hround (hrest (n + 1) (r.getEntryByNum n e i).1 info) fun fuel => by
          simp only [updateLoop, hok, Bool.false_eq_true, if_false, if_neg hge, hnext]
    | true =>
      cases htype : (r.getEntryByNum n e i).1.isIframe with
      | false =>
        exact hround (hrest (n + 1) (r.getEntryByNum n e i).1 info) fun fuel => by
          simp only [updateLoop, hok, htype, Bool.false_eq_true, if_true, if_false, hnext]
      | true =>
        by_cases hge : c.u32StartFrame ≤ i
        · exact ⟨1, _, by simp only [updateLoop, hok, htype, if_true, if_pos hge]; rfl⟩
        · by_cases hend : i ≠ c.u32EndFrame
          · exact hround (hrest (n + 2) _ _) fun fuel => by
              simp only [updateLoop, hok, htype, if_true, if_neg hge, if_pos hend, hnext]; rfl
          · exact hround (hrest (n + 1) _ _) fun fuel => by
              simp only [updateLoop, hok, htype, if_true, if_neg hge, if_neg hend, hnext]; rfl

/-- `PVR_Index_RecIdxInfo` returns exactly when the search for an I frame ends, where it
    is begun. -/
theorem exists_recIdxInfo_iff (info : RecIdxInfo) (pstIdxEntry : IndexEntry) (env : RecIdxEnv) :
    (∃ fuel res, recIdxInfo r c info pstIdxEntry env fuel = some res) ↔
      (env.headerOk = true → c.s32CycTimes ≠ 0 → r.IframeAtStart c →
        (r.given 1 (c.frameBehind 0)).length < 2 ∨ ∃ n, r.GetsIframe c n) := by
  unfold recIdxInfo
  cases henv : env.headerOk with
  | false =>
    simp only [Bool.not_false, if_true]
    exact iff_of_true ⟨0, _, rfl⟩ fun h => nomatch h
  | true =>
    simp only [Bool.not_true, Bool.false_eq_true, if_false, true_imp_iff]
    rw [← exists_dropFirstGop_iff _ env.firstWriteOk]
    refine exists_congr fun fuel => ?_
    simp only [Option.map_eq_some_iff]
    exact ⟨fun ⟨_, res, h, _⟩ => ⟨res, h⟩, fun ⟨res, h⟩ => ⟨_, res, h, rfl⟩⟩

/-- Both functions return exactly when, where the first group of a ring is to be taken out,
    the read behind the one of the start frame does not even give a type, or the reads come
    to the type of an I frame, going one frame on with each read that is complete. -/
theorem recIdxInfo_returns_iff (r r' : IndexReads) (c : CycMgr)
    (hstart : c.u32StartFrame < 4294967296) (hend : c.u32EndFrame < 4294967296)
    (info : RecIdxInfo) (pstIdxEntry : IndexEntry) (env : RecIdxEnv) :
    ((∃ fuel res, recIdxInfo r c info pstIdxEntry env fuel = some res) ∧
      ∃ fuel res, updateIdxInfoWhenRewind r' c info fuel = some res) ↔
    (env.headerOk = true → c.s32CycTimes ≠ 0 → r.IframeAtStart c →
      (r.given 1 (c.frameBehind 0)).length < 2 ∨ ∃ n, r.GetsIframe c n) := by
  have hupdate : ∃ fuel res, updateIdxInfoWhenRewind r' c info fuel = some res := by
    unfold updateIdxInfoWhenRewind
    split
    · exact ⟨0, _, rfl⟩
    · exact updateLoop_returns hstart hend 0 {} info
  rw [and_iff_left hupdate, exists_recIdxInfo_iff]

/-- A recording of a hundred frames that has just gone round, with an I frame at its
    start. -/
def wrappedRing : CycMgr where
  bIsRewind := true
  s32CycTimes := 1
  u32StartFrame := 25
  u32EndFrame := 1
  u32LastFrame := 99

/-- Its file, whose frames are I frames at every fifth number, with these reads. -/
def wrappedReads (attempt : Nat → Attempt) : IndexReads where
  bytes num :=
    if num < 100 then
      IndexEntry.toBytes { u16FrameTypeAndGop := if num % 5 = 0 then 0x4000 else 0x8000 }
    else []
  attempt := attempt
  length_le num := by
    split
    · exact Nat.le_of_eq (by simp [IndexEntry.toBytes, sizeofEntry])
    · exact Nat.zero_le _
  short := by decide

/-- The file breaks down once the start frame and the one behind it have been read. -/
theorem recIdxInfo_stuck : ¬ ∃ fuel res, recIdxInfo
    (wrappedReads fun | 0 | 1 => .whole | _ + 2 => .part 0) wrappedRing {} {} {} fuel =
      some res := by
  rw [exists_recIdxInfo_iff]
  intro h
  obtain hshort | ⟨n, htwo, hi⟩ := h rfl (by decide) ⟨by decide, by decide⟩
  · exact absurd hshort (by decide)
  · obtain _ | n := n
    · exact absurd hi (by decide)
    · exact absurd (show 2 ≤ ([] : List UInt8).length from htwo) (by decide)

theorem recIdxInfo_returns_iff_whole :
    (∃ fuel res, recIdxInfo (wrappedReads fun _ => .whole) wrappedRing {} {} {} fuel = some res) ∧
      ∃ fuel res, updateIdxInfoWhenRewind (wrappedReads fun _ => .whole) wrappedRing {} fuel =
        some res :=
  (recIdxInfo_returns_iff (wrappedReads fun _ => .whole) (wrappedReads fun _ => .whole)
    wrappedRing (by decide) (by decide) {} {} {}).mpr fun _ _ _ => .inr ⟨4, by decide, by decide⟩

end Tntsat.PvrIndex
