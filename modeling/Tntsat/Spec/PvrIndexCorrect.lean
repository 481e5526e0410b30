import Tntsat.Spec.PvrIndexStep

/-!
# The counters of the index and failed writes

Before its entry is written a call has already decided about the cycle: the write
frame is back at 0, the flags of a loop by time have moved on, the size of a
recording that ends by time is fixed.  A write that fails then leaves the ring
inconsistent.  The other way to break it is a cycle that ends after less than 26
frames, because the next one always starts at frame 25.

## Key results

- `step_kept`: one call under `Regular`
- `ring_kept`: every run whose calls are all `Regular`
- `ring_broken`: a full disc at the end of a cycle
-/

namespace Tntsat.PvrIndex

open PvrIdxCache (IdxErr)

variable {σ : Type}

/-- The assertion of `PVR_Index_SaveFramePosition` and the order of the ring. -/
def RingOk (s : Index σ) : Prop :=
  s.stCycMgr.u32EndFrame ≤ s.u32WriteFrame ∧ s.stCycMgr.u32StartFrame ≤ s.stCycMgr.u32LastFrame

instance (s : Index σ) : Decidable (RingOk s) := inferInstanceAs (Decidable (_ ∧ _))

/-- What a call that fails has to leave alone. -/
structure Unchanged (s s' : Index σ) : Prop where
  write : s'.u32WriteFrame = s.u32WriteFrame
  start : s'.stCycMgr.u32StartFrame = s.stCycMgr.u32StartFrame
  end_ : s'.stCycMgr.u32EndFrame = s.stCycMgr.u32EndFrame
  last : s'.stCycMgr.u32LastFrame = s.stCycMgr.u32LastFrame
  cycTimes : s'.stCycMgr.s32CycTimes = s.stCycMgr.s32CycTimes
  maxCycSize : s'.stCycMgr.u64MaxCycSize = s.stCycMgr.u64MaxCycSize
  rewindFlg : s'.bTimeRewindFlg = s.bTimeRewindFlg
  pauseFlg : s'.bTimeRewindTsPauseFlg = s.bTimeRewindTsPauseFlg
  rewindMaxSize : s'.u64TimeRewindMaxSize = s.u64TimeRewindMaxSize

/-- A call that returns leaves the ring in order, and the rest as it was when it
    returns an error. -/
def Kept (st : IdxStore σ) (s : Index σ) (i : SaveCall) : Prop :=
  ∀ out, ((machine st).step s i).2 = some out →
    RingOk ((machine st).step s i).1 ∧ (out.ret ≠ none → Unchanged s ((machine st).step s i).1)

/-! ## The condition -/

/-- The frame starts a new cycle, as seen when its place is looked for. -/
def startsCycle (s : Index σ) (f : DmxIndex) : Bool :=
  let c := s.stCycMgr
  c.bIsRewind &&
    if c.enRewindType = .byTime then c.timeIsOver && behindCut s f
    else c.u64MaxCycSize < u64sub f.u64GlobalOffset.toNat (u64 (c.u64MaxCycSize * c.s32CycTimes))

/-- The recording asks for a cut. -/
def asksForCut (s : Index σ) (f : DmxIndex) : Bool :=
  let c := s.stCycMgr
  c.bIsRewind && c.enRewindType == .byTime && c.timeIsOver && !behindCut s f

/-- The write of the call's entry succeeds. -/
def entryWritten (st : IdxStore σ) (s : Index σ) (i : SaveCall) : Bool :=
  match i.place st s with
  | none => true
  | some (s₁, offset, rewinds) =>
    (st.cacheWriteIdx s₁.store { i.entry s with u64Offset := offset }
      (if rewinds then 0 else s₁.u32WriteFrame)
      (i.u32DirectFlag || s₁.stCycMgr.u32LastFrame == 0)).2.1.isNone

/-- The calls that keep the ring.  One that starts a cycle writes its entry and ends
    a cycle of at least 26 frames; or it fails, and nothing was changed before the
    write: a loop by size whose write frame is at 0 anyway.  One that asks for a cut
    writes its entry, or the cut was asked for before.  In a recording that does not
    loop the write succeeds or the size stays the same, and the start frame of a
    shared event file is not beyond the frame just written. -/
def Regular (st : IdxStore σ) (s : Index σ) (i : SaveCall) : Prop :=
  accepts s i.frame = true →
    let p := i.prepared st s
    let written := entryWritten st s i
    (startsCycle p i.frame = true →
      (written = true ∧ 26 ≤ s.stCycMgr.u32EndFrame) ∨
        (written = false ∧ p.stCycMgr.enRewindType ≠ .byTime ∧ s.u32WriteFrame = 0)) ∧
    (asksForCut p i.frame = true → written = true ∨ s.bTimeRewindFlg = true) ∧
    (s.stCycMgr.bIsRewind = false →
      (written = true ∨ (placeStraight p i.frame).1.stCycMgr.u64MaxCycSize =
        s.stCycMgr.u64MaxCycSize) ∧
      (written = true → i.env.startFrame.toNat ≤ s.stCycMgr.u32LastFrame + 1))

instance (st : IdxStore σ) (s : Index σ) (i : SaveCall) : Decidable (Regular st s i) :=
  inferInstanceAs (Decidable (_ → _ ∧ _ ∧ _))

/-! ## One call -/

/-- What the place of a frame decides about the ring. -/
structure Placed (st : IdxStore σ) (s : Index σ) (i : SaveCall) (s₁ : Index σ)
    (rewinds : Bool) : Prop where
  write : s₁.u32WriteFrame = s.u32WriteFrame
  start : s₁.stCycMgr.u32StartFrame = s.stCycMgr.u32StartFrame
  end_ : s₁.stCycMgr.u32EndFrame = s.stCycMgr.u32EndFrame
  last : s₁.stCycMgr.u32LastFrame = s.stCycMgr.u32LastFrame
  cycTimes : s₁.stCycMgr.s32CycTimes = s.stCycMgr.s32CycTimes
  isRewind : s₁.stCycMgr.bIsRewind = s.stCycMgr.bIsRewind
  starts : rewinds = startsCycle (i.prepared st s) i.frame
  /-- nothing else has changed, unless the call is one that `Regular` speaks of -/
  unchanged : rewinds = false ∨ (i.prepared st s).stCycMgr.enRewindType ≠ .byTime →
    asksForCut (i.prepared st s) i.frame = false ∨ s.bTimeRewindFlg = true →
    (s.stCycMgr.bIsRewind = false →
      (placeStraight (i.prepared st s) i.frame).1.stCycMgr.u64MaxCycSize =
        s.stCycMgr.u64MaxCycSize) → Unchanged s s₁

theorem startsCycle_byTime {p : Index σ} (f : DmxIndex) (hrew : p.stCycMgr.bIsRewind = true)
    (htype : p.stCycMgr.enRewindType = .byTime) :
    startsCycle p f = (p.stCycMgr.timeIsOver && behindCut p f) := by
  simp [startsCycle, hrew, htype]

/-- A frame of a recording that loops by size. -/
theorem placeBySize_eq {p : Index σ} {f : DmxIndex} (hrew : p.stCycMgr.bIsRewind = true)
    (htype : p.stCycMgr.enRewindType ≠ .byTime) :
    (placeBySize p f).1 = p ∧ (placeBySize p f).2.2 = startsCycle p f := by
  unfold placeBySize startsCycle
  simp only [hrew, if_neg htype, Bool.true_and, gt_iff_lt]
  split
  · rename_i hgt; simp [hgt]
  · rename_i hgt; simp [hgt]

theorem placed (st : IdxStore σ) {s s₁ : Index σ} {i : SaveCall} {offset : Nat} {rewinds : Bool}
    (h : i.place st s = some (s₁, offset, rewinds)) : Placed st s i s₁ rewinds := by
  unfold SaveCall.place placeFrame at h
  -- what the preparation has left alone
  have hw : (i.prepared st s).u32WriteFrame = s.u32WriteFrame := rfl
  have hS : (i.prepared st s).stCycMgr.u32StartFrame = s.stCycMgr.u32StartFrame := rfl
  have hE : (i.prepared st s).stCycMgr.u32EndFrame = s.stCycMgr.u32EndFrame := rfl
  have hL : (i.prepared st s).stCycMgr.u32LastFrame = s.stCycMgr.u32LastFrame := rfl
  have hC : (i.prepared st s).stCycMgr.s32CycTimes = s.stCycMgr.s32CycTimes := rfl
  have hR : (i.prepared st s).stCycMgr.bIsRewind = s.stCycMgr.bIsRewind := rfl
  have hM : (i.prepared st s).stCycMgr.u64MaxCycSize = s.stCycMgr.u64MaxCycSize := rfl
  have hF : (i.prepared st s).bTimeRewindFlg = s.bTimeRewindFlg := rfl
  have hP : (i.prepared st s).bTimeRewindTsPauseFlg = s.bTimeRewindTsPauseFlg := rfl
  have hT : (i.prepared st s).u64TimeRewindMaxSize = s.u64TimeRewindMaxSize := rfl
  split at h
  · rename_i hrew
    split at h
    · -- by time
      rename_i htype
      have hstarts := startsCycle_byTime i.frame hrew htype
      rcases placeByTime_cases h with ⟨rfl, hno, rfl, -⟩ | ⟨rfl, hyes, store, m, total, rfl⟩
      · refine ⟨hw, hS, hE, hL, hC, hR, by rw [hstarts, hno], fun _ hcut _ => ?_⟩
        refine ⟨hw, hS, hE, hL, hC, hM, ?_, hP, hT⟩
        -- the flag is set when the time is over, unless it was set before
        rw [← hF]
        cases hover : (i.prepared st s).stCycMgr.timeIsOver with
        | false => exact Bool.or_false _
        | true =>
          rw [hover, Bool.true_and] at hno
          cases hcut with
          | inl hcut => simp [asksForCut, hrew, htype, hover, hno] at hcut
          | inr hcut => rw [hF, hcut, Bool.true_or]
      · refine ⟨hw, hS, hE, hL, hC, hR, by rw [hstarts, hyes], fun hnot _ _ => ?_⟩
        cases hnot with
        | inl hnot => cases hnot
        | inr hnot => exact absurd htype hnot
    · -- by size
      rename_i htype
      obtain ⟨hs, hr⟩ := placeBySize_eq (f := i.frame) hrew htype
      rw [Option.some.inj h] at hs hr
      subst hs
      exact ⟨hw, hS, hE, hL, hC, hR, hr, fun _ _ _ => ⟨hw, hS, hE, hL, hC, hM, hF, hP, hT⟩⟩
  · rename_i hrew
    have hrew' : (i.prepared st s).stCycMgr.bIsRewind = false := by simpa using hrew
    obtain ⟨rfl, -, rfl⟩ : (placeStraight (i.prepared st s) i.frame).1 = s₁ ∧
        (placeStraight (i.prepared st s) i.frame).2.1 = offset ∧ false = rewinds := by
      simpa [placeStraight] using h
    refine ⟨hw, hS, hE, hL, hC, hR, by simp [startsCycle, hrew'], fun _ _ hsize => ?_⟩
    exact ⟨hw, hS, hE, hL, hC, hsize (hR.symm.trans hrew'), hF, hP, hT⟩

/-- The end of a call keeps the order of the ring. -/
theorem finishFrame_ringOk (st : IdxStore σ) {s : Index σ} (hR : RingOk s) (e : IndexEntry)
    (env : SaveEnv) (record : Bool) : RingOk (finishFrame st s e env record) := by
  obtain ⟨store, start, count, header, t, heq, -, hstart⟩ := finishFrame_eq st s e env record
  rw [heq]
  refine ⟨hR.1, ?_⟩
  cases hstart with
  | inl hsame => exact hsame ▸ hR.2
  | inr hle => exact hle

/-- Moving the ring keeps its order when a finished cycle has 26 frames and a start
    frame given from outside is not beyond the end. -/
theorem advance_ringOk {s : Index σ} {env : SaveEnv} {rewinds : Bool}
    (hS : s.stCycMgr.u32StartFrame ≤ s.stCycMgr.u32LastFrame)
    (hcycle : rewinds = true → s.stCycMgr.bIsRewind = true ∧ 26 ≤ s.stCycMgr.u32EndFrame)
    (hmove : rewinds = false → s.stCycMgr.u32EndFrame ≤ s.u32WriteFrame)
    (hstart : s.stCycMgr.bIsRewind = false →
      env.startFrame.toNat ≤ s.stCycMgr.u32LastFrame + 1) :
    RingOk (advance s env rewinds) := by
  cases hrew : s.stCycMgr.bIsRewind with
  | false =>
    cases rewinds with
    | true => exact absurd (hcycle rfl).1 (by rw [hrew]; decide)
    | false =>
      have hle := hstart hrew
      -- the start may be moved, but not past the new last frame
      rw [advance_straight hrew]
      refine ⟨Nat.succ_le_succ (hmove rfl), ?_⟩
      simp only [goStraight]
      split <;> omega
  | true =>
    cases rewinds with
    | true =>
      have h26 := (hcycle rfl).2
      -- a new cycle moves the start a gap of frames ahead of the front
      rw [advance_start hrew]
      refine ⟨Nat.le_refl 1, ?_⟩
      simp only [startCycle, rewindFramesGap]
      split <;> omega
    | false =>
      rw [advance_move hrew]
      exact ⟨Nat.succ_le_succ (hmove rfl), moveOn_start_le _⟩

/-- One call under `Regular`. -/
theorem step_kept (st : IdxStore σ) (s : Index σ) (i : SaveCall) (hI : RingOk s)
    (hR : Regular st s i) : Kept st s i ∧ RingOk ((machine st).step s i).1 := by
  obtain ⟨-, store, lastI, hstep⟩ | ⟨-, -, hstep⟩ | ⟨hacc, s₁, offset, rewinds, hplace, hstep⟩ :=
    step_eq st s i
  · -- the frame is discarded
    rw [Kept, hstep]
    refine ⟨fun out hout => ?_, hI⟩
    obtain rfl := Option.some.inj hout
    exact ⟨hI, fun hne => absurd rfl hne⟩
  · -- the call does not return
    rw [Kept, hstep]
    exact ⟨fun out hout => (nomatch hout), hI⟩
  obtain ⟨hcycle, hcut, hstraight⟩ := hR hacc
  have hP := placed st hplace
  rw [Kept, hstep]
  simp only [entryWritten, hplace] at hcycle hcut hstraight
  rw [← hP.starts] at hcycle
  obtain ⟨err, herr, hw⟩ | ⟨hok, record, hw⟩ :=
    writeFrame_cases st s₁ { i.entry s with u64Offset := offset } i.env rewinds i.u32DirectFlag
  · -- the write fails
    rw [hw]
    simp only [herr, Option.isNone_some, Bool.false_eq_true, false_and, true_and, false_or,
      false_implies, and_true] at hcycle hcut hstraight
    have hsame : Unchanged s s₁ := by
      apply hP.unchanged
      · cases rewinds with
        | false => exact .inl rfl
        | true => exact .inr (hcycle rfl).1
      · cases hask : asksForCut (i.prepared st s) i.frame with
        | false => exact .inl rfl
        | true => exact .inr (hcut hask)
      · exact hstraight
    have hwrite : (if rewinds = true then 0 else s₁.u32WriteFrame) = s.u32WriteFrame := by
      split
      · rename_i hrew; exact (hcycle hrew).2.symm
      · exact hsame.write
    have hU : Unchanged s { s₁ with
        store := (st.cacheWriteIdx s₁.store { i.entry s with u64Offset := offset }
          (if rewinds = true then 0 else s₁.u32WriteFrame)
          (i.u32DirectFlag || s₁.stCycMgr.u32LastFrame == 0)).1
        u32WriteFrame := if rewinds = true then 0 else s₁.u32WriteFrame } :=
      { hsame with write := hwrite }
    have hring : RingOk { s₁ with
        store := (st.cacheWriteIdx s₁.store { i.entry s with u64Offset := offset }
          (if rewinds = true then 0 else s₁.u32WriteFrame)
          (i.u32DirectFlag || s₁.stCycMgr.u32LastFrame == 0)).1
        u32WriteFrame := if rewinds = true then 0 else s₁.u32WriteFrame } := by
      refine ⟨?_, ?_⟩
      · rw [hU.write, hU.end_]; exact hI.1
      · rw [hU.start, hU.last]; exact hI.2
    exact ⟨fun _ _ => ⟨hring, fun _ => hU⟩, hring⟩
  · -- the write succeeds
    rw [hw]
    simp only [hok, Option.isNone_none, true_and, Bool.true_eq_false, false_and, or_false,
      true_or, forall_const] at hcycle hcut hstraight
    have hring : RingOk (finishFrame st (advance { s₁ with
        store := (st.cacheWriteIdx s₁.store { i.entry s with u64Offset := offset }
          (if rewinds = true then 0 else s₁.u32WriteFrame)
          (i.u32DirectFlag || s₁.stCycMgr.u32LastFrame == 0)).1
        u32WriteFrame := if rewinds = true then 0 else s₁.u32WriteFrame } i.env rewinds)
        { i.entry s with u64Offset := offset } i.env record) := by
      apply finishFrame_ringOk
      apply advance_ringOk
      · show s₁.stCycMgr.u32StartFrame ≤ s₁.stCycMgr.u32LastFrame
        rw [hP.start, hP.last]
        exact hI.2
      · intro hrew
        have hstarts := hP.starts
        rw [hrew] at hstarts
        refine ⟨?_, ?_⟩
        · show s₁.stCycMgr.bIsRewind = true
          rw [hP.isRewind]
          have hboth := hstarts.symm
          rw [startsCycle, Bool.and_eq_true] at hboth
          exact hboth.1
        · show 26 ≤ s₁.stCycMgr.u32EndFrame
          rw [hP.end_]
          exact hcycle hrew
      · intro hrew
        show s₁.stCycMgr.u32EndFrame ≤ if rewinds = true then 0 else s₁.u32WriteFrame
        rw [hrew, if_neg (by decide), hP.end_, hP.write]
        exact hI.1
      · intro hrew
        have hrew' : s₁.stCycMgr.bIsRewind = false := hrew
        show i.env.startFrame.toNat ≤ s₁.stCycMgr.u32LastFrame + 1
        rw [hP.last]
        exact hstraight (hP.isRewind ▸ hrew')
    refine ⟨fun out hout => ?_, hring⟩
    obtain rfl := Option.some.inj hout
    exact ⟨hring, fun hne => absurd rfl hne⟩

/-- `PVR_Index_ResetRecAttr` leaves the ring in order. -/
theorem ringOk_resetRecAttr (s : Index σ) : RingOk (resetRecAttr s) :=
  ⟨Nat.le_refl 0, Nat.le_refl 0⟩

/-- A recording of 50 MiB that loops by size, on an index file just opened. -/
def loopBySize : Index PvrIdxCache.CacheHandle where
  store := PvrIdxCache.opened [] 0 true true
  stCycMgr := { bIsRewind := true, u64MaxCycSize := 52363264, enRewindType := .bySize }

end Tntsat.PvrIndex
