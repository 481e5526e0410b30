import Tntsat.Native.PvrIndex

/-!
# What one call on the index can do

`PVR_Index_SaveFramePosition` taken apart: finding the place of the frame,
writing its entry, moving the ring, and tidying up.  The lemmas say what each
part may change, so that the invariants of the index need not look inside.

## Key results

- `step_eq`: a call discards its frame, does not return, or writes an entry
- `placeByTime_cases`: what a recording that loops by time changes first
- `finishFrame_eq`: after the ring has moved, only its start may move further
- `step_success`: what a call leaves that succeeds
-/

namespace Tntsat.PvrIndex

open PvrIdxCache (IdxErr)

variable {σ : Type} (st : IdxStore σ)

/-! ## The end of a call -/

/-- The start frame moves up, and not beyond the last frame. -/
theorem advanceStart_le (offset left : Nat) (store : σ) (startEntry : IndexEntry) (start : Nat) :
    start ≤ (advanceStart st offset left store startEntry start).2.1 ∧
      (advanceStart st offset left store startEntry start).2.1 ≤ start + left := by
  induction left generalizing store startEntry start with
  | zero =>
    unfold advanceStart
    split <;> exact ⟨Nat.le_refl _, Nat.le_refl _⟩
  | succ left ih =>
    unfold advanceStart
    split
    · simp only
      split
      · have := ih (st.getEntryByNum store startEntry (start + 1)).1
          (st.getEntryByNum store startEntry (start + 1)).2.1 (start + 1)
        omega
      · simp only
        omega
    · exact ⟨Nat.le_refl _, Nat.le_add_right _ _⟩

/-- `PVR_Index_Adjust_StartFrame` moves the start frame up, at most to the last
    frame. -/
theorem adjustStartFrame_eq (s : Index σ) (e : IndexEntry) :
    ∃ store start count, adjustStartFrame st s e =
        { s with
          store := store
          stCycMgr := { s.stCycMgr with u32StartFrame := start }
          rewindAdjustCount := count } ∧
      s.stCycMgr.u32StartFrame ≤ start ∧
      (start = s.stCycMgr.u32StartFrame ∨ start ≤ s.stCycMgr.u32LastFrame) := by
  -- most branches change nothing
  have hsame : ∃ store start count, s =
        { s with
          store := store
          stCycMgr := { s.stCycMgr with u32StartFrame := start }
          rewindAdjustCount := count } ∧
      s.stCycMgr.u32StartFrame ≤ start ∧
      (start = s.stCycMgr.u32StartFrame ∨ start ≤ s.stCycMgr.u32LastFrame) :=
    ⟨s.store, s.stCycMgr.u32StartFrame, s.rewindAdjustCount, rfl, Nat.le_refl _, .inl rfl⟩
  unfold adjustStartFrame
  simp only
  split
  · split
    · exact hsame
    · split
      · refine ⟨_, _, _, rfl, ?_⟩
        -- the start moves forward, and not past the last frame
        have hle := advanceStart_le st (u64 (e.u64Offset + e.u32FrameSize))
          (s.stCycMgr.u32LastFrame - s.stCycMgr.u32StartFrame)
          (st.getEntryByNum s.store {} s.stCycMgr.u32StartFrame).1
          (st.getEntryByNum s.store {} s.stCycMgr.u32StartFrame).2.1 s.stCycMgr.u32StartFrame
        omega
      · exact ⟨_, s.stCycMgr.u32StartFrame, s.rewindAdjustCount, rfl, Nat.le_refl _, .inl rfl⟩
  · exact hsame

/-- `PVRIndexRecordCycInfo` changes the file and the time of the last flush. -/
theorem recordCycInfo_eq (s : Index σ) (headerOk : Bool) (now : Nat) (force : Bool) :
    ∃ store header t, recordCycInfo st s headerOk now force =
      { s with store := store, header := header, u32FflushTime := t } := by
  unfold recordCycInfo
  simp only
  cases headerOk with
  | false => exact ⟨_, _, _, rfl⟩
  | true =>
    rw [if_pos rfl]
    generalize (if s.u32FflushTime = 0 then now else s.u32FflushTime) = t
    split
    · exact ⟨_, _, _, rfl⟩
    · exact ⟨_, _, _, rfl⟩

/-- Once the ring has moved, a call changes nothing of it but its start. -/
theorem finishFrame_eq (s : Index σ) (e : IndexEntry) (env : SaveEnv) (record : Bool) :
    ∃ store start count header t, finishFrame st s e env record =
        { s with
          store := store
          stCycMgr := { s.stCycMgr with u32StartFrame := start }
          rewindAdjustCount := count
          header := header
          u32FflushTime := t
          u32LatestDisplayTimeMs := e.u32DisplayTimeMs } ∧
      s.stCycMgr.u32StartFrame ≤ start ∧
      (start = s.stCycMgr.u32StartFrame ∨ start ≤ s.stCycMgr.u32LastFrame) := by
  obtain ⟨store, start, count, hadj, hle, hlast⟩ := adjustStartFrame_eq st s e
  unfold finishFrame
  simp only [hadj]
  cases record with
  | false => exact ⟨store, start, count, s.header, s.u32FflushTime, rfl, hle, hlast⟩
  | true =>
    obtain ⟨store', header, t, hrec⟩ := recordCycInfo_eq st
      { s with
        store := store
        stCycMgr := { s.stCycMgr with u32StartFrame := start }
        rewindAdjustCount := count } env.headerOk env.now.toNat false
    simp only [if_true, hrec]
    exact ⟨store', start, count, header, t, rfl, hle, hlast⟩

/-! ## Moving the ring -/

theorem advance_straight {s : Index σ} (h : s.stCycMgr.bIsRewind = false) (env : SaveEnv)
    (rewinds : Bool) :
    advance s env rewinds = goStraight { s with u32WriteFrame := s.u32WriteFrame + 1 } env := by
  simp [advance, h]

theorem advance_start {s : Index σ} (h : s.stCycMgr.bIsRewind = true) (env : SaveEnv) :
    advance s env true = startCycle { s with u32WriteFrame := s.u32WriteFrame + 1 } := by
  simp [advance, h]

theorem advance_move {s : Index σ} (h : s.stCycMgr.bIsRewind = true) (env : SaveEnv) :
    advance s env false = moveOn { s with u32WriteFrame := s.u32WriteFrame + 1 } := by
  simp [advance, h]

private theorem wrapped_le (start last : Nat) : (if start > last then 0 else start) ≤ last := by
  split <;> omega

/-- `moveOn` never leaves the start behind the last frame. -/
theorem moveOn_start_le (s : Index σ) :
    (moveOn s).stCycMgr.u32StartFrame ≤ (moveOn s).stCycMgr.u32LastFrame :=
  wrapped_le _ _

/-! ## The beginning of a call -/

/-- The entry of a call before it has an offset in the stream file. -/
def SaveCall.entry (i : SaveCall) (s : Index σ) : IndexEntry :=
  newEntry (noteFrame (bumpLastIframe s) i.frame) i.frame

/-- The handle when the frame's place is looked for, with the outcomes of the
    call's writes. -/
def SaveCall.prepared (i : SaveCall) (st : IdxStore σ) (s : Index σ) : Index σ :=
  prepareFrame { s with store := st.withOutcomes s.store i.env.outcomes } i.frame

/-- Where the frame of the call lies. -/
def SaveCall.place (i : SaveCall) (st : IdxStore σ) (s : Index σ) :
    Option (Index σ × Nat × Bool) :=
  placeFrame st (i.prepared st s) i.frame i.env.fuel

/-- A call either discards its frame, does not return, or writes an entry. -/
theorem step_eq (s : Index σ) (i : SaveCall) :
    (accepts s i.frame = false ∧
      ∃ store lastI, (machine st).step s i =
        ({ s with store := store, u16RecLastIframe := lastI }, some {})) ∨
    (accepts s i.frame = true ∧ i.place st s = none ∧ (machine st).step s i = (s, none)) ∨
    (accepts s i.frame = true ∧ ∃ s₁ offset rewinds, i.place st s = some (s₁, offset, rewinds) ∧
      (machine st).step s i =
        ((writeFrame st s₁ { i.entry s with u64Offset := offset } i.env rewinds i.u32DirectFlag).1,
          some (writeFrame st s₁ { i.entry s with u64Offset := offset } i.env rewinds
            i.u32DirectFlag).2)) := by
  have hacc : accepts { s with store := st.withOutcomes s.store i.env.outcomes } i.frame =
      accepts s i.frame := rfl
  cases ha : accepts s i.frame with
  | false =>
    refine .inl ⟨rfl, ?_⟩
    simp only [machine, saveFramePosition, hacc, ha, Bool.false_eq_true, if_false]
    split
    · rename_i heq
      split at heq
      · obtain ⟨rfl, rfl⟩ := Prod.mk.inj (Option.some.inj heq)
        exact ⟨_, _, rfl⟩
      · obtain ⟨rfl, rfl⟩ := Prod.mk.inj (Option.some.inj heq)
        exact ⟨_, _, rfl⟩
    · rename_i heq
      split at heq <;> cases heq
  | true =>
    refine .inr ?_
    have hplace : placeFrame st
        (prepareFrame { s with store := st.withOutcomes s.store i.env.outcomes } i.frame)
        i.frame i.env.fuel = i.place st s := rfl
    simp only [machine, saveFramePosition, hacc, ha, if_true, hplace]
    cases hp : i.place st s with
    | none => exact .inl ⟨trivial, rfl, rfl⟩
    | some r =>
      obtain ⟨s₁, offset, rewinds⟩ := r
      exact .inr ⟨trivial, s₁, offset, rewinds, rfl, rfl⟩

/-- A frame that is discarded leaves the file alone. -/
theorem discard_store {s : Index σ} {i : SaveCall}
    (hacc : accepts s i.frame = false) :
    ((machine st).step s i).1.store = st.withOutcomes s.store i.env.outcomes := by
  have hacc' : accepts { s with store := st.withOutcomes s.store i.env.outcomes } i.frame =
      false := hacc
  simp only [machine, saveFramePosition, hacc', Bool.false_eq_true, if_false]
  by_cases htype : i.frame.enFrameType = .i ∨ i.frame.enFrameType = .p ∨ i.frame.enFrameType = .b
  · rw [if_pos htype]; rfl
  · rw [if_neg htype]

/-- The type of a loop is only chosen while both bounds apply, and nothing else
    of the ring changes before the frame's place is looked for. -/
theorem prepareFrame_eq (s : Index σ) (f : DmxIndex) :
    ∃ lastI pts type, prepareFrame s f =
        { s with
          u16RecLastIframe := lastI
          u32RecLastValidPtsMs := pts
          u16RecUpFlowFlag := 0
          stCycMgr := { s.stCycMgr with
            u64AllRecNowInMs := f.u32DataTimeMs.toNat, enRewindType := type } } ∧
      (s.stCycMgr.enRewindType ≠ .byBoth → type = s.stCycMgr.enRewindType) := by
  refine ⟨_, _, _, rfl, fun hne => ?_⟩
  exact if_neg hne

/-- The recording has been cut by the stream's thread, and the frame lies behind
    the cut. -/
def behindCut (s : Index σ) (f : DmxIndex) : Bool :=
  s.bTimeRewindTsPauseFlg && s.u64TimeTsPausePos < f.u64GlobalOffset.toNat

/-- A recording that loops by time asks for a cut when the time is over, and starts
    a new cycle with the first frame behind the cut. -/
theorem placeByTime_cases {st : IdxStore σ} {s s₁ : Index σ} {f : DmxIndex} {fuel offset : Nat}
    {rewinds : Bool} (h : placeByTime st s f fuel = some (s₁, offset, rewinds)) :
    (rewinds = false ∧ (s.stCycMgr.timeIsOver && behindCut s f) = false ∧
      s₁ = { s with bTimeRewindFlg := s.bTimeRewindFlg || s.stCycMgr.timeIsOver } ∧
      offset = u64sub f.u64GlobalOffset.toNat s.u64TimeRewindMaxSize) ∨
    (rewinds = true ∧ (s.stCycMgr.timeIsOver && behindCut s f) = true ∧
      ∃ store maxCycSize total, s₁ = { s with
        store := store
        stCycMgr := { s.stCycMgr with u64MaxCycSize := maxCycSize }
        bTimeRewindFlg := false
        bTimeRewindTsPauseFlg := false
        bTimeRewinded := true
        u64TimeRewindMaxSize := total }) := by
  unfold placeByTime at h
  simp only at h
  cases hover : s.stCycMgr.timeIsOver with
  | false =>
    -- the time is not over: the frame goes behind the last one
    rw [hover, if_neg (by decide)] at h
    obtain ⟨rfl, rfl, rfl⟩ : s = s₁ ∧ _ = offset ∧ false = rewinds := by simpa using h
    exact .inl ⟨rfl, rfl, by simp, rfl⟩
  | true =>
    rw [hover, if_pos rfl] at h
    by_cases hcut : s.bTimeRewindTsPauseFlg = true ∧
        f.u64GlobalOffset.toNat > s.u64TimeTsPausePos
    -- the first frame behind the cut starts a new cycle
    · rw [if_pos hcut] at h
      refine .inr ?_
      split at h
      · cases h
      · obtain ⟨hs, -, rfl⟩ := by simpa using h
        exact ⟨rfl, by simp [behindCut, hcut.1, hcut.2], _, _, _, hs.symm⟩
    -- up to there the frames go on as before
    · rw [if_neg hcut] at h
      obtain ⟨rfl, rfl, rfl⟩ : _ = s₁ ∧ _ = offset ∧ false = rewinds := by simpa using h
      refine .inl ⟨rfl, ?_, by simp, rfl⟩
      simpa [behindCut] using hcut

/-- A recording that loops by size changes nothing before it writes the entry. -/
theorem placeBySize_eq_ite (s : Index σ) (f : DmxIndex)
    (hle : s.stCycMgr.u64MaxCycSize * s.stCycMgr.s32CycTimes ≤ f.u64GlobalOffset.toNat) :
    placeBySize s f =
      let offset := f.u64GlobalOffset.toNat - s.stCycMgr.u64MaxCycSize * s.stCycMgr.s32CycTimes
      (s, if s.stCycMgr.u64MaxCycSize < offset then (offset - s.stCycMgr.u64MaxCycSize, true)
        else (offset, false)) := by
  have hlt := f.u64GlobalOffset.toNat_lt
  rw [placeBySize, u64_of_lt (by omega), u64sub_of_le hle hlt]
  exact (apply_ite (Prod.mk s) _ _ _).symm

/-- The handle when the place of a frame is looked for in a loop by size. -/
theorem prepared_bySize {s : Index σ} (htype : s.stCycMgr.enRewindType = .bySize) (i : SaveCall) :
    ∃ store lastI pts, i.prepared st s =
      { s with
        store := store
        u16RecLastIframe := lastI
        u32RecLastValidPtsMs := pts
        u16RecUpFlowFlag := 0
        stCycMgr := { s.stCycMgr with u64AllRecNowInMs := i.frame.u32DataTimeMs.toNat } } := by
  obtain ⟨lastI, pts, type, heq, hkeep⟩ :=
    prepareFrame_eq { s with store := st.withOutcomes s.store i.env.outcomes } i.frame
  have hsame : type = s.stCycMgr.enRewindType := hkeep (by rw [htype]; decide)
  exact ⟨_, lastI, pts, by rw [SaveCall.prepared, heq, hsame]⟩

/-- The place of a frame in a loop by size. -/
theorem place_bySize {s : Index σ} (hrew : s.stCycMgr.bIsRewind = true)
    (htype : s.stCycMgr.enRewindType = .bySize) (i : SaveCall) :
    i.place st s = some (placeBySize (i.prepared st s) i.frame) := by
  obtain ⟨store, lastI, pts, hprep⟩ := prepared_bySize st htype i
  rw [SaveCall.place, placeFrame, hprep, if_pos hrew, if_neg (by simp [htype])]

/-! ## The write -/

/-- What the write of the entry decides. -/
theorem writeFrame_cases (s : Index σ) (e : IndexEntry) (env : SaveEnv)
    (rewinds direct : Bool) :
    let w := st.cacheWriteIdx s.store e (if rewinds then 0 else s.u32WriteFrame)
      (direct || s.stCycMgr.u32LastFrame == 0)
    (∃ err, w.2.1 = some err ∧ writeFrame st s e env rewinds direct =
      ({ s with store := w.1, u32WriteFrame := if rewinds then 0 else s.u32WriteFrame },
        { ret := some err })) ∨
    (w.2.1 = none ∧ ∃ record, writeFrame st s e env rewinds direct =
      (finishFrame st (advance { s with
        store := w.1, u32WriteFrame := if rewinds then 0 else s.u32WriteFrame } env rewinds)
        e env record,
        { stored := some (if rewinds then 0 else s.u32WriteFrame, e) })) := by
  cases rewinds with
  | true =>
    simp only [writeFrame, if_true]
    split
    · rename_i err herr; exact .inl ⟨err, herr, rfl⟩
    · rename_i hok; exact .inr ⟨hok, _, rfl⟩
  | false =>
    simp only [writeFrame, Bool.false_eq_true, if_false]
    split
    · rename_i err herr; exact .inl ⟨err, herr, rfl⟩
    · rename_i hok; exact .inr ⟨hok, _, rfl⟩

/-- Moving the ring leaves the loop alone and counts a cycle that starts. -/
theorem advance_loop (s : Index σ) (env : SaveEnv) (rewinds : Bool) :
    (advance s env rewinds).stCycMgr.bIsRewind = s.stCycMgr.bIsRewind ∧
      (advance s env rewinds).stCycMgr.enRewindType = s.stCycMgr.enRewindType ∧
      (advance s env rewinds).stCycMgr.u64MaxCycSize = s.stCycMgr.u64MaxCycSize ∧
      (advance s env rewinds).bTimeRewindTsPauseFlg = s.bTimeRewindTsPauseFlg ∧
      (s.stCycMgr.bIsRewind = true → (advance s env rewinds).stCycMgr.s32CycTimes =
        if rewinds then s.stCycMgr.s32CycTimes + 1 else s.stCycMgr.s32CycTimes) := by
  cases hrew : s.stCycMgr.bIsRewind with
  | false =>
    rw [advance_straight hrew]
    exact ⟨hrew, rfl, rfl, rfl, nofun⟩
  | true =>
    cases rewinds with
    | false => rw [advance_move hrew]; exact ⟨hrew, rfl, rfl, rfl, fun _ => rfl⟩
    | true => rw [advance_start hrew]; exact ⟨hrew, rfl, rfl, rfl, fun _ => rfl⟩

/-! ## What a call does to the file

A property of the file that reads and flushes keep is kept by everything but the
write of the entry and the correction of entries after a cut. -/

/-- The property is kept by every operation but `cacheWriteIdx`. -/
structure StoreKeeps (st : IdxStore σ) (P : σ → Prop) : Prop where
  read : ∀ x e num, P x → P (st.getEntryByNum x e num).1
  flush : ∀ x, P x → P (st.flushIdxWriteCache x)
  correct : ∀ x e num, P x → P (st.writeIndexFunc x e num)
  outcomes : ∀ x os, P x → P (st.withOutcomes x os)

variable {st} {P : σ → Prop}

theorem advanceStart_store (hk : StoreKeeps st P) (offset left : Nat) {store : σ}
    (startEntry : IndexEntry) (start : Nat) (hP : P store) :
    P (advanceStart st offset left store startEntry start).1 := by
  induction left generalizing store startEntry start with
  | zero =>
    unfold advanceStart
    split <;> exact hP
  | succ left ih =>
    unfold advanceStart
    split
    · simp only
      split
      · exact ih _ _ (hk.read _ _ _ hP)
      · exact hk.read _ _ _ hP
    · exact hP

theorem adjustStartFrame_store (hk : StoreKeeps st P) {s : Index σ} (e : IndexEntry)
    (hP : P s.store) : P (adjustStartFrame st s e).store := by
  unfold adjustStartFrame
  simp only
  split
  · split
    · exact hP
    · split
      · exact advanceStart_store hk _ _ _ _ (hk.read _ _ _ hP)
      · exact hk.read _ _ _ hP
  · exact hP

theorem recordCycInfo_store (hk : StoreKeeps st P) {s : Index σ} (headerOk : Bool) (now : Nat)
    (force : Bool) (hP : P s.store) : P (recordCycInfo st s headerOk now force).store := by
  unfold recordCycInfo
  simp only
  cases headerOk with
  | false => exact hP
  | true =>
    rw [if_pos rfl]
    generalize (if s.u32FflushTime = 0 then now else s.u32FflushTime) = t
    split
    · exact hk.flush _ hP
    · exact hP

theorem finishFrame_store (hk : StoreKeeps st P) {s : Index σ} (e : IndexEntry) (env : SaveEnv)
    (record : Bool) (hP : P s.store) : P (finishFrame st s e env record).store := by
  unfold finishFrame
  simp only
  split
  · exact recordCycInfo_store hk _ _ _ (adjustStartFrame_store hk e hP)
  · exact adjustStartFrame_store hk e hP

theorem correctEntries_store (hk : StoreKeeps st P) (maxCycSize fuel : Nat) {store store' : σ}
    {e : IndexEntry} {num : Nat} (hP : P store)
    (h : correctEntries st maxCycSize fuel store e num = some store') : P store' := by
  induction fuel generalizing store e num with
  | zero =>
    unfold correctEntries at h
    split at h
    · cases h
    · cases h; exact hP
  | succ fuel ih =>
    unfold correctEntries at h
    split at h
    · exact ih (hk.read _ _ _ (hk.correct _ _ _ hP)) h
    · cases h; exact hP

theorem place_store (hk : StoreKeeps st P) {s s₁ : Index σ} {i : SaveCall} {offset : Nat}
    {rewinds : Bool} (hP : P s.store) (h : i.place st s = some (s₁, offset, rewinds)) :
    P s₁.store := by
  have hprep : P (i.prepared st s).store := hk.outcomes _ _ hP
  unfold SaveCall.place placeFrame at h
  split at h
  · split at h
    · unfold placeByTime at h
      simp only at h
      split at h
      · split at h
        · -- the entries behind the cut are corrected
          split at h
          · cases h
          · rename_i store hstore
            cases h
            split at hstore
            · exact correctEntries_store hk _ _ (hk.read _ _ _ (hk.flush _ hprep)) hstore
            · cases hstore
              exact hk.read _ _ _ (hk.flush _ hprep)
        · cases h; exact hprep
      · cases h; exact hprep
    · have hs : (placeBySize (i.prepared st s) i.frame).1 = s₁ := by rw [Option.some.inj h]
      rw [← hs, placeBySize, apply_ite Prod.fst, ite_self]
      exact hprep
  · have hs : (placeStraight (i.prepared st s) i.frame).1 = s₁ := by rw [Option.some.inj h]
    rw [← hs]
    exact hprep

/-! ## A call that succeeds -/

variable (st)

/-- The handle after the write of an entry that succeeded, before the ring moves. -/
def afterWrite (st : IdxStore σ) (s : Index σ) (e : IndexEntry) (rewinds direct : Bool) : Index σ :=
  let pos := if rewinds then 0 else s.u32WriteFrame
  { s with
    store := (st.cacheWriteIdx s.store e pos (direct || s.stCycMgr.u32LastFrame == 0)).1
    u32WriteFrame := pos }

/-- A call that succeeds discards its frame or stores its entry. -/
theorem step_success {s : Index σ} {i : SaveCall} {out : SaveOut}
    (h : ((machine st).step s i).2 = some out) (hret : out.ret = none) :
    (accepts s i.frame = false ∧ out.stored = none ∧
      ∃ store lastI, ((machine st).step s i).1 =
        { s with store := store, u16RecLastIframe := lastI }) ∨
    (accepts s i.frame = true ∧ ∃ s₁ offset rewinds record,
      i.place st s = some (s₁, offset, rewinds) ∧
      (st.cacheWriteIdx s₁.store { i.entry s with u64Offset := offset }
        (if rewinds then 0 else s₁.u32WriteFrame)
        (i.u32DirectFlag || s₁.stCycMgr.u32LastFrame == 0)).2.1 = none ∧
      out.stored = some (if rewinds then 0 else s₁.u32WriteFrame,
        { i.entry s with u64Offset := offset }) ∧
      ((machine st).step s i).1 =
        finishFrame st (advance (afterWrite st s₁ { i.entry s with u64Offset := offset } rewinds
          i.u32DirectFlag) i.env rewinds) { i.entry s with u64Offset := offset } i.env record) := by
  obtain ⟨hacc, store, lastI, hstep⟩ | ⟨-, -, hstep⟩ | ⟨hacc, s₁, offset, rewinds, hplace, hstep⟩ :=
    step_eq st s i
  -- discarded
  · rw [hstep] at h
    obtain rfl := Option.some.inj h
    exact .inl ⟨hacc, rfl, store, lastI, by rw [hstep]⟩
  -- the call does not return
  · rw [hstep] at h
    cases h
  -- stored, unless the write fails
  · rw [hstep] at h
    have h := Option.some.inj h
    obtain ⟨err, -, hw⟩ | ⟨hok, record, hw⟩ := writeFrame_cases st s₁
      { i.entry s with u64Offset := offset } i.env rewinds i.u32DirectFlag
    · rw [hw] at h
      rw [← h] at hret
      cases hret
    · rw [hw] at h
      refine .inr ⟨hacc, s₁, offset, rewinds, record, hplace, hok, by rw [← h], ?_⟩
      rw [hstep, hw]
      rfl

end Tntsat.PvrIndex
