import Mathlib
import Tntsat.ForStd.LittleEndian
import Tntsat.Native.PvrIdxCache

/-!
# The index of a recording

`PVR_Index_SaveFramePosition` of `msp/api/pvr/mt_pvr_index.c` and what it calls.
The index is a ring of entries, one a frame: `u32WriteFrame` is where the next
entry goes, `u32StartFrame`, `u32EndFrame` and `u32LastFrame` bound the entries
that can be played.  A recording that loops starts over at position 0 once its
stream file does, after `u64MaxCycSize` bytes or after a time.

The functions are written over an `IdxStore`, the operations they use on the file
of entries; `cached` is the one of the source, through the caches of
`Tntsat.Native.PvrIdxCache`.  The header of the file is kept apart from its
entries.  Left out are the locks, the statistics of groups of pictures, the
addon callbacks and `stCurRecFrame`, which nothing modelled reads.  Frame and
cycle counters are unbounded; offsets and times wrap as in the source.
-/

namespace Tntsat.PvrIndex

open PvrIdxCache (CacheHandle IdxErr WriteRes sizeofEntry)

/-! ## Entries -/

/-- `PVR_INDEX_ENTRY_S`. -/
structure IndexEntry where
  u16FrameTypeAndGop : Nat := 0
  u16UpFlowFlag : Nat := 0
  u8StcOffsinTs : Nat := 0
  s32CycTimes : Nat := 0
  u64GlobalOffset : Nat := 0
  u32DisplayTimeMs : Nat := 0
  u32FrameSize : Nat := 0
  u64Offset : Nat := 0
  u32PtsMs : Nat := 0
  u16IndexType : Nat := 0
  u161stFrameOfTT : Nat := 0
deriving DecidableEq

/-- The bytes of an entry. -/
def IndexEntry.toBytes (e : IndexEntry) : List UInt8 :=
  le 2 e.u16FrameTypeAndGop ++ (le 1 e.u16UpFlowFlag ++ (le 1 e.u8StcOffsinTs ++
    (le 4 e.s32CycTimes ++ (le 8 e.u64GlobalOffset ++ (le 4 e.u32DisplayTimeMs ++
      (le 4 e.u32FrameSize ++ (le 8 e.u64Offset ++ (le 4 e.u32PtsMs ++
        (le 2 e.u16IndexType ++ le 2 e.u161stFrameOfTT)))))))))

/-- The entry that bytes stand for. -/
def IndexEntry.ofBytes (bs : List UInt8) : IndexEntry :=
  let (u16FrameTypeAndGop, bs) := field 2 bs
  let (u16UpFlowFlag, bs) := field 1 bs
  let (u8StcOffsinTs, bs) := field 1 bs
  let (s32CycTimes, bs) := field 4 bs
  let (u64GlobalOffset, bs) := field 8 bs
  let (u32DisplayTimeMs, bs) := field 4 bs
  let (u32FrameSize, bs) := field 4 bs
  let (u64Offset, bs) := field 8 bs
  let (u32PtsMs, bs) := field 4 bs
  let (u16IndexType, bs) := field 2 bs
  let (u161stFrameOfTT, _) := field 2 bs
  { u16FrameTypeAndGop, u16UpFlowFlag, u8StcOffsinTs, s32CycTimes, u64GlobalOffset,
    u32DisplayTimeMs, u32FrameSize, u64Offset, u32PtsMs, u16IndexType, u161stFrameOfTT }

/-- What the functions of the index do with the file of entries. -/
structure IdxStore (σ : Type) where
  /-- `PVRCacheWriteIdx` of one entry; the flag is `*u32WriteFlag` -/
  cacheWriteIdx : σ → IndexEntry → Nat → Bool → σ × Option IdxErr × Bool
  /-- `Pvr_Write_Index_Func` of one entry -/
  writeIndexFunc : σ → IndexEntry → Nat → σ
  /-- `PVR_Index_FlushIdxWriteCache` -/
  flushIdxWriteCache : σ → σ
  /-- `PVRIndexGetEntryByNum`: `*pEntry` afterwards, and whether it succeeded -/
  getEntryByNum : σ → IndexEntry → Nat → σ × IndexEntry × Bool
  /-- set what the coming writes will do -/
  withOutcomes : σ → List WriteRes → σ

/-- The file of entries behind the caches. -/
def cached : IdxStore CacheHandle where
  cacheWriteIdx h e num direct :=
    PvrIdxCache.cacheWriteIdx h e.toBytes (u32 (num * sizeofEntry)) direct
  writeIndexFunc h e num :=
    (PvrIdxCache.pvrWriteIndexFunc h e.toBytes (u32 (num * sizeofEntry))).1
  flushIdxWriteCache h := (PvrIdxCache.flushIdxWriteCache h).1
  getEntryByNum h pEntry num :=
    let (h, bytes) := PvrIdxCache.cacheReadIdx h sizeofEntry (u32 (num * sizeofEntry)) false
    -- a short read leaves the end of `*pEntry` as it was
    (h, .ofBytes (bytes ++ pEntry.toBytes.drop bytes.length), bytes.length == sizeofEntry)
  withOutcomes h outcomes := { h with file := { h.file with outcomes := outcomes } }

/-! ## The handle -/

/-- `MT_UNF_VIDEO_FRAME_TYPE_E`. -/
inductive FrameType
  | unknown | i | p | b | butt
deriving DecidableEq

/-- The value of the enumerator. -/
def FrameType.toNat : FrameType → Nat
  | .unknown => 0
  | .i => 1
  | .p => 2
  | .b => 3
  | .butt => 4

/-- `MT_UNF_PVR_REC_INDEX_TYPE_E`. -/
inductive IndexType
  | none | video | audio
deriving DecidableEq

/-- The value of the enumerator. -/
def IndexType.toNat : IndexType → Nat
  | .none => 0
  | .video => 1
  | .audio => 2

/-- `PVR_INDEX_REWIND_TYPE_E`. -/
inductive RewindType
  | bySize | byTime | byBoth
deriving DecidableEq

/-- `PVR_CYC_MGR_S`. -/
structure CycMgr where
  bIsRewind : Bool := false
  u32StartFrame : Nat := 0
  u32EndFrame : Nat := 0
  u32LastFrame : Nat := 0
  s32CycTimes : Nat := 0
  u32Reserve : Nat := 0
  u64MaxCycSize : Nat := 0
  u64MaxCycTimeInMs : Nat := 0
  u64AllRecStartInMs : Nat := 0
  u64AllRecNowInMs : Nat := 0
  enRewindType : RewindType := .byBoth
deriving DecidableEq

/-- `PVR_IDX_HEADER_INFO_S` with its `PVR_CYC_HEADER_INFO_S`, the fields that are
    read when a recording is continued. -/
structure IdxHeaderInfo where
  u32HeaderLen : Nat := 0
  u32StartFrame : Nat := 0
  u32EndFrame : Nat := 0
  u32LastFrame : Nat := 0
  u32IsRewind : Bool := false
  u32TimeShiftEventLoopFirstNode : Nat := 0
  u64ValidSize : Nat := 0
deriving DecidableEq

/-- `PVR_INDEX_INVALID_I_FRAME_OFFSET`. -/
def invalidIFrameOffset : Nat := 0x3fff

/-- `PVR_INDEX_INVALID_PTSMS`. -/
def invalidPtsMs : Nat := 0xffffffff

/-- `PVR_INDEX_PAUSE_INVALID_OFFSET`. -/
def pauseInvalidOffset : Nat := 0xffffffff

/-- `PVR_REWIND_FRAMES_GAP`. -/
def rewindFramesGap : Nat := 25

/-- `PVR_REWIND_MAX_ADJUST_FRAMES`: `PVR_DFT_GOP_LEN - PVR_REWIND_FRAMES_GAP`. -/
def rewindMaxAdjustFrames : Nat := 120 - rewindFramesGap

/-- `PVR_FIFO_WRITE_BLOCK_SIZE`. -/
def fifoWriteBlockSize : Nat := 512 * 2 * 188

/-- `PVR_DIFF_FFLUSH_HEADINFO`. -/
def diffFflushHeadinfo : Nat := 10000

/-- `PVR_INDEX_S`, with the header on the file and the static
    `g_pvr_rewind_adjust_count`. -/
structure Index (σ : Type) where
  store : σ
  header : IdxHeaderInfo := {}
  stCycMgr : CycMgr := {}
  enIndexType : IndexType := .video
  u64GlobalOffset : Nat := 0
  u32PauseFrame : Nat := 0
  u64PauseOffset : Nat := pauseInvalidOffset
  u16RecLastIframe : Nat := invalidIFrameOffset
  u16RecUpFlowFlag : Nat := 0
  u32RecLastValidPtsMs : Nat := invalidPtsMs
  u32WriteFrame : Nat := 0
  u32ReadFrame : Nat := 0
  u32FflushTime : Nat := 0
  bTimeRewindFlg : Bool := false
  bTimeRewindTsPauseFlg : Bool := false
  bTimeRewinded : Bool := false
  u64TimeRewindMaxSize : Nat := 0
  u64TimeTsPausePos : Nat := 0
  u32LatestDisplayTimeMs : Nat := 0
  u32LastDisplayTimeMs : Nat := 0
  rewindAdjustCount : Nat := 0
deriving DecidableEq

variable {σ : Type}

/-- `PVR_Index_ResetRecAttr`. -/
def resetRecAttr (s : Index σ) : Index σ :=
  { s with
    u64GlobalOffset := 0
    u32PauseFrame := 0
    u64PauseOffset := pauseInvalidOffset
    u32WriteFrame := 0
    u16RecLastIframe := invalidIFrameOffset
    u32RecLastValidPtsMs := invalidPtsMs
    u16RecUpFlowFlag := 0
    stCycMgr := { s.stCycMgr with
      u32StartFrame := 0, u32EndFrame := 0, u32LastFrame := 0, s32CycTimes := 0 } }

/-! ## Saving a frame -/

/-- `MT_UNF_DMX_REC_INDEX_S`, the fields that are read. -/
structure DmxIndex where
  enFrameType : FrameType := .i
  u32PtsMs : UInt32 := 0
  u64GlobalOffset : UInt64 := 0
  u32FrameSize : UInt32 := 0
  u32DataTimeMs : UInt32 := 0
  u32HdrData0 : UInt32 := 0
  u32PrivatePara : UInt32 := 0
deriving DecidableEq

/-- What a call finds in its surroundings. -/
structure SaveEnv where
  /-- what the writes of entries will do -/
  outcomes : List WriteRes := []
  /-- the writes of the header succeed -/
  headerOk : Bool := true
  /-- `PVRIndexGetCurTimeMs` -/
  now : UInt32 := 0
  /-- what `PVR_UpdateSingleEventLoopStartFrame` hands out -/
  startFrame : UInt32 := 0
  startTsFileNode : UInt32 := 0
  /-- how often the loop that corrects entries after a rewind by time may run -/
  fuel : Nat := 0
deriving DecidableEq

/-- `u16RecLastIframe` at the beginning of a call. -/
def bumpLastIframe (s : Index σ) : Index σ :=
  { s with u16RecLastIframe :=
      if s.u16RecLastIframe ≠ invalidIFrameOffset then u16 (s.u16RecLastIframe + 1) else 0 }

/-- The fields that follow the frame once it is not discarded. -/
def noteFrame (s : Index σ) (f : DmxIndex) : Index σ :=
  { s with
    u16RecLastIframe := if f.enFrameType = .i then 0 else s.u16RecLastIframe
    u32RecLastValidPtsMs :=
      if f.u32PtsMs.toNat ≠ invalidPtsMs ∧ f.u32PtsMs.toNat ≠ 0 then f.u32PtsMs.toNat
      else s.u32RecLastValidPtsMs }

/-- `indexEntry` before it has an offset in the stream file. -/
def newEntry (s : Index σ) (f : DmxIndex) : IndexEntry where
  u16FrameTypeAndGop := u16 (f.enFrameType.toNat % 4 * 16384 + s.u16RecLastIframe % 16384)
  u16UpFlowFlag := s.u16RecUpFlowFlag % 256
  u8StcOffsinTs := f.u32HdrData0.toNat % 256
  s32CycTimes := u32 s.stCycMgr.s32CycTimes
  u64GlobalOffset := f.u64GlobalOffset.toNat
  u32DisplayTimeMs := f.u32DataTimeMs.toNat
  u32FrameSize := f.u32FrameSize.toNat
  u32PtsMs := u32 s.u32RecLastValidPtsMs
  u16IndexType := s.enIndexType.toNat

/-- The time recorded so far. -/
def CycMgr.recordedMs (c : CycMgr) : Nat := u64sub c.u64AllRecNowInMs c.u64AllRecStartInMs

/-- A recording bounded by both loops by whichever bound is passed; the test of the
    size comes last, so it decides when both are. -/
def CycMgr.nextRewindType (c : CycMgr) (globalOffset : Nat) : RewindType :=
  if c.enRewindType = .byBoth then
    if globalOffset > c.u64MaxCycSize then .bySize
    else if c.recordedMs > c.u64MaxCycTimeInMs then .byTime
    else .byBoth
  else c.enRewindType

/-- The time of the frame, and the loop it is saved under. -/
def switchRewindType (s : Index σ) (f : DmxIndex) : Index σ :=
  let c := { s.stCycMgr with u64AllRecNowInMs := f.u32DataTimeMs.toNat }
  { s with stCycMgr := { c with enRewindType := c.nextRewindType f.u64GlobalOffset.toNat } }

/-- The time of the current cycle is over. -/
def CycMgr.timeIsOver (c : CycMgr) : Bool :=
  u64sub c.recordedMs (u64 (c.u64MaxCycTimeInMs * c.s32CycTimes)) > c.u64MaxCycTimeInMs

/-- The loop that moves entries behind the end of the file to the next cycle;
    `none` when it is still running after `fuel` rounds. -/
def correctEntries (st : IdxStore σ) (maxCycSize : Nat) :
    Nat → σ → IndexEntry → Nat → Option σ
  | fuel, store, e, num =>
    if maxCycSize ≤ e.u64Offset then
      match fuel with
      | 0 => none
      | fuel + 1 =>
        let e := { e with u64Offset := e.u64Offset - maxCycSize }
        let store := st.writeIndexFunc store e num
        let num := u32sub num 1
        -- a failure is only reported
        let r := st.getEntryByNum store e num
        correctEntries st maxCycSize fuel r.1 r.2.1 num
    else some store

/-- A frame of a recording that loops by time: the new handle, `u64Offset` and
    `bRewindFlg`. -/
def placeByTime (st : IdxStore σ) (s : Index σ) (f : DmxIndex) (fuel : Nat) :
    Option (Index σ × Nat × Bool) :=
  let globalOffset := f.u64GlobalOffset.toNat
  if s.stCycMgr.timeIsOver then
    let s := { s with bTimeRewindFlg := true }
    if s.bTimeRewindTsPauseFlg = true ∧ globalOffset > s.u64TimeTsPausePos then
      let maxCycSize := u64sub s.u64TimeTsPausePos s.u64TimeRewindMaxSize
      let num := u32sub s.stCycMgr.u32EndFrame 1
      let r := st.getEntryByNum (st.flushIdxWriteCache s.store) {} num
      match if r.2.2 then correctEntries st maxCycSize fuel r.1 r.2.1 num else some r.1 with
      | none => none
      | some store =>
        let total := u64 (s.u64TimeRewindMaxSize + maxCycSize)
        some ({ s with
          store := store
          stCycMgr := { s.stCycMgr with u64MaxCycSize := maxCycSize }
          bTimeRewindFlg := false
          bTimeRewindTsPauseFlg := false
          bTimeRewinded := true
          u64TimeRewindMaxSize := total }, u64sub globalOffset total, true)
    else some (s, u64sub globalOffset s.u64TimeRewindMaxSize, false)
  else some (s, u64sub globalOffset s.u64TimeRewindMaxSize, false)

/-- A frame of a recording that loops by size. -/
def placeBySize (s : Index σ) (f : DmxIndex) : Index σ × Nat × Bool :=
  let c := s.stCycMgr
  let offset := u64sub f.u64GlobalOffset.toNat (u64 (c.u64MaxCycSize * c.s32CycTimes))
  if offset > c.u64MaxCycSize then (s, offset - c.u64MaxCycSize, true) else (s, offset, false)

/-- A frame of a recording that does not loop. -/
def placeStraight (s : Index σ) (f : DmxIndex) : Index σ × Nat × Bool :=
  let c := s.stCycMgr
  let globalOffset := f.u64GlobalOffset.toNat
  let maxCycSize :=
    if c.enRewindType = .byTime ∧
        u64sub c.u64MaxCycTimeInMs 1 / 1000 ≤ c.recordedMs / 1000 then
      globalOffset / fifoWriteBlockSize * fifoWriteBlockSize
    else c.u64MaxCycSize
  ({ s with stCycMgr := { c with u64MaxCycSize := maxCycSize } }, globalOffset, false)

/-- Where the frame lies in the stream file, and what the call changes before it
    writes the entry. -/
def placeFrame (st : IdxStore σ) (s : Index σ) (f : DmxIndex) (fuel : Nat) :
    Option (Index σ × Nat × Bool) :=
  if s.stCycMgr.bIsRewind then
    if s.stCycMgr.enRewindType = .byTime then placeByTime st s f fuel else some (placeBySize s f)
  else some (placeStraight s f)

/-- The ring after an entry that starts a new cycle. -/
def startCycle (s : Index σ) : Index σ :=
  let c := s.stCycMgr
  let last := c.u32EndFrame - 1
  { s with
    u32WriteFrame := 1
    stCycMgr := { c with
      s32CycTimes := c.s32CycTimes + 1
      u32LastFrame := last
      u32StartFrame := if s.enIndexType = .audio then 25 else rewindFramesGap
      u32EndFrame := 1 }
    rewindAdjustCount := if s.enIndexType = .audio then s.rewindAdjustCount else 0
    u32ReadFrame := if last ≤ s.u32ReadFrame then 0 else s.u32ReadFrame }

/-- The ring after any other entry of a recording that loops: the end pushes the
    last frame before it, or the start frame where there are entries of an earlier
    cycle. -/
def moveOn (s : Index σ) : Index σ :=
  let c := s.stCycMgr
  let endFrame := c.u32EndFrame + 1
  let last := if c.u32LastFrame < endFrame then c.u32LastFrame + 1 else c.u32LastFrame
  let start := if c.u32LastFrame < endFrame then c.u32StartFrame else c.u32StartFrame + 1
  { s with stCycMgr := { c with
      u32EndFrame := endFrame
      u32LastFrame := last
      u32StartFrame := if start > last then 0 else start } }

/-- The ring after an entry of a recording that does not loop. -/
def goStraight (s : Index σ) (env : SaveEnv) : Index σ :=
  let c := s.stCycMgr
  { s with stCycMgr := { c with
      u32EndFrame := c.u32EndFrame + 1
      u32LastFrame := c.u32LastFrame + 1
      u32StartFrame := if env.startFrame.toNat > 0 then env.startFrame.toNat else c.u32StartFrame
      u32Reserve :=
        if env.startTsFileNode.toNat > 0 then env.startTsFileNode.toNat else c.u32Reserve } }

/-- The ring after an entry was written. -/
def advance (s : Index σ) (env : SaveEnv) (bRewindFlg : Bool) : Index σ :=
  let s := { s with u32WriteFrame := s.u32WriteFrame + 1 }
  if s.stCycMgr.bIsRewind then if bRewindFlg then startCycle s else moveOn s
  else goStraight s env

/-- The loop of `PVR_Index_Adjust_StartFrame`: the start frame moves up until its
    entry lies at `offset` or behind it.  The first argument is how far it may
    still move, up to `u32LastFrame`; the flag tells whether the loop ended by
    itself. -/
def advanceStart (st : IdxStore σ) (offset : Nat) :
    Nat → σ → IndexEntry → Nat → σ × Nat × Bool
  | left, store, startEntry, start =>
    if startEntry.u64Offset < offset then
      match left with
      | 0 => (store, start, false)
      | left + 1 =>
        let r := st.getEntryByNum store startEntry (start + 1)
        if r.2.2 then advanceStart st offset left r.1 r.2.1 (start + 1)
        else (r.1, start + 1, false)
    else (store, start, true)

/-- `PVR_Index_Adjust_StartFrame`. -/
def adjustStartFrame (st : IdxStore σ) (s : Index σ) (e : IndexEntry) : Index σ :=
  let c := s.stCycMgr
  if c.s32CycTimes > 0 ∧ c.u32EndFrame < c.u32StartFrame then
    if s.rewindAdjustCount > rewindMaxAdjustFrames then s
    else
      let r := st.getEntryByNum s.store {} c.u32StartFrame
      if r.2.2 then
        let a := advanceStart st (u64 (e.u64Offset + e.u32FrameSize))
          (c.u32LastFrame - c.u32StartFrame) r.1 r.2.1 c.u32StartFrame
        { s with
          store := a.1
          stCycMgr := { c with u32StartFrame := a.2.1 }
          rewindAdjustCount :=
            if a.2.2 then u32 (s.rewindAdjustCount + (a.2.1 - c.u32StartFrame))
            else s.rewindAdjustCount }
      else { s with store := r.1 }
  else s

/-- The milliseconds between two clock readings. -/
def timeDiff (fflushTime now : Nat) : Nat :=
  if fflushTime ≤ now then now - fflushTime else u32 (0xffffffff - fflushTime + now)

/-- The header that `PVRIndexRecordCycInfo` writes. -/
def CycMgr.toHeader (c : CycMgr) (header : IdxHeaderInfo) : IdxHeaderInfo :=
  { header with
    u32StartFrame := c.u32StartFrame
    u32IsRewind := c.bIsRewind
    u32EndFrame := c.u32EndFrame - 1
    u32LastFrame :=
      if c.u32EndFrame ≤ c.u32StartFrame then c.u32LastFrame else u32sub c.u32LastFrame 1
    u32TimeShiftEventLoopFirstNode := c.u32Reserve
    u64ValidSize := c.u64MaxCycSize }

/-- `PVRIndexRecordCycInfo`. -/
def recordCycInfo (st : IdxStore σ) (s : Index σ) (headerOk : Bool) (now : Nat) (force : Bool) :
    Index σ :=
  if headerOk then
    let fflushTime := if s.u32FflushTime = 0 then now else s.u32FflushTime
    let s := { s with header := s.stCycMgr.toHeader s.header, u32FflushTime := fflushTime }
    if diffFflushHeadinfo ≤ timeDiff fflushTime now ∨ force then
      { s with u32FflushTime := now, store := st.flushIdxWriteCache s.store }
    else s
  else s

/-- What one call of `PVR_Index_SaveFramePosition` leaves besides the handle: what
    it returned, and the entry that it wrote with the entry's position. -/
structure SaveOut where
  ret : Option IdxErr := none
  stored : Option (Nat × IndexEntry) := none
deriving DecidableEq

/-- The end of a call that wrote its entry. -/
def finishFrame (st : IdxStore σ) (s : Index σ) (e : IndexEntry) (env : SaveEnv)
    (record : Bool) : Index σ :=
  let s := adjustStartFrame st s e
  let s := if record then recordCycInfo st s env.headerOk env.now.toNat false else s
  { s with u32LatestDisplayTimeMs := e.u32DisplayTimeMs }

/-- Write the entry, and on success move the ring. -/
def writeFrame (st : IdxStore σ) (s : Index σ) (e : IndexEntry) (env : SaveEnv)
    (bRewindFlg u32DirectFlag : Bool) : Index σ × SaveOut :=
  let u32DirectFlag := u32DirectFlag || s.stCycMgr.u32LastFrame == 0
  let s := if bRewindFlg then { s with u32WriteFrame := 0 } else s
  let r := st.cacheWriteIdx s.store e s.u32WriteFrame u32DirectFlag
  let s := { s with store := r.1 }
  match r.2.1 with
  | some err => (s, { ret := some err })
  | none =>
    (finishFrame st (advance s env bRewindFlg) e env (u32DirectFlag || r.2.2),
      { stored := some (s.u32WriteFrame, e) })

/-- The frame is not discarded: it is a picture, and a recording begins with an I
    frame. -/
def accepts (s : Index σ) (f : DmxIndex) : Bool :=
  (f.enFrameType == .i || f.enFrameType == .p || f.enFrameType == .b) &&
    !(s.stCycMgr.u32StartFrame == 0 && s.stCycMgr.u32EndFrame == 0 && f.enFrameType != .i)

/-- The handle when the frame's place is looked for. -/
def prepareFrame (s : Index σ) (f : DmxIndex) : Index σ :=
  switchRewindType { noteFrame (bumpLastIframe s) f with u16RecUpFlowFlag := 0 } f

/-- `PVR_Index_SaveFramePosition`; `none` when it does not return. -/
def saveFramePosition (st : IdxStore σ) (s : Index σ) (f : DmxIndex) (u32DirectFlag : Bool)
    (env : SaveEnv) : Option (Index σ × SaveOut) :=
  let s := { s with store := st.withOutcomes s.store env.outcomes }
  if accepts s f then
    let e := newEntry (noteFrame (bumpLastIframe s) f) f
    match placeFrame st (prepareFrame s f) f env.fuel with
    | none => none
    | some (s, offset, bRewindFlg) =>
      some (writeFrame st s { e with u64Offset := offset } env bRewindFlg u32DirectFlag)
  else if f.enFrameType = .i ∨ f.enFrameType = .p ∨ f.enFrameType = .b then
    some (bumpLastIframe s, {})
  else some (s, {})

/-! ## Runs -/

/-- One call of `PVR_Index_SaveFramePosition`. -/
structure SaveCall where
  frame : DmxIndex
  u32DirectFlag : Bool := false
  env : SaveEnv := {}
deriving DecidableEq

/-- A handle and the calls on it.  A call that does not return has no output and
    changes nothing. -/
def machine (st : IdxStore σ) : Machine (Index σ) SaveCall (Option SaveOut) where
  step s i :=
    match saveFramePosition st s i.frame i.u32DirectFlag i.env with
    | some (s', out) => (s', some out)
    | none => (s, none)

end Tntsat.PvrIndex
