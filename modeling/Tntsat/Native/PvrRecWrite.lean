import Tntsat.Native.PvrIndexFile

/-!
# Writing the stream of a recording

`PVRRecCycWriteStream` of `msp/api/pvr/mt_pvr_rec_ctrl.c`, beside the index that
is kept for the same stream.  A chunk of the stream goes to the data file at a
position that depends on how the recording loops, and in two parts where it
passes the end of the loop.

What a call does shows in its output: the two calls of `PVRRecWriteStreamDirect`
as positions and bytes, and the divisor where a remainder is taken.  A write
either stores the whole part or fails; of one that fails nothing is recorded.
The address of the data is never null.  A remainder by zero, which has no meaning
in C, is the dividend.
-/

namespace Tntsat.PvrRec

open PvrIndex (Index IdxStore IdxDisk RewindType SaveCall SaveOut)
open PvrIdxCache (CacheHandle)

/-- `PVR_REC_CHN_S`. -/
structure RecChn (σ : Type) where
  stUserCfg : RecAttr
  IndexHandle : Option (Index σ)
  u64CurFileSize : Nat := 0
  re_rec_firstsize : Nat := 0
  s32OverFixTimes : Nat := 0
  bEventFlg : Bool := false
deriving DecidableEq

/-- What `PVRRecWriteStreamDirect` returns when it fails. -/
inductive StreamErr
  | fileDiscFull
  | fileCantWrite
  | failure
deriving DecidableEq

/-- What `PVRRecCycWriteStream` returns when it does not return `MT_SUCCESS`. -/
inductive RecErr
  | fileTillEnd
  | write (err : StreamErr)
deriving DecidableEq

/-- A chunk of the stream, and what the writes of its two parts will do. -/
structure Chunk where
  data : List UInt8
  first : Option StreamErr := none
  second : Option StreamErr := none
deriving DecidableEq

/-- What a call of `PVRRecCycWriteStream` leaves besides the channel. -/
structure WriteOut where
  ret : Option RecErr := none
  /-- the parts written, each with its position in the file -/
  writes : List (Nat × List UInt8) := []
  /-- the `u64MaxSize` a remainder was taken by -/
  divisor : Option Nat := none
deriving DecidableEq

variable {σ : Type}

/-! ## Where a chunk goes -/

/-- `PVR_REC_IS_FIXSIZE`. -/
def RecAttr.isFixsize (a : RecAttr) : Bool :=
  (0 < a.u64MaxFileSize.toNat || 0 < a.u64MaxTimeInMs.toNat) && !a.bRewind

/-- `u64MaxSize`. -/
def RecChn.maxSize (ch : RecChn σ) : Nat :=
  if ch.stUserCfg.enStreamType = .allTs then ch.stUserCfg.u64MaxFileSize.toNat
  else
    match ch.IndexHandle with
    | none => 0
    | some h =>
      if h.bTimeRewindTsPauseFlg then u64sub h.u64TimeTsPausePos h.u64TimeRewindMaxSize
      else h.stCycMgr.u64MaxCycSize

/-- A chunk that is written: where its first part goes and how long that is. -/
structure Placed (σ : Type) where
  chn : RecChn σ
  before_pos : Nat
  len1 : Nat
  divisor : Option Nat := none

/-- A recording that loops by time: the position counts from the last cut. -/
def placeByTime (ch : RecChn σ) (h : Index σ) (len maxSize : Nat) : Placed σ :=
  if maxSize > 0 then
    { chn :=
        if h.bTimeRewinded then
          { ch with
            bEventFlg := true
            s32OverFixTimes := ch.s32OverFixTimes + 1
            IndexHandle := some { h with bTimeRewinded := false } }
        else ch
      before_pos :=
        if h.bTimeRewindTsPauseFlg then u64sub ch.u64CurFileSize h.u64TimeTsPausePos
        else u64sub ch.u64CurFileSize h.u64TimeRewindMaxSize
      len1 := len }
  else { chn := ch, before_pos := ch.u64CurFileSize, len1 := len }

/-- A recording that loops by size. -/
def placeBySize (ch : RecChn σ) (h : Index σ) (len maxSize : Nat) : Placed σ :=
  let before_pos := ch.u64CurFileSize % maxSize
  if u64 (before_pos + len) ≥ maxSize then
    { chn := { ch with
        IndexHandle := some { h with stCycMgr := { h.stCycMgr with enRewindType := .bySize } }
        s32OverFixTimes := ch.s32OverFixTimes + 1
        bEventFlg := true }
      before_pos := before_pos
      len1 := u32 (u64sub maxSize before_pos)
      divisor := some maxSize }
  else { chn := ch, before_pos := before_pos, len1 := len, divisor := some maxSize }

/-- The position of a chunk; `none` where a recording of a fixed size is full. -/
def placeChunk (ch : RecChn σ) (len : Nat) : Option (Placed σ) :=
  let maxSize := ch.maxSize
  if ch.stUserCfg.isFixsize then
    if maxSize > 0 ∧ u64 (ch.u64CurFileSize + len) > maxSize then none
    else some { chn := ch, before_pos := ch.u64CurFileSize, len1 := len }
  else if ch.stUserCfg.bRewind then
    match ch.IndexHandle with
    | none => some { chn := ch, before_pos := ch.u64CurFileSize, len1 := len }
    | some h =>
      if h.stCycMgr.enRewindType = .byTime then some (placeByTime ch h len maxSize)
      else some (placeBySize ch h len maxSize)
  else some { chn := ch, before_pos := ch.u64CurFileSize, len1 := len }

/-! ## Writing it -/

/-- One part of a chunk; the result is `none` when its write fails. -/
def writePart (ch : RecChn σ) (pos : Nat) (part : List UInt8) (err : Option StreamErr) :
    Except StreamErr (RecChn σ × List (Nat × List UInt8)) :=
  if part = [] then .ok (ch, [])
  else
    match err with
    | some e => .error e
    | none => .ok ({ ch with u64CurFileSize := u64 (ch.u64CurFileSize + part.length) }, [(pos, part)])

/-- `PVRRecCycWriteStream`. -/
def cycWriteStream (ch : RecChn σ) (c : Chunk) : RecChn σ × WriteOut :=
  match placeChunk ch c.data.length with
  | none => (ch, { ret := some .fileTillEnd })
  | some p =>
    match writePart p.chn p.before_pos (c.data.take p.len1) c.first with
    | .error e => (p.chn, { ret := some (.write e), divisor := p.divisor })
    | .ok (ch, writes) =>
      -- the second part starts over at the beginning of the file
      match writePart ch 0 (c.data.drop p.len1) c.second with
      | .error e => (ch, { ret := some (.write e), writes := writes, divisor := p.divisor })
      | .ok (ch, writes') => (ch, { writes := writes ++ writes', divisor := p.divisor })

/-- The step of the recording thread that cuts a recording once its time is over. -/
def cutStream (ch : RecChn σ) : RecChn σ :=
  match ch.IndexHandle with
  | none => ch
  | some h =>
    if ch.stUserCfg.enStreamType ≠ .allTs ∧ h.bTimeRewindFlg = true ∧
        h.stCycMgr.enRewindType = .byTime ∧ h.bTimeRewindTsPauseFlg = false then
      { ch with IndexHandle := some { h with
          u64TimeTsPausePos := ch.u64CurFileSize
          bTimeRewindTsPauseFlg := true } }
    else ch

/-! ## Creating and starting a channel -/

/-- `MT_PVR_RecCreateChn`, once the configuration is accepted; `streamSize` is the
    size of the data file found under the name. -/
def recCreateChn (old : Index CacheHandle) (a : RecAttr) (disk : Option IdxDisk)
    (streamSize : Nat) (writeBuf readBuf : Bool) : Option (RecChn CacheHandle) :=
  let a := a.adjusted
  let firstsize := if a.bEnable_CTrec then streamSize else 0
  let ch : RecChn CacheHandle :=
    { stUserCfg := a, IndexHandle := none, u64CurFileSize := firstsize, re_rec_firstsize := firstsize }
  if a.enStreamType = .allTs then some ch
  else (PvrIndex.creatRec old a disk writeBuf readBuf).map fun h => { ch with IndexHandle := some h }

/-- What `MT_PVR_RecStartChn` does to the channel and its index. -/
def recStartChn (ch : RecChn CacheHandle) : RecChn CacheHandle :=
  let ch := { ch with s32OverFixTimes := 0, bEventFlg := false }
  match ch.IndexHandle with
  | none => ch
  | some h =>
    if ch.re_rec_firstsize = 0 then
      let usrDataLen := ch.stUserCfg.u32UsrDataInfoSize.toNat
      let h := PvrIndex.prepareHeaderInfo (PvrIndex.resetRecAttr h) usrDataLen
      { ch with IndexHandle := some h }
    else ch

/-! ## Runs -/

/-- A step of a channel that records. -/
inductive RecInput
  | write (c : Chunk)
  | cut
  | save (i : SaveCall)

/-- What a step leaves besides the channel. -/
inductive RecOut
  | wrote (o : WriteOut)
  | cut
  | saved (o : Option SaveOut)
deriving DecidableEq

/-- The channel with the calls of its threads.  Without an index no frame is
    saved. -/
def machine (st : IdxStore σ) : Machine (RecChn σ) RecInput RecOut where
  step ch i :=
    match i with
    | .write c =>
      let r := cycWriteStream ch c
      (r.1, .wrote r.2)
    | .cut => (cutStream ch, .cut)
    | .save i =>
      match ch.IndexHandle with
      | none => (ch, .saved none)
      | some h =>
        let r := (PvrIndex.machine st).step h i
        ({ ch with IndexHandle := some r.1 }, .saved r.2)

end Tntsat.PvrRec
