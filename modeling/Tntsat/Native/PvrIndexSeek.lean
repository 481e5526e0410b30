import Tntsat.Native.PvrIndexPos

/-!
# Seeking by time

`PVR_Index_SeekToTime` of `msp/api/pvr/mt_pvr_index.c` with the functions that look for
the frame of a time.  The search for an I frame with which `PVR_Index_SeekByFrame2I` ends
is left out: what is modelled is where it starts.

The entries are what a read of each frame number gives; the caches in between are those
of `Tntsat.Native.PvrIdxCache`.
-/

namespace Tntsat.PvrIndex

open PvrIdxCache (sizeofEntry)

/-- What `PVR_READ_INDEX` of an entry does. -/
inductive ReadRes
  | entry (e : IndexEntry)
  /-- -1 is returned -/
  | fails
  /-- nothing is read -/
  | atEnd
  /-- a part of the entry is read -/
  | short
deriving DecidableEq

/-- The index file as the functions that seek see it. -/
structure SeekFile where
  read : Nat → ReadRes
  /-- `PVR_SEEK` to the last entry of the file -/
  u32LastPos : Nat := 0

/-- The display time of a frame, 0 where there is none. -/
def SeekFile.time (file : SeekFile) (num : Nat) : Nat :=
  match file.read num with
  | .entry e => e.u32DisplayTimeMs
  | _ => 0

/-- `PVRIndexSeachByTime`; `none` when it is still calling itself after `fuel` calls. -/
def seachByTime (file : SeekFile) (timeWant : Nat) : Nat → Nat → Nat → Option Nat
  | 0, _, _ => none
  | fuel + 1, start, «end» =>
    let target := u32 (start + «end») / 2
    if target = start ∨ target = «end» then some target
    else
      match file.read target with
      | .entry e =>
        if e.u32DisplayTimeMs ≤ timeWant then seachByTime file timeWant fuel target «end»
        else seachByTime file timeWant fuel start target
      | .atEnd =>
        if 0 ≤ s32 file.u32LastPos then some (file.u32LastPos / sizeofEntry) else some 0
      | _ => some 0

/-- `PVRIndexFindFrameByTime`. -/
def findFrameByTime (file : SeekFile) (c : CycMgr) (u32FindTime fuel : Nat) : Option Nat :=
  if c.u32StartFrame < c.u32EndFrame then
    seachByTime file u32FindTime fuel c.u32StartFrame c.u32EndFrame
  else
    match file.read c.u32LastFrame with
    | .entry lastEntry =>
      if u32FindTime ≤ lastEntry.u32DisplayTimeMs then
        seachByTime file u32FindTime fuel c.u32StartFrame c.u32LastFrame
      else if c.u32EndFrame = 0 then some c.u32EndFrame
      else seachByTime file u32FindTime fuel 0 c.u32EndFrame
    | _ => some c.u32StartFrame

variable {σ : Type}

/-- `PVRIndexCycMoveReadFrame`. -/
def cycMoveReadFrame (h : Index σ) (s32Offset : Int) : Index σ :=
  { h with u32ReadFrame := h.stCycMgr.calcNewPos h.u32ReadFrame s32Offset }

/-- `PVR_Index_SeekByFrame2I` with `SEEK_SET`, up to the search for an I frame. -/
def seekByFrame2ISet (h : Index σ) (offset : Int) : Index σ :=
  cycMoveReadFrame { h with u32ReadFrame := h.stCycMgr.u32StartFrame } offset

/-- `frameToSeek` of `PVR_Index_SeekToTime` where the recording loops: a frame that
    cannot be played is replaced, and what is left is its distance from the start. -/
def CycMgr.offsetFromStart (c : CycMgr) (frameToSeek : Nat) : Nat :=
  let frameToSeek :=
    if c.isFrameValid frameToSeek then frameToSeek
    else if u32sub frameToSeek c.u32EndFrame < u32sub c.u32StartFrame frameToSeek then
      c.u32EndFrame
    else u32 (c.u32StartFrame + 10)
  if c.u32StartFrame ≤ frameToSeek then frameToSeek - c.u32StartFrame
  else u32 (u32sub c.u32LastFrame c.u32StartFrame + frameToSeek)

/-- `PVR_Index_SeekToTime`, up to the search for an I frame. -/
def seekToTime (file : SeekFile) (h : Index σ) (u32TimeMs fuel : Nat) : Option (Index σ) :=
  (findFrameByTime file h.stCycMgr u32TimeMs fuel).map fun frameToSeek =>
    let frameToSeek :=
      if h.stCycMgr.bIsRewind then h.stCycMgr.offsetFromStart frameToSeek else frameToSeek
    seekByFrame2ISet h (s32 frameToSeek)

end Tntsat.PvrIndex
