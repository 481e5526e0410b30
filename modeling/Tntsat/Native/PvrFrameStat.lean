import Tntsat.Native.PvrIndexSeek

/-!
# Figures about the frames of a recording

Two functions of `msp/api/pvr/mt_pvr_index.c` that walk along the ring of frames and add
up: `MT_Index_GetTotalCntI_IP` counts the frames of each type, and
`PVR_Index_GetStreamBitRate` the bytes between two frames.

The entries are what a read of each frame number gives.
-/

namespace Tntsat.PvrIndex

/-! ## Frame types -/

/-- `PVR_INDEX_get_frameType`. -/
def IndexEntry.frameType (e : IndexEntry) : Nat := e.u16FrameTypeAndGop / 16384 % 4

/-- `PVR_INDEX_is_Iframe`. -/
def IndexEntry.isIframe (e : IndexEntry) : Bool := e.frameType = FrameType.i.toNat

/-- `PVR_INDEX_is_Pframe`. -/
def IndexEntry.isPframe (e : IndexEntry) : Bool := e.frameType = FrameType.p.toNat

/-- `PVR_INDEX_is_Bframe`. -/
def IndexEntry.isBframe (e : IndexEntry) : Bool := e.frameType = FrameType.b.toNat

/-! ## Counting -/

/-- `FIELD_ENCODE_IP` and `FIELD_ENCODE_II`. -/
inductive FieldEncode where
  | ip
  | ii
deriving DecidableEq

/-- The variables of `MT_Index_GetTotalCntI_IP` and the two fields of the handle that it
    sets; `counted` records which frames were counted. -/
structure FrameCounts where
  ICnt : Nat := 0
  IPCnt : Nat := 0
  IPBCnt : Nat := 0
  first_iframe : Nat := 0xffffffff
  pre_iframe_time : Nat := 0xffffffff
  field_encode : FieldEncode := .ip
  iframe_interal_max : Nat := 0
  counted : List Nat := []
deriving DecidableEq

/-- What an I frame at `i` changes. -/
def FrameCounts.noteIframe (n : FrameCounts) (i : Nat) (e : IndexEntry) : FrameCounts :=
  let iframe_interval := e.u32DisplayTimeMs - n.pre_iframe_time
  { n with
    first_iframe := if n.first_iframe = 0xffffffff then i else n.first_iframe
    field_encode :=
      if n.first_iframe ≠ 0xffffffff ∧ n.first_iframe + 1 = i then .ii else n.field_encode
    iframe_interal_max :=
      if n.pre_iframe_time ≠ 0xffffffff ∧ e.u32DisplayTimeMs > n.pre_iframe_time ∧
          iframe_interval > n.iframe_interal_max then iframe_interval
      else n.iframe_interal_max
    pre_iframe_time := e.u32DisplayTimeMs
    ICnt := n.ICnt + 1 }

/-- The frame at `i` is counted. -/
def FrameCounts.count (n : FrameCounts) (i : Nat) (e : IndexEntry) : FrameCounts :=
  let n := if e.isIframe then n.noteIframe i e else n
  { n with
    IPCnt := if e.isIframe || e.isPframe then n.IPCnt + 1 else n.IPCnt
    IPBCnt := n.IPBCnt + 1
    counted := n.counted ++ [i] }

/-- The loop of `MT_Index_GetTotalCntI_IP`; `none` when it is still running after `fuel`
    rounds. -/
def countLoop (c : CycMgr) (read : Nat → ReadRes) (Max : Nat) :
    Nat → Nat → FrameCounts → Option FrameCounts
  | 0, _, _ => none
  | fuel + 1, i, n =>
    if i = c.u32EndFrame then some n
    -- `i` is set to 0, and the loop increments it
    else if i = c.u32LastFrame then countLoop c read Max fuel 1 n
    -- positions between the end and the start are passed over
    else if !c.isFrameValid i then countLoop c read Max fuel (i + 1) n
    else
      match read i with
      | .entry e =>
        let n := n.count i e
        if n.IPBCnt ≥ Max then some n else countLoop c read Max fuel (i + 1) n
      -- an entry that cannot be read ends the count
      | _ => some n

/-- `MT_Index_GetTotalCntI_IP`: whether it succeeds, and the counts. -/
def getTotalCntIIP (c : CycMgr) (read : Nat → ReadRes) (Max fuel : Nat) :
    Option (Bool × FrameCounts) :=
  if c.u32StartFrame > c.u32LastFrame ∨ c.u32EndFrame > c.u32LastFrame then some (false, {})
  else (countLoop c read Max fuel c.u32StartFrame {}).map fun n => (true, n)

/-! ## The bit rate -/

/-- What `PVR_Index_GetStreamBitRate` comes to. -/
inductive BitRate where
  | fails
  /-- a division by zero -/
  | byZero
  /-- the bytes that were added up, and `*pBitRate` -/
  | rate (u64TotalBytes pBitRate : Nat)
deriving DecidableEq

/-- A loop that adds up `u32FrameSize` of `n` frames from `i` on. -/
def sumSizes (read : Nat → ReadRes) : Nat → Nat → Nat → Option Nat
  | _, 0, u64TotalBytes => some u64TotalBytes
  | i, n + 1, u64TotalBytes =>
    match read i with
    | .entry e => sumSizes read (i + 1) n (u64TotalBytes + e.u32FrameSize)
    | _ => none

/-- The bytes that `PVR_Index_GetStreamBitRate` adds up. -/
def totalBytes (c : CycMgr) (read : Nat → ReadRes) (u32StartFrameNum u32EndFrameNum : Nat) :
    Option Nat :=
  if u32EndFrameNum < u32StartFrameNum then
    -- the last frame of the ring itself is left out
    match sumSizes read u32StartFrameNum (c.u32LastFrame - u32StartFrameNum) 0 with
    | none => none
    | some u64TotalBytes => sumSizes read 0 u32EndFrameNum u64TotalBytes
  else sumSizes read u32StartFrameNum (u32EndFrameNum - u32StartFrameNum) 0

/-- `PVR_Index_GetStreamBitRate`. -/
def getStreamBitRate (c : CycMgr) (read : Nat → ReadRes)
    (u32StartFrameNum u32EndFrameNum : Nat) : BitRate :=
  if !c.isFrameValid u32StartFrameNum || !c.isFrameValid u32EndFrameNum then .fails
  else
    match read u32StartFrameNum, read u32EndFrameNum with
    | .entry first, .entry last =>
      if first.u32DisplayTimeMs ≥ last.u32DisplayTimeMs then .fails
      else
        match totalBytes c read u32StartFrameNum u32EndFrameNum with
        | none => .fails
        | some u64TotalBytes =>
          let seconds := (last.u32DisplayTimeMs - first.u32DisplayTimeMs) / 1000
          -- less than a second between the two
          if seconds = 0 then .byZero
          else .rate u64TotalBytes (u32 (u64 (u64TotalBytes * 8) / seconds))
    | _, _ => .fails

end Tntsat.PvrIndex
