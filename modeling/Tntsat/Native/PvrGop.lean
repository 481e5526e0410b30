import Tntsat.Native.PvrFrameStat

/-!
# The books on groups of pictures

`PVR_Index_RecIdxInfo` and `PVR_Index_UpdateIdxInfoWhenRewind` of
`msp/api/pvr/mt_pvr_index.c`, which are called for each frame that is saved and for the
first one of a new cycle.  Both read entries until they come to an I frame.

What the reads of a call give is a part of its input: the file, and for each read whether
it gives all that the file has there or breaks off.  The bytes that a read has given
replace those of the entry that was read before.  An offset has 32 bits, and an index file
has less than 4 GiB.
-/

namespace Tntsat.PvrIndex

open PvrIdxCache (sizeofEntry)

/-! ## Reads -/

/-- What one read of an entry comes to. -/
inductive Attempt where
  /-- everything that the file has there is read -/
  | whole
  /-- the read fails after at most `n` bytes -/
  | part (n : Nat)
deriving DecidableEq

/-- The entries of a frame number that can be told apart by a 32-bit offset. -/
def frameNums : Nat := 134217728

/-- The index file, by its bytes from each frame number on, and what each read of a call
    comes to. -/
structure IndexReads where
  bytes : Nat → List UInt8
  attempt : Nat → Attempt
  length_le : ∀ num, (bytes num).length ≤ sizeofEntry
  short : (bytes (frameNums - 1)).length < sizeofEntry

/-- The bytes that read number `n` gives for a frame. -/
def IndexReads.given (r : IndexReads) (n num : Nat) : List UInt8 :=
  match r.attempt n with
  | .whole => r.bytes (num % frameNums)
  | .part k => (r.bytes (num % frameNums)).take k

/-- Read number `n` succeeds for a frame. -/
def IndexReads.complete (r : IndexReads) (n num : Nat) : Bool :=
  r.attempt n = .whole && (r.bytes (num % frameNums)).length = sizeofEntry

/-- Bytes that are read over an entry. -/
def IndexEntry.fill (e : IndexEntry) (bytes : List UInt8) : IndexEntry :=
  .ofBytes (bytes ++ e.toBytes.drop bytes.length)

/-- `PVRIndexGetEntryByNum`. -/
def IndexReads.getEntryByNum (r : IndexReads) (n : Nat) (pEntry : IndexEntry)
    (u32FrameNum : Nat) : IndexEntry × Bool :=
  (pEntry.fill (r.given n u32FrameNum), r.complete n u32FrameNum)

/-! ## The books -/

/-- `PVR_REC_INDEX_INFO_S` with its `PVR_INDEX_INFO_S`. -/
structure RecIdxInfo where
  u32MagicWord : Nat := 0
  u32LastGopSize : Nat := 0
  u32GopTotalNum : Nat := 0
  u32FrameTotalNum : Nat := 0
  u32MaxGopSize : Nat := 0
  u32GopSizeInfo : List Nat := List.replicate 13 0
deriving DecidableEq

/-- `PVR_REC_INDEX_MAGIC_WORD`. -/
def recIndexMagicWord : Nat := 0x696e6478

/-- `u32GopSizeSeg`. -/
def gopSizeSeg (size : Nat) : Nat := if size / 10 > 12 then 12 else size / 10

/-- The size of a group up to this frame. -/
def IndexEntry.gopSize (e : IndexEntry) : Nat := e.u16FrameTypeAndGop % 16384 + 1

/-- A group of this size is gone. -/
def RecIdxInfo.dropGop (info : RecIdxInfo) (size : Nat) : RecIdxInfo :=
  { info with u32GopSizeInfo := info.u32GopSizeInfo.modify (gopSizeSeg size) (u32sub · 1) }

/-- A group of this size has been recorded. -/
def RecIdxInfo.addGop (info : RecIdxInfo) (size : Nat) : RecIdxInfo :=
  { info with u32GopSizeInfo := info.u32GopSizeInfo.modify (gopSizeSeg size) (u32 <| · + 1) }

/-! ## `PVR_Index_RecIdxInfo` -/

/-- `u32RewindStartGopFrmNum` of the next frame. -/
def nextGopFrmNum (u32LastFrame num : Nat) : Nat :=
  if u32 (num + 1) > u32LastFrame then 0 else u32 (num + 1)

/-- The loop that looks for the next I frame, from read number `n` on: how many reads there
    have been, the frame behind it, and what was read last; `none` when it is still running
    after `fuel` rounds. -/
def nextIframe (r : IndexReads) (u32LastFrame : Nat) :
    Nat → Nat → Nat → IndexEntry → Option (Nat × Nat × IndexEntry)
  | 0, _, _, _ => none
  | fuel + 1, n, num, e =>
    let (e, ok) := r.getEntryByNum n e num
    -- a frame that cannot be read is read again
    let num := if ok then nextGopFrmNum u32LastFrame num else num
    if e.isIframe then some (n + 1, num, e) else nextIframe r u32LastFrame fuel (n + 1) num e

/-- The part of `PVR_Index_RecIdxInfo` that takes out the group at the start of the ring;
    the flag tells that the books could not be written. -/
def dropFirstGop (r : IndexReads) (c : CycMgr) (info : RecIdxInfo) (writeOk : Bool)
    (fuel : Nat) : Option (RecIdxInfo × Bool) :=
  if c.s32CycTimes = 0 then some (info, false)
  else
    let (e, ok) := r.getEntryByNum 0 {} c.u32StartFrame
    if !ok || !e.isIframe then some (info, false)
    else
      let info := { info with u32GopTotalNum := u32sub info.u32GopTotalNum 1 }
      match nextIframe r c.u32LastFrame fuel 1 (nextGopFrmNum c.u32LastFrame c.u32StartFrame) e
        with
      | none => none
      | some (n, num, e) =>
        let (e, ok) := r.getEntryByNum n e (u32sub num 2)
        -- the frame in front of the I frame carries the size of the group
        some (if ok then info.dropGop e.gopSize else info, !writeOk)

/-- The part of `PVR_Index_RecIdxInfo` for the frame that is saved. -/
def noteEntry (info : RecIdxInfo) (pstIdxEntry : IndexEntry) (writeOk : Bool) : RecIdxInfo :=
  let noted :=
    if pstIdxEntry.isIframe then
      let info := { info with
        u32GopTotalNum := u32 (info.u32GopTotalNum + 1)
        u32MaxGopSize := max info.u32MaxGopSize info.u32LastGopSize }
      if info.u32LastGopSize ≠ 0 then info.addGop info.u32LastGopSize else info
    else info
  -- where the write fails the function returns before the size is kept
  if pstIdxEntry.isIframe && !writeOk then noted
  else { noted with u32LastGopSize := pstIdxEntry.gopSize }

/-- What `PVR_Index_RecIdxInfo` finds besides the handle: the header can be read, and the
    two writes of the books succeed. -/
structure RecIdxEnv where
  headerOk : Bool := true
  firstWriteOk : Bool := true
  secondWriteOk : Bool := true

/-- `PVR_Index_RecIdxInfo`; `none` when it is still running after `fuel` rounds. -/
def recIdxInfo (r : IndexReads) (c : CycMgr) (info : RecIdxInfo) (pstIdxEntry : IndexEntry)
    (env : RecIdxEnv) (fuel : Nat) : Option RecIdxInfo :=
  if !env.headerOk then some info
  else
    let info := { info with
      u32MagicWord := recIndexMagicWord
      u32FrameTotalNum :=
        if c.s32CycTimes ≠ 0 then u32 (u32sub c.u32LastFrame c.u32StartFrame + c.u32EndFrame)
        else u32 (c.u32LastFrame + 1) }
    (dropFirstGop r c info env.firstWriteOk fuel).map fun (info, failed) =>
      if failed then info else noteEntry info pstIdxEntry env.secondWriteOk

/-! ## `PVR_Index_UpdateIdxInfoWhenRewind` -/

/-- The loop of `PVR_Index_UpdateIdxInfoWhenRewind`, from read number `n` on. -/
def updateLoop (r : IndexReads) (c : CycMgr) :
    Nat → Nat → Nat → IndexEntry → RecIdxInfo → Option RecIdxInfo
  | 0, _, _, _, _ => none
  | fuel + 1, n, i, e, info =>
    let (e, ok) := r.getEntryByNum n e i
    if ok then
      if e.isIframe then
        let (e', ok') := r.getEntryByNum (n + 1) e (u32sub i 1)
        -- in front of the end lies the new cycle, not a group that is gone
        let info := if i ≠ c.u32EndFrame ∧ ok' then info.dropGop e'.gopSize else info
        if i ≥ c.u32StartFrame then some info
        else
          let info := { info with u32GopTotalNum := u32sub info.u32GopTotalNum 1 }
          if i ≠ c.u32EndFrame then updateLoop r c fuel (n + 2) (u32 (i + 1)) e' info
          else updateLoop r c fuel (n + 1) (u32 (i + 1)) e info
      else updateLoop r c fuel (n + 1) (u32 (i + 1)) e info
    -- an entry that cannot be read is passed over
    else if i ≥ c.u32StartFrame then some info
    else updateLoop r c fuel (n + 1) (u32 (i + 1)) e info

/-- `PVR_Index_UpdateIdxInfoWhenRewind`. -/
def updateIdxInfoWhenRewind (r : IndexReads) (c : CycMgr) (info : RecIdxInfo) (fuel : Nat) :
    Option RecIdxInfo :=
  if c.s32CycTimes ≠ 1 then some info else updateLoop r c fuel 0 c.u32EndFrame {} info

end Tntsat.PvrIndex
