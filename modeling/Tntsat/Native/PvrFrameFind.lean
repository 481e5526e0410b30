import Tntsat.Native.PvrFrameStat

/-!
# Looking for a frame of a type

`PVR_Index_GetFBwardIPBFrameNum` of `msp/api/pvr/mt_pvr_index.c`: from a frame, one
position after the other backward or forward, to the first frame of a type.

The entries are what a read of each frame number gives.
-/

namespace Tntsat.PvrIndex

/-- What `PVR_Index_GetFBwardIPBFrameNum` comes to. -/
inductive FindRes where
  /-- `*pu32NextFrameNum` -/
  | found (num : Nat)
  /-- MT_FAILURE -/
  | failure
  /-- PVR_INDEX_ERR_INVALID -/
  | invalid
deriving DecidableEq

/-- The entry is of the type that is looked for; `none` for a type that is not I, P or B. -/
def IndexEntry.isOfType (e : IndexEntry) (u32FrameType : Nat) : Option Bool :=
  if u32FrameType = FrameType.i.toNat then some e.isIframe
  else if u32FrameType = FrameType.p.toNat then some e.isPframe
  else if u32FrameType = FrameType.b.toNat then some e.isBframe
  else none

/-- The next position; direction 0 is backward.  The search goes round where the end is not
    behind the start. -/
def CycMgr.nextFrameNum (c : CycMgr) (u32Direction : Nat) (s32NextFrameNum : Int) : Int :=
  let s32NextFrameNum := if u32Direction = 0 then s32NextFrameNum - 1 else s32NextFrameNum + 1
  if c.u32EndFrame ≤ c.u32StartFrame then
    if u32Direction = 0 then
      if 0 > s32NextFrameNum then s32 c.u32LastFrame else s32NextFrameNum
    else if c.u32LastFrame < u32OfInt s32NextFrameNum then 0 else s32NextFrameNum
  else s32NextFrameNum

/-- The loop of `PVR_Index_GetFBwardIPBFrameNum`; `none` when it is still running after
    `fuel` rounds. -/
def findLoop (c : CycMgr) (read : Nat → ReadRes) (u32Direction u32FrameType : Nat) :
    Nat → Int → Nat → Option FindRes
  | 0, _, _ => none
  | fuel + 1, s32NextFrameNum, looptimes =>
    let s32NextFrameNum := c.nextFrameNum u32Direction s32NextFrameNum
    -- rounds are counted where the search comes to position 0
    let looptimes := if 0 = s32NextFrameNum then looptimes + 1 else looptimes
    if 0 = s32NextFrameNum ∧ 2 = looptimes then some .failure
    -- a position that cannot be played ends the search
    else if !c.isFrameValid (u32OfInt s32NextFrameNum) then some .invalid
    else
      match read (u32OfInt s32NextFrameNum) with
      | .entry e =>
        match e.isOfType u32FrameType with
        | some true => some (.found (u32OfInt s32NextFrameNum))
        | some false =>
          findLoop c read u32Direction u32FrameType fuel s32NextFrameNum looptimes
        | none => some .failure
      -- a read that fails ends the search
      | _ => some .failure

/-- `PVR_Index_GetFBwardIPBFrameNum`. -/
def getFBwardIPBFrameNum (c : CycMgr) (read : Nat → ReadRes)
    (u32Direction u32FrameType u32CurFrameNum fuel : Nat) : Option FindRes :=
  if c.u32StartFrame > c.u32LastFrame ∨ c.u32EndFrame > c.u32LastFrame then some .failure
  else if !c.isFrameValid u32CurFrameNum then some .failure
  else findLoop c read u32Direction u32FrameType fuel (s32 u32CurFrameNum) 0

end Tntsat.PvrIndex
