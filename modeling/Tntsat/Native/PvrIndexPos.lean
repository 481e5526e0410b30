import Tntsat.Native.PvrIndex

/-!
# Positions in the ring of frames

The functions of `msp/api/pvr/mt_pvr_index.c` that say which positions of the index
can be played and that move a position along the ring: `PVRIndexIsFrameValid` and
`PVRIndexCalcNewPos`, which take the ring from the handle and move by a signed
offset, and the family of `Pvr_Move_Readpos_forward`, which takes the ring as three
numbers and moves one frame at a time.

The ring is `u32StartFrame`, `u32EndFrame` and `u32LastFrame` of `CycMgr`.  It is
wrapped when the start lies behind the end.
-/

namespace Tntsat.PvrIndex

/-! ## Moving by an offset -/

/-- `PVRIndexIsFrameValid`. -/
def CycMgr.isFrameValid (c : CycMgr) (u32FrmPos : Nat) : Bool :=
  if c.u32StartFrame < c.u32EndFrame then
    c.u32StartFrame ≤ u32FrmPos ∧ u32FrmPos ≤ c.u32EndFrame
  else
    c.u32StartFrame ≤ u32FrmPos ∧ u32FrmPos ≤ c.u32LastFrame ∨ u32FrmPos ≤ c.u32EndFrame

/-- `PVRIndexCalcNewPos` for an offset away from the start: the position after the
    addition, taken back into the ring. -/
def CycMgr.forwardNewPos (c : CycMgr) (u32FrmPos u32NewPos : Nat) : Nat :=
  let (u32NewPos, u32Boundary) :=
    if c.u32EndFrame ≤ c.u32StartFrame ∧ c.u32StartFrame ≤ u32FrmPos ∧
        u32FrmPos ≤ c.u32LastFrame then
      if c.u32LastFrame < u32NewPos then
        (if u32NewPos = u32 (c.u32LastFrame + 1) then 0 else u32NewPos - c.u32LastFrame,
          c.u32EndFrame)
      else (u32NewPos, c.u32LastFrame)
    else (u32NewPos, c.u32EndFrame)
  if u32Boundary < u32NewPos then u32Boundary else u32NewPos

/-- `PVRIndexCalcNewPos` for an offset towards the start; the comparisons are signed. -/
def CycMgr.backwardNewPos (c : CycMgr) (u32FrmPos u32NewPos : Nat) : Nat :=
  let (u32NewPos, u32Boundary) :=
    if c.u32EndFrame ≤ c.u32StartFrame ∧ u32FrmPos ≤ c.u32EndFrame then
      if s32 u32NewPos < 0 then
        (if s32 u32NewPos = -1 then c.u32LastFrame else u32 (c.u32LastFrame + u32NewPos),
          c.u32StartFrame)
      else (u32NewPos, 0)
    else (u32NewPos, c.u32StartFrame)
  if s32 u32NewPos < s32 u32Boundary then u32Boundary else u32NewPos

/-- `PVRIndexCalcNewPos`. -/
def CycMgr.calcNewPos (c : CycMgr) (u32FrmPos : Nat) (s32Offset : Int) : Nat :=
  if c.isFrameValid u32FrmPos then
    let u32NewPos := u32OfInt (u32FrmPos + s32Offset)
    if 0 ≤ s32Offset then c.forwardNewPos u32FrmPos u32NewPos
    else c.backwardNewPos u32FrmPos u32NewPos
  else if c.u32EndFrame < c.u32StartFrame ∧ c.u32EndFrame < u32FrmPos ∧
      u32FrmPos < c.u32StartFrame then
    -- in the hole: the nearer of its two ends
    if u32FrmPos - c.u32EndFrame < c.u32StartFrame - u32FrmPos then c.u32EndFrame
    else c.u32StartFrame
  else c.u32LastFrame

/-! ## Moving frame by frame -/

/-- `PVR_TPLAY_MIN_DISTANCE`. -/
def tplayMinDistance : Nat := 120

/-- `Pvr_Calc_distance`. -/
def calcDistance (s l x : Nat) : Nat :=
  if s ≤ x then x - s else u32sub l (s - x)

/-- `Pvr_Check_ReadInRange`. -/
def checkReadInRange (s e r : Nat) : Bool :=
  if s ≤ e then r ≤ e ∧ s ≤ r else ¬(e < r ∧ r < s)

/-- `Pvr_Move_Readpos_forward`; `s` is not used. -/
def moveReadposForward (s e l : Nat) : Nat → Nat → Nat
  | r, 0 => r
  | r, mx + 1 =>
    if r = e then r
    else moveReadposForward s e l (if u32 (r + 1) = l then 0 else u32 (r + 1)) mx

/-- `Pvr_Move_Readpos_backward`; `e` is not used. -/
def moveReadposBackward (s e l : Nat) : Nat → Nat → Nat
  | r, 0 => r
  | r, mx + 1 =>
    if r = s then r
    else moveReadposBackward s e l (if u32sub r 1 = 0 then l else u32sub r 1) mx

/-- Where playing begins at the start of the ring: `Pvr_Move_Readpos_forward` from
    there, with the end and the last frame one less than in the handle. -/
def CycMgr.startAndDistance (c : CycMgr) : Nat :=
  moveReadposForward c.u32StartFrame (c.u32EndFrame - 1) (c.u32LastFrame - 1) c.u32StartFrame
    tplayMinDistance

variable {σ : Type}

/-- `Pvr_Adjust_ReadInGoodRange`, for a handle that is there. -/
def adjustReadInGoodRange (h : Index σ) (dirct : Bool) : Index σ :=
  let c := h.stCycMgr
  if c.u32LastFrame - 1 < h.u32ReadFrame then { h with u32ReadFrame := c.startAndDistance }
  else if checkReadInRange c.u32StartFrame (c.u32EndFrame - 1) h.u32ReadFrame then h
  else if dirct then { h with u32ReadFrame := c.startAndDistance }
  else { h with u32ReadFrame := c.u32EndFrame - 1 }

/-- `PVR_Index_SeekToStart_AndDistance`. -/
def seekToStartAndDistance (h : Index σ) : Index σ :=
  { h with u32ReadFrame := h.stCycMgr.startAndDistance }

end Tntsat.PvrIndex
