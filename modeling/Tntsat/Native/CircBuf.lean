import Mathlib.Algebra.GroupWithZero.Nat
import Tntsat.ForStd.CInt
import Tntsat.ForStd.Machine
import Tntsat.ForStd.Ring

/-!
# The circular buffer of the audio ports

`CIRC_BUF_QueryBusy`, `CIRC_BUF_Read` and `CIRC_BUF_Write_Vsb` of
`msp/drv/aiao/aiao_v1_1/common/include/circ_buf.h`.  The members `pu32Read` and
`pu32Write` are declared as pointers and hold offsets into the buffer.  All
arithmetic on them is done in `ulong`, that is `unsigned long`, which has 32 bits
in the `CONFIG_MT_LONG_32` products and 64 bits in the others, while a requested
length is a `mt_u32` in both.
-/

namespace Tntsat.CircBuf

/-- The width of `ulong`. -/
inductive LongMode
  | long32
  | long64
deriving DecidableEq

/-- The number of values of a `ulong`. -/
def LongMode.size : LongMode → Nat
  | .long32 => 4294967296
  | .long64 => 18446744073709551616

/-- The value of a `ulong` after storing `n`. -/
def LongMode.ulong (m : LongMode) (n : Nat) : Nat := n % m.size

/-- Subtraction of two `ulong` values. -/
def LongMode.sub (m : LongMode) (a b : Nat) : Nat := m.ulong (a + m.size - b)

/-- `CIRC_BUF_S`, the members that the functions use. -/
structure CircBufS where
  pu32Write : Nat
  pu32Read : Nat
  /-- The address of the buffer. -/
  pu8Data : Nat
  u32Lenght : Nat
  lenght_lt : u32Lenght < 4294967296

/-- Both positions lie in the buffer. -/
structure CircBufS.InRange (pstCb : CircBufS) : Prop where
  read_lt : pstCb.pu32Read < pstCb.u32Lenght
  write_lt : pstCb.pu32Write < pstCb.u32Lenght

/-- `CIRC_BUF_QueryBusy`. -/
def circBufQueryBusy (m : LongMode) (pstCb : CircBufS) : Nat :=
  let u32ReadPos := pstCb.pu32Read
  let u32WritePos := pstCb.pu32Write
  if u32ReadPos ≤ u32WritePos then u32 (m.sub u32WritePos u32ReadPos)
  else u32 (m.sub pstCb.u32Lenght (m.sub u32ReadPos u32WritePos))

/-- A part of the buffer to copy: `u32RdPos[i]` and `u32RdLen[i]`. -/
structure Segment where
  u32RdPos : Nat
  u32RdLen : Nat
deriving DecidableEq

/-- The two segments of `CIRC_BUF_Read`. -/
def rdSegments (m : LongMode) (pstCb : CircBufS) (u32Len : Nat) : Segment × Segment :=
  let u32ReadPos := pstCb.pu32Read
  let u32WritePos := pstCb.pu32Write
  if u32ReadPos ≤ u32WritePos then
    -- the sum is a `ulong` as well
    if m.ulong (u32ReadPos + u32Len) ≤ u32WritePos then (⟨u32ReadPos, u32Len⟩, ⟨0, 0⟩)
    else (⟨u32ReadPos, m.sub u32WritePos u32ReadPos⟩, ⟨0, 0⟩)
  else if m.ulong (u32ReadPos + u32Len) ≤ pstCb.u32Lenght then (⟨u32ReadPos, u32Len⟩, ⟨0, 0⟩)
  else
    let first := m.sub pstCb.u32Lenght u32ReadPos
    let second := m.sub u32Len first
    (⟨u32ReadPos, first⟩, ⟨0, if u32WritePos < second then u32WritePos else second⟩)

/-- The copy loop: what goes to `pDest` and the read position it leaves behind.
    It ends at the first empty segment. -/
def copyLoop (m : LongMode) (mem : Memory UInt8) (pu8Data : Nat) :
    List Segment → Nat → List UInt8 × Nat
  | [], u32ReadPos => ([], u32ReadPos)
  | seg :: segs, u32ReadPos =>
    if seg.u32RdLen ≠ 0 then
      let rest := copyLoop m mem pu8Data segs (m.ulong (seg.u32RdPos + seg.u32RdLen))
      (mem.read (pu8Data + seg.u32RdPos) seg.u32RdLen ++ rest.1, rest.2)
    else ([], u32ReadPos)

/-- What `CIRC_BUF_Read` leaves behind: the buffer, the bytes stored from `pDest`
    on and the return value. -/
structure ReadResult where
  pstCb : CircBufS
  data : List UInt8
  ret : Nat

/-- `CIRC_BUF_Read`; `mem` is the memory the buffer lies in. -/
def circBufRead (m : LongMode) (mem : Memory UInt8) (pstCb : CircBufS) (u32Len : Nat) :
    ReadResult :=
  let segs := rdSegments m pstCb u32Len
  let copied := copyLoop m mem pstCb.pu8Data [segs.1, segs.2] pstCb.pu32Read
  { pstCb := { pstCb with
      pu32Read := if copied.2 = pstCb.u32Lenght then 0 else copied.2 }
    data := copied.1
    ret := u32 (m.ulong (segs.1.u32RdLen + segs.2.u32RdLen)) }

/-- One read after the other, their bytes one behind the other. -/
def circBufReads (m : LongMode) (mem : Memory UInt8) (pstCb : CircBufS) : List Nat → ReadResult
  | [] => { pstCb, data := [], ret := 0 }
  | u32Len :: lens =>
    let first := circBufRead m mem pstCb u32Len
    let rest := circBufReads m mem first.pstCb lens
    { pstCb := rest.pstCb, data := first.data ++ rest.data, ret := first.ret + rest.ret }

/-! ## Capture -/

/-- The two segments of `CIRC_BUF_Write_Vsb`. -/
def wtSegments (m : LongMode) (pstCb : CircBufS) (u32Len : Nat) : Segment × Segment :=
  let u32ReadPos := pstCb.pu32Read
  let u32WritePos := pstCb.pu32Write
  if u32ReadPos ≤ u32WritePos then
    if m.ulong (u32WritePos + u32Len) ≤ pstCb.u32Lenght then (⟨u32WritePos, u32Len⟩, ⟨0, 0⟩)
    else
      let first := m.sub pstCb.u32Lenght u32WritePos
      (⟨u32WritePos, first⟩, ⟨0, m.sub u32Len first⟩)
  else (⟨u32WritePos, u32Len⟩, ⟨0, 0⟩)

/-- The loop of `CIRC_BUF_Write_Vsb`, which only moves the position. -/
def moveLoop (m : LongMode) : List Segment → Nat → Nat
  | [], u32WritePos => u32WritePos
  | seg :: segs, u32WritePos =>
    if seg.u32RdLen ≠ 0 then moveLoop m segs (m.ulong (seg.u32RdPos + seg.u32RdLen))
    else u32WritePos

/-- `CIRC_BUF_Write_Vsb`: the hardware has stored `u32Len` bytes. -/
def circBufWriteVsb (m : LongMode) (pstCb : CircBufS) (u32Len : Nat) : CircBufS × Nat :=
  let segs := wtSegments m pstCb u32Len
  let u32WritePos := moveLoop m [segs.1, segs.2] pstCb.pu32Write
  ({ pstCb with pu32Write := if u32WritePos = pstCb.u32Lenght then 0 else u32WritePos },
    u32 (m.ulong (segs.1.u32RdLen + segs.2.u32RdLen)))

/-- A capture port: its buffer and the memory. -/
structure Port where
  stCB : CircBufS
  mem : Memory UInt8

/-- What happens to a port. -/
inductive PortEvent
  /-- the hardware stores bytes behind the write position, and `HAL_AIAO_P_WriteData_Vsb` follows -/
  | capture (bs : List UInt8)
  /-- `HAL_AIAO_P_ReadData` -/
  | read (u32DestSize : Nat)

/-- The port over captures and reads in any order; a step gives the bytes that it captured and
    those that it delivered. -/
def portMachine (m : LongMode) : Machine Port PortEvent (List UInt8 × List UInt8) where
  step s
    | .capture bs =>
      ({ stCB := (circBufWriteVsb m s.stCB bs.length).1
         mem := s.mem.writeRing s.stCB.pu8Data s.stCB.u32Lenght s.stCB.pu32Write bs }, (bs, []))
    | .read n =>
      ({ s with stCB := (circBufRead m s.mem s.stCB n).pstCb }, ([], (circBufRead m s.mem s.stCB n).data))

end Tntsat.CircBuf
