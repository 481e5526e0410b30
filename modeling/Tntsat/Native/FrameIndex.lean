import Mathlib.Algebra.Group.Int.Defs
import Mathlib.Algebra.Group.Nat.Defs
import Mathlib.Logic.Function.Basic
import Tntsat.ForStd.CInt
import Tntsat.ForStd.Machine

/-!
# The frame index

`FIDX_FeedStartCode` of `msp/drv/demux/drv_demux_index.c`, with the start code machines of
the four video standards.  Each remembers sequence headers, opens a frame at a picture's
start code and hands it out at a later one.

One instance is modelled.  The offsets and counts in packets are left out:
`FIDX_FeedStartCode` sets them to 0.  The return values, which it drops, are left out too.
-/

namespace Tntsat.FrameIndex

/-- `VIDSTD_E`. -/
inductive VidStd
  | mpeg2
  | mpeg4
  | avs
  | h264
  | vc1
  | h263
  | divx3
  | audioPes
deriving DecidableEq

/-- `SC_TYPE_E`. -/
inductive ScType
  | unknown
  | sps
  | pps
  | pic
  | slice
  | nonslice
deriving DecidableEq

/-- `FIDX_FRAME_TYPE_E`. -/
inductive FrameType
  | unknown
  | i
  | p
  | b
  | pesh
deriving DecidableEq

/-- The number of a frame type. -/
def FrameType.num : FrameType → Nat
  | .unknown => 0
  | .i => 1
  | .p => 2
  | .b => 3
  | .pesh => 4

/-- `SC_INFO_S`. -/
structure ScInfo where
  eScType : ScType := .unknown
  s32ScID : Nat := 0
  s32SupScID : Nat := 0
  s64GlobalOffset : Int := 0
deriving DecidableEq

/-- `FRAME_POS_S`. -/
structure FramePos where
  eFrameType : FrameType := .unknown
  u32PTS : Nat := 0
  s64GlobalOffset : Int := 0
  s32FrameSize : Int := 0
deriving DecidableEq

/-- `FINDEX_SCD_S`; `au8DataAfterSC` has eight bytes. -/
structure FindexScd where
  u8StartCode : UInt8
  u32PtsMs : Nat := 0
  s64GlobalOffset : Int
  au8DataAfterSC : List UInt8 := []
deriving DecidableEq

/-- `FIDX_CTX_S`; a fresh one is cleared. -/
structure Ctx where
  eVideoStandard : VidStd
  u32PTS : Nat := 0
  stSPS : Nat → ScInfo := fun _ => {}
  u8SpsFresh : Nat → Bool := fun _ => false
  stPPS : Nat → ScInfo := fun _ => {}
  stThisSC : ScInfo := {}
  stSEIFollowSlice : ScInfo := {}
  stNewFramePos : FramePos := {}
  s32SpsID : Nat := 0
  s32PpsID : Nat := 0

/-- `u8ThisSCData`: the start code and what stands behind it. -/
def FindexScd.data (sc : FindexScd) : List UInt8 := sc.u8StartCode :: sc.au8DataAfterSC.take 8

/-- A byte of `u8ThisSCData`; those that are not filled are 0. -/
def byteAt (data : List UInt8) (k : Nat) : Nat := (data.getD k 0).toNat

/-- `IS_SC_WRONG`. -/
def isScWrong (data : List UInt8) : Bool :=
  byteAt data 0 = 0 && byteAt data 1 = 0 && byteAt data 2 = 1

/-- `IsPesSC`. -/
def isPesSC (code : Nat) (std : VidStd) : Bool :=
  if std = .audioPes then 0xc0 ≤ code && code ≤ 0xdf else 0xe0 ≤ code && code ≤ 0xef

/-! ## Headers and frames -/

/-- A frame is open. -/
def Ctx.isOpen (c : Ctx) : Bool := c.stNewFramePos.eFrameType ≠ .unknown

/-- `OUTPUT_FRAME`. -/
def outputFrame (c : Ctx) : Ctx × Option FramePos :=
  ({ c with stNewFramePos := {} }, some c.stNewFramePos)

/-- What a start code that ends frames does with the frame that is open. -/
def endFrame (c : Ctx) : Ctx × Option FramePos :=
  let size := s32 (c.stThisSC.s64GlobalOffset - c.stNewFramePos.s64GlobalOffset)
  let c := { c with stNewFramePos := { c.stNewFramePos with s32FrameSize := size } }
  -- a negative size drops the frame
  if size < 0 then
    ({ c with stNewFramePos := { c.stNewFramePos with eFrameType := .unknown } }, none)
  else outputFrame c

/-- A sequence header goes into slot `k`. -/
def storeSps (c : Ctx) (k id : Nat) (fresh : Bool) : Ctx :=
  let stThisSC := { c.stThisSC with eScType := .sps, s32ScID := id }
  { c with
    stThisSC
    stSPS := Function.update c.stSPS k stThisSC
    u8SpsFresh := if fresh then Function.update c.u8SpsFresh k true else c.u8SpsFresh }

/-- A frame is opened, and takes the PTS. -/
def openFrame (c : Ctx) (eFrameType : FrameType) (s64GlobalOffset : Int) : Ctx :=
  { c with
    stNewFramePos := { eFrameType, s64GlobalOffset, u32PTS := c.u32PTS, s32FrameSize := 0 }
    u32PTS := 0xffffffff }

/-! ## MPEG-2, AVS and MPEG-4 -/

/-- `ProcessSC_Mpeg2`. -/
def processScMpeg2 (c : Ctx) (data : List UInt8) : Ctx × Option FramePos :=
  let code := byteAt data 0
  let (c, out) := if c.isOpen && (code = 0xb3 || code = 0x00) then endFrame c else (c, none)
  if code = 0xb3 then (storeSps c 0 code true, out)
  else if code = 0x00 then
    if (c.stSPS 0).eScType ≠ .sps then (c, out)
    else
      let pictureCodingType := (byteAt data 2 >>> 3) &&& 7
      if pictureCodingType < 1 || 3 < pictureCodingType then (c, out)
      else if pictureCodingType = 1 && c.u8SpsFresh 0 then
        (openFrame { c with u8SpsFresh := Function.update c.u8SpsFresh 0 false } .i
          (c.stSPS 0).s64GlobalOffset, out)
      else
        (openFrame c (if pictureCodingType = 3 then .b else .p) c.stThisSC.s64GlobalOffset, out)
  else (c, out)

/-- `ProcessSC_Avs`. -/
def processScAvs (c : Ctx) (data : List UInt8) : Ctx × Option FramePos :=
  let code := byteAt data 0
  let (c, out) :=
    if c.isOpen && (code = 0xb0 || code = 0xb1 || code = 0xb3 || code = 0xb6) then endFrame c
    else (c, none)
  if code = 0xb0 then (storeSps c 0 code true, out)
  else if code = 0xb3 || code = 0xb6 then
    if (c.stSPS 0).eScType ≠ .sps then (c, out)
    -- the header stays fresh
    else if code = 0xb3 && c.u8SpsFresh 0 then
      (openFrame c .i (c.stSPS 0).s64GlobalOffset, out)
    else
      let pictureCodingType := if code = 0xb6 then (byteAt data 3 >>> 6) &&& 3 else 1
      if pictureCodingType = 1 || pictureCodingType = 2 then
        (openFrame c (if pictureCodingType = 1 then .p else .b) c.stThisSC.s64GlobalOffset, out)
      else (c, out)
  else (c, out)

/-- `SELECT_SPS`. -/
def selectSps (sps selected : ScInfo) : ScInfo :=
  if sps.eScType = .sps ∧ sps.s64GlobalOffset < selected.s64GlobalOffset ∧
      selected.s64GlobalOffset ≤ sps.s64GlobalOffset + 64 then sps
  else selected

/-- `pstLatestSps` of `ProcessSC_Mpeg4`. -/
def latestSps (c : Ctx) : ScInfo :=
  selectSps (c.stSPS 0) (selectSps (c.stSPS 1) (selectSps (c.stSPS 2) (c.stSPS 3)))

/-- `ProcessSC_Mpeg4`. -/
def processScMpeg4 (c : Ctx) (data : List UInt8) : Ctx × Option FramePos :=
  let code := byteAt data 0
  let (c, out) := if c.isOpen && code ≠ 0xb2 then endFrame c else (c, none)
  if code = 0xb0 then (storeSps c 0 code false, out)
  else if code = 0xb5 then (storeSps c 1 code false, out)
  else if code ≤ 0x1f then (storeSps c 2 code false, out)
  else if 0x20 ≤ code && code ≤ 0x2f then (storeSps c 3 code true, out)
  else if code = 0xb6 then
    if (c.stSPS 3).eScType ≠ .sps then (c, out)
    else
      let pictureCodingType := (byteAt data 1 >>> 6) &&& 3
      if 2 < pictureCodingType then (c, out)
      else if pictureCodingType = 0 && c.u8SpsFresh 3 then
        (openFrame { c with u8SpsFresh := Function.update c.u8SpsFresh 3 false } .i
          (latestSps c).s64GlobalOffset, out)
      else
        (openFrame c (if pictureCodingType = 2 then .b else .p) c.stThisSC.s64GlobalOffset, out)
  else (c, out)

/-! ## H.264 -/

/-- `PvrZerosMS_32`. -/
def pvrZerosMS32 (data : Nat) : Nat := if data = 0 then 32 else 31 - Nat.log2 data

/-- `simple_ue_v`: the number of bits, and the value. -/
def simpleUeV (code : Nat) : Nat × Nat :=
  let zeros := pvrZerosMS32 code
  if zeros < 16 then (2 * zeros + 1, code / 2 ^ (32 - (2 * zeros + 1)) - 1) else (0, 0xffffffff)

/-- The bits of `u8ThisSCData`, whose 16 bytes begin with those of the start code. -/
def bits (data : List UInt8) : Nat :=
  (List.range 16).foldl (fun n k => n * 256 + byteAt data k) 0

/-- `PvrBsShow` of 32 bits at a position. -/
def pvrBsShow (data : List UInt8) (pos : Nat) : Nat := bits data / 2 ^ (96 - pos) % 2 ^ 32

/-- `s32ThisSCDataLen`. -/
def thisSCDataLen : Nat := 9

/-- A number of the bit stream that must not be over a bound: the position behind it, and
    its value. -/
def getUe (data : List UInt8) (pos bound : Nat) : Option (Nat × Nat) :=
  let (bitNum, val) := simpleUeV (pvrBsShow data pos)
  if val ≤ bound ∧ (pos + 7) / 8 ≤ thisSCDataLen then some (pos + bitNum, val) else none

/-- `ParseSPS`. -/
def parseSPS (data : List UInt8) : Option Nat :=
  let (bitNum, val) := simpleUeV (pvrBsShow data 32)
  if val ≤ 31 ∧ (bitNum + 7) / 8 ≤ thisSCDataLen - 4 then some val else none

/-- `ParsePPS`: the SPS's number and the PPS's. -/
def parsePPS (data : List UInt8) : Option (Nat × Nat) := do
  let (pos, ppsID) ← getUe data 8 255
  let (_, spsID) ← getUe data pos 31
  return (spsID, ppsID)

/-- What `ParseSliceHeader` reads. -/
structure SliceHeader where
  s32FirstMb : Nat
  s32SliceType : Nat
  s32PpsID : Nat
deriving DecidableEq

/-- `ParseSliceHeader`. -/
def parseSliceHeader (data : List UInt8) : Option SliceHeader := do
  let (pos, s32FirstMb) ← getUe data 8 8192
  let (pos, s32SliceType) ← getUe data pos 7
  if s32SliceType = 3 ∨ s32SliceType = 4 then none
  else
    let (_, s32PpsID) ← getUe data pos 255
    return { s32FirstMb, s32SliceType, s32PpsID }

/-- `SlcType2FrmType`. -/
def slcType2FrmType : Nat → FrameType
  | 0 | 5 => .p
  | 1 | 6 => .b
  | 2 | 7 => .i
  | _ => .unknown

/-- The border behind a frame: the start code that follows its last slice, or this one. -/
def frameBorder (c : Ctx) : Int :=
  if c.stSEIFollowSlice.eScType = .nonslice then c.stSEIFollowSlice.s64GlobalOffset
  else c.stThisSC.s64GlobalOffset

/-- `H264MakeFrame`. -/
def h264MakeFrame (c : Ctx) : Ctx :=
  if c.stNewFramePos.eFrameType = .i ∧ c.u8SpsFresh c.s32SpsID then
    { c with
      stNewFramePos := { c.stNewFramePos with
        s64GlobalOffset := (c.stSPS c.s32SpsID).s64GlobalOffset
        s32FrameSize := s32 (frameBorder c - (c.stSPS c.s32SpsID).s64GlobalOffset) }
      u8SpsFresh := Function.update c.u8SpsFresh c.s32SpsID false }
  else
    { c with
      stNewFramePos := { c.stNewFramePos with
        -- an I frame without a fresh header counts as a P frame
        eFrameType := if c.stNewFramePos.eFrameType = .i then .p else c.stNewFramePos.eFrameType
        s32FrameSize := s32 (frameBorder c - c.stNewFramePos.s64GlobalOffset) } }

/-- The first start code behind a slice that is not a slice. -/
def noteNonslice (c : Ctx) : Ctx :=
  if c.stSEIFollowSlice.eScType = .unknown then
    { c with stSEIFollowSlice := { c.stThisSC with eScType := .nonslice } }
  else c

/-- A start code that follows the slices ends the frame that is open. -/
def endH264Frame (c : Ctx) (ends : Bool) : Ctx × Option FramePos :=
  if c.isOpen && ends then outputFrame (h264MakeFrame c) else (c, none)

/-- `ProcessSC_H264`, `FIDX_NALU_TYPE_SPS`. -/
def processSps (c : Ctx) (data : List UInt8) : Ctx × Option FramePos :=
  match parseSPS data with
  | none => (c, none)
  | some spsID =>
    let (c, out) := endH264Frame c (c.s32SpsID = spsID)
    (storeSps c spsID spsID true, out)

/-- `ProcessSC_H264`, `FIDX_NALU_TYPE_PPS`. -/
def processPps (c : Ctx) (data : List UInt8) : Ctx × Option FramePos :=
  match parsePPS data with
  | none => (c, none)
  | some (spsID, ppsID) =>
    if (c.stSPS spsID).eScType = .sps then
      let (c, out) := endH264Frame c (c.s32PpsID = ppsID)
      let stThisSC := { c.stThisSC with eScType := .pps, s32ScID := ppsID, s32SupScID := spsID }
      ({ c with stThisSC, stPPS := Function.update c.stPPS ppsID stThisSC }, out)
    else (c, none)

/-- A slice of the frame that is open may change its type. -/
def continueFrame (c : Ctx) (frmType : FrameType) : Ctx :=
  { c with
    stNewFramePos := { c.stNewFramePos with
      eFrameType :=
        if c.stNewFramePos.eFrameType.num < frmType.num then frmType
        else c.stNewFramePos.eFrameType }
    stThisSC := { c.stThisSC with eScType := .unknown } }

/-- A slice's start code opens a frame, which begins behind the slices of the one before. -/
def openSlice (c : Ctx) (hdr : SliceHeader) : Ctx :=
  if !c.isOpen && c.stThisSC.eScType = .slice then
    { openFrame c (slcType2FrmType hdr.s32SliceType) (frameBorder c) with
      s32PpsID := hdr.s32PpsID
      s32SpsID := (c.stPPS hdr.s32PpsID).s32SupScID }
  else c

/-- What a slice does with the frame that is open. -/
def sliceFrame (c : Ctx) (hdr : SliceHeader) : Ctx × Option FramePos :=
  if c.isOpen then
    if hdr.s32FirstMb = 0 || hdr.s32PpsID ≠ c.s32PpsID then outputFrame (h264MakeFrame c)
    else (continueFrame c (slcType2FrmType hdr.s32SliceType), none)
  else (c, none)

/-- A slice whose PPS and SPS are known is marked. -/
def markSlice (c : Ctx) (hdr : SliceHeader) : Ctx :=
  if (c.stPPS hdr.s32PpsID).eScType = .pps ∧
      (c.stSPS (c.stPPS hdr.s32PpsID).s32SupScID).eScType = .sps then
    { c with stThisSC := { c.stThisSC with eScType := .slice } }
  -- the type stays that of an earlier start code
  else c

/-- `ProcessSC_H264`, `FIDX_NALU_TYPE_IDR` and `FIDX_NALU_TYPE_SLICE`. -/
def processSlice (c : Ctx) (data : List UInt8) : Ctx × Option FramePos :=
  let (c, out) :=
    match parseSliceHeader data with
    | none => (c, none)
    | some hdr =>
      let (c, out) := sliceFrame (markSlice c hdr) hdr
      (openSlice c hdr, out)
  ({ c with stSEIFollowSlice := { c.stSEIFollowSlice with eScType := .unknown } }, out)

/-- `NalUnitType`. -/
def nalUnitType (code : Nat) : Nat := code &&& 31

/-- `ProcessSC_H264`. -/
def processScH264 (c : Ctx) (data : List UInt8) : Ctx × Option FramePos :=
  let code := byteAt data 0
  if code &&& 0x80 ≠ 0 then (c, none)
  else if nalUnitType code = 7 then processSps (noteNonslice c) data
  else if nalUnitType code = 8 then processPps (noteNonslice c) data
  else if nalUnitType code = 5 || nalUnitType code = 1 then processSlice c data
  else (noteNonslice c, none)

/-! ## Feeding start codes -/

/-- `ProcessThisSC`. -/
def processThisSC (c : Ctx) (data : List UInt8) : Ctx × Option FramePos :=
  if isScWrong data then (c, none)
  else
    match c.eVideoStandard with
    | .mpeg2 => processScMpeg2 c data
    | .h264 => processScH264 c data
    | .mpeg4 => processScMpeg4 c data
    | .avs => processScAvs c data
    | _ => (c, none)

/-- `FIDX_FeedStartCode`, with what it gives to the output callback. -/
def feedStartCode (c : Ctx) (sc : FindexScd) : Ctx × Option FramePos :=
  let c := { c with stThisSC := { c.stThisSC with
    s32ScID := sc.u8StartCode.toNat
    s64GlobalOffset := sc.s64GlobalOffset } }
  if isPesSC sc.u8StartCode.toNat c.eVideoStandard then
    ({ c with u32PTS := sc.u32PtsMs },
      some { eFrameType := .pesh, s64GlobalOffset := sc.s64GlobalOffset, u32PTS := sc.u32PtsMs })
  else processThisSC c sc.data

/-- An instance, start code by start code. -/
def machine : Machine Ctx FindexScd (Option FramePos) where
  step := feedStartCode

/-- `FIDX_OpenInstance`. -/
def openInstance (std : VidStd) : Ctx := { eVideoStandard := std }

end Tntsat.FrameIndex
