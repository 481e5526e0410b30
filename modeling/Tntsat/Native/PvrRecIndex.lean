import Tntsat.ForStd.Machine
import Tntsat.Native.PvrIdxRing

/-!
# Frames from the hardware's index

`Dmx_AcquireRecIndex` of `msp/drv/pvr/drv_pvr_intf.c` with `dmx_rec_get_index_data` and
the filters it uses.  The hardware writes words of eight bytes into an index buffer: pairs
of words with a PTS, and start codes.  The code caches start codes, three at a time, and
returns the frame of the one in the middle.

The words of the index buffer are a list, oldest first, without the arithmetic of its
ring.  A start code stands there with the bytes from it on, in the byte order of
`u32HdrData`; in the source they are copied from the record buffer.  The record buffer's
address lookup does not fail.
-/

namespace Tntsat.PvrRecIndex

open PvrIdxRing (DmxRecIndex)
open PvrShm (VcodecType)

/-- `u32HdrData`. -/
structure HdrData where
  w0 : Nat := 0
  w1 : Nat := 0
  w2 : Nat := 0
deriving DecidableEq

/-- `reg_trpp_ch_idx_data_t`, by its `idx_num`. -/
inductive IdxData
  | dts (pts : Nat) (pts_vld : Bool)
  | es_sc (rec_ch_num sc_offset : Nat) (hdr : HdrData)
  | pts (rec_ch_num : Nat)
  | ts_head
deriving DecidableEq

/-- `MT_UNF_DMX_REC_INDEX_RAW`. -/
structure RecIndexRaw where
  publicindex : DmxRecIndex := {}
  u32HdrData : HdrData := {}
deriving DecidableEq

/-- `TYPE_PTS`, which marks a sequence header, and `TYPE_STC`. -/
inductive IndexType
  | pts
  | stc
deriving DecidableEq

/-- `INDEXINFOR`. -/
structure IndexInfor where
  offset : Nat
  hdr0 : Nat := 0
  hdr1 : Nat := 0
  pts : Nat
  type : IndexType
  sps : Nat := 0
deriving DecidableEq

/-- `INDEXMANAGE`; `cachedindex` has the `cachednum` entries that are in use. -/
structure IndexManage where
  nowpts : Nat := 0
  avs_profile : Nat := 0
  flag_265sps : Nat := 0
  cachedindex : List IndexInfor := []
deriving DecidableEq

/-! ## Reading a word -/

/-- A `pts` field of 33 bits at 90 kHz, in milliseconds. -/
def ptsMs (pts : Nat) : Nat := u32 (pts / 2) / 45

/-- What a PTS pair leaves in the record: a PTS that is not valid leaves the old one. -/
def RecIndexRaw.readPts (r : RecIndexRaw) (rec_ch_num : Nat) (second : IdxData) : RecIndexRaw :=
  { r with
    publicindex := { r.publicindex with
      u64GlobalOffset := u32 rec_ch_num * 188
      u32PtsMs :=
        match second with
        | .dts pts pts_vld => if pts_vld ∧ pts ≠ 0 then ptsMs pts else r.publicindex.u32PtsMs
        | _ => r.publicindex.u32PtsMs } }

/-- The offset of a start code: that of its packet, and for MPEG-2 its own. -/
def scOffset (vtype : VcodecType) (rec_ch_num sc_offset : Nat) : Nat :=
  u32 rec_ch_num * 188 + if vtype = .mpeg2 then sc_offset % 256 else 0

/-- What a start code leaves in the record. -/
def RecIndexRaw.readSc (vtype : VcodecType) (r : RecIndexRaw) (rec_ch_num sc_offset : Nat)
    (hdr : HdrData) : RecIndexRaw where
  publicindex :=
    { r.publicindex with u64GlobalOffset := scOffset vtype rec_ch_num sc_offset }
  u32HdrData := if vtype = .vc1 then hdr else { hdr with w2 := r.u32HdrData.w2 }

/-! ## Filters -/

/-- `mdx_rec_softfilter_stc` returns 0. -/
def softfilterStc (vtype : VcodecType) (stc : Nat) : Bool :=
  match vtype with
  | .mpeg2 => stc = 0x1b3 || stc = 0x100
  | .avs => stc = 0x1b3 || stc = 0x1b0 || stc = 0x1b6
  | .mpeg4 => stc = 0x1b0 || stc = 0x1b6
  | .vc1 => stc = 0x10d || stc = 0x10f
  | .h264 =>
    let t5 := stc &&& 0x1f
    stc &&& 0xffffff80 = 0x100 && (t5 = 1 || t5 = 5 || t5 = 7)
  | .hevc =>
    let t6 := (stc >>> 1) &&& 0x3f
    stc &&& 0xffffff80 = 0x100 && (t6 ≤ 9 || (16 ≤ t6 && t6 ≤ 32))
  | _ => false

/-- The start code is that of a sequence header. -/
def isSequenceHeader (vtype : VcodecType) (stc : Nat) : Bool :=
  match vtype with
  | .mpeg4 | .avs => stc = 0x1b0
  | .mpeg2 => stc = 0x1b3
  | .hevc => stc &&& 0xffffff7e = 0x140
  | .vc1 => stc = 0x10f
  | .h264 => stc &&& 0xffffff1f = 0x107
  | _ => false

/-- `code_check_get_ue` from the first bit of a word of four bytes on: the number it leaves
    in `info`, which is 0 beforehand.  It leaves it alone when the code would end behind the
    fifth byte.  Bits that it reads behind the word count as 0 here; the number is not 0
    with them either. -/
def codeCheckGetUe (word : Nat) : Nat :=
  let zeros := 31 - Nat.log2 word
  if word = 0 ∨ zeros * 2 / 8 > 4 then 0
  else 2 ^ zeros + word * 2 ^ (2 * zeros + 1) / 2 ^ 32 % 2 ^ zeros - 1

/-- A picture's first slice: others are not cached. -/
def isFirstSlice (vtype : VcodecType) (word : Nat) : Bool :=
  match vtype with
  | .h264 => codeCheckGetUe word = 0
  | .hevc => word &&& 0x00800000 = 0x00800000
  | _ => true

/-! ## The window -/

/-- The `avs_profile` that a sequence header leaves. -/
def headerProfile (vtype : VcodecType) (avs_profile : Nat) (hdr : HdrData) : Nat :=
  match vtype with
  | .avs => (hdr.w1 >>> 24) &&& 0xff
  | .vc1 =>
    if (hdr.w1 >>> 30) &&& 3 ≤ 1 then hdr.w1
    else (hdr.w1 &&& 0xffff0000) ||| (hdr.w2 >>> 16)
  | _ => avs_profile

/-- A start code is cached, or it is not. -/
def cacheStartCode (vtype : VcodecType) (im : IndexManage) (r : RecIndexRaw) : IndexManage :=
  if softfilterStc vtype r.u32HdrData.w0 then
    if isSequenceHeader vtype r.u32HdrData.w0 then
      { im with
        cachedindex := im.cachedindex ++
          [{ offset := r.publicindex.u64GlobalOffset, pts := im.nowpts, type := .pts }]
        avs_profile := headerProfile vtype im.avs_profile r.u32HdrData
        flag_265sps := if vtype = .hevc then 1 else im.flag_265sps }
    else if isFirstSlice vtype r.u32HdrData.w1 then
      { im with
        cachedindex := im.cachedindex ++
          [{ offset := r.publicindex.u64GlobalOffset
             hdr0 := r.u32HdrData.w0
             hdr1 := r.u32HdrData.w1
             pts := im.nowpts
             type := .stc
             sps := im.flag_265sps }]
        flag_265sps := 0 }
    else im
  else im

/-- The frame of the entry in the middle. -/
def frameOf (vtype : VcodecType) (im : IndexManage) (r : RecIndexRaw) (c0 c1 c2 : IndexInfor) :
    RecIndexRaw :=
  let start := if c0.type = .stc then c1.offset else c0.offset
  let para :=
    if c0.type = .stc then r.publicindex.u32PrivatePara
    else if vtype = .hevc ∧ c1.sps = 1 then 1 else 0
  { publicindex := { r.publicindex with
      u64GlobalOffset := start
      u32FrameSize := u32 (u64sub c2.offset start)
      u32PtsMs := c1.pts
      u32PrivatePara := if vtype = .avs ∨ vtype = .vc1 then im.avs_profile else para }
    u32HdrData := { r.u32HdrData with w0 := c1.hdr0, w1 := c1.hdr1 } }

/-- What is done with a full window: the frame, if there is one. -/
def deal (vtype : VcodecType) (im : IndexManage) (r : RecIndexRaw) :
    Option RecIndexRaw × IndexManage :=
  match im.cachedindex with
  | [c0, c1, c2] =>
    let shifted := { im with cachedindex := [c1, c2] }
    if c1.type = .stc then
      -- a PTS that is not known; `nowpts` has never this value
      if c1.pts = 0xffffffff then (none, shifted)
      else (some (frameOf vtype im r c0 c1 c2), shifted)
    else (none, shifted)
  | _ => (none, im)

/-! ## A call -/

/-- What a call leaves: the words it has not read, and the frame if it returns 0. -/
structure Acquired where
  words : List IdxData
  im : IndexManage
  frame : Option RecIndexRaw

/-- The loop of `Dmx_AcquireRecIndex` while the window is not full. -/
def acquireLoop (vtype : VcodecType) : List IdxData → IndexManage → RecIndexRaw → Acquired
  | .pts rec_ch_num :: second :: words, im, r =>
    let r := r.readPts rec_ch_num second
    acquireLoop vtype words { im with nowpts := r.publicindex.u32PtsMs } r
  | .es_sc rec_ch_num sc_offset hdr :: next :: words, im, r =>
    let r := r.readSc vtype rec_ch_num sc_offset hdr
    match deal vtype (cacheStartCode vtype im r) r with
    | (some frame, im) => ⟨next :: words, im, some frame⟩
    | (none, im) => acquireLoop vtype (next :: words) im r
  -- the word is read, and the call fails
  | _ :: next :: words, im, _ => ⟨next :: words, im, none⟩
  -- fewer than 16 bytes
  | words, im, _ => ⟨words, im, none⟩

/-- `Dmx_AcquireRecIndex`, with the record that its caller has cleared. -/
def dmxAcquireRecIndex (vtype : VcodecType) (words : List IdxData) (im : IndexManage) : Acquired :=
  match deal vtype im {} with
  | (some frame, im) => ⟨words, im, some frame⟩
  | (none, im) => acquireLoop vtype words im {}

/-! ## Runs -/

/-- The index buffer and the element of `g_indexmanage`. -/
structure State where
  words : List IdxData := []
  im : IndexManage := {}
deriving DecidableEq

/-- The hardware writes words, or the driver asks for a frame. -/
inductive Input
  | deliver (words : List IdxData)
  | acquire
deriving DecidableEq

/-- A recording of a video type. -/
def machine (vtype : VcodecType) : Machine State Input (Option RecIndexRaw) where
  step s
    | .deliver words => ({ s with words := s.words ++ words }, none)
    | .acquire =>
      let a := dmxAcquireRecIndex vtype s.words s.im
      ({ words := a.words, im := a.im }, a.frame)

end Tntsat.PvrRecIndex
