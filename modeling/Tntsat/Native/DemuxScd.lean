import Mathlib.Algebra.Group.Nat.Defs
import Mathlib.Data.UInt

/-!
# Start-code descriptors of the demux recorder (`drv_demux_scd.c`)

The hardware writes one `DMX_IDX_DATA_S` for each index event of a recording.
`DmxScdToVideoIndex` and `DmxScdToAudioIndex` unpack the same seven words, each with
code of its own.
-/

namespace Tntsat.DemuxScd

/-- `DMX_IDX_DATA_S`, in the order the hardware defines. -/
structure DmxIdxData where
  u32Chn_Ovflag_IdxType_Flags : UInt32
  u32ScType_Byte12AfterSc_OffsetInTs : UInt32
  u32TsCntLo32 : UInt32
  u32TsCntHi8_Byte345AfterSc : UInt32
  u32ScCode_Byte678AfterSc : UInt32
  u32SrcClk : UInt32
  u32BackPacetNum : UInt32
deriving DecidableEq

/-- `PVR_INDEX_SCD_S`; `au8ByteAfterSC` has eight bytes. -/
structure PvrIndexScd where
  u8IndexType : UInt8
  u8StartCode : UInt8
  u16OffsetInTs : UInt16
  u32OffsetInDavBuf : UInt32
  au8ByteAfterSC : List UInt8
  u64TSCnt : UInt64
  u32PtsMs : UInt32
  u16OverFlow : Bool
deriving DecidableEq

/-- `FINDEX_SCD_S`; `s64GlobalOffset` holds the bits of an unsigned 64-bit value. -/
structure FindexScd where
  u8IndexType : UInt8
  u8StartCode : UInt8
  u32PtsMs : UInt32
  s64GlobalOffset : UInt64
  au8DataAfterSC : List UInt8
deriving DecidableEq

/-- The fields of `MT_UNF_DMX_REC_INDEX_S` that are written here. -/
structure DmxRecIndex where
  enFrameType : Nat := 0
  u32PtsMs : UInt32 := 0
  u64GlobalOffset : UInt64 := 0
  u32DataTimeMs : UInt32 := 0
deriving DecidableEq

/-- `PVR_INDEX_INVALID_PTSMS`. -/
def pvrIndexInvalidPtsms : UInt32 := 0xffffffff

/-- `DMX_INDEX_SC_TYPE_PTS`: a PES packet header. -/
def dmxIndexScTypePts : Nat := 2

/-- `DMX_INDEX_SC_TYPE_PIC`: the start `00 00 01` of frame data. -/
def dmxIndexScTypePic : Nat := 4

/-- `DMX_INDEX_SC_TYPE_PIC_SHORT`: the short head `00 01` of frame data. -/
def dmxIndexScTypePicShort : Nat := 5

/-- `MT_UNF_FRAME_TYPE_I`. -/
def mtUnfFrameTypeI : Nat := 1

/-- The 33-bit PTS is halved before it is narrowed to 32 bits, and divided by 45 then. -/
def ptsToMs (Pts33 Pts32 : UInt32) : UInt32 :=
  let Pts : UInt64 := if Pts33 ≠ 0 then 0x100000000 else 0
  let Pts := (Pts + Pts32.toUInt64) >>> 1
  Pts.toUInt32 / 45

/-- `PVR_SCDDmxIdxToPvrIdx`. -/
def dmxIdxToPvrIdx (pDmxIndexData : DmxIdxData) : PvrIndexScd :=
  let u8IndexType := ((pDmxIndexData.u32Chn_Ovflag_IdxType_Flags >>> 24) &&& 0xf).toUInt8
  { u16OverFlow := (pDmxIndexData.u32Chn_Ovflag_IdxType_Flags >>> 28) &&& 0x1 = 0
    au8ByteAfterSC :=
      [((pDmxIndexData.u32ScType_Byte12AfterSc_OffsetInTs >>> 16) &&& 0xff).toUInt8,
        ((pDmxIndexData.u32ScType_Byte12AfterSc_OffsetInTs >>> 8) &&& 0xff).toUInt8,
        ((pDmxIndexData.u32TsCntHi8_Byte345AfterSc >>> 16) &&& 0xff).toUInt8,
        ((pDmxIndexData.u32TsCntHi8_Byte345AfterSc >>> 8) &&& 0xff).toUInt8,
        (pDmxIndexData.u32TsCntHi8_Byte345AfterSc &&& 0xff).toUInt8,
        ((pDmxIndexData.u32ScCode_Byte678AfterSc >>> 16) &&& 0xff).toUInt8,
        ((pDmxIndexData.u32ScCode_Byte678AfterSc >>> 8) &&& 0xff).toUInt8,
        (pDmxIndexData.u32ScCode_Byte678AfterSc &&& 0xff).toUInt8]
    u16OffsetInTs := (pDmxIndexData.u32ScType_Byte12AfterSc_OffsetInTs &&& 0x00ff).toUInt16
    u64TSCnt := ((pDmxIndexData.u32TsCntHi8_Byte345AfterSc &&& 0xff000000).toUInt64 <<< 8) |||
      pDmxIndexData.u32TsCntLo32.toUInt64
    u32OffsetInDavBuf := pDmxIndexData.u32BackPacetNum &&& 0x0001fffff
    u8IndexType := u8IndexType
    u8StartCode := ((pDmxIndexData.u32ScType_Byte12AfterSc_OffsetInTs >>> 24) &&& 0xff).toUInt8
    u32PtsMs :=
      if u8IndexType.toNat = dmxIndexScTypePts then
        if pDmxIndexData.u32TsCntHi8_Byte345AfterSc &&& 0x2 = 0 then pvrIndexInvalidPtsms
        else ptsToMs (pDmxIndexData.u32TsCntHi8_Byte345AfterSc &&& 0x1)
          pDmxIndexData.u32ScCode_Byte678AfterSc
      else pvrIndexInvalidPtsms }

/-- `PVR_SCDIndexCalcGlobalOffset`: a packet with a time stamp in front takes 192 bytes. -/
def indexCalcGlobalOffset (bUseTimeStamp : Bool) (pScData : PvrIndexScd) : UInt64 :=
  if bUseTimeStamp then
    (pScData.u64TSCnt - pScData.u32OffsetInDavBuf.toUInt64 - 1) * 192 +
      pScData.u16OffsetInTs.toUInt64
  else
    (pScData.u64TSCnt - pScData.u32OffsetInDavBuf.toUInt64 - 1) * 188 +
      pScData.u16OffsetInTs.toUInt64

/-- `DmxScdToVideoIndex`: the index structure, or `none` where the function fails. -/
def dmxScdToVideoIndex (bUseTimeStamp : Bool) (ScData : DmxIdxData) : Option FindexScd :=
  let IndexData := dmxIdxToPvrIdx ScData
  if IndexData.u8IndexType.toNat ≠ dmxIndexScTypePts ∧
      IndexData.u8IndexType.toNat ≠ dmxIndexScTypePic ∧
      IndexData.u8IndexType.toNat ≠ dmxIndexScTypePicShort then none
  -- a descriptor of PTS type carries no offset, and is dropped without a PTS
  else if IndexData.u8IndexType.toNat = dmxIndexScTypePts ∧
      IndexData.u32PtsMs = pvrIndexInvalidPtsms then none
  else
    some
      { s64GlobalOffset :=
          if IndexData.u8IndexType.toNat ≠ dmxIndexScTypePts then
            indexCalcGlobalOffset bUseTimeStamp IndexData
          else 0
        u32PtsMs := IndexData.u32PtsMs
        u8IndexType := IndexData.u8IndexType
        u8StartCode := IndexData.u8StartCode
        au8DataAfterSC := IndexData.au8ByteAfterSC }

/-- `DmxScdToAudioIndex`: the updated `CurrFrame`, or `none` where the function fails. -/
def dmxScdToAudioIndex (CurrFrame : DmxRecIndex) (ScData : DmxIdxData) : Option DmxRecIndex :=
  let IndexType := (ScData.u32Chn_Ovflag_IdxType_Flags >>> 24) &&& 0xF
  let PtsValid := (ScData.u32TsCntHi8_Byte345AfterSc >>> 1) &&& 0x1
  if IndexType.toNat ≠ dmxIndexScTypePts ∨ PtsValid = 0 then none
  else
    let OffsetInTs := ScData.u32ScType_Byte12AfterSc_OffsetInTs &&& 0xff
    let TsCount := (ScData.u32TsCntHi8_Byte345AfterSc &&& 0xff000000).toUInt64 <<< 8
    let TsCount := TsCount ||| ScData.u32TsCntLo32.toUInt64
    let BackTsCount := ScData.u32BackPacetNum &&& 0x0001fffff
    some
      { CurrFrame with
        enFrameType := mtUnfFrameTypeI
        u32PtsMs := ptsToMs (ScData.u32TsCntHi8_Byte345AfterSc &&& 0x1)
          ScData.u32ScCode_Byte678AfterSc
        u64GlobalOffset := (TsCount - BackTsCount.toUInt64 - 1) * 188 + OffsetInTs.toUInt64
        u32DataTimeMs := ScData.u32SrcClk / 90 }

end Tntsat.DemuxScd
