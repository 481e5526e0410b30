import Mathlib.Data.Int.Bitwise
import Tntsat.Native.SubtPixels

/-!
# Segments of DVB subtitles

The segments of a packet are put into the descriptors of the handle and searched there, as
`SUBT_Parse_CreateSegment` and the search and parse functions of
`kware/subtitle/src/subtitle_parse.c` do it.  The descriptors are their list, a descriptor
pointer is the rest of the list.  `SUBT_USED_3D_SUBTITLE` is not defined.
-/

namespace Tntsat.SubtParse

/-- `MAX_REGION_WIDTH`. -/
def MAX_REGION_WIDTH : Nat := 1920

/-- `MAX_REGION_HEIGTH`. -/
def MAX_REGION_HEIGTH : Nat := 1080

/-- `SUBT_SEGMENT_IN_PES_MAX`. -/
def SUBT_SEGMENT_IN_PES_MAX : Nat := 50

/-- `SUBT_REGN_IN_PAGE_NUM`. -/
def SUBT_REGN_IN_PAGE_NUM : Nat := 10

/-- `SUBT_OBJ_NUM_IN_REGN_MAX`. -/
def SUBT_OBJ_NUM_IN_REGN_MAX : Nat := 50

/-- `SUBT_PAGE_SEGMENT`. -/
def SUBT_PAGE_SEGMENT : UInt8 := 0x10

/-- `SUBT_REGION_SEGMENT`. -/
def SUBT_REGION_SEGMENT : UInt8 := 0x11

/-- `SUBT_CLUT_SEGMENT`. -/
def SUBT_CLUT_SEGMENT : UInt8 := 0x12

/-- `SUBT_OBJECT_SEGMENT`. -/
def SUBT_OBJECT_SEGMENT : UInt8 := 0x13

/-- `SUBT_DISPLAY_DEFINITION_SEGMENT`. -/
def SUBT_DISPLAY_DEFINITION_SEGMENT : UInt8 := 0x14

/-- `SUBT_DISPARITY_SIGNALLING_SEGMENT`. -/
def SUBT_DISPARITY_SIGNALLING_SEGMENT : UInt8 := 0x15

/-- `SUBT_END_SEGMENT`. -/
def SUBT_END_SEGMENT : UInt8 := 0x80

/-- `SUBT_STUFFING_SEGMENT`. -/
def SUBT_STUFFING_SEGMENT : UInt8 := 0xff

/-- An `mt_u16`. -/
def u16 (n : Nat) : Nat := n % 0x10000

/-- A difference as an `mt_u16`. -/
def u16sub (a b : Nat) : Nat := u16 (a + 0x10000 - u16 b)

/-! ## Descriptors -/

/-- `SUBT_SEGMENT_S`. -/
structure Segment where
  u8SegmentType : UInt8 := 0
  u16DataLength : Nat := 0
  pu8SegmentData : Option (List UInt8) := none
deriving DecidableEq

/-- The types that `SUBT_Parse_CreateSegment` keeps. -/
def KeptType (u8SegmentType : UInt8) : Prop :=
  (SUBT_PAGE_SEGMENT ≤ u8SegmentType ∧ u8SegmentType ≤ SUBT_DISPARITY_SIGNALLING_SEGMENT) ∨
    u8SegmentType = SUBT_END_SEGMENT ∨ u8SegmentType = SUBT_STUFFING_SEGMENT

instance (b : UInt8) : Decidable (KeptType b) := inferInstanceAs (Decidable (_ ∨ _))

/-- The pages that are asked for. -/
structure PageIds where
  u16PageID : Nat
  u16AncillaryID : Nat
deriving DecidableEq

/-- The loop of `SUBT_Parse_CreateSegment` at `pu8SegtData`, from the descriptor `pstSegment`
    on.  A round takes six bytes at least. -/
def createLoop (ids : PageIds) (u32DataLen : Nat) :
    Nat → List UInt8 → Nat → List Segment → List Segment
  | 0, _, _, segs => segs
  | _ + 1, _, _, [] => []
  | fuel + 1, p, u32ProcessedLen, seg :: segs =>
    if u32DataLen ≤ u32ProcessedLen + 6 then seg :: segs
    else if get8 p 0 = 0x0f then
      let u8SegmentType := get8 p 1
      let u16ParsedPageId := get16 p 2
      let u16DataLength := get16 p 4
      let u32ProcessedLen := u32ProcessedLen + u16DataLength + 6
      if u32DataLen < u32ProcessedLen then
        { seg with u8SegmentType, u16DataLength := 0 } :: segs
      else if (u16ParsedPageId = ids.u16PageID ∨ ids.u16AncillaryID = u16ParsedPageId) ∧
          KeptType u8SegmentType then
        { u8SegmentType, u16DataLength, pu8SegmentData := some (p.drop 6) } ::
          createLoop ids u32DataLen fuel (p.drop (6 + u16DataLength)) u32ProcessedLen segs
      else
        -- The length is cleared before the data would be passed over.
        createLoop ids u32DataLen fuel (p.drop 6) u32ProcessedLen ({} :: segs)
    else seg :: segs

/-- `SUBT_Parse_CreateSegment`. -/
def createSegment (ids : PageIds) (pu8SegmentDataSrc : List UInt8) (u32DataLen : Nat)
    (astSegment : List Segment) : List Segment :=
  createLoop ids u32DataLen u32DataLen pu8SegmentDataSrc 0
    (astSegment.modifyHead fun seg => { seg with u16DataLength := 0 })

/-- `SUBT_Parse_FindDisplayDefinitionSegment` and `SUBT_Parse_FindPageSegment`. -/
def findType (u8SegmentType : UInt8) : List Segment → List Segment
  | [] => []
  | seg :: segs =>
    if seg.u8SegmentType = u8SegmentType ∧ seg.u16DataLength ≠ 0 then seg :: segs
    else findType u8SegmentType segs

/-- `SUBT_Parse_FindClutSegment`, `SUBT_Parse_FindRegionSegment` and
    `SUBT_Parse_FindObjectSegment`, which end at a descriptor without data. -/
def findId (u8SegmentType : UInt8) (id : Nat) (idOf : List UInt8 → Nat) :
    List Segment → List Segment
  | [] => []
  | seg :: segs =>
    match seg.pu8SegmentData with
    | none => []
    | some data =>
      if seg.u8SegmentType = u8SegmentType ∧ idOf data = id ∧ seg.u16DataLength ≠ 0 then
        seg :: segs
      else findId u8SegmentType id idOf segs

/-- `SUBT_Parse_FindDisplayDefinitionSegment`. -/
def findDisplayDefinitionSegment : List Segment → List Segment :=
  findType SUBT_DISPLAY_DEFINITION_SEGMENT

/-- `SUBT_Parse_FindPageSegment`. -/
def findPageSegment : List Segment → List Segment := findType SUBT_PAGE_SEGMENT

/-- `SUBT_Parse_FindClutSegment`. -/
def findClutSegment (u8ClutId : Nat) : List Segment → List Segment :=
  findId SUBT_CLUT_SEGMENT u8ClutId fun p => (get8 p 0).toNat

/-- `SUBT_Parse_FindRegionSegment`. -/
def findRegionSegment (u8RegionId : Nat) : List Segment → List Segment :=
  findId SUBT_REGION_SEGMENT u8RegionId fun p => (get8 p 0).toNat

/-- `SUBT_Parse_FindObjectSegment`. -/
def findObjectSegment (u16ObjectId : Nat) : List Segment → List Segment :=
  findId SUBT_OBJECT_SEGMENT u16ObjectId fun p => get16 p 0

/-! ## Colours -/

/-- `SUBT_COLOR_S`. -/
structure Color where
  u8Blue : UInt8 := 0
  u8Green : UInt8 := 0
  u8Red : UInt8 := 0
  u8Alpha : UInt8 := 0
deriving DecidableEq

/-- `SUBT_CLUT_S`. -/
structure Clut where
  u8ClutId : Nat := 0
  u8ClutVersion : Nat := 0
  _2BitCLUT : List Color := List.replicate 4 {}
  _4BitCLUT : List Color := List.replicate 16 {}
  _8BitCLUT : List Color := List.replicate 256 {}
deriving DecidableEq

/-- The table for a region of a depth. -/
def Clut.table (c : Clut) (u8RegionDepth : Nat) : List Color :=
  if u8RegionDepth = 2 then c._2BitCLUT
  else if u8RegionDepth = 4 then c._4BitCLUT
  else c._8BitCLUT

/-- The entries of such a table. -/
def clutLen (u8RegionDepth : Nat) : Nat :=
  if u8RegionDepth = 2 then 4 else if u8RegionDepth = 4 then 16 else 256

/-- A colour part, cut off at 0 and 255. -/
def clampByte (n : Int) : UInt8 := .ofNat (max 0 (min 255 n)).toNat

/-- `YUV2RGB`, with the alpha value for `T`. -/
def yuv2rgb (Y Cr Cb T : UInt8) : Color :=
  let C : Int := Y.toNat - 16
  let D : Int := Cr.toNat - 128
  let E : Int := Cb.toNat - 128
  { u8Red := clampByte ((298 * C + 409 * E + 128) >>> 8)
    u8Green := clampByte ((298 * C - 100 * D - 208 * E + 128) >>> 8)
    u8Blue := clampByte ((298 * C + 516 * D + 128) >>> 8)
    u8Alpha := 0xff - T }

/-- `SUBT_Parse_FindClutId`: the index of a table. -/
def findClutId (astClut : List Clut) (u8ClutId : Nat) : Option Nat :=
  (astClut.findIdx? fun c => c.u8ClutId = u8ClutId).or
    (astClut.findIdx? fun c => c.u8ClutVersion = 0xff)

/-- The entries of `SUBT_Parse_ParseClutSegment`.  A round takes four bytes at least. -/
def clutEntries : Nat → List UInt8 → Nat → Clut → Clut
  | 0, _, _, clut => clut
  | fuel + 1, p, s32SegLen, clut =>
    if s32SegLen < 4 then clut
    else
      let u8ClutEntryId := (get8 p 0).toNat
      let u8EntryClutFlag := get8 p 1
      let u8FullRange := u8EntryClutFlag &&& 0x01 ≠ 0
      if u8FullRange ∧ s32SegLen < 6 then clut
      else
        let size := if u8FullRange then 6 else 4
        let (Y, Cr, Cb, T) :=
          if u8FullRange then (get8 p 2, get8 p 3, get8 p 4, get8 p 5)
          else
            ((get8 p 2 &&& 0xfc) >>> 2,
              ((get8 p 2 &&& 0x03) <<< 2) ||| ((get8 p 3 &&& 0xc0) >>> 6),
              (get8 p 3 &&& 0x3c) >>> 2, get8 p 3 &&& 0x03)
        let color := if Y = 0 then yuv2rgb 16 0 0 0xff else yuv2rgb Y Cr Cb T
        clutEntries fuel (p.drop size) (s32SegLen - size)
          { clut with
            _2BitCLUT :=
              if u8EntryClutFlag &&& 0x80 ≠ 0 then clut._2BitCLUT.set u8ClutEntryId color
              else clut._2BitCLUT
            _4BitCLUT :=
              if u8EntryClutFlag &&& 0x40 ≠ 0 then clut._4BitCLUT.set u8ClutEntryId color
              else clut._4BitCLUT
            _8BitCLUT :=
              if u8EntryClutFlag &&& 0x20 ≠ 0 then clut._8BitCLUT.set u8ClutEntryId color
              else clut._8BitCLUT }

/-- `SUBT_Parse_ParseClutSegment`. -/
def parseClutSegment (seg : Segment) (astClut : List Clut) : List Clut :=
  let p := seg.pu8SegmentData.getD []
  match findClutId astClut (get8 p 0).toNat with
  | none => astClut
  | some i =>
    astClut.modify i fun clut =>
      let clut := { clut with u8ClutId := (get8 p 0).toNat }
      let u8ClutVersion := ((get8 p 1 &&& 0xf0) >>> 4).toNat
      if u8ClutVersion = clut.u8ClutVersion then clut
      else
        clutEntries seg.u16DataLength (p.drop 2) (seg.u16DataLength - 2)
          { clut with u8ClutVersion }

/-! ## Pages and regions -/

/-- `SUBT_REGION_INFO_IN_PAGE_S`. -/
structure RegionInfoInPage where
  u8RegionId : Nat
  u16RegionLeft : Nat
  u16RegionTop : Nat

/-- What `SUBT_Parse_ParsePageSegment` finds. -/
structure PageInfo where
  u8ShowTime : Nat
  u8InPageVer : Nat
  enPageState : Nat
  regions : List RegionInfoInPage

/-- The regions of a page segment. -/
def pageRegions : Nat → List UInt8 → List RegionInfoInPage
  | 0, _ => []
  | n + 1, p =>
    { u8RegionId := (get8 p 0).toNat, u16RegionLeft := get16 p 2, u16RegionTop := get16 p 4 } ::
      pageRegions n (p.drop 6)

/-- `SUBT_Parse_ParsePageSegment`. -/
def parsePageSegment (seg : Segment) : PageInfo :=
  let p := seg.pu8SegmentData.getD []
  { u8ShowTime := if get8 p 0 = 0 then 5 else (get8 p 0).toNat
    u8InPageVer := ((get8 p 1 &&& 0xf0) >>> 4).toNat
    enPageState := ((get8 p 1 &&& 0x0c) >>> 2).toNat
    regions := pageRegions (min ((seg.u16DataLength - 2) / 6) SUBT_REGN_IN_PAGE_NUM) (p.drop 2) }

/-- `SUBT_OBJECT_INFO_IN_REGION_S`. -/
structure ObjectInfo where
  u16ObjectId : Nat
  u16ObjectLeft : Nat
  u16ObjectTop : Nat

/-- `SUBT_ALL_INFO_IN_REGION_S`. -/
structure AllInfo where
  u8RegionFillFlag : Bool := false
  u16RegionWidth : Nat := 0
  u16RegionHeight : Nat := 0
  u8RegionDepth : Nat := 0
  u8ClutId : Nat := 0
  u8BackClr : UInt8 := 0
  stObjectInfo : List ObjectInfo := []

/-- `SUBTITLE_PAGE_NORMAL_CASE`. -/
def SUBTITLE_PAGE_NORMAL_CASE : Nat := 0

/-- `SUBTITLE_PAGE_ACQUISITION_POINT`. -/
def SUBTITLE_PAGE_ACQUISITION_POINT : Nat := 1

/-- `SUBTITLE_PAGE_MODE_CHANGE`. -/
def SUBTITLE_PAGE_MODE_CHANGE : Nat := 2

/-- `SUBT_OBJ_TYPE_BITMAP`. -/
def SUBT_OBJ_TYPE_BITMAP : Nat := 0

/-- `SUBT_OBJ_TYPE_CHARACTER`. -/
def SUBT_OBJ_TYPE_CHARACTER : Nat := 1

/-- `SUBT_OBJ_TYPE_STRING`. -/
def SUBT_OBJ_TYPE_STRING : Nat := 2

/-- The loop of `SUBT_Parse_ParseRegionSegment` over the objects, with `u32ObjectLeftOffset`. -/
def regionObjects (data_status : Bool) (enPageState : Nat) :
    Nat → List UInt8 → Int → Nat → AllInfo → RegionInfoInPage → AllInfo × RegionInfoInPage
  | 0, _, _, _, info, region => (info, region)
  | fuel + 1, p, s32DataLen, u32ObjectLeftOffset, info, region =>
    if s32DataLen < 6 then (info, region)
    else
      let enObjectType := ((get8 p 2 &&& 0xc0) >>> 6).toNat
      let left := (get8 p 2 &&& 0x0f).toNat * 256 + (get8 p 3).toNat
      let left := if data_status then left / 2 else left
      let object : ObjectInfo :=
        { u16ObjectId := get16 p 0
          u16ObjectLeft := left
          u16ObjectTop := (get8 p 4 &&& 0x0f).toNat * 256 + (get8 p 5).toNat }
      let size :=
        if enObjectType = SUBT_OBJ_TYPE_CHARACTER ∨ enObjectType = SUBT_OBJ_TYPE_STRING then 8
        else 6
      if enPageState ≠ SUBTITLE_PAGE_NORMAL_CASE then
        regionObjects data_status enPageState fuel (p.drop size) (s32DataLen - size)
          u32ObjectLeftOffset { info with stObjectInfo := info.stObjectInfo ++ [object] } region
      else if u32ObjectLeftOffset = 0 then
        regionObjects data_status enPageState fuel (p.drop size) (s32DataLen - size) left
          { info with
            u16RegionWidth := u16sub info.u16RegionWidth left
            stObjectInfo := info.stObjectInfo ++ [{ object with u16ObjectLeft := 0 }] }
          { region with u16RegionLeft := u16 (region.u16RegionLeft + left) }
      else
        regionObjects data_status enPageState fuel (p.drop size) (s32DataLen - size)
          u32ObjectLeftOffset
          { info with
            stObjectInfo := info.stObjectInfo ++
              [{ object with u16ObjectLeft := u16sub left u32ObjectLeftOffset }] } region

/-- The bits of a region's depth. -/
def regionDepth (u8RegionDepth : UInt8) : Nat :=
  if u8RegionDepth = 1 then 2 else if u8RegionDepth = 2 then 4 else if u8RegionDepth = 3 then 8
  else 0

/-- `SUBT_Parse_ParseRegionSegment`.  `data_status` is set to `error_status` before the call. -/
def parseRegionSegment (seg : Segment) (info : AllInfo) (region : RegionInfoInPage)
    (data_status : Bool) (enPageState : Nat) : AllInfo × RegionInfoInPage :=
  let p := seg.pu8SegmentData.getD []
  let u8RegionDepth := regionDepth ((get8 p 6 &&& 0x1c) >>> 2)
  regionObjects data_status enPageState SUBT_OBJ_NUM_IN_REGN_MAX (p.drop 10)
    (seg.u16DataLength - 10) 0
    { u8RegionFillFlag := get8 p 1 &&& 0x08 ≠ 0
      u16RegionWidth := min (get16 p 2) MAX_REGION_WIDTH
      u16RegionHeight := min (get16 p 4) MAX_REGION_HEIGTH
      u8RegionDepth
      u8ClutId := (get8 p 7).toNat
      u8BackClr :=
        if u8RegionDepth = 2 then (get8 p 9 &&& 0x0c) >>> 2
        else if u8RegionDepth = 4 then (get8 p 9 &&& 0xf0) >>> 4
        else if u8RegionDepth = 8 then get8 p 8
        else info.u8BackClr }
    region

end Tntsat.SubtParse
