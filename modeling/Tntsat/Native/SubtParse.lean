import Tntsat.Native.SubtSegments

/-!
# The DVB subtitle parser

`SUBT_DataParse_ParsePESPacket` of `kware/subtitle/src/subtitle_parse.c`: the regions of a
packet are drawn into the region buffer and handed to the callback as a display item.

The headers of the shown regions, which the source keeps in the region buffer as well, are kept
apart from its bytes; of what they hold before a page only `enObjType` of the first matters.
The handle has a callback, and allocations succeed.
-/

namespace Tntsat.SubtParse

/-- `SUBT_REGION_SHOW_HD_LEN`. -/
def SUBT_REGION_SHOW_HD_LEN : Nat := 600 * 1024

/-- `SUBT_REGION_SHOW_SD_LEN`. -/
def SUBT_REGION_SHOW_SD_LEN : Nat := 200 * 1024

/-- `MAX_DATA_LENGTH`. -/
def MAX_DATA_LENGTH : Nat := 1920 * 1080

/-- `sizeof(SUBT_SHOW_REGION_S)`. -/
def SHOW_REGION_SIZE : Nat := 56

/-- `(n + 3) & ~3`. -/
def align4 (n : Nat) : Nat := (n + 3) / 4 * 4

/-! ## Shown regions -/

/-- `SUBT_SHOW_REGION_S`, at `addr` in the region buffer.  `pvRegionClut` is the index of a
    table, none for the default one. -/
structure ShowRegion where
  addr : Nat
  u16XPos : Nat
  u16YPos : Nat
  u16Width : Nat
  u16Heigth : Nat
  u8RegionDepth : Nat
  u8ClutId : Nat
  pvRegionClut : Option Nat := none
  pu8ShowData : Nat
  u16CharacterNum : Nat := 0
deriving DecidableEq

/-- The bytes of a shown region, as far as they are cleared for it. -/
def ShowRegion.clearedLen (r : ShowRegion) : Nat := align4 (r.u16Width * r.u16Heigth)

/-- The header behind the shown regions, `SUBT_Parse_GetCurPageLastRegion`. -/
def lastAddr (regions : List ShowRegion) : Nat :=
  match regions.getLast? with
  | none => 0
  | some r => r.pu8ShowData + r.clearedLen

/-- `SUBT_Parse_CreateShowRegion`: the region and the store that clears it. -/
def createShowRegion (u32RegionBufferLen addr u16Left u16Top : Nat) (info : AllInfo) :
    Option (ShowRegion × Store UInt8) :=
  let r : ShowRegion :=
    { addr
      u16XPos := u16Left
      u16YPos := u16Top
      u16Width := info.u16RegionWidth
      u16Heigth := info.u16RegionHeight
      u8RegionDepth := info.u8RegionDepth
      u8ClutId := info.u8ClutId
      pu8ShowData := addr + align4 SHOW_REGION_SIZE }
  if r.pu8ShowData + r.clearedLen ≤ u32RegionBufferLen then
    some (r, memset r.pu8ShowData (if info.u8RegionFillFlag then info.u8BackClr else 0) r.clearedLen)
  else none

/-! ## Objects -/

/-- What the objects of a region change: the region that is drawn, the static variables of the
    readers, `enObjType` of the first region once it is set, and the stores that are made. -/
structure Drawing where
  region : ShowRegion
  statics : Statics
  enObjType : Option Nat
  stores : List (Store UInt8)

/-- Every second line is copied to the next one. -/
def copyLines (pixels width : Nat) : Nat → Nat → List (Store UInt8)
  | 0, _ => []
  | n + 1, i =>
    .copy (pixels + (i + 1) * width) (pixels + i * width) width :: copyLines pixels width n (i + 2)

/-- `SUBT_Parse_DecodingPixels`. -/
def decodingPixels (u32RegionBufferLen : Nat) (info : AllInfo) (object : ObjectInfo)
    (p : List UInt8) (d : Drawing) : Int × Drawing :=
  let u16TopFieldLen := get16 p 0
  let u16BottomFieldLen := get16 p 2
  let pixels := align4 (d.region.addr + SHOW_REGION_SIZE)
  let d := { d with region := { d.region with pu8ShowData := pixels } }
  let top := info.u16RegionWidth * object.u16ObjectTop + object.u16ObjectLeft
  let bottom := info.u16RegionWidth * u16 (object.u16ObjectTop + 1) + object.u16ObjectLeft
  if u32RegionBufferLen < pixels + top ∨ u32RegionBufferLen < pixels + bottom then (MT_FAILURE, d)
  else
    let referingRegion : ReferingRegion :=
      { u8RegionDepth := info.u8RegionDepth
        u16RegionWidth := info.u16RegionWidth
        u16RegionHeight := info.u16RegionHeight
        pu8RegionPixel := pixels
        u16ObjVerPos := object.u16ObjectTop
        u16ObjHorPos := object.u16ObjectLeft
        u32RegionLen := u32RegionBufferLen - top }
    let t := pixelBlockDecode (p.drop 4) referingRegion (pixels + top) u16TopFieldLen d.statics
    let d :=
      { d with statics := t.2.cursor.statics, stores := d.stores ++ t.2.stores }
    if t.1 = ERR_OUT_OF_WIDTH then (ERR_OUT_OF_WIDTH, d)
    else if u16BottomFieldLen ≠ 0 then
      let b := pixelBlockDecode (p.drop (4 + u16TopFieldLen))
        { referingRegion with
          u16ObjVerPos := u16 (object.u16ObjectTop + 1)
          u32RegionLen := u32RegionBufferLen - bottom }
        (pixels + bottom) u16BottomFieldLen d.statics
      (MT_SUCCESS, { d with statics := b.2.cursor.statics, stores := d.stores ++ b.2.stores })
    else
      (MT_SUCCESS,
        { d with
          stores := d.stores ++
            copyLines pixels info.u16RegionWidth ((info.u16RegionHeight + 1) / 2 - 1) 0 })

/-- `SUBT_Parse_DecodingCharacter`. -/
def decodingCharacter (u32RegionBufferLen : Nat) (p : List UInt8) (d : Drawing) :
    Int × Drawing :=
  let pu8ShowData := align4 (d.region.addr + SHOW_REGION_SIZE + d.region.u16CharacterNum)
  let u8Len := (get8 p 0).toNat
  let region := { d.region with pu8ShowData }
  if u32RegionBufferLen < pu8ShowData + u8Len then (MT_FAILURE, { d with region })
  else
    (MT_SUCCESS,
      { d with
        region := { region with u16CharacterNum := u16 (region.u16CharacterNum + u8Len) }
        stores := d.stores ++
          [.set pu8ShowData ((List.range u8Len).map fun i => get8 p (1 + i))] })

/-- `SUBT_Parse_ParseObjectSegment`. -/
def parseObjectSegment (u32RegionBufferLen : Nat) (info : AllInfo) (seg : Segment)
    (object : ObjectInfo) (d : Drawing) : Int × Drawing :=
  let p := seg.pu8SegmentData.getD []
  let enObjType := ((get8 p 2 &&& 0x0c) >>> 2).toNat
  let d := { d with enObjType := some enObjType }
  if enObjType = SUBT_OBJ_TYPE_BITMAP then
    decodingPixels u32RegionBufferLen info object (p.drop 3) d
  else if enObjType = SUBT_OBJ_TYPE_CHARACTER then
    decodingCharacter u32RegionBufferLen (p.drop 3) d
  else (MT_FAILURE, d)

/-- The objects of a region, with `pstSegment` behind the segment that was found last. -/
def objectLoop (u32RegionBufferLen : Nat) (info : AllInfo) :
    List Segment → List ObjectInfo → Drawing → Int × Drawing
  | _, [], d => (MT_SUCCESS, d)
  | pstSegment, object :: objects, d =>
    match findObjectSegment object.u16ObjectId pstSegment with
    | [] => objectLoop u32RegionBufferLen info [] objects d
    | seg :: segs =>
      let r := parseObjectSegment u32RegionBufferLen info seg object d
      if r.1 ≠ MT_SUCCESS then r
      else objectLoop u32RegionBufferLen info (seg :: segs) objects r.2

/-! ## Regions -/

/-- What the regions of a page change. -/
structure Work where
  info : AllInfo := {}
  regions : List ShowRegion := []
  statics : Statics
  enObjType : Option Nat := none
  stores : List (Store UInt8) := []
  astClut : List Clut

/-- The table of a region is looked for from the region's segment on. -/
def updateClut (u8ClutId : Nat) (pstSegment : List Segment) (astClut : List Clut) : List Clut :=
  match findClutSegment u8ClutId pstSegment with
  | [] => astClut
  | clut :: _ => parseClutSegment clut astClut

/-- A region that names objects is created and drawn. -/
def drawRegion (u32RegionBufferLen : Nat) (pstSegmentEnter pstSegment : List Segment)
    (region : RegionInfoInPage) (w : Work) : Int × Work :=
  match createShowRegion u32RegionBufferLen (lastAddr w.regions) region.u16RegionLeft
      region.u16RegionTop w.info with
  | none => (MT_FAILURE, w)
  | some (shown, clear) =>
    let o := objectLoop u32RegionBufferLen w.info pstSegmentEnter w.info.stObjectInfo
      { region := shown, statics := w.statics, enObjType := w.enObjType,
        stores := w.stores ++ [clear] }
    let w :=
      { w with
        statics := o.2.statics
        enObjType := o.2.enObjType
        stores := o.2.stores
        astClut := updateClut w.info.u8ClutId pstSegment w.astClut }
    if o.1 ≠ MT_SUCCESS then (o.1, w)
    else if u32RegionBufferLen < o.2.region.pu8ShowData + o.2.region.clearedLen then
      (MT_FAILURE, w)
    else (MT_SUCCESS, { w with regions := w.regions ++ [o.2.region] })

/-- The regions of a page; no value is returned when the page is to be shown. -/
def regionLoop (u32RegionBufferLen : Nat) (error_status : Bool) (enPageState : Nat)
    (pstSegmentEnter : List Segment) : List RegionInfoInPage → Work → Option Int × Work
  | [], w => (none, w)
  | region :: regions, w =>
    match findRegionSegment region.u8RegionId pstSegmentEnter with
    | [] =>
      if regions ≠ [] then
        regionLoop u32RegionBufferLen error_status enPageState pstSegmentEnter regions w
      else (some MT_SUCCESS, w)
    | seg :: segs =>
      let r := parseRegionSegment seg w.info region error_status enPageState
      let w := { w with info := r.1 }
      if r.1.stObjectInfo = [] then
        regionLoop u32RegionBufferLen error_status enPageState pstSegmentEnter regions w
      else
        let d := drawRegion u32RegionBufferLen pstSegmentEnter (seg :: segs) r.2 w
        if d.1 ≠ MT_SUCCESS then (some d.1, d.2)
        else regionLoop u32RegionBufferLen error_status enPageState pstSegmentEnter regions d.2

/-! ## The display item -/

/-- `SUBT_Display_ITEM_S`, with the colours and the bytes for the pointers to them. -/
structure DisplayItem where
  u16XPos : Nat
  u16YPos : Nat
  u16Width : Nat
  u16Heigth : Nat
  pvRegionClut : List Color
  u8BitDepth : Nat
  u16PaletteItem : Nat
  u32PTS : Nat
  u32Timeout : Nat
  u32RegionDataSize : Nat
  pu8ShowData : List UInt8
  u8DataType : Nat
  enPageState : Nat
  u16DisplayWidth : Nat
  u16DisplayHeight : Nat
deriving DecidableEq

/-- What `SUBT_DataParse_AdjustClut` changes: the regions, the default tables and the count of
    the tables that are mixed, with the stores that are made. -/
structure Adjusted where
  regions : List ShowRegion
  stDefaultClut : Clut
  count : Nat := 0
  stores : List (Store UInt8) := []

/-- The entries of a table are put into another one. -/
def putEntries (table : List Color) (i : Nat) (entries : List Color) : List Color :=
  table.take i ++ entries ++ table.drop (i + entries.length)

/-- The first region that has a table shows it. -/
def adjustFirst (astClut : List Clut) : List ShowRegion → Option (Nat × List ShowRegion)
  | [] => none
  | r :: regions =>
    match findClutId astClut r.u8ClutId with
    | some i => some (i, { r with pvRegionClut := some i } :: regions)
    | none => (adjustFirst astClut regions).map fun f => (f.1, r :: f.2)

/-- The regions with another table than the first one are shown by entries behind those of the
    others. -/
def adjustOthers (astClut : List Clut) (pstDefaultClut : Clut) :
    List ShowRegion → Adjusted → Adjusted
  | [], a => a
  | r :: regions, a =>
    match findClutId astClut r.u8ClutId with
    | none => adjustOthers astClut pstDefaultClut regions a
    | some i =>
      let clut := astClut.getD i {}
      if r.u8RegionDepth = 2 ∨ r.u8RegionDepth = 4 then
        let entries := clut.table r.u8RegionDepth
        let first := pstDefaultClut.table r.u8RegionDepth
        if first ≠ entries then
          let n := clutLen r.u8RegionDepth * (a.count + 1)
          let mixed := a.stDefaultClut._8BitCLUT
          let mixed := if a.count = 0 then putEntries mixed 0 first else mixed
          adjustOthers astClut pstDefaultClut regions
            { a with
              stDefaultClut := { a.stDefaultClut with _8BitCLUT := putEntries mixed n entries }
              count := a.count + 1
              stores := a.stores ++
                [.map r.pu8ShowData (r.u16Width * r.u16Heigth) fun c => c + .ofNat n] }
        else adjustOthers astClut pstDefaultClut regions a
      else adjustOthers astClut pstDefaultClut regions a

/-- `SUBT_DataParse_AdjustClut`. -/
def adjustClut (astClut : List Clut) (stDefaultClut : Clut) (regions : List ShowRegion) :
    Adjusted :=
  match adjustFirst astClut regions with
  | none => { regions, stDefaultClut }
  | some (i, regions) =>
    adjustOthers astClut (astClut.getD i {})
      (regions.dropWhile fun r => r.pvRegionClut = none) { regions, stDefaultClut }

/-- The loop of `SUBT_DataParse_CountRegionSize`, with the last region and with the position and
    size of all. -/
def countLoop : List ShowRegion → ShowRegion → Nat × Nat × Nat → Option (Nat × Nat × Nat)
  | [], _, s => some s
  | r :: regions, prev, (x, w, h) =>
    let (x, w) := if r.u16XPos < x then (r.u16XPos, u16 (w + x - r.u16XPos)) else (x, w)
    let w := if w < r.u16Width then r.u16Width else w
    let h :=
      if prev.u16YPos + prev.u16Heigth ≤ r.u16YPos then
        u16 (h + r.u16YPos + r.u16Heigth - (prev.u16YPos + prev.u16Heigth))
      else u16 (h + r.u16Heigth)
    if r.u16YPos < prev.u16YPos then none else countLoop regions r (x, w, h)

/-- `SUBT_DataParse_CountRegionSize`. -/
def countRegionSize (first : ShowRegion) (regions : List ShowRegion) :
    Option (Nat × Nat × Nat) :=
  countLoop regions first (first.u16XPos, first.u16Width, first.u16Heigth)

/-- The lines of a region, moved to the right. -/
def layoutLines (m : Memory UInt8) (r : ShowRegion) (u16OffsetX u16AllRegionW : Nat) :
    List UInt8 :=
  (List.range r.u16Heigth).flatMap fun i =>
    List.replicate u16OffsetX 0 ++ m.read (r.pu8ShowData + i * r.u16Width) r.u16Width ++
      List.replicate (u16AllRegionW - r.u16Width - u16OffsetX) 0

/-- The bytes of the regions, one after another, as `SUBT_DataParse_Display` lays them out. -/
def layout (m : Memory UInt8) (u16XPos u16AllRegionW : Nat) :
    List ShowRegion → Nat → List UInt8 → Option (List UInt8)
  | [], _, out => some out
  | r :: regions, u16NextRegionY, out =>
    let u16OffsetX := u16sub r.u16XPos u16XPos
    let lines :=
      if u16AllRegionW = r.u16Width then
        some (m.read r.pu8ShowData (r.u16Width * r.u16Heigth))
      else if r.u16Width + u16OffsetX ≤ u16AllRegionW then
        some (layoutLines m r u16OffsetX u16AllRegionW)
      else none
    match lines with
    | none => none
    | some lines =>
      let out := out ++ lines
      let out :=
        if u16NextRegionY < r.u16YPos then
          out ++ List.replicate (u16AllRegionW * (r.u16YPos - u16NextRegionY)) 0
        else out
      layout m u16XPos u16AllRegionW regions (u16 (r.u16YPos + r.u16Heigth)) out

/-! ## The handle -/

/-- What the parser uses of `SUBT_DISPLAY_DEFINITION_S`. -/
structure DisplayDefinition where
  u16DisplayWidth : Nat := 0
  u16DisplayHeight : Nat := 0
deriving DecidableEq

/-- `SUBT_PARSE_INFO_S` as `SUBT_DataParse_Create` leaves it, with the static variables of the
    readers.  `enObjType` is that of the first header in the region buffer. -/
structure Handle where
  u32PTS : Nat := 0
  u8ShowTime : Nat := 0
  u8PageVersion : Nat := 0
  enPageState : Nat := 0
  astSegment : List Segment := List.replicate SUBT_SEGMENT_IN_PES_MAX {}
  stDefaultClut : Clut := {}
  astClut : List Clut := List.replicate SUBT_REGN_IN_PAGE_NUM {}
  stDisplayDef : DisplayDefinition := {}
  enObjType : Nat := SUBT_OBJ_TYPE_BITMAP
  pu8RegionBuffer : Memory UInt8 := fun _ => 0
  u32RegionBufferLen : Nat := SUBT_REGION_SHOW_SD_LEN
  pu8RegionShowBuf : List UInt8 := []
  u32RegionShowBufLen : Nat := 0
  error_status : Bool := false
  statics : Statics := {}

/-- The size of the screen. -/
def displaySize (stDisplayDef : DisplayDefinition) (u16Width : Nat) : Nat × Nat :=
  if stDisplayDef.u16DisplayWidth = 0 ∧ stDisplayDef.u16DisplayHeight = 0 then
    if u16Width ≤ 720 then (720, 576)
    else if u16Width ≤ 1280 then (1280, 720)
    else (1920, 1080)
  else
    (u16 (align4 stDisplayDef.u16DisplayWidth), u16 (align4 stDisplayDef.u16DisplayHeight))

/-- The item that clears the screen. -/
def clearItem (h : Handle) : DisplayItem :=
  { u16XPos := 0
    u16YPos := 0
    u16Width := 0
    u16Heigth := 0
    pvRegionClut := h.stDefaultClut._8BitCLUT
    u8BitDepth := 8
    u16PaletteItem := 256
    u32PTS := h.u32PTS
    u32Timeout := h.u8ShowTime * 1000
    u32RegionDataSize := min 8 h.u32RegionShowBufLen
    pu8ShowData := h.pu8RegionShowBuf.take (min 8 h.u32RegionShowBufLen)
    u8DataType := SUBT_OBJ_TYPE_BITMAP
    enPageState := SUBTITLE_PAGE_ACQUISITION_POINT
    u16DisplayWidth := 0
    u16DisplayHeight := 0 }

/-- The colours of the first region, and the bytes they take. -/
def palette (h : Handle) (a : Adjusted) (first : ShowRegion) : List Color × Nat :=
  if a.count ≠ 0 then (a.stDefaultClut._8BitCLUT, 1024)
  else
    (match first.pvRegionClut with
      | none => a.stDefaultClut.table first.u8RegionDepth
      | some i => (h.astClut.getD i {}).table first.u8RegionDepth,
      clutLen first.u8RegionDepth * 4)

/-- `SUBT_DataParse_Display`: the item that is handed to the callback. -/
def display (h : Handle) (regions : List ShowRegion) : Handle × List DisplayItem :=
  let a := adjustClut h.astClut h.stDefaultClut regions
  match a.regions with
  | [] =>
    if h.enPageState = SUBTITLE_PAGE_MODE_CHANGE ∨
        h.enPageState = SUBTITLE_PAGE_ACQUISITION_POINT then (h, [clearItem h])
    else (h, [])
  | first :: others =>
    let colors := palette h a first
    let h :=
      { h with
        stDefaultClut := a.stDefaultClut
        pu8RegionBuffer := Store.runAll h.pu8RegionBuffer a.stores }
    match countRegionSize first others with
    | none => (h, [])
    | some (u16XPos, u16AllRegionW, u16AllRegionH) =>
      let u32DataSize := u16AllRegionW * u16AllRegionH
      if MAX_DATA_LENGTH < u32DataSize then (h, [])
      else
        let h :=
          if h.u32RegionShowBufLen < u32DataSize then
            { h with
              pu8RegionShowBuf := List.replicate u32DataSize 0
              u32RegionShowBufLen := u32DataSize }
          else h
        match layout h.pu8RegionBuffer u16XPos u16AllRegionW (first :: others)
            (u16 (first.u16YPos + first.u16Heigth)) [] with
        | none => (h, [])
        | some out =>
          let h :=
            { h with pu8RegionShowBuf := out ++ h.pu8RegionShowBuf.drop out.length }
          if u16AllRegionW * u16AllRegionH ≠ out.length then (h, [])
          else
            (h,
              [{ u16XPos
                 u16YPos := first.u16YPos
                 u16Width := u16AllRegionW
                 u16Heigth := u16AllRegionH
                 pvRegionClut := colors.1
                 u8BitDepth := 8
                 u16PaletteItem := colors.2
                 u32PTS := h.u32PTS
                 u32Timeout := h.u8ShowTime * 1000
                 u32RegionDataSize := out.length
                 pu8ShowData := out
                 u8DataType := h.enObjType
                 enPageState := h.enPageState
                 u16DisplayWidth := (displaySize h.stDisplayDef u16AllRegionW).1
                 u16DisplayHeight := (displaySize h.stDisplayDef u16AllRegionW).2 }])

/-! ## Segments and packets -/

/-- `_RegionBuffer_ReAlloc`. -/
def regionBufferReAlloc (u32Len : Nat) (h : Handle) : Handle :=
  if h.u32RegionBufferLen = u32Len then h
  else
    { h with
      u32RegionBufferLen :=
        if h.u32RegionBufferLen < u32Len then SUBT_REGION_SHOW_HD_LEN
        else SUBT_REGION_SHOW_SD_LEN
      pu8RegionBuffer := fun _ => 0
      enObjType := SUBT_OBJ_TYPE_BITMAP }

/-- `SUBT_Parse_ParseDisplayDefinition`, none when it fails: with the length of the region
    buffer that is asked for. -/
def parseDisplayDefinition (seg : Segment) : Option (DisplayDefinition × Nat) :=
  if seg.u16DataLength ≠ 5 ∧ seg.u16DataLength ≠ 13 then none
  else
    let p := seg.pu8SegmentData.getD []
    let stDisplayDef : DisplayDefinition :=
      { u16DisplayWidth := get16 p 1, u16DisplayHeight := get16 p 3 }
    some (stDisplayDef,
      if 720 < stDisplayDef.u16DisplayWidth then SUBT_REGION_SHOW_HD_LEN
      else SUBT_REGION_SHOW_SD_LEN)

/-- The display definition of a page, which is cleared first; without a segment a large region
    buffer is asked for. -/
def pageDefinition (astSegment : List Segment) : Option (DisplayDefinition × Nat) :=
  match findDisplayDefinitionSegment astSegment with
  | [] => some ({}, SUBT_REGION_SHOW_HD_LEN)
  | seg :: _ => parseDisplayDefinition seg

/-- What the regions of a page leave in the handle. -/
def Handle.drawn (h : Handle) (w : Work) : Handle :=
  { h with
    astClut := w.astClut
    statics := w.statics
    enObjType := w.enObjType.getD h.enObjType
    pu8RegionBuffer := Store.runAll h.pu8RegionBuffer w.stores }

/-- A page is drawn and shown. -/
def showPage (pstSegmentEnter : List Segment) (page : PageInfo) (h : Handle) :
    Int × Handle × List DisplayItem :=
  let r := regionLoop h.u32RegionBufferLen h.error_status h.enPageState pstSegmentEnter
    page.regions { statics := h.statics, astClut := h.astClut }
  match r.1 with
  | some s32Ret => (s32Ret, h.drawn r.2, [])
  | none =>
    let d := display (h.drawn r.2) r.2.regions
    (MT_SUCCESS, d.1, d.2)

/-- `SUBT_Parse_ParseSegment`. -/
def parseSegment (h : Handle) : Int × Handle × List DisplayItem :=
  if (h.astSegment.headD {}).u16DataLength = 0 then (MT_SUCCESS, h, [])
  else
    match pageDefinition h.astSegment with
    | none => (MT_FAILURE, { h with stDisplayDef := {} }, [])
    | some (stDisplayDef, u32Len) =>
      let h := regionBufferReAlloc u32Len { h with stDisplayDef }
      match findPageSegment h.astSegment with
      | [] => (MT_SUCCESS, h, [])
      | seg :: segs =>
        let page := parsePageSegment seg
        let h := { h with u8ShowTime := page.u8ShowTime, enPageState := page.enPageState }
        if page.enPageState = SUBTITLE_PAGE_NORMAL_CASE ∧ page.u8InPageVer = h.u8PageVersion then
          (MT_SUCCESS, h, [])
        else showPage (seg :: segs) page { h with u8PageVersion := page.u8InPageVer }

/-- A PES packet that is given to the parser. -/
structure PesPacket where
  pu8DataSrc : List UInt8
  u32Len : Nat
  ids : PageIds
deriving DecidableEq

/-- The loop of `SUBT_DataParse_ParsePESPacket`: the segments of a packet are parsed, and once
    more when an object is too wide. -/
def parseAttempts (ids : PageIds) (p : List UInt8) (u32DataLen : Nat) :
    Nat → Handle → Handle × List DisplayItem
  | 0, h => (h, [])
  | i + 1, h =>
    let r := parseSegment
      { h with astSegment := createSegment ids p u32DataLen h.astSegment }
    if r.1 = ERR_OUT_OF_WIDTH then
      let rest := parseAttempts ids p u32DataLen i { r.2.1 with error_status := true }
      (rest.1, r.2.2 ++ rest.2)
    else r.2

/-- The PTS of a packet in milliseconds, at `pu8Data`. -/
def packetPts (pu8Data : List UInt8) : Nat :=
  let u32PTSVal :=
    ((get8 pu8Data 0 &&& 0x0e).toNat * 2 ^ 29 + (get8 pu8Data 1).toNat * 2 ^ 22 +
      (get8 pu8Data 2 &&& 0xfe).toNat * 2 ^ 14 + (get8 pu8Data 3).toNat * 2 ^ 7 +
      (get8 pu8Data 4 &&& 0xfe).toNat / 2) % 2 ^ 32
  u32PTSVal / 90 + if get8 pu8Data 0 &&& 0x08 ≠ 0 then 0x2d82d82 else 0

/-- `u8PesStuffingLength`. -/
def PesPacket.u8PesStuffingLength (packet : PesPacket) : Nat := (get8 packet.pu8DataSrc 8).toNat

/-- `u8PesHeadLength`, an `mt_u8`. -/
def PesPacket.u8PesHeadLength (packet : PesPacket) : Nat :=
  (9 + packet.u8PesStuffingLength + 2) % 256

/-- The bytes of the segments. -/
def PesPacket.segmentData (packet : PesPacket) : List UInt8 :=
  packet.pu8DataSrc.drop packet.u8PesHeadLength

/-- The length of the segments: `u32Len` leaves six bytes of the header out. -/
def PesPacket.segmentLen (packet : PesPacket) : Nat :=
  packet.u32Len + 6 - packet.u8PesHeadLength

/-- `SUBT_DataParse_ParsePESPacket`: the items that are handed to the callback. -/
def parsePESPacket (packet : PesPacket) (h : Handle) : Handle × List DisplayItem :=
  let src := packet.pu8DataSrc
  let u8PesStuffingLength := packet.u8PesStuffingLength
  if get8 src 7 &&& 0x80 = 0 then (h, [])
  else
    let h := { h with u32PTS := packetPts (src.drop 9) }
    if packet.u32Len < packet.u8PesHeadLength then (h, [])
    else if get8 src (9 + u8PesStuffingLength) ≠ 0x20 ∨
        get8 src (9 + u8PesStuffingLength + 1) ≠ 0x00 then (h, [])
    else if 9 + u8PesStuffingLength + 2 ≠ packet.u8PesHeadLength then (h, [])
    else
      parseAttempts packet.ids packet.segmentData packet.segmentLen 2
        { h with error_status := false }

end Tntsat.SubtParse
