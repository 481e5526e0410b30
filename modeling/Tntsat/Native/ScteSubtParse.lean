import Mathlib.Data.Int.Bitwise
import Tntsat.ForStd.CInt
import Tntsat.ForStd.Stores

/-!
# The messages of SCTE subtitles

`SCTE_SUBT_Parse_ParseSection` of `kware/subtitle/src/scte_subt_parse.c`: a message's bitmap is
read bit by bit and drawn with its frame and its outline or shadow.  Beside the output record the
model keeps the offsets of the bytes that the reader reads and the stores of `SetPixel`.

The handle is not null, and allocations succeed.  What the display returns is a parameter.
-/

namespace Tntsat.ScteSubtParse

/-- `SUBT_COLOR_RGB888_SIZE`. -/
def SUBT_COLOR_RGB888_SIZE : Nat := 32

/-- `SCTE_SUBT_BPP`. -/
def SCTE_SUBT_BPP : Nat := 4

/-- `PTS_UNITS`. -/
def PTS_UNITS : Nat := 90

/-- `PTS_OFFSET`. -/
def PTS_OFFSET : Nat := 0x80000000 / 45

/-- `MT_SUCCESS`. -/
def MT_SUCCESS : Int := 0

/-- `MT_FAILURE`. -/
def MT_FAILURE : Int := -1

/-! ## The bit reader -/

/-- `bs_sub_t`, with the offsets of the bytes that are read. -/
structure BsSub where
  p_start : List UInt8
  p_p : Nat
  p_end : Nat
  left : Nat
  reads : List Nat := []
deriving DecidableEq

/-- `bs_sub_init`. -/
def bsSubInit (p_data : List UInt8) (size : Nat) : BsSub :=
  { p_start := p_data, p_p := 0, p_end := size, left := 8 }

namespace BsSub

/-- `bs_sub_eof`. -/
def eof (s : BsSub) : Bool := s.p_end < s.p_p

/-- The table `mask`. -/
def mask (k : Nat) : Nat := 2 ^ k - 1

/-- The loop of `bs_sub_read`. -/
def readLoop : Nat → Nat → Nat → BsSub → Nat × BsSub
  | 0, _, result, s => (result, s)
  | fuel + 1, count, result, s =>
    if count = 0 then (result, s)
    else if s.p_end < s.p_p then (result, s)
    else
      let byte := (s.p_start.getD s.p_p 0).toNat
      let s := { s with reads := s.reads ++ [s.p_p] }
      if count ≤ s.left then
        let result := result ||| ((byte >>> (s.left - count)) &&& mask count)
        let s := { s with left := s.left - count }
        (result, if s.left = 0 then { s with p_p := s.p_p + 1, left := 8 } else s)
      else
        readLoop fuel (count - s.left) (result ||| ((byte &&& mask s.left) <<< (count - s.left)))
          { s with p_p := s.p_p + 1, left := 8 }

/-- `bs_sub_read`: every turn of the loop takes one bit at least. -/
def read (s : BsSub) (count : Nat) : Nat × BsSub := readLoop count count 0 s

/-- The loop of `bs_sub_skip`. -/
def skipLoop : Nat → Nat → Int → Nat × Int
  | 0, p_p, left => (p_p, left)
  | fuel + 1, p_p, left => if left ≤ 0 then skipLoop fuel (p_p + 1) (left + 8) else (p_p, left)

/-- `bs_sub_skip`. -/
def skip (s : BsSub) (i_count : Nat) : BsSub :=
  let r := skipLoop i_count s.p_p ((s.left : Int) - i_count)
  { s with p_p := r.1, left := r.2.toNat }

end BsSub

/-! ## Colours -/

/-- `CLIP`. -/
def clip (x : Int) : Nat := if x < 0 then 0 else if 255 < x then 255 else x.toNat

/-- The colour that `YUV2RGB` makes of its values. -/
def rgbOf (Y Cr Cb Alpha : Nat) : Nat :=
  let y : Int := (298 * Y : Int) >>> 4
  let r := clip ((y + ((0 * Cb : Int) >>> 4) + ((459 * Cr : Int) >>> 4) + ((-63522) >>> 4)) >>> 4)
  let g := clip ((y + ((-55 * Cb : Int) >>> 4) + ((-136 * Cr : Int) >>> 4) + (19659 >>> 4)) >>> 4)
  let b := clip ((y + ((541 * Cb : Int) >>> 4) + ((0 * Cr : Int) >>> 4) + ((-74002) >>> 4)) >>> 4)
  let Clr := ((r &&& 0xff) <<< 16) ||| ((g &&& 0xff) <<< 8) ||| (b &&& 0xff)
  if Alpha = 1 then Clr ||| 0xFF000000 else Clr ||| 0x7F000000

/-- `YUV2RGB`. -/
def yuv2rgb (data0 data1 : Nat) : Nat :=
  rgbOf (((data0 >>> 3) &&& 0x1f) <<< 3)
    ((((data0 <<< 3) ||| (data1 >>> 5)) &&& 0x1f) <<< 3)
    ((data1 &&& 0x1f) <<< 3) ((data0 >>> 2) &&& 0x01)

/-! ## The output record -/

/-- `SCTE_SUBT_OUTLINE_STYLE_E`. -/
inductive OutlineStyle
  | dropshadow | outlined | reserved
deriving DecidableEq

/-- `SCTE_SUBT_BACKGROUND_STYLE_E`. -/
inductive BackgroundStyle
  | framed | transparent
deriving DecidableEq

/-- `SCTE_DISPLAY_STANDARD_E`. -/
inductive DisplayStandard
  | _720_480_30 | _720_576_25 | _1280_720_60 | _1920_1080_60
deriving DecidableEq

/-- `SCTE_SUBT_DISP_E`. -/
inductive Disp
  | normal | preclear
deriving DecidableEq

/-- `SCTE_SUBT_BACKGROUND_FRAMED_S`. -/
structure Framed where
  u32FrameColor : Nat := 0
  u32TopXPos : Nat := 0
  u32TopYPos : Nat := 0
  u32ButtomXPos : Nat := 0
  u32ButtomYPos : Nat := 0
deriving DecidableEq

/-- `SCTE_SUBT_OUTPUT_S`.  Of the union `unOutlineStyle` only the colour is used, which is the
    first member of both of its structures. -/
structure ScteSubtOutput where
  enDISP : Disp := .normal
  enOutlineStyle : OutlineStyle := .dropshadow
  enBackgroundStyle : BackgroundStyle := .framed
  enDispStandard : DisplayStandard := ._720_480_30
  u32TopXPos : Nat := 0
  u32TopYPos : Nat := 0
  u32ButtomXPos : Nat := 0
  u32ButtomYPos : Nat := 0
  u32SubtColor : Nat := 0
  u32PTS : Nat := 0
  u32Duration : Nat := 0
  u32BitWidth : Nat := 0
  unOutlineStyle : Nat := 0
  stFramed : Framed := {}
  u32FrameTopXPos : Nat := 0
  u32FrameTopYPos : Nat := 0
  u32FrameButtomXPos : Nat := 0
  u32FrameButtomYPos : Nat := 0
  u32BitmapDataLen : Nat := 0
  pu8SCTESubtData : Memory UInt8 := fun _ => 0

/-! ## The properties of a bitmap -/

/-- Four positions. -/
structure Rect where
  top_h : Nat := 0
  top_v : Nat := 0
  bottom_h : Nat := 0
  bottom_v : Nat := 0
deriving DecidableEq

/-- The variables of `DecodeSimpleBitmap`. -/
structure Decoding where
  bs : BsSub
  stOutputData : ScteSubtOutput
  is_framed : Nat := 0
  outline_style : Nat := 0
  bitmap : Rect := {}
  frame : Rect := {}
  outline_thickness : Nat := 0
  shadow_right : Nat := 0
  shadow_bottom : Nat := 0

/-- Two bytes are read and taken for a colour. -/
def readColor (bs : BsSub) : Nat × BsSub :=
  let c0 := bs.read 8
  let c1 := c0.2.read 8
  (yuv2rgb c0.1 c1.1, c1.2)

/-- Four positions are read. -/
def readRect (bs : BsSub) : Rect × BsSub :=
  let top_h := bs.read 12
  let top_v := top_h.2.read 12
  let bottom_h := top_v.2.read 12
  let bottom_v := bottom_h.2.read 12
  ({ top_h := top_h.1, top_v := top_v.1, bottom_h := bottom_h.1, bottom_v := bottom_v.1 },
    bottom_v.2)

/-- The styles of the bitmap, its colour and its position. -/
def readBitmap (bs : BsSub) (out : ScteSubtOutput) : Decoding :=
  let is_framed := (bs.skip 5).read 1
  let outline_style := is_framed.2.read 2
  let color := readColor outline_style.2
  let rect := readRect color.2
  { bs := rect.2
    is_framed := is_framed.1
    outline_style := outline_style.1
    bitmap := rect.1
    frame := rect.1
    stOutputData :=
      { out with
        u32BitWidth := SUBT_COLOR_RGB888_SIZE
        enBackgroundStyle := if is_framed.1 ≠ 0 then .framed else .transparent
        enOutlineStyle :=
          if outline_style.1 &&& 0x01 ≠ 0 then .outlined
          else if outline_style.1 &&& 0x02 ≠ 0 then .dropshadow
          else .reserved
        u32SubtColor := color.1
        u32TopXPos := rect.1.top_h
        u32TopYPos := rect.1.top_v
        u32ButtomXPos := rect.1.bottom_h
        u32ButtomYPos := rect.1.bottom_v } }

/-- The frame, when there is one. -/
def readFrame (d : Decoding) : Decoding :=
  if d.is_framed ≠ 0 then
    let rect := readRect d.bs
    let color := readColor rect.2
    { d with
      bs := color.2
      frame := rect.1
      stOutputData :=
        { d.stOutputData with
          stFramed :=
            { u32FrameColor := color.1
              u32TopXPos := rect.1.top_h
              u32TopYPos := rect.1.top_v
              u32ButtomXPos := rect.1.bottom_h
              u32ButtomYPos := rect.1.bottom_v } } }
  else d

/-- The outline or shadow, when there is one, and the length of the bitmap. -/
def readOutline (d : Decoding) : Decoding :=
  let d :=
    if d.outline_style = 1 then
      let outline_thickness := (d.bs.skip 4).read 4
      let color := readColor outline_thickness.2
      { d with
        bs := color.2
        outline_thickness := outline_thickness.1
        stOutputData := { d.stOutputData with unOutlineStyle := color.1 } }
    else if d.outline_style = 2 then
      let shadow_right := d.bs.read 4
      let shadow_bottom := shadow_right.2.read 4
      let color := readColor shadow_bottom.2
      { d with
        bs := color.2
        shadow_right := shadow_right.1
        shadow_bottom := shadow_bottom.1
        stOutputData := { d.stOutputData with unOutlineStyle := color.1 } }
    else if d.outline_style = 3 then { d with bs := d.bs.skip 24 }
    else d
  { d with bs := d.bs.skip 16 }

/-! ## The runs of a bitmap -/

/-- A run of pixels up to the end of the bitmap, if its length has any bits. -/
def fillRun (bitmap_size length : Nat) (on : Bool) (s : BsSub × List Bool) :
    BsSub × List Bool :=
  if 0 < length then
    let run := s.1.read length
    (run.2, s.2 ++ List.replicate
      (min (if run.1 = 0 then 1 <<< length else run.1) (bitmap_size - s.2.length)) on)
  else s

/-- One turn of the loop over the bitmap: a code and its pixels. -/
def bitmapStep (bitmap_h bitmap_size : Nat) (s : BsSub × List Bool) : BsSub × List Bool :=
  let b1 := s.1.read 1
  if b1.1 = 0 then
    let b2 := b1.2.read 1
    if b2.1 = 0 then
      let b3 := b2.2.read 1
      if b3.1 = 0 then
        let b4 := b3.2.read 2
        if b4.1 = 1 then
          let next := min ((s.2.length / bitmap_h + 1) * bitmap_h) bitmap_size
          (b4.2, s.2 ++ List.replicate (next - s.2.length) false)
        else (b4.2, s.2)
      else fillRun bitmap_size 4 true (b3.2, s.2)
    else fillRun bitmap_size 6 false (b2.2, s.2)
  else fillRun bitmap_size 5 false (fillRun bitmap_size 3 true (b1.2, s.2))

/-- The loop over the bitmap, whose pixels so far are given. -/
def bitmapLoop (bitmap_h bitmap_size : Nat) :
    Nat → BsSub × List Bool → Option (BsSub × List Bool)
  | 0, _ => none
  | fuel + 1, s =>
    if bitmap_size ≤ s.2.length then some s
    else if s.1.eof then some (s.1, s.2 ++ List.replicate (bitmap_size - s.2.length) false)
    else bitmapLoop bitmap_h bitmap_size fuel (bitmapStep bitmap_h bitmap_size s)

/-! ## The picture -/

/-- `SetPixel`. -/
def setPixel (pitch value : Nat) (pixel : Nat × Nat) : List (Store UInt8) :=
  let (x, y) := pixel
  [.set (u32 (y * pitch + 4 * x + 3)) [UInt8.ofNat value],
    .set (u32 (y * pitch + 4 * x + 2)) [UInt8.ofNat (value >>> 8)],
    .set (u32 (y * pitch + 4 * x + 1)) [UInt8.ofNat (value >>> 16)],
    .set (u32 (y * pitch + 4 * x)) [UInt8.ofNat (value >>> 24)]]

/-- The pixels that the loops over the frame set. -/
def framePixels (frame_h frame_v : Nat) : List (Nat × Nat) :=
  (List.range frame_v).flatMap fun by_ => (List.range frame_h).map fun bx => (bx, by_)

/-- The pixels of the bitmap that are on. -/
def bitmapPixels (bitmap : List Bool) (bitmap_h bitmap_v : Nat) : List (Nat × Nat) :=
  (framePixels bitmap_h bitmap_v).filter fun p => bitmap.getD (p.2 * bitmap_h + p.1) false

/-- The table `circle`. -/
def circle (outline_thickness dy dx : Nat) : Bool :=
  (0 < dx ∨ 0 < dy) ∧ dx * dx + dy * dy ≤ outline_thickness * outline_thickness

/-- The pixels that are set around one of the bitmap. -/
def outlinePixels (outline_thickness : Nat) (p : Nat × Nat) : List (Nat × Nat) :=
  (List.range (outline_thickness + 1)).flatMap fun dy =>
    (List.range (outline_thickness + 1)).flatMap fun dx =>
      if circle outline_thickness dy dx then
        [(u32 (p.1 + dx), u32 (p.2 + dy)), (u32sub p.1 dx, u32 (p.2 + dy)),
          (u32 (p.1 + dx), u32sub p.2 dy), (u32sub p.1 dx, u32sub p.2 dy)]
      else []

/-- What `DecodeSimpleBitmap` returns, and its reads and stores. -/
structure Decoded where
  ret : Int
  stOutputData : ScteSubtOutput
  reads : List Nat
  stores : List (Store UInt8) := []

/-- The frame of the picture: that of the bitmap, with room for the outline or shadow. -/
def pictureFrame (d : Decoding) : Rect :=
  let margin : Nat × Nat :=
    if d.outline_style = 1 then (d.outline_thickness, d.outline_thickness)
    else if d.outline_style = 2 then (d.shadow_right, d.shadow_bottom)
    else (0, 0)
  { top_h := u32sub d.frame.top_h margin.1
    top_v := u32sub d.frame.top_v margin.2
    bottom_h := u32 (d.frame.bottom_h + margin.1)
    bottom_v := u32 (d.frame.bottom_v + margin.2) }

/-- The stores of the picture. -/
def drawStores (d : Decoding) (bitmap : List Bool) : List (Store UInt8) :=
  let frame := pictureFrame d
  let frame_h := u32sub frame.bottom_h frame.top_h
  let frame_v := u32sub frame.bottom_v frame.top_v
  let bitmap_oh := u32sub d.bitmap.top_h frame.top_h
  let bitmap_ov := u32sub d.bitmap.top_v frame.top_v
  let pitch := frame_h * SCTE_SUBT_BPP
  let out := d.stOutputData
  let on := (bitmapPixels bitmap (d.bitmap.bottom_h - d.bitmap.top_h)
    (d.bitmap.bottom_v - d.bitmap.top_v)).map fun p =>
      (u32 (p.1 + bitmap_oh), u32 (p.2 + bitmap_ov))
  let background :=
    if d.is_framed ≠ 0 then
      (framePixels frame_h frame_v).flatMap (setPixel pitch out.stFramed.u32FrameColor)
    else []
  let outline :=
    if d.outline_style = 1 then
      (on.flatMap (outlinePixels d.outline_thickness)).flatMap (setPixel pitch out.unOutlineStyle)
    else if d.outline_style = 2 then
      (on.map fun p => (u32 (p.1 + d.shadow_right), u32 (p.2 + d.shadow_bottom))).flatMap
        (setPixel pitch out.unOutlineStyle)
    else []
  background ++ outline ++ on.flatMap (setPixel pitch out.u32SubtColor)

/-- The picture is drawn into a cleared buffer. -/
def drawBitmap (d : Decoding) (bitmap : List Bool) (reads : List Nat) : Decoded :=
  let frame := pictureFrame d
  let stores := drawStores d bitmap
  { ret := MT_SUCCESS
    reads
    stores
    stOutputData :=
      { d.stOutputData with
        u32FrameTopXPos := frame.top_h
        u32FrameTopYPos := frame.top_v
        u32FrameButtomXPos := frame.bottom_h
        u32FrameButtomYPos := frame.bottom_v
        u32BitmapDataLen := u32 (u32sub frame.bottom_h frame.top_h *
          u32sub frame.bottom_v frame.top_v * SCTE_SUBT_BPP)
        pu8SCTESubtData := Store.runAll (fun _ => 0) stores } }

/-- `DecodeSimpleBitmap`.  Every turn of the loop over the bitmap takes a bit. -/
def decodeSimpleBitmap (pu8DataSrc : List UInt8) (u32DataSize : Nat) (out : ScteSubtOutput) :
    Option Decoded :=
  if u32DataSize = 0 then some { ret := MT_FAILURE, stOutputData := out, reads := [] }
  else
    let d := readBitmap (bsSubInit pu8DataSrc u32DataSize) out
    if d.bitmap.bottom_h ≤ d.bitmap.top_h ∨ d.bitmap.bottom_v ≤ d.bitmap.top_v then
      some { ret := MT_FAILURE, stOutputData := d.stOutputData, reads := d.bs.reads }
    else
      let d := readFrame d
      if d.is_framed ≠ 0 ∧
          (d.bitmap.top_h < d.frame.top_h ∨ d.bitmap.top_v < d.frame.top_v ∨
            d.frame.bottom_h < d.bitmap.bottom_h ∨ d.frame.bottom_v < d.bitmap.bottom_v) then
        some { ret := MT_FAILURE, stOutputData := d.stOutputData, reads := d.bs.reads }
      else
        let d := readOutline d
        let bitmap_h := d.bitmap.bottom_h - d.bitmap.top_h
        let bitmap_v := d.bitmap.bottom_v - d.bitmap.top_v
        (bitmapLoop bitmap_h (bitmap_h * bitmap_v) (8 * u32DataSize + 9) (d.bs, [])).map
          fun r => drawBitmap d r.2 r.1.reads

/-! ## Sections -/

/-- The frames per second and the standard for `u8Dis_standard`. -/
def displayStandard (u8Dis_standard : Nat) : Nat × DisplayStandard :=
  if u8Dis_standard = 0x00 then (30, ._720_480_30)
  else if u8Dis_standard = 0x01 then (25, ._720_576_25)
  else if u8Dis_standard = 0x02 then (60, ._1280_720_60)
  else if u8Dis_standard = 0x03 then (60, ._1920_1080_60)
  else (25, ._720_576_25)

/-- `SCTE_SUBT_Parse_ParseSection`.  `s64CurPts` is what `pfnGetPts` gives when it is set, and
    `display` what the display returns. -/
def parseSection (s64CurPts : Option Int) (display : Int) (pu8DataSrc : List UInt8)
    (u32DataLen : Nat) (out : ScteSubtOutput) : Option Decoded :=
  let byte := fun k => (pu8DataSrc.getD k 0).toNat
  let u8PreClearFlag := byte 7 &&& 0x80
  let u8ImmediateFlag := byte 7 &&& 0x40
  let standard := displayStandard (byte 7 &&& 0x1f)
  let u32PTSValue := be32 (pu8DataSrc.drop 8) / PTS_UNITS
  let u32PTSValue :=
    match s64CurPts with
    | some cur => if u32PTSValue < u32OfInt cur then u32 (u32PTSValue + PTS_OFFSET) else u32PTSValue
    | none => u32PTSValue
  let out :=
    { out with
      enDispStandard := standard.2
      enDISP := if u8PreClearFlag ≠ 0 then .preclear else .normal
      u32PTS := if u8ImmediateFlag ≠ 0 then u32OfInt (s64CurPts.getD 0) else u32PTSValue
      u32Duration := (((byte 12 ||| byte 13) &&& 0x07ff) * 1000) / standard.1 }
  (decodeSimpleBitmap (pu8DataSrc.drop 16) (u32sub u32DataLen 16) out).map fun d =>
    { d with ret := if d.ret ≠ MT_SUCCESS ∨ display ≠ MT_SUCCESS then MT_FAILURE else MT_SUCCESS }

end Tntsat.ScteSubtParse
