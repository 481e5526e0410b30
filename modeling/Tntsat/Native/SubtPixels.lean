import Tntsat.ForStd.Stores

/-!
# Pixels of DVB subtitle objects

The pixel decoders of `kware/subtitle/src/subtitle_parse.c`.  They fill the region buffer
without looking at it: what they do is the list of their stores, at offsets from the start of
the buffer.

A pointer into a segment is the list of the bytes from it on; behind its end they are read as
zero.  `u16ProcessedLen` does not wrap.  The calls within one expression are made from left to
right.
-/

namespace Tntsat.SubtParse

/-- The byte at `p[i]`. -/
def get8 (p : List UInt8) (i : Nat) : UInt8 := p.getD i 0

/-- The 16 bits at `p[i]`. -/
def get16 (p : List UInt8) (i : Nat) : Nat := (get8 p i).toNat * 256 + (get8 p (i + 1)).toNat

/-- `MT_SUCCESS`. -/
def MT_SUCCESS : Int := 0

/-- `MT_FAILURE`. -/
def MT_FAILURE : Int := -1

/-- `ERR_OUT_OF_WIDTH`. -/
def ERR_OUT_OF_WIDTH : Int := -100

/-! ## The readers -/

/-- The static variables of a reader: the number of the next code in the byte that is kept, and
    the byte; the byte is of no use when no code is left in it. -/
inductive BitReader
  | empty
  | kept (num : Nat) (temp : UInt8)
deriving DecidableEq

/-- The static variables of `ReadNext2BitPixel` and `ReadNext4BitPixel`. -/
structure Statics where
  next2 : BitReader := .empty
  next4 : BitReader := .empty
deriving DecidableEq

/-- `*ppu8SegmentDataSrc` and `*pu16ProcessedLen`, with the static variables. -/
structure Cursor where
  src : List UInt8
  processed : Nat := 0
  statics : Statics

/-- The next byte. -/
def Cursor.byte (c : Cursor) : UInt8 × Cursor :=
  (get8 c.src 0, { c with src := c.src.drop 1, processed := c.processed + 1 })

/-- `u8Get2BitNum` and `u8Temp` are set. -/
def Cursor.keep2 (c : Cursor) (next2 : BitReader) : Cursor :=
  { c with statics := { c.statics with next2 } }

/-- `chGet4BitNum` and `chTemp` are set. -/
def Cursor.keep4 (c : Cursor) (next4 : BitReader) : Cursor :=
  { c with statics := { c.statics with next4 } }

/-- `ReadNext2BitPixel`. -/
def readNext2BitPixel (c : Cursor) : UInt8 × Cursor :=
  match c.statics.next2 with
  | .empty => (c.byte.1 >>> 6, c.byte.2.keep2 (.kept 1 c.byte.1))
  | .kept 1 temp => ((temp &&& 0x30) >>> 4, c.keep2 (.kept 2 temp))
  | .kept 2 temp => ((temp &&& 0x0c) >>> 2, c.keep2 (.kept 3 temp))
  | .kept 3 temp => (temp &&& 0x03, c.keep2 .empty)
  | .kept _ _ => (0, c)

/-- `ReadNext4BitPixel`. -/
def readNext4BitPixel (c : Cursor) : UInt8 × Cursor :=
  match c.statics.next4 with
  | .empty => (c.byte.1 >>> 4, c.byte.2.keep4 (.kept 1 c.byte.1))
  | .kept _ temp => (temp &&& 0x0f, c.keep4 .empty)

/-- `ReadNext2BitPixel` with `u8ResetFlag`. -/
def Cursor.reset2 (c : Cursor) : Cursor := c.keep2 .empty

/-- `ReadNext4BitPixel` with `chResetFlag`. -/
def Cursor.reset4 (c : Cursor) : Cursor := c.keep4 .empty

/-! ## Pixel codes -/

/-- A run of pixels; none at the end of a string. -/
structure Run where
  u16NumPixel : Nat
  colorEntry : UInt8

/-- `Decode2Pixel`. -/
def decode2Pixel (c : Cursor) : Run × Cursor :=
  let a := readNext2BitPixel c
  if a.1 ≠ 0x00 then (⟨1, a.1⟩, a.2)
  else
    let b := readNext2BitPixel a.2
    if b.1 = 1 then (⟨1, 0x00⟩, b.2)
    else if b.1 = 2 ∨ b.1 = 3 then
      let l := readNext2BitPixel b.2
      let color := readNext2BitPixel l.2
      (⟨(b.1 &&& 1).toNat * 4 + l.1.toNat + 3, color.1⟩, color.2)
    else
      let d := readNext2BitPixel b.2
      if d.1 = 1 then (⟨2, 0⟩, d.2)
      else if d.1 = 2 then
        let l₁ := readNext2BitPixel d.2
        let l₂ := readNext2BitPixel l₁.2
        let color := readNext2BitPixel l₂.2
        (⟨l₁.1.toNat * 4 + l₂.1.toNat + 12, color.1⟩, color.2)
      else if d.1 = 3 then
        let l₁ := readNext2BitPixel d.2
        let l₂ := readNext2BitPixel l₁.2
        let l₃ := readNext2BitPixel l₂.2
        let l₄ := readNext2BitPixel l₃.2
        let color := readNext2BitPixel l₄.2
        (⟨l₁.1.toNat * 64 + l₂.1.toNat * 16 + l₃.1.toNat * 4 + l₄.1.toNat + 29, color.1⟩, color.2)
      else (⟨0, 0⟩, d.2)

/-- `Decode4Pixel`. -/
def decode4Pixel (c : Cursor) : Run × Cursor :=
  let a := readNext4BitPixel c
  if a.1 > 0x00 then (⟨1, a.1⟩, a.2)
  else
    let b := readNext4BitPixel a.2
    if b.1 = 0x00 then (⟨0, 0⟩, b.2)
    else if b.1 ≤ 0x07 then (⟨b.1.toNat + 2, 0⟩, b.2)
    else if b.1 ≤ 0x0b then
      let color := readNext4BitPixel b.2
      (⟨(b.1 &&& 0x03).toNat + 4, color.1⟩, color.2)
    else if b.1 ≤ 0x0d then (⟨(b.1 &&& 0x03).toNat + 1, 0⟩, b.2)
    else if b.1 = 0x0e then
      let l := readNext4BitPixel b.2
      let color := readNext4BitPixel l.2
      (⟨l.1.toNat + 9, color.1⟩, color.2)
    else
      let l₁ := readNext4BitPixel b.2
      let l₂ := readNext4BitPixel l₁.2
      let color := readNext4BitPixel l₂.2
      (⟨(l₁.1 <<< 4).toNat + l₂.1.toNat + 25, color.1⟩, color.2)

/-- `Decode8Pixel`. -/
def decode8Pixel (c : Cursor) : Run × Cursor :=
  let a := c.byte
  if a.1 ≠ 0x00 then (⟨1, a.1⟩, a.2)
  else
    let b := a.2.byte
    if b.1 = 0x00 then (⟨0, 0⟩, b.2)
    else if b.1 ≤ 0x7f then (⟨b.1.toNat, 0⟩, b.2)
    else
      let color := b.2.byte
      (⟨(b.1 &&& 0x7f).toNat, color.1⟩, color.2)

/-! ## Blocks of pixel data -/

/-- `SUBT_REFERING_REGION_S`, with offsets into the region buffer for the pointers. -/
structure ReferingRegion where
  u8RegionDepth : Nat
  u16RegionWidth : Nat
  u16RegionHeight : Nat
  pu8RegionPixel : Nat
  u16ObjVerPos : Nat
  u16ObjHorPos : Nat
  u32RegionLen : Nat

/-- The variables of `SUBT_Parse_PixelBlockDecode`, with the stores it has made. -/
structure PixelBlock where
  cursor : Cursor
  pu8ObjPixelWrite : Nat
  u8LastColorEntry : UInt8 := 0
  wNumLine : Nat := 0
  nEndAddLine : Option Nat := none
  u8szTwoToFourBitsMapTable : List UInt8 := [0x0, 0x7, 0x8, 0xf]
  u8szTwoToEightBitsMapTable : List UInt8 := [0x00, 0x77, 0x88, 0xff]
  u8szFourToEightBitsMapTable : List UInt8 :=
    [0x00, 0x11, 0x22, 0x33, 0x44, 0x55, 0x66, 0x77, 0x88, 0x99, 0xaa, 0xbb, 0xcc, 0xdd, 0xee, 0xff]
  stores : List (Store UInt8) := []

/-- What the three kinds of code strings differ in: the decoder, the colour of an entry in a
    region, and whether a line that is too long is cleared. -/
structure CodeString where
  decode : Cursor → Run × Cursor
  color : PixelBlock → Nat → UInt8 → UInt8
  clears : Bool := false

/-- The colour of an entry of more bits in a region of 2 bits. -/
def toTwoBits (colorEntry : UInt8) : UInt8 :=
  ((colorEntry &&& 0x80) >>> 6) ||| (if colorEntry &&& 0x70 ≠ 0 then 1 else 0)

/-- The 2-bit/pixel code string. -/
def codeString2 : CodeString where
  decode := decode2Pixel
  color b depth c :=
    if depth = 4 then b.u8szTwoToFourBitsMapTable.getD c.toNat 0
    else if depth = 8 then b.u8szTwoToEightBitsMapTable.getD c.toNat 0
    else c
  clears := true

/-- The 4-bit/pixel code string. -/
def codeString4 : CodeString where
  decode := decode4Pixel
  color b depth c :=
    if depth = 2 then toTwoBits c
    else if depth = 8 then b.u8szFourToEightBitsMapTable.getD c.toNat 0
    else c

/-- The 8-bit/pixel code string. -/
def codeString8 : CodeString where
  decode := decode8Pixel
  color _ depth c :=
    if depth = 2 then toTwoBits c else if depth = 4 then (c &&& 0xf0) >>> 4 else c

/-- `memset` of `n` bytes. -/
def memset (addr : Nat) (c : UInt8) (n : Nat) : Store UInt8 := .set addr (List.replicate n c)

/-- `SUBT_REGION_LINE_PIXEL_ADJUST_NUM`. -/
def SUBT_REGION_LINE_PIXEL_ADJUST_NUM : Nat := 2

/-- The pixels behind a string, up to the end of the line if that lies ahead. -/
def adjustNum (nEndAddLine : Option Nat) (write : Nat) : Nat :=
  match nEndAddLine with
  | none => SUBT_REGION_LINE_PIXEL_ADJUST_NUM
  | some line =>
    if line < write ∨ SUBT_REGION_LINE_PIXEL_ADJUST_NUM < line - write then
      SUBT_REGION_LINE_PIXEL_ADJUST_NUM
    else line - write

/-- The last pixel is repeated behind a string. -/
def PixelBlock.adjust (b : PixelBlock) : PixelBlock :=
  { b with
    stores := b.stores ++
      [memset b.pu8ObjPixelWrite b.u8LastColorEntry
        (adjustNum b.nEndAddLine b.pu8ObjPixelWrite)] }

/-- The `do` loop over a code string. -/
def codeStringLoop (k : CodeString) (region : ReferingRegion) (u16BlockLen : Nat) :
    Nat → PixelBlock → Int × PixelBlock
  | 0, b => (MT_SUCCESS, b)
  | fuel + 1, b =>
    let r := k.decode b.cursor
    let n := r.1.u16NumPixel
    let b := { b with cursor := r.2 }
    if n = 0 then (MT_SUCCESS, b.adjust)
    else
      let color := k.color b region.u8RegionDepth r.1.colorEntry
      let line := region.pu8RegionPixel +
        region.u16RegionWidth * (region.u16ObjVerPos + b.wNumLine + 1)
      if region.pu8RegionPixel + region.u32RegionLen < line then (MT_FAILURE, b)
      else if line < b.pu8ObjPixelWrite + n then
        (ERR_OUT_OF_WIDTH,
          if k.clears then
            { b with
              stores := b.stores ++
                [memset (line - region.u16RegionWidth) 0 region.u16RegionWidth] }
          else b)
      else
        let b :=
          { b with
            stores := b.stores ++ [memset b.pu8ObjPixelWrite color n]
            pu8ObjPixelWrite := b.pu8ObjPixelWrite + n
            u8LastColorEntry := color
            nEndAddLine := some line }
        if b.cursor.processed < u16BlockLen then codeStringLoop k region u16BlockLen fuel b
        else (MT_SUCCESS, b.adjust)

/-- Entries of 4 bits. -/
def readEntries4 : Nat → Cursor → List UInt8 × Cursor
  | 0, c => ([], c)
  | n + 1, c =>
    let r := readNext4BitPixel c
    let rest := readEntries4 n r.2
    (r.1 :: rest.1, rest.2)

/-- Entries of 8 bits. -/
def readEntries8 : Nat → Cursor → List UInt8 × Cursor
  | 0, c => ([], c)
  | n + 1, c =>
    let r := c.byte
    let rest := readEntries8 n r.2
    (r.1 :: rest.1, rest.2)

/-- The end of an object line. -/
def PixelBlock.endLine (b : PixelBlock) (region : ReferingRegion) : PixelBlock :=
  let wNumLine := if region.u16RegionHeight < b.wNumLine + 2 then b.wNumLine else b.wNumLine + 2
  { b with
    wNumLine
    pu8ObjPixelWrite := region.pu8RegionPixel +
      region.u16RegionWidth * (region.u16ObjVerPos + wNumLine) + region.u16ObjHorPos }

/-- The outer loop of `SUBT_Parse_PixelBlockDecode`.  A code string takes a byte for every four
    codes at least. -/
def pixelBlockLoop (region : ReferingRegion) (u16BlockLen : Nat) :
    Nat → PixelBlock → Int × PixelBlock
  | 0, b => (MT_SUCCESS, b)
  | fuel + 1, b =>
    if u16BlockLen ≤ b.cursor.processed then (MT_SUCCESS, b)
    else
      let r := b.cursor.byte
      let b := { b with cursor := r.2 }
      let codes := 4 * u16BlockLen + 8
      if r.1 = 0x10 then
        let s := codeStringLoop codeString2 region u16BlockLen codes b
        if s.1 ≠ MT_SUCCESS then s
        else pixelBlockLoop region u16BlockLen fuel { s.2 with cursor := s.2.cursor.reset2 }
      else if r.1 = 0x11 then
        let s := codeStringLoop codeString4 region u16BlockLen codes b
        if s.1 ≠ MT_SUCCESS then s
        else pixelBlockLoop region u16BlockLen fuel { s.2 with cursor := s.2.cursor.reset4 }
      else if r.1 = 0x12 then
        let s := codeStringLoop codeString8 region u16BlockLen codes b
        if s.1 ≠ MT_SUCCESS then s
        else pixelBlockLoop region u16BlockLen fuel s.2
      else if r.1 = 0x20 then
        let e := readEntries4 4 b.cursor
        pixelBlockLoop region u16BlockLen fuel
          { b with u8szTwoToFourBitsMapTable := e.1, cursor := e.2.reset4 }
      else if r.1 = 0x21 then
        let e := readEntries8 4 b.cursor
        pixelBlockLoop region u16BlockLen fuel
          { b with u8szTwoToEightBitsMapTable := e.1, cursor := e.2 }
      else if r.1 = 0x22 then
        let e := readEntries8 16 b.cursor
        pixelBlockLoop region u16BlockLen fuel
          { b with u8szFourToEightBitsMapTable := e.1, cursor := e.2 }
      else if r.1 = 0xf0 then pixelBlockLoop region u16BlockLen fuel (b.endLine region)
      else pixelBlockLoop region u16BlockLen fuel b

/-- `SUBT_Parse_PixelBlockDecode` from `pu8ObjPixelWrite` on. -/
def pixelBlockDecode (pu8SegmentDataSrc : List UInt8) (region : ReferingRegion)
    (pu8ObjPixelWrite u16BlockLen : Nat) (statics : Statics) : Int × PixelBlock :=
  pixelBlockLoop region u16BlockLen (u16BlockLen + 1)
    { cursor := { src := pu8SegmentDataSrc, statics }, pu8ObjPixelWrite }

end Tntsat.SubtParse
