import Tntsat.Native.SubtParse

/-!
# The stores into the show buffer

What `SUBT_DataParse_Display` of `kware/subtitle/src/subtitle_parse.c` writes to
`pu8RegionShowBuf`: the stores in their order, at offsets from the start of the buffer, up to the
region that does not fit.
-/

namespace Tntsat.SubtParse

/-- The stores of the lines of a region, `u32CopyLen` being the first line's. -/
def lineStores (m : Memory UInt8) (r : ShowRegion) (u16OffsetX u16AllRegionW u32CopyLen : Nat) :
    List (Store UInt8) :=
  (List.range r.u16Heigth).map fun i =>
    .set (u32CopyLen + i * u16AllRegionW + u16OffsetX)
      (m.read (r.pu8ShowData + i * r.u16Width) r.u16Width)

/-- The stores of the layout loop. -/
def layoutStores (m : Memory UInt8) (u16XPos u16AllRegionW : Nat) :
    List ShowRegion → Nat → Nat → List (Store UInt8)
  | [], _, _ => []
  | r :: regions, u16NextRegionY, u32CopyLen =>
    let u16OffsetX := u16sub r.u16XPos u16XPos
    let gap := u16AllRegionW * (r.u16YPos - u16NextRegionY)
    let behind := fun u32CopyLen =>
      (if u16NextRegionY < r.u16YPos then [memset u32CopyLen 0 gap] else []) ++
        layoutStores m u16XPos u16AllRegionW regions (u16 (r.u16YPos + r.u16Heigth))
          (if u16NextRegionY < r.u16YPos then u32CopyLen + gap else u32CopyLen)
    if u16AllRegionW = r.u16Width then
      .set u32CopyLen (m.read r.pu8ShowData (r.u16Width * r.u16Heigth)) ::
        behind (u32CopyLen + r.u16Width * r.u16Heigth)
    else if r.u16Width + u16OffsetX ≤ u16AllRegionW then
      memset u32CopyLen 0 (u16AllRegionW * r.u16Heigth) ::
        lineStores m r u16OffsetX u16AllRegionW u32CopyLen ++
        behind (u32CopyLen + r.u16Heigth * u16AllRegionW)
    else []

/-- The stores of `SUBT_DataParse_Display` into `pu8RegionShowBuf`, which is cleared when it is
    allocated. -/
def displayStores (h : Handle) (regions : List ShowRegion) : List (Store UInt8) :=
  let a := adjustClut h.astClut h.stDefaultClut regions
  match a.regions with
  | [] => []
  | first :: others =>
    match countRegionSize first others with
    | none => []
    | some (u16XPos, u16AllRegionW, u16AllRegionH) =>
      let u32DataSize := u16AllRegionW * u16AllRegionH
      if MAX_DATA_LENGTH < u32DataSize then []
      else
        (if h.u32RegionShowBufLen < u32DataSize then [memset 0 0 u32DataSize] else []) ++
          layoutStores (Store.runAll h.pu8RegionBuffer a.stores) u16XPos u16AllRegionW
            (first :: others) (u16 (first.u16YPos + first.u16Heigth)) 0

end Tntsat.SubtParse
