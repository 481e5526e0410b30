import Mathlib.Algebra.Group.Nat.Defs
import Mathlib.Logic.Function.Basic
import Tntsat.ForStd.CInt
import Tntsat.ForStd.Machine

/-!
# The desegmentation of SCTE subtitle messages

`SCTE_SUBT_Data_Inject` of `kware/subtitle/src/scte_subt_data.c`.  Segments wait in 64
slots until the last one of their message comes; the slots with its table extension
are then put together and handed to `SCTE_SUBT_Parse_ParseSection`, whose result is
part of the call.

A slot's data is the part of its array that is in use.  A segment shorter than the 13
bytes of its header and CRC makes the source copy a negative length, which only
`injectCopies` shows.
-/

namespace Tntsat.ScteSubtData

/-- `MT_SECTION_MAX_SIZE`. -/
def mtSectionMaxSize : Nat := 0x10000

/-- `SCTE_SECTION_MAX_SIZE`. -/
def scteSectionMaxSize : Nat := 0x400

/-- `MT_SECTION_MAX_NUM`. -/
def mtSectionMaxNum : Nat := 64

/-- `MT_FAILURE`. -/
def mtFailure : Int := -1

/-- `SCTE_SUBT_SECTION_S`. -/
structure ScteSection where
  au8Data : List UInt8 := []
  u16TableExtention : Nat := 0
  bUsed : Bool := false
deriving DecidableEq

/-- `SCTE_SUBT_DATA_RECV_S`; a null parser is 0. -/
structure DataRecv where
  hParse : Nat
  astSCTESection : Nat → ScteSection := fun _ => {}
  u32SectionSize : Nat := 0

/-- A byte of a section. -/
def byteAt (pu8Data : List UInt8) (k : Nat) : Nat := (pu8Data.getD k 0).toNat

/-- The section is a segment. -/
def isSegmented (pu8Data : List UInt8) : Bool := byteAt pu8Data 3 &&& 0x40 ≠ 0

/-- `u16TableExtension`. -/
def tableExtension (pu8Data : List UInt8) : Nat := byteAt pu8Data 4 <<< 8 ||| byteAt pu8Data 5

/-- `u16LastSegment`. -/
def lastSegment (pu8Data : List UInt8) : Nat :=
  (byteAt pu8Data 6 <<< 8 ||| byteAt pu8Data 7) >>> 4

/-- `u16SegmentNumber`. -/
def segmentNumber (pu8Data : List UInt8) : Nat :=
  (byteAt pu8Data 7 <<< 8 ||| byteAt pu8Data 8) &&& 0x0fff

/-- What is stored of a segment. -/
def storedBytes (pu8Data : List UInt8) : List UInt8 :=
  -- the first segment keeps the header in front of the segmentation fields
  if segmentNumber pu8Data = 0 then
    pu8Data.take 4 ++ (pu8Data.drop 9).take (pu8Data.length - 9 - 4)
  else if segmentNumber pu8Data = lastSegment pu8Data then pu8Data.drop 9
  else (pu8Data.drop 9).take (pu8Data.length - 9 - 4)

/-- The first free slot. -/
def freeSlot (slots : Nat → ScteSection) : Option Nat :=
  (List.range mtSectionMaxNum).find? fun i => !(slots i).bUsed

/-- Put a segment into the first free slot; without one it is lost. -/
def store (slots : Nat → ScteSection) (pu8Data : List UInt8) : Nat → ScteSection :=
  match freeSlot slots with
  | none => slots
  | some i =>
    Function.update slots i
      { au8Data := storedBytes pu8Data
        u16TableExtention := tableExtension pu8Data
        bUsed := true }

/-- The slot belongs to the message. -/
def ScteSection.belongs (slot : ScteSection) (ext : Nat) : Bool :=
  slot.bUsed && slot.u16TableExtention = ext

/-- The data of the message's slots, in the order of the slots. -/
def gather (slots : Nat → ScteSection) (ext : Nat) : List UInt8 :=
  ((List.range mtSectionMaxNum).filter fun i => (slots i).belongs ext).flatMap
    fun i => (slots i).au8Data

/-- The message's slots are free again. -/
def clear (slots : Nat → ScteSection) (ext : Nat) : Nat → ScteSection := fun i =>
  if i < mtSectionMaxNum ∧ (slots i).belongs ext then { slots i with bUsed := false } else slots i

/-- The length of the section is written into its header. -/
def setLength (au8SectionAddr : List UInt8) (u32SectionSize : Nat) : List UInt8 :=
  (au8SectionAddr.set 2 (UInt8.ofNat (u32sub u32SectionSize 3))).set 1
    (UInt8.ofNat (u32sub u32SectionSize 3 >>> 8))

/-- What a call returns, and the section that it hands to the parser. -/
structure InjectOut where
  ret : Int
  parsed : Option (List UInt8) := none
deriving DecidableEq

/-- Hand a section to the parser. -/
def handOver (s : DataRecv) (section_ : List UInt8) (parse : Int) : InjectOut :=
  let done := if s.u32SectionSize < mtSectionMaxSize then 0 else mtFailure
  if s.hParse ≠ 0 then
    { ret := if parse ≠ 0 then parse else done, parsed := some section_ }
  else { ret := done }

/-- `SCTE_SUBT_Data_Inject`; `parse` is what the parser returns. -/
def dataInject (s : DataRecv) (pu8Data : List UInt8) (parse : Int) : DataRecv × InjectOut :=
  if pu8Data = [] ∨ scteSectionMaxSize < pu8Data.length ∨ byteAt pu8Data 0 ≠ 0xC6 then
    (s, { ret := mtFailure })
  else if isSegmented pu8Data then
    let slots := store s.astSCTESection pu8Data
    if lastSegment pu8Data = segmentNumber pu8Data then
      let au8SectionAddr := gather slots (tableExtension pu8Data)
      let s := { s with
        astSCTESection := clear slots (tableExtension pu8Data)
        u32SectionSize := au8SectionAddr.length }
      if s.u32SectionSize > mtSectionMaxSize then (s, { ret := mtFailure })
      else (s, handOver s (setLength au8SectionAddr s.u32SectionSize) parse)
    else
      ({ s with astSCTESection := slots },
        { ret := if s.u32SectionSize < mtSectionMaxSize then 0 else mtFailure })
  else
    let s := { s with u32SectionSize := pu8Data.length }
    (s, handOver s pu8Data parse)

/-- `SCTE_SUBT_Data_Create`. -/
def dataCreate (hParse : Nat) : DataRecv := { hParse := hParse }

/-! ## The copies -/

/-- A `memcpy` of `len` bytes from an offset in some bytes to one in others. -/
structure Copy where
  src : Nat
  srcSize : Nat
  dst : Nat
  dstSize : Nat
  len : Nat
deriving DecidableEq

/-- The copies of a segment into its slot. -/
def storeCopies (pu8Data : List UInt8) : List Copy :=
  let n := pu8Data.length
  if segmentNumber pu8Data = 0 then
    [⟨0, n, 0, scteSectionMaxSize, 4⟩,
      ⟨9, n, 4, scteSectionMaxSize, u32sub (u32sub n 9) 4⟩]
  else if segmentNumber pu8Data = lastSegment pu8Data then
    [⟨9, n, 0, scteSectionMaxSize, u32sub n 9⟩]
  else [⟨9, n, 0, scteSectionMaxSize, u32sub (u32sub n 9) 4⟩]

/-- The copies of a message's slots, one behind the other. -/
def gatherCopies : List ScteSection → Nat → List Copy
  | [], _ => []
  | slot :: slots, dst =>
    ⟨0, scteSectionMaxSize, dst, mtSectionMaxSize, slot.au8Data.length⟩ ::
      gatherCopies slots (dst + slot.au8Data.length)

/-- The copies of `SCTE_SUBT_Data_Inject`. -/
def injectCopies (s : DataRecv) (pu8Data : List UInt8) : List Copy :=
  if pu8Data = [] ∨ scteSectionMaxSize < pu8Data.length ∨ byteAt pu8Data 0 ≠ 0xC6 then []
  else if isSegmented pu8Data then
    let slots := store s.astSCTESection pu8Data
    (if (freeSlot s.astSCTESection).isSome then storeCopies pu8Data else []) ++
      if lastSegment pu8Data = segmentNumber pu8Data then
        gatherCopies (((List.range mtSectionMaxNum).map slots).filter
          fun slot => slot.belongs (tableExtension pu8Data)) 0
      else []
  else [⟨0, pu8Data.length, 0, mtSectionMaxSize, pu8Data.length⟩]

/-! ## Runs -/

/-- A section, and what the parser returns when it is called. -/
structure Injection where
  pu8Data : List UInt8
  parse : Int := 0
deriving DecidableEq

/-- The sections injected one after the other. -/
def machine : Machine DataRecv Injection InjectOut where
  step s i := dataInject s i.pu8Data i.parse

end Tntsat.ScteSubtData
