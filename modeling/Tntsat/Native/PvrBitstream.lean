import Mathlib.Algebra.Group.Nat.Defs
import Mathlib.Data.UInt
import Tntsat.ForStd.CInt
import Tntsat.ForStd.LittleEndian
import Tntsat.ForStd.Machine

/-!
# The bit reader of the recorder (`drv_demux_bitstream.c`)

`PVR_BS` keeps two 32-bit words of the input, the bit position in the first of them and the
address of the word behind the second. Memory is a function from addresses to bytes, and the
words are read from it little end first.
-/

namespace Tntsat.PvrBitstream

/-- `PVR_BS`. -/
structure PvrBs where
  pHead : Nat
  pTail : Nat
  Bufa : UInt32
  Bufb : UInt32
  BsLen : Int
  BufPos : Int
  TotalPos : Int

/-- A 32-bit word of memory. -/
def load (mem : Nat → UInt8) (p : Nat) : UInt32 :=
  UInt32.ofNat (ofLe [mem p, mem (p + 1), mem (p + 2), mem (p + 3)])

/-- `ENDIAN32`. -/
def endian32 (x : UInt32) : UInt32 :=
  (x <<< 24) ||| ((x &&& 0x0000ff00) <<< 8) ||| ((x &&& 0x00ff0000) >>> 8) |||
    ((x >>> 24) &&& 0x000000ff)

/-- A shift by a number of bits that is an `int`. -/
def shl (x : UInt32) (n : Int) : UInt32 := x <<< UInt32.ofNat n.toNat

/-- A shift to the right. -/
def shr (x : UInt32) (n : Int) : UInt32 := x >>> UInt32.ofNat n.toNat

/-- `PvrBsInit`; the mask `0xfffffffc` is an unsigned 32-bit constant. -/
def pvrBsInit (mem : Nat → UInt8) (pInput : Nat) (length : Int) : PvrBs :=
  let pHead := pInput &&& 0xfffffffc
  { pHead := pHead
    pTail := pHead + 8
    BsLen := length
    Bufa := endian32 (load mem pHead)
    Bufb := endian32 (load mem (pHead + 4))
    BufPos := ((pInput &&& 0x3) <<< 3 : Nat)
    TotalPos := 0 }

/-- `PvrBsPos`. -/
def pvrBsPos (pBS : PvrBs) : Int := pBS.TotalPos

/-- `PvrBsShow`: the bits are returned as an `int`. -/
def pvrBsShow (pBS : PvrBs) (nBits : Int) : Int :=
  let ABBufPos := nBits + pBS.BufPos
  let Data :=
    if ABBufPos > 32 then
      shr (shl pBS.Bufa pBS.BufPos ||| shr pBS.Bufb (32 - pBS.BufPos)) (32 - nBits)
    else shr (shl pBS.Bufa pBS.BufPos) (32 - nBits)
  s32 Data.toNat

/-- `PvrBsSkip`. -/
def pvrBsSkip (mem : Nat → UInt8) (pBS : PvrBs) (nBits : Int) : PvrBs × Int :=
  let ABBufPos := nBits + pBS.BufPos
  let pBS := { pBS with TotalPos := s32 (pBS.TotalPos + nBits) }
  if ABBufPos ≥ 32 then
    ({ pBS with
        BufPos := ABBufPos - 32
        Bufa := pBS.Bufb
        Bufb := endian32 (load mem pBS.pTail)
        pTail := pBS.pTail + 4 }, nBits)
  else ({ pBS with BufPos := pBS.BufPos + nBits }, nBits)

/-- `PvrBsBack`. -/
def pvrBsBack (mem : Nat → UInt8) (pBS : PvrBs) (nBits : Int) : PvrBs × Int :=
  let nBits := if nBits > pBS.TotalPos then pBS.TotalPos else nBits
  let PredBufPos := pBS.BufPos - nBits
  let pBS := { pBS with TotalPos := s32 (pBS.TotalPos - nBits) }
  if PredBufPos ≥ 0 then ({ pBS with BufPos := PredBufPos }, nBits)
  else
    ({ pBS with
        pTail := pBS.pTail - 4
        Bufb := pBS.Bufa
        Bufa := endian32 (load mem (pBS.pTail - 4 - 8))
        BufPos := PredBufPos + 32 }, nBits)

/-- `PvrBsLongSkip`; `bits` and `words` are unsigned. -/
def pvrBsLongSkip (mem : Nat → UInt8) (pBS : PvrBs) (nBits : Int) : PvrBs × Int :=
  if nBits = 0 then (pBS, 0)
  else if nBits ≤ 64 then
    if nBits > 32 then
      let pBS := (pvrBsSkip mem pBS 32).1
      ((pvrBsSkip mem pBS (nBits - 32)).1, nBits - 32)
    else ((pvrBsSkip mem pBS nBits).1, nBits)
  else
    -- up to the end of the first word, then whole words, then what is left
    let bits := 32 - pBS.BufPos
    let pBS := { pBS with TotalPos := s32 (pBS.TotalPos + bits), BufPos := 0 }
    let nBits := nBits - bits
    let words := (nBits / 32).toNat
    let bits := nBits % 32
    let pTail := pBS.pTail + 4 * (words - 1)
    let pBS :=
      { pBS with
        Bufa := endian32 (load mem pTail)
        Bufb := endian32 (load mem (pTail + 4))
        pTail := pTail + 4 + 4
        TotalPos := s32 (pBS.TotalPos + words * 32) }
    if bits > 0 then ((pvrBsSkip mem pBS bits).1, nBits) else (pBS, nBits)

/-- What a caller may do with the reader. -/
inductive Call
  | show (nBits : Nat)
  | skip (nBits : Nat)
  | back (nBits : Nat)
  | longSkip (nBits : Nat)
deriving DecidableEq

/-- One call: the reader behind it, and what it returns. -/
def call (mem : Nat → UInt8) (pBS : PvrBs) : Call → PvrBs × Int
  | .show nBits => (pBS, pvrBsShow pBS nBits)
  | .skip nBits => pvrBsSkip mem pBS nBits
  | .back nBits => pvrBsBack mem pBS nBits
  | .longSkip nBits => pvrBsLongSkip mem pBS nBits

end Tntsat.PvrBitstream
