import Tntsat.Native.PvrIndex

/-!
# The type of an H.264 slice

`h264_get_frame_type_by_sc_` of `msp/drv/pvr/drv_pvr_intf.c` reads two Exp-Golomb codes
from the four bytes behind a start code, with `code_check_get_ue`.

A read behind the last byte of the buffer ends the model of `code_check_get_ue`.  The
number it leaves in `info` is an `int`, and 1 cannot be shifted by more than 30 bits there;
that is tested at the end.
-/

namespace Tntsat.SliceHeader

open PvrIndex (FrameType)

/-- What `code_check_get_ue` comes to. -/
inductive UeRes where
  /-- the byte at `byteoffset` is read, which the buffer does not have -/
  | pastEnd (byteoffset : Nat)
  /-- 1 is shifted out of the range of `int` -/
  | overflow
  /-- -1 is returned -/
  | fails
  | code (bitcounter info : Nat)
deriving DecidableEq

/-- The bit behind this one. -/
def nextBit (byteoffset bitoffset : Nat) : Nat × Nat :=
  if bitoffset = 0 then (byteoffset + 1, 7) else (byteoffset, bitoffset - 1)

/-- The loop that looks for the leading 1: the bit it stops at, and `len`.  `rest` counts
    the bits from here to the end of the buffer; behind them it reads on. -/
def findLeadingOne (buffer : List UInt8) :
    Nat → Nat → Nat → Nat → Except UeRes (Nat × Nat × Nat)
  | 0, byteoffset, _, _ => .error (.pastEnd byteoffset)
  | rest + 1, byteoffset, bitoffset, len =>
    match buffer[byteoffset]? with
    | none => .error (.pastEnd byteoffset)
    | some byte =>
      if byte.toNat.testBit bitoffset then .ok (byteoffset, bitoffset, len)
      else
        let (byteoffset, bitoffset) := nextBit byteoffset bitoffset
        findLeadingOne buffer rest byteoffset bitoffset (len + 1)

/-- The loop that makes the infoword, for as many rounds as it has left. -/
def makeInfoword (buffer : List UInt8) (bytecount : Nat) :
    Nat → Nat → Nat → Nat → Except UeRes Nat
  | 0, _, _, inf => .ok inf
  | rounds + 1, byteoffset, bitoffset, inf =>
    let (byteoffset, bitoffset) := nextBit byteoffset bitoffset
    -- the byte at `bytecount` itself passes this test
    if byteoffset > bytecount then .error .fails
    else
      match buffer[byteoffset]? with
      | none => .error (.pastEnd byteoffset)
      | some byte =>
        makeInfoword buffer bytecount rounds byteoffset bitoffset
          (inf * 2 + (byte.toNat.testBit bitoffset).toNat)

/-- `code_check_get_ue`. -/
def codeCheckGetUe (buffer : List UInt8) (totbitoffset bytecount : Nat) : UeRes :=
  match findLeadingOne buffer (8 * buffer.length - totbitoffset) (totbitoffset / 8)
      (7 - totbitoffset % 8) 1 with
  | .error res => res
  | .ok (byteoffset, bitoffset, len) =>
    match makeInfoword buffer bytecount (len - 1) byteoffset bitoffset 0 with
    | .error res => res
    | .ok inf =>
      let bitcounter := len + (len - 1)
      -- `1 << (bitcounter >> 1)` of an `int`
      if bitcounter / 2 > 30 then .overflow
      else .code bitcounter (2 ^ (bitcounter / 2) + inf - 1)

/-- The bytes of a word, the most significant one first. -/
def sliceBytes (w : Nat) : List UInt8 :=
  [UInt8.ofNat (w / 16777216), UInt8.ofNat (w / 65536), UInt8.ofNat (w / 256), UInt8.ofNat w]

/-- The frame type of a `slice_type`. -/
def frameTypeOf (slice_type : Nat) : FrameType :=
  if slice_type = 0 ∨ slice_type = 5 then .p
  else if slice_type = 1 ∨ slice_type = 6 then .b
  else if slice_type = 3 ∨ slice_type = 8 then .p
  else if slice_type = 2 ∨ slice_type = 7 then .i
  else if slice_type = 4 ∨ slice_type = 9 then .i
  else .b

/-- `h264_get_frame_type_by_sc_` for the second word of a header: `enFrameType`, or what
    goes wrong in reading a code. -/
def h264GetFrameTypeBySc (u32HdrData1 : Nat) : Except UeRes FrameType :=
  let slice := sliceBytes u32HdrData1
  match codeCheckGetUe slice 0 4 with
  -- `slice_type` is still `MT_UNF_FRAME_TYPE_B`, which is not 0
  | .fails => .ok .b
  | .code offset slice_type =>
    if slice_type = 0 then
      match codeCheckGetUe slice offset 4 with
      | .fails => .ok (frameTypeOf slice_type)
      | .code _ slice_type => .ok (frameTypeOf slice_type)
      | res => .error res
    else .ok .b
  | res => .error res

end Tntsat.SliceHeader
