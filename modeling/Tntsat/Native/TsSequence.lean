import Tntsat.ForStd.CInt

/-!
# Pictures in a transport stream (`ts_sequence.c`)

`x_check_frame_type1` looks for a picture start code of MPEG-2 video in one packet of 188 bytes. The
last four elementary bytes of the packet before are kept in `head_frame_type`, and searched together
with the first four of this one.

A pointer is an address; a byte is read through `Loads`, which knows the bytes of a buffer and gives
`none` elsewhere. A function that reads outside stops with `none`.
-/

namespace Tntsat.TsSequence

/-- What can be read at an address. -/
abbrev Loads := Int → Option UInt8

/-- A buffer that begins at address 0. -/
def loadsOf (bytes : List UInt8) : Loads := fun a =>
  if 0 ≤ a then bytes[a.toNat]? else none

/-- The numbers of `video_frame_t`. -/
def iFrame : UInt8 := 1
def pFrame : UInt8 := 2
def bFrame : UInt8 := 3

/-! ## Start codes -/

/-- One operand of `&&`: what follows is read only where the byte is `b`. -/
def expect (ld : Loads) (a : Int) (b : UInt8) (rest : Option Bool) : Option Bool :=
  (ld a).bind fun c => if c = b then rest else some false

/-- `PRE_START_CODE(x)` and a test of the bytes behind. -/
def startCode (ld : Loads) (x : Int) (rest : Option Bool) : Option Bool :=
  expect ld x 0x00 (expect ld (x + 1) 0x00 (expect ld (x + 2) 0x01 rest))

/-- `IS_PICTURE_START_CODE`. -/
def isPictureStartCode (ld : Loads) (x : Int) : Option Bool :=
  startCode ld x (expect ld (x + 3) 0x00 (some true))

/-- `IS_GOP_START_CODE`. -/
def isGopStartCode (ld : Loads) (x : Int) : Option Bool :=
  startCode ld x (expect ld (x + 3) 0xB8 (some true))

/-- The test in `mpeg_picture_coding_extension_parser`. -/
def isPictureCodingExtension (ld : Loads) (x : Int) : Option Bool :=
  startCode ld x (expect ld (x + 3) 0xb5 ((ld (x + 4)).map fun c => c &&& 0xf0 = 0x80))

/-- A loop over positions from `i` on, with a number of rounds left, that ends at the first position
that meets a test. -/
def searchLoop (test : Nat → Option Bool) : Nat → Nat → Option (Option Nat)
  | 0, _ => some none
  | rounds + 1, i =>
    (test i).bind fun found => if found then some (some i) else searchLoop test rounds (i + 1)

/-- `mpeg_picture_coding_extension_parser`: the value of `*picture_structure`. -/
def mpegPictureCodingExtensionParser (ld : Loads) (p_data len : Int) : Option UInt8 :=
  (searchLoop (fun i => isPictureCodingExtension ld (p_data + i)) (len - 4).toNat 0).bind fun
    | some i => (ld (p_data + i + 6)).map fun c => c &&& 0x3
    | none => some 3

/-! ## Headers -/

/-- `PAYLOAD_UNIT_START`. -/
def payloadUnitStart (ld : Loads) (data : Int) : Option Bool :=
  expect ld data 0x47 ((ld (data + 1)).map fun c => c &&& 0x40 = 0x40)

/-- `pes_packet_start`, without the payload that no caller uses. -/
def pesPacketStart (ld : Loads) (p_data : Int) : Option Int :=
  (ld (p_data + 3)).bind fun c =>
    if (c &&& 0x30) >>> 4 ≥ 2 then
      (ld (p_data + 4)).map fun l => p_data + (l + 5).toNat
    else
      some (p_data + 4)

/-- `pes_data_start`, without the payload that no caller uses. -/
def pesDataStart (ld : Loads) (p_data : Int) : Option Int :=
  (ld (p_data + 8)).map fun l => p_data + (l + 9).toNat

/-! ## `x_check_frame_type1` -/

/-- What `x_check_frame_type1` returns, and what it leaves in its parameters. -/
structure FrameCheck where
  /-- the result; `none` is a byte from behind `temp` -/
  pictureCodingType : Option UInt8
  iframe_with_gop : Nat
  head_frame_type : List UInt8
  pic_struct : UInt8

/-- The state of the scan behind its last round. -/
structure Scan where
  is_picture_start_code : Bool
  i : Nat
  have_gop : Bool
  pic_struct : UInt8

/-- The type in the byte two behind a picture start code. -/
def codingType (c : UInt8) : UInt8 := (c &&& 0x38) >>> 3

/-- `memcpy` from memory. -/
def loadBytes (ld : Loads) : Int → Nat → Option (List UInt8)
  | _, 0 => some []
  | a, n + 1 => (ld a).bind fun b => (loadBytes ld (a + 1) n).map (b :: ·)

/-- `mpeg_picture_coding_extension_parser` where a condition holds. -/
def parseIf (c : Bool) (ld : Loads) (p_data len : Int) (pic_struct : UInt8) : Option UInt8 :=
  if c then mpegPictureCodingExtensionParser ld p_data len else some pic_struct

/-- The scan for start codes: the rounds left and the position that has been tested. -/
def scanLoop (ld : Loads) (p_data es_payload_len : Int) : Nat → Nat → Bool → UInt8 → Option Scan
  | 0, i, have_gop, pic_struct => some ⟨false, i, have_gop, pic_struct⟩
  | rounds + 1, i, have_gop, pic_struct => do
    let picture ← isPictureStartCode ld (p_data + (i + 1 : Nat))
    let gop ← isGopStartCode ld (p_data + (i + 1 : Nat))
    let pic_struct ← parseIf gop ld (p_data + (i + 1 : Nat)) (es_payload_len - (i + 1 : Nat))
      pic_struct
    if picture then some ⟨true, i + 1, have_gop || gop, pic_struct⟩
    else scanLoop ld p_data es_payload_len rounds (i + 1) (have_gop || gop) pic_struct

/-- The scan with its first test. A group start code there ends it as well. -/
def scan (ld : Loads) (p_data es_payload_len : Int) (pic_struct : UInt8) : Option Scan := do
  let picture ← isPictureStartCode ld p_data
  let gop ← isGopStartCode ld p_data
  if picture || gop then some ⟨picture, 0, false, pic_struct⟩
  else scanLoop ld p_data es_payload_len (es_payload_len - 3).toNat 0 false pic_struct

/-- The type of a picture that the scan has found. -/
def scannedType (ld : Loads) (p_data es_payload_len : Int) (s : Scan) : Option UInt8 :=
  if s.is_picture_start_code ∧ (s.i + 5 : Nat) < es_payload_len then
    (ld (p_data + s.i + 5)).map codingType
  else
    some 0

/-- `*iframe_with_gop` and the result, from the group start codes that have been seen. -/
def markGop (picture_coding_type : UInt8) (have_gop_last have_gop : Bool) : Nat × UInt8 :=
  if picture_coding_type = iFrame ∧ have_gop_last then (5, picture_coding_type)
  else if picture_coding_type ≠ iFrame ∧ have_gop_last then (4, picture_coding_type)
  else if picture_coding_type = iFrame ∧ have_gop then (3, picture_coding_type)
  else if picture_coding_type = iFrame ∧ !have_gop then (2, picture_coding_type)
  else if picture_coding_type ≠ iFrame ∧ have_gop then (1, iFrame)
  else (0, picture_coding_type)

/-- `x_check_frame_type1` behind the search of the carried bytes, where no picture is found. -/
def checkScanned (ld : Loads) (p_data es_payload_len : Int) (have_gop_last : Bool)
    (head : List UInt8) (pic_struct : UInt8) : Option FrameCheck := do
  let s ← scan ld p_data es_payload_len pic_struct
  let type ← scannedType ld p_data es_payload_len s
  let marked := markGop type have_gop_last s.have_gop
  some ⟨some marked.2, marked.1, head, s.pic_struct⟩

/-- The search of the carried bytes and of the first four of the payload, `temp`. -/
def checkCarried (ld : Loads) (p_data es_payload_len : Int) (temp head : List UInt8)
    (pic_struct : UInt8) : Option FrameCheck := do
  let picture ← searchLoop (fun k => isPictureStartCode (loadsOf temp) k) 4 0
  let gop ← searchLoop (fun k => isGopStartCode (loadsOf temp) k) 4 0
  let pic_struct ← parseIf gop.isSome ld p_data es_payload_len pic_struct
  match picture with
  | some k =>
    let pic_struct ← mpegPictureCodingExtensionParser ld p_data es_payload_len
    some ⟨(temp[k + 5]?).map codingType, 2, head, pic_struct⟩
  | none => checkScanned ld p_data es_payload_len gop.isSome head pic_struct

/-- The elementary payload of a packet. -/
def checkPayload (ld : Loads) (p_data es_payload_len : Int) (head_frame_type : List UInt8)
    (pic_struct : UInt8) : Option FrameCheck := do
  let first ← loadBytes ld p_data 4
  let head ← loadBytes ld (p_data + es_payload_len - 4) 4
  checkCarried ld p_data es_payload_len (head_frame_type ++ first) head pic_struct

/-- `x_check_frame_type1`. -/
def xCheckFrameType1 (ld : Loads) (p_ts_packet : Int) (head_frame_type : List UInt8)
    (pic_struct : UInt8) (len : Int) : Option FrameCheck := do
  let start_bit ← payloadUnitStart ld p_ts_packet
  let p_pes_data_start ← pesPacketStart ld p_ts_packet
  let ts_header_len := p_pes_data_start - p_ts_packet
  -- the payload is unsigned: a header that is longer than the packet leaves a large one
  let payload := u32OfInt (len - ts_header_len)
  if payload ≥ 4 then
    if start_bit then
      (pesDataStart ld p_pes_data_start).bind fun p_es_payload_start =>
        checkPayload ld p_es_payload_start
          (len - (p_es_payload_start - p_pes_data_start) - ts_header_len) head_frame_type pic_struct
    else
      checkPayload ld p_pes_data_start (s32 payload) head_frame_type pic_struct
  else
    some ⟨some 0, 0, head_frame_type, pic_struct⟩

end Tntsat.TsSequence
