import Tntsat.Native.TsSequence
import Tntsat.ForStd.CheckedLoop

/-!
# Key frames of a transport stream (`ts_sequence.c`)

`ts_seq_get_vkey_frame` looks through the packets of a buffer for a key frame of MPEG-2 video, and
copies the elementary bytes of its packets.

The buffer begins at address 0, and what is copied is the list `es`. A read outside of the buffer, a
write behind `es_data_buffer_size` and a product that an `int` does not hold stop the function with
`none`.
-/

namespace Tntsat.TsSequence

/-- `TS_PID`. -/
def tsPid (ld : Loads) (data : Int) : Option Nat :=
  (ld (data + 2)).bind fun lo =>
    (ld (data + 1)).map fun hi => lo.toNat ||| (hi &&& 0x1F).toNat <<< 8

/-! ## The search -/

/-- The variables of the search, as they are initialized. -/
structure VkeySearch where
  p_data : Nat := 0
  packet_index : Nat := 0
  i : Nat := 0
  head_frame_type : List UInt8 := [0xff, 0xff, 0xff, 0xff]
  pic_struct : UInt8 := 0
  p_data_start : Option Int := none
  p_data_mid : Int := 0
  p_data_end : Int := 0
  vkey_first_flag : Bool := false
  vkey_second_flag : Bool := false
  vkey_third_flag : Bool := false
  /-- `*pp_first_kframe_addr`, once it is written -/
  first_kframe_addr : Option Int := none

/-- All three pictures have been found. -/
def VkeySearch.found (s : VkeySearch) : Bool :=
  s.vkey_first_flag && s.vkey_second_flag && s.vkey_third_flag

/-- The loop that looks for a sync byte, with the rounds that `i < 188` leaves, and its `i`. -/
def resyncLoop (ld : Loads) : Nat → Int → Nat → Option Nat
  | 0, p1, i => (ld p1).map fun _ => i
  | rounds + 1, p1, i =>
    (ld p1).bind fun b => if b ≠ 0x47 then resyncLoop ld rounds (p1 + 1) (i + 1) else some i

/-- The three types that count as a picture. -/
def isPictureType (type : UInt8) : Bool := type = iFrame ∨ type = pFrame ∨ type = bFrame

/-- `p_data_start` and `*pp_first_kframe_addr`. -/
def VkeySearch.startAt (s : VkeySearch) (a : Int) : VkeySearch :=
  { s with p_data_start := some a, first_kframe_addr := some a }

/-- What is done with the frame type of the packet at `p_temp`. -/
def mpegFrame (p_temp : Int) (type : UInt8) (iframe_with_gop : Nat) (s : VkeySearch) : VkeySearch :=
  if type = iFrame ∧ !s.vkey_first_flag then
    if iframe_with_gop = 5 then { s.startAt (p_temp - 188) with vkey_first_flag := true }
    else if iframe_with_gop = 4 then s.startAt (p_temp - 188)
    else if iframe_with_gop = 3 then { s.startAt p_temp with vkey_first_flag := true }
    else if iframe_with_gop = 2 ∧ s.p_data_start.isSome then { s with vkey_first_flag := true }
    else if iframe_with_gop = 1 then s.startAt p_temp
    else s
  else if isPictureType type ∧ s.vkey_first_flag ∧ !s.vkey_second_flag then
    { s with vkey_second_flag := true, p_data_mid := p_temp }
  else if isPictureType type ∧ s.vkey_second_flag ∧ !s.vkey_third_flag then
    { s with vkey_third_flag := true, p_data_end := p_temp }
  else
    s

/-- A packet of the video PID. -/
def videoPacket (ld : Loads) (p_temp : Int) (s : VkeySearch) : Option VkeySearch :=
  (xCheckFrameType1 ld p_temp s.head_frame_type s.pic_struct 188).bind fun c =>
    c.pictureCodingType.map fun type =>
      mpegFrame p_temp type c.iframe_with_gop
        { s with head_frame_type := c.head_frame_type, pic_struct := c.pic_struct }

/-- A round of the search. -/
def searchStep (ld : Loads) (vpid : Int) (s : VkeySearch) : Option VkeySearch :=
  let p_temp : Int := (s.p_data + s.packet_index * 188 : Nat)
  let next := { s with packet_index := s.packet_index + 1 }
  if 2147483648 ≤ s.packet_index * 188 then none
  else
    (ld p_temp).bind fun b =>
      if b ≠ 0x47 then
        -- `i` goes on from the last time
        (resyncLoop ld (188 - s.i) p_temp s.i).map fun i =>
          { next with i := i, p_data := s.p_data + i }
      else
        (tsPid ld p_temp).bind fun pid =>
          if (pid : Int) = vpid then videoPacket ld p_temp next else some next

/-- The search through the packets of a buffer. -/
def searchPackets (ld : Loads) (vpid : Int) (len : Nat) : Option VkeySearch :=
  checkedLoop (searchStep ld vpid) VkeySearch.found (len / 188) {}

/-! ## The copy -/

/-- The variables of the copy. -/
structure EsCopy where
  p_data_start : Int
  /-- `*p_data_len` -/
  data_len : Nat := 0
  data_mid_len : Nat := 0
  mid_pos_flay : Bool := false
  /-- the bytes from `p_es_packet` to `p_es_data` -/
  es : List UInt8 := []

/-- The elementary bytes of a packet, `es_payload_len` of them. -/
def copyPayload (ld : Loads) (es_data_buffer_size : Nat) (p_es_payload_start es_payload_len : Int)
    (s : EsCopy) : Option EsCopy :=
  (loadBytes ld p_es_payload_start es_payload_len.toNat).bind fun bytes =>
    if s.es.length + bytes.length ≤ es_data_buffer_size then
      some { s with data_len := u32OfInt (s.data_len + es_payload_len), es := s.es ++ bytes }
    else
      none

/-- A packet of the video PID is copied. -/
def copyPacket (ld : Loads) (es_data_buffer_size : Nat) (s : EsCopy) : Option EsCopy := do
  let start_bit ← payloadUnitStart ld s.p_data_start
  let p_pes_packet_start ← pesPacketStart ld s.p_data_start
  let ts_header_len := p_pes_packet_start - s.p_data_start
  if start_bit then
    if u32OfInt (188 - ts_header_len) ≥ 4 then
      (pesDataStart ld p_pes_packet_start).bind fun p_es_payload_start =>
        copyPayload ld es_data_buffer_size p_es_payload_start
          (188 - (p_es_payload_start - p_pes_packet_start) - ts_header_len) s
    else
      some s
  else
    copyPayload ld es_data_buffer_size p_pes_packet_start (188 - ts_header_len) s

/-- A round of the copy. -/
def copyStep (ld : Loads) (vpid : Int) (es_data_buffer_size : Nat) (p_data_mid : Int)
    (s : EsCopy) : Option EsCopy :=
  let s :=
    if s.p_data_start ≥ p_data_mid ∧ !s.mid_pos_flay then
      { s with mid_pos_flay := true, data_mid_len := s.data_len }
    else
      s
  (tsPid ld s.p_data_start).bind fun pid =>
    (if (pid : Int) = vpid then copyPacket ld es_data_buffer_size s else some s).map fun s =>
      { s with p_data_start := s.p_data_start + 188 }

/-! ## `ts_seq_get_vkey_frame` -/

/-- What `ts_seq_get_vkey_frame` returns and leaves in its parameters. -/
structure VkeyFrame where
  result : Bool
  /-- `*p_len` -/
  len : Nat
  es : List UInt8
  /-- `*pp_first_kframe_addr`, where it is written -/
  first_kframe_addr : Option Int

/-- `ts_seq_get_vkey_frame` for `MPEG_TYPE_CODE`. -/
def tsSeqGetVkeyFrame (ld : Loads) (len es_data_buffer_size : Nat) (vpid : Int) :
    Option VkeyFrame :=
  (searchPackets ld vpid len).bind fun s =>
    if s.found then
      s.p_data_start.bind fun p_data_start =>
        (checkedLoop (copyStep ld vpid es_data_buffer_size s.p_data_mid) (fun _ => false)
            ((s.p_data_end - p_data_start) / 188).toNat { p_data_start }).map fun c =>
          { result := true
            len := if s.pic_struct = 3 then c.data_mid_len else c.data_len
            es := c.es
            first_kframe_addr := s.first_kframe_addr }
    else
      some ⟨false, len, [], s.first_kframe_addr⟩

end Tntsat.TsSequence
