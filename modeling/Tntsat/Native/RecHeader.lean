import Tntsat.ForStd.Memory
import Tntsat.Native.DemuxSw

/-!
# The bytes behind a start code

`dmx_rec_get_remain_stc` of `msp/drv/pvr/drv_pvr_intf.c`, and the part of
`dmx_rec_get_index_data` that copies the bytes behind a start code to the header of a
record.  They may lie in several TS packets of the recording buffer, which goes on at its
start.

The header is a memory that takes any address.  A copy never asks for more bytes than are
behind the header of a packet: `need` is at most 12.
-/

namespace Tntsat.RecHeader

open DemuxSw (TsPacket byteAt)

/-- The PID of a packet. -/
def pidOf (ts_head : TsPacket) : Nat :=
  ((byteAt ts_head.bytes 1).toNat * 256 + (byteAt ts_head.bytes 2).toNat) % 8192

/-- The adaptation field control of a packet. -/
def adaptationControl (ts_head : TsPacket) : Nat := (byteAt ts_head.bytes 3).toNat / 16 % 4

/-- `dmx_rec_get_remain_stc` for the packets from `ts_align` up to `ts_end`: what is written
    from address `buf` on, and the number that is returned. -/
def getRemainStc (pid : Nat) (buf : Nat) :
    List TsPacket → Memory UInt8 → Nat → Nat → Memory UInt8 × Nat
  | [], m, cpyed, _ => (m, cpyed)
  | ts_head :: packets, m, cpyed, need =>
    -- a packet that is out of sync ends the search
    if byteAt ts_head.bytes 0 ≠ 0x47 then (m, cpyed)
    else if pidOf ts_head ≠ pid then getRemainStc pid buf packets m cpyed need
    else if adaptationControl ts_head = 1 then
      -- a whole payload has room for what is still needed
      (m.write (buf + cpyed) ((ts_head.bytes.drop 4).take need), cpyed + need)
    else if adaptationControl ts_head = 3 then
      let skip := 4 + 1 + (byteAt ts_head.bytes 4).toNat
      -- an adaptation field that takes the whole packet
      if 188 ≤ skip then getRemainStc pid buf packets m cpyed need
      else if skip + need ≤ 188 then
        (m.write (buf + cpyed) ((ts_head.bytes.drop skip).take need), cpyed + need)
      else
        let tmpcpyed := if 188 - skip > need then need else 188 - skip
        let m := m.write (buf + cpyed) ((ts_head.bytes.drop skip).take tmpcpyed)
        -- the bytes of the last piece are counted twice; `need` is more than this packet has,
        -- so the branch is not taken
        if need - tmpcpyed = 0 then (m, cpyed + tmpcpyed + tmpcpyed)
        else getRemainStc pid buf packets m (cpyed + tmpcpyed) (need - tmpcpyed)
    else getRemainStc pid buf packets m cpyed need

/-- `NORMAL_CPYLEN` and `VC1_CPYLEN`. -/
def cpyLen (vc1 : Bool) : Nat := if vc1 then 12 else 8

/-- The part of `dmx_rec_get_index_data` that copies the bytes behind the start code at
    `poff` of packet `pnum` to the header at `u8ptr`. -/
def copyHeader (vc1 : Bool) (packets : List TsPacket) (pnum : Fin packets.length)
    (poff : Fin 188) (u8ptr : Nat) (m : Memory UInt8) : Memory UInt8 :=
  let rdaddr := packets.get pnum
  let cpymax := cpyLen vc1
  let firstcpy := if cpymax < 188 - poff then cpymax else 188 - poff
  let m := m.write u8ptr ((rdaddr.bytes.drop poff).take firstcpy)
  if cpymax > firstcpy then
    let pid := pidOf rdaddr
    let (m, cpyed) :=
      getRemainStc pid (u8ptr + firstcpy) (packets.drop (pnum + 1)) m 0 (cpymax - firstcpy)
    if cpyed ≠ cpymax - firstcpy then
      -- the recording buffer goes on at its start
      (getRemainStc pid (u8ptr + firstcpy + cpyed) (packets.take pnum) m 0
        (cpymax - firstcpy - cpyed)).1
    else m
  else m

end Tntsat.RecHeader
