import Tntsat.ForStd.CInt
import Tntsat.ForStd.Machine
import Tntsat.ForStd.Ring

/-!
# The caption byte FIFO (`mt_cc_fifo.c`)

`cc_fifo_put` copies caption bytes into a ring of 4096 bytes, `cc_fifo_get` hands out all unread
ones once there are six. Only the two positions are kept.
-/

namespace Tntsat.CcFifo

/-- `CC_FIFO_TOTAL_LENGTH`. -/
def ccFifoTotalLength : Nat := 4 * 1024

/-- `cc_fifo_inserter_struct`; the addresses of `fifo_buff` start at 0. -/
structure CcFifoInserter where
  fifo_read_p : Nat
  fifo_write_p : Nat
  fifo_buff : Memory UInt8

/-- `g_p_cc_data`. -/
abbrev State := Option CcFifoInserter

/-- `cc_fifo_init`; the block from `CcMalloc` holds anything. -/
def ccFifoInit (fifo_buff : Memory UInt8) : State :=
  some { fifo_read_p := 0, fifo_write_p := 0, fifo_buff := fifo_buff }

/-- `cc_fifo_put`: the state behind it and whether it returns `MT_SUCCESS`. -/
def ccFifoPut (ccDisplayOnOff : Bool) (g_p_cc_data : State) (cc_data : List UInt8) :
    State × Bool :=
  if ccDisplayOnOff = false then (g_p_cc_data, true)
  else if cc_data.length > ccFifoTotalLength then (g_p_cc_data, false)
  else if cc_data.length = 0 then (g_p_cc_data, false)
  else
    match g_p_cc_data with
    | none => (none, false)
    | some f =>
      (some
        { f with
          fifo_buff := f.fifo_buff.writeRing 0 ccFifoTotalLength f.fifo_write_p cc_data
          fifo_write_p := u32 (f.fifo_write_p + cc_data.length) % ccFifoTotalLength }, true)

/-- `cc_fifo_get`: the state behind it, whether it returns `MT_SUCCESS`, and the `*length` bytes
in `data`. -/
def ccFifoGet (g_p_cc_data : State) : State × Bool × List UInt8 :=
  match g_p_cc_data with
  | none => (none, false, [])
  | some f =>
    let wp := f.fifo_write_p
    if f.fifo_read_p = wp then (some f, true, [])
    else if wp > f.fifo_read_p then
      let len := wp - f.fifo_read_p
      if len ≥ 6 then
        (some { f with fifo_read_p := f.fifo_read_p + len }, true,
          f.fifo_buff.read f.fifo_read_p len)
      else (some f, true, [])
    else
      let len1 := ccFifoTotalLength - f.fifo_read_p
      let len2 := wp
      if len1 + len2 ≥ 6 then
        (some { f with fifo_read_p := wp }, true,
          f.fifo_buff.read f.fifo_read_p len1 ++ f.fifo_buff.read 0 len2)
      else (some f, true, [])

/-- Bytes that a caller may put: at least one, and no more than the FIFO has. -/
structure Chunk where
  bytes : List UInt8
  length_pos : 0 < bytes.length
  length_le : bytes.length ≤ ccFifoTotalLength

/-- A call to the FIFO. -/
inductive Call
  | put (cc_data : Chunk)
  | get

/-- What a call reports: success of a put, the bytes of a get. -/
inductive Reply
  | put (success : Bool)
  | got (data : List UInt8)

/-- The FIFO while captions are switched on. -/
def machine : Machine State Call Reply where
  step s
    | .put cc_data =>
      let r := ccFifoPut true s cc_data.bytes
      (r.1, .put r.2)
    | .get =>
      let r := ccFifoGet s
      (r.1, .got r.2.2)

end Tntsat.CcFifo
