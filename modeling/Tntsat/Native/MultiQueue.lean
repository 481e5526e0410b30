import Mathlib.Algebra.Group.Nat.Defs
import Mathlib.Logic.Function.Basic
import Tntsat.Native.DownloadFile

/-!
# The segment queues

`kware/libdownload/smart_http/multiqueue.c` in the mode `NORMAL_BUF_M`: a fixed number of
queues of the same length, each of which holds one segment at a time.

The block a queue owns is a memory of its own, addressed from `head_addr` on.  That
pointer is one to `unsigned long`, so position `p` of a queue lies `sizeof(ulong) * p`
bytes behind it.  The fields that only `RING_BUF_M` or a message reads are left out, and
with them `abort_flag`.
-/

namespace Tntsat.SmartHttp

/-- `INVALID_JOB_ID`. -/
def invalidJobId : Int := -1

/-- `INVALID_SEEK_POS`. -/
def invalidSeekPos : Int := -9999

/-- `MAX_JOB_TOTAL`. -/
def maxJobTotal : Int := 100

/-- `FILE_RANGE`. -/
structure FileRange where
  start_pos : Int := invalidSeekPos
  end_pos : Int := invalidSeekPos
deriving DecidableEq

/-- `DATA_SEGMENT_QUEUE`. -/
structure DataSegmentQueue where
  mem : Memory UInt8
  read_pos : Nat := 0
  write_pos : Nat := 0
  job_id : Int := invalidJobId
  cur_range : FileRange := {}
  used_flag : Bool := false
  complete_job_flag : Bool := false

/-- `MULTI_QUEUE_HANDLE`; `len` is the length of every queue. -/
structure MultiQueueHandle where
  len : Nat
  total : Nat
  seg_queue : Nat → DataSegmentQueue
  cur_queue : Option Nat := none
  seek_pending : Bool := false
  seek_pos : Int := invalidSeekPos

namespace MultiQueueHandle

/-- Store a queue back. -/
def setQueue (m : MultiQueueHandle) (q : Nat) (queue : DataSegmentQueue) : MultiQueueHandle :=
  { m with seg_queue := Function.update m.seg_queue q queue }

/-- One round of the loop of `mutiQueue_find_dataready`: the lowest job id so far and the
    queue that holds it. -/
def findRound (m : MultiQueueHandle) (acc : Int × Option Nat) (i : Nat) : Int × Option Nat :=
  let queue := m.seg_queue i
  if queue.used_flag ∧ queue.job_id ≠ invalidJobId ∧ queue.job_id < acc.1 then
    (queue.job_id, some i)
  else acc

/-- `mutiQueue_find_dataready`; `baseJobID` is 0. -/
def findDataready (m : MultiQueueHandle) : Option Nat :=
  ((List.range m.total).foldl m.findRound ((m.seg_queue 0).job_id + maxJobTotal, none)).2

/-- The queue that `mutiQueue_take_one_queue` takes. -/
def firstUnused (m : MultiQueueHandle) : Option Nat :=
  (List.range m.total).find? fun i => !(m.seg_queue i).used_flag

end MultiQueueHandle

end Tntsat.SmartHttp
