import Tntsat.ForStd.CInt
import Tntsat.ForStd.Ring
import Tntsat.ForStd.Queue

/-!
# The subtitle fifo

`kware/libmonplayer/ts_seq/fifo_kw.c`.  Positions are addresses, as in
`fifo_type_t`; the buffer is `[startPos, endPos)` of a flat memory, so the
four-byte copy of a record's length field reads whatever lies behind `endPos`
when the field straddles the end.  Each call is atomic under the fifo's mutex,
which is not modelled; neither is `mem_malloc`, which only `deinit_fifo_kw`
reads.
-/

namespace Tntsat.FifoKw

/-- `fifo_type_t`. -/
structure FifoType where
  len : Nat
  rdPos : Nat
  wrPos : Nat
  endPos : Nat
  startPos : Nat
deriving DecidableEq

/-- The fifo and the memory its buffer lies in. -/
structure State where
  fifo : FifoType
  mem : Memory UInt8

/-- `SUBT_BUF_SIZE_MAX`. -/
def subtBufSizeMax : Int := 32 * 1024

/-- `reset_kw_fifo`. -/
def resetKwFifo (f : FifoType) : FifoType :=
  { f with wrPos := f.startPos, rdPos := f.startPos, endPos := f.startPos + f.len }

/-- `init_fifo_kw` on a buffer at address `pFifo`: the buffer is zeroed. -/
def initFifoKw (mem : Memory UInt8) (pFifo fifoSize : Nat) : State where
  fifo := resetKwFifo { len := fifoSize, rdPos := 0, wrPos := 0, endPos := 0, startPos := pFifo }
  mem := mem.write pFifo (List.replicate fifoSize 0)

/-- The number of bytes `read_sub_fifo_kw` believes to be unread. -/
def available (f : FifoType) : Nat :=
  if f.rdPos < f.wrPos then f.wrPos - f.rdPos
  else if f.rdPos > f.wrPos then (f.endPos - f.startPos) - (f.rdPos - f.wrPos)
  else 0

/-- What a read returns: the return value and the bytes stored at `p_data`. -/
structure ReadResult where
  size : Int
  data : List UInt8
deriving DecidableEq

/-- `read_sub_fifo_kw`.  With `overflow` set only the length field has been
    copied out, but the read position advances all the same. -/
def readSubFifoKw (s : State) : State × ReadResult :=
  let f := s.fifo
  if available f > 0 then
    let head := s.mem.read f.rdPos 4
    let readSize := s32 (be32 head + 8)
    let overflow := subtBufSizeMax < readSize
    if (f.rdPos : Int) + readSize > f.endPos then
      let temp := f.endPos - f.rdPos
      let data := if overflow then head
        else s.mem.read f.rdPos temp ++ s.mem.read f.startPos (readSize.toNat - temp)
      ({ s with fifo := { f with rdPos := f.startPos + (readSize.toNat - temp) } },
        { size := readSize, data })
    else
      let data := if overflow then head else s.mem.read f.rdPos readSize.toNat
      let rdPos := ((f.rdPos : Int) + readSize).toNat
      ({ s with fifo := { f with rdPos := if rdPos = f.endPos then f.startPos else rdPos } },
        { size := readSize, data })
  else (s, { size := 0, data := [] })

/-- `free_size` of `write_sub_fifo_kw`. -/
def freeSize (f : FifoType) : Nat :=
  if f.wrPos > f.rdPos then (f.endPos - f.startPos) - (f.wrPos - f.rdPos)
  else if f.wrPos < f.rdPos then f.rdPos - f.wrPos
  else f.endPos - f.startPos

/-- One round of the loop of `write_sub_fifo_kw`; the flag is `false` when the
    round ends at the `break`. -/
def writeRound (s : State) (pCurData : List UInt8) (needWrNum : Nat) : State × Bool :=
  -- the branch that finds the two positions equal also resets them
  let f := if s.fifo.wrPos = s.fifo.rdPos
    then { s.fifo with wrPos := s.fifo.startPos, rdPos := s.fifo.startPos } else s.fifo
  if freeSize s.fifo > needWrNum then
    let wrPos := if f.wrPos = f.endPos then f.startPos else f.wrPos
    if wrPos + needWrNum > f.endPos then
      let temp := f.endPos - wrPos
      let mem := (s.mem.write wrPos (pCurData.take temp)).write f.startPos
        ((pCurData.drop temp).take (needWrNum - temp))
      ({ fifo := { f with wrPos := f.startPos + (needWrNum - temp) }, mem }, true)
    else
      let mem := s.mem.write wrPos (pCurData.take needWrNum)
      ({ fifo := { f with wrPos := wrPos + needWrNum }, mem }, true)
  else ({ s with fifo := f }, false)

/-- The loop of `write_sub_fifo_kw`.  Every round but the last stores at least
    one byte, so `totalSize + 1` rounds are enough. -/
def writeLoop : Nat → State → List UInt8 → Nat → Nat → State
  | 0, s, _, _, _ => s
  | fuel + 1, s, pCurData, totalSize, needWrNum =>
    match writeRound s pCurData needWrNum with
    | (s', false) => s'
    | (s', true) =>
      let totalSize' := totalSize - needWrNum
      if totalSize' > 0 then
        writeLoop fuel s' pCurData totalSize' (min totalSize' s'.fifo.len)
      else s'

/-- `write_sub_fifo_kw`; it returns `size` whether or not anything was stored. -/
def writeSubFifoKw (s : State) (pData : List UInt8) : State × Nat :=
  let size := pData.length
  (writeLoop (size + 1) s pData size (min size s.fifo.len), size)

/-! ## Runs -/

/-- A call on the fifo. -/
inductive Call
  | write (pData : List UInt8)
  | read
deriving DecidableEq

/-- What an observer of the calls sees: a write with the comparison that decides
    whether it is accepted, or the result of a read. -/
inductive Event
  | wrote (pData : List UInt8) (accepted : Bool)
  | got (r : ReadResult)
deriving DecidableEq

/-- The fifo as a machine over calls. -/
def machine : Machine State Call Event where
  step s
    | .write pData => ((writeSubFifoKw s pData).1, .wrote pData (freeSize s.fifo > pData.length))
    | .read => let (s', r) := readSubFifoKw s; (s', .got r)

/-- A record as the subtitle parser frames it: a length field `L`, then `L + 4`
    bytes, at most 32 KiB together. -/
def WellFramed (rec : List UInt8) : Prop :=
  8 ≤ rec.length ∧ (rec.length : Int) ≤ subtBufSizeMax ∧ be32 rec + 8 = rec.length

instance (rec : List UInt8) : Decidable (WellFramed rec) :=
  inferInstanceAs (Decidable (_ ∧ _ ∧ _))

/-- A write hands over a well-framed record shorter than the fifo. -/
def Call.Framed (len : Nat) : Call → Prop
  | .write rec => WellFramed rec ∧ rec.length < len
  | .read => True

instance (len : Nat) : ∀ c, Decidable (Call.Framed len c)
  | .write _ => inferInstanceAs (Decidable (_ ∧ _))
  | .read => inferInstanceAs (Decidable True)

/-- The event as one of a queue of records: an accepted write pushes its record,
    a read pops one, and a read that returns 0 has popped nothing. -/
def Event.toQueue : Event → QueueEvent ReadResult
  | .wrote rec true => .push { size := rec.length, data := rec }
  | .wrote _ false => .refuse
  | .got r => .pop (if r.size = 0 then none else some r)

/-- The reads of a run deliver the accepted records, each once and in order, and
    return 0 exactly when none is left. -/
def Delivers (events : List Event) : Prop :=
  ∃ unread, QueueRun [] (events.map Event.toQueue) unread

end Tntsat.FifoKw
