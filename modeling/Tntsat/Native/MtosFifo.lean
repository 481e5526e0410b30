import Tntsat.ForStd.CInt
import Tntsat.ForStd.Machine
import Tntsat.ForStd.Memory

/-!
# The 16-bit fifo of mtos

`kware/mtos/mtos_fifo.c`.  The count `m_cnt` is a `s32` while the size it is
compared with is a `u32`, so the comparison is one of `u32` values.  `MT_ASSERT`
is empty outside debug builds and is left out, and so are the tests for null
pointers.
-/

namespace Tntsat.MtosFifo

/-- `os_fifo_t` with a buffer of at least one place. -/
structure OsFifo where
  pBuffer : Memory UInt16
  mHead : Nat
  mTail : Nat
  mCnt : Int
  mSize : Nat
  mOverlay : Int
  size_pos : 0 < mSize
  size_lt : mSize < 4294967296

/-- `TRUE`. -/
def mtTrue : Int := 1

/-- `mtos_fifo_flush`. -/
def mtosFifoFlush (pFifo : OsFifo) : OsFifo :=
  { pFifo with mCnt := 0, mHead := 0, mTail := 0 }

/-- `mtos_fifo_put`. -/
def mtosFifoPut (pFifo : OsFifo) (data : UInt16) : OsFifo :=
  if u32OfInt pFifo.mCnt < pFifo.mSize then
    { pFifo with
      pBuffer := pFifo.pBuffer.set pFifo.mHead data
      mHead := u32 (pFifo.mHead + 1) % pFifo.mSize
      mCnt := s32 (pFifo.mCnt + 1) }
  else if pFifo.mOverlay = mtTrue then
    { pFifo with
      pBuffer := pFifo.pBuffer.set pFifo.mHead data
      mHead := u32 (pFifo.mHead + 1) % pFifo.mSize
      mTail := u32 (pFifo.mTail + 1) % pFifo.mSize }
  else pFifo

/-- `mtos_fifo_get`, with what it stores at `p_data` when it returns `TRUE`. -/
def mtosFifoGet (pFifo : OsFifo) : OsFifo × Option UInt16 :=
  if pFifo.mCnt > 0 then
    ({ pFifo with
        mTail := u32 (pFifo.mTail + 1) % pFifo.mSize
        mCnt := s32 (pFifo.mCnt - 1) },
      some (pFifo.pBuffer pFifo.mTail))
  else (pFifo, none)

end Tntsat.MtosFifo
