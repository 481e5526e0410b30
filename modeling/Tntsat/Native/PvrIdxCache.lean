import Tntsat.ForStd.ByteFile
import Tntsat.ForStd.CInt
import Tntsat.ForStd.Machine

/-!
# The caches of a PVR index file

The part of `msp/api/pvr/mt_pvr_index.c` that every access to the entries of an
index goes through.  Three places hold entries: the file, the write cache (the
bytes a recording has not stored yet) and the read cache (a window of the file
around the last read).  `PVRCacheWriteIdx` and `PVRCacheReadIdx` look after both
caches; `Pvr_Write_Index_Func` writes to the file and looks at neither.

What the coming calls of `PVR_WRITE` will do is part of the file (`outcomes`;
when the list is used up they succeed), reads never fail.  Offsets are relative
to the first entry, as the callers pass them: `u32IdxStartOffsetLen` is added,
in 32 bits, where the file is accessed.  The addon callbacks and the event files
that `MT_PVR_Update_Index_Event_Rec` writes hold no state of the caches.
-/

namespace Tntsat.PvrIdxCache

/-- `sizeof(PVR_INDEX_ENTRY_S)`. -/
def sizeofEntry : Nat := 40

/-- `PVR_DFT_IDX_WRITECACHE_SIZE`. -/
def dftIdxWritecacheSize : Nat := 4 * 1024

/-- `PVR_DFT_IDX_READCACHE_SIZE`. -/
def dftIdxReadcacheSize : Nat := 16 * 1024

/-- What one `PVR_WRITE` does: stores everything, stores the first `n` bytes, or
    returns -1.  `noSpace` tells whether `errno` is `ENOSPC`. -/
inductive WriteRes
  | full
  | short (n : Nat) (noSpace : Bool)
  | fails (noSpace : Bool)
deriving DecidableEq

/-- What the functions of the index return when they do not return `MT_SUCCESS`. -/
inductive IdxErr
  | fileDiscFull
  | fileCantWrite
deriving DecidableEq

/-- An open file and what the coming writes to it will do. -/
structure IdxFile where
  bytes : List UInt8
  outcomes : List WriteRes := []
deriving DecidableEq

/-- `HIPVR_IDX_BUF_S`; `data` are the first `u32UsedSize` bytes of the buffer. -/
structure IdxBuf where
  u32BufferLen : Nat
  u32StartOffset : Nat := 0
  data : List UInt8 := []
deriving DecidableEq

/-- `u32UsedSize`. -/
def IdxBuf.u32UsedSize (b : IdxBuf) : Nat := b.data.length

/-- Nothing is in use. -/
def IdxBuf.clear (b : IdxBuf) : IdxBuf := { b with u32StartOffset := 0, data := [] }

/-- The fields of `PVR_INDEX_S` that locate the entries. -/
structure CacheHandle where
  file : IdxFile
  u32IdxStartOffsetLen : Nat
  stIdxWriteCache : IdxBuf
  stIdxReadCache : IdxBuf
deriving DecidableEq

/-! ## Writing -/

/-- `PVR_WRITE`: the new file, what is returned, and whether `errno` is `ENOSPC`. -/
def pvrWrite (f : IdxFile) (buf : List UInt8) (pos : Nat) : IdxFile × Int × Bool :=
  match f.outcomes with
  | [] => ({ f with bytes := pwrite 0 f.bytes pos buf }, buf.length, false)
  | .full :: rest => (⟨pwrite 0 f.bytes pos buf, rest⟩, buf.length, false)
  | .short n noSpace :: rest =>
    (⟨pwrite 0 f.bytes pos (buf.take n), rest⟩, (buf.take n).length, noSpace)
  | .fails noSpace :: rest => ({ f with outcomes := rest }, -1, noSpace)

/-- `PVR_WRITE_INDEX`. -/
def pvrWriteIndex (h : CacheHandle) (buf : List UInt8) (offset : Nat) :
    CacheHandle × Option IdxErr :=
  let (file, saveSz, noSpace) := pvrWrite h.file buf (u32 (offset + h.u32IdxStartOffsetLen))
  let h := { h with file := file }
  if saveSz ≠ buf.length then (h, some (if noSpace then .fileDiscFull else .fileCantWrite))
  else (h, none)

/-- `Pvr_Write_Index_Func`. -/
def pvrWriteIndexFunc (h : CacheHandle) (buf : List UInt8) (offset : Nat) :
    CacheHandle × Option IdxErr :=
  pvrWriteIndex h buf offset

/-- Write the cached bytes to the file. -/
def writePending (h : CacheHandle) : CacheHandle × Option IdxErr :=
  pvrWriteIndex h h.stIdxWriteCache.data h.stIdxWriteCache.u32StartOffset

/-- Forget the cached bytes. -/
def clearPending (h : CacheHandle) : CacheHandle :=
  { h with stIdxWriteCache := h.stIdxWriteCache.clear }

/-- `PVR_Index_FlushIdxWriteCache`. -/
def flushIdxWriteCache (h : CacheHandle) : CacheHandle × Option IdxErr :=
  if h.stIdxWriteCache.u32BufferLen = 0 then (h, none)
  else if h.stIdxWriteCache.u32UsedSize ≠ 0 then
    match writePending h with
    | (h, some err) => (h, some err)
    | (h, none) => (clearPending h, none)
  else (h, none)

/-- The new data follows the cached bytes and fits into the buffer behind them. -/
def contiguous (c : IdxBuf) (len offset : Nat) : Bool :=
  offset == u32 (c.u32StartOffset + c.u32UsedSize) && len ≤ c.u32BufferLen - c.u32UsedSize

/-- The direct branch of `PVRCacheWriteIdx`. -/
def cacheWriteDirect (h : CacheHandle) (data : List UInt8) (offset : Nat) :
    CacheHandle × Option IdxErr :=
  let c := h.stIdxWriteCache
  if c.u32BufferLen ≠ 0 ∧ c.u32UsedSize ≠ 0 then
    if contiguous c data.length offset then
      match pvrWriteIndex h (c.data ++ data) c.u32StartOffset with
      | (h, some err) => (h, some err)
      | (h, none) => (clearPending h, none)
    else
      match writePending h with
      | (h, some err) => (h, some err)
      | (h, none) =>
        -- the cache is only cleared once both writes are done
        match pvrWriteIndex h data offset with
        | (h, some err) => (h, some err)
        | (h, none) => (clearPending h, none)
  else pvrWriteIndex h data offset

/-- Append to the write cache. -/
def appendPending (h : CacheHandle) (data : List UInt8) (offset : Nat) : CacheHandle :=
  let c := h.stIdxWriteCache
  { h with stIdxWriteCache :=
    { c with
      data := c.data ++ data
      u32StartOffset := if c.u32UsedSize = 0 then offset else c.u32StartOffset } }

/-- The caching branch of `PVRCacheWriteIdx`; the flag is `*u32WriteFlag`. -/
def cacheWriteCached (h : CacheHandle) (data : List UInt8) (offset : Nat) :
    CacheHandle × Option IdxErr × Bool :=
  if contiguous h.stIdxWriteCache data.length offset then
    (appendPending h data offset, none, false)
  else
    match writePending h with
    | (h, some err) => (h, some err, false)
    | (h, none) => (appendPending (clearPending h) data offset, none, true)

/-- `PVR_Index_IfOffsetReadCache`. -/
def ifOffsetReadCache (h : CacheHandle) (u32Offset u32Size : Nat) : Nat :=
  let c := h.stIdxReadCache
  if c.u32BufferLen ≠ 0 ∧ c.u32UsedSize ≠ 0 then
    if c.u32StartOffset ≤ u32Offset ∧ u32Offset - c.u32StartOffset ≤ c.u32UsedSize then
      if u32 (u32Offset - c.u32StartOffset + u32Size) ≤ c.u32UsedSize then 1 else 2
    else 0
  else 0

/-- The end of `PVRCacheWriteIdx`: drop the read window when it has been written to. -/
def invalidateRead (h : CacheHandle) (offset len : Nat) : CacheHandle :=
  if ifOffsetReadCache h offset len ≠ 0 then
    { h with stIdxReadCache := { h.stIdxReadCache with data := [] } }
  else h

/-- `PVRCacheWriteIdx`; the flag is `*u32WriteFlag`. -/
def cacheWriteIdx (h : CacheHandle) (data : List UInt8) (offset : Nat) (direct : Bool) :
    CacheHandle × Option IdxErr × Bool :=
  if direct ∨ h.stIdxWriteCache.u32BufferLen = 0 then
    match cacheWriteDirect h data offset with
    | (h, some err) => (h, some err, false)
    | (h, none) => (invalidateRead h offset data.length, none, true)
  else
    match cacheWriteCached h data offset with
    | (h, some err, flag) => (h, some err, flag)
    | (h, none, flag) => (invalidateRead h offset data.length, none, flag)

/-! ## Reading -/

/-- `PVR_Index_IfOffsetInWriteCache`. -/
def ifOffsetInWriteCache (h : CacheHandle) (u32Offset u32Size : Nat) : Bool :=
  let c := h.stIdxWriteCache
  c.u32BufferLen ≠ 0 && c.u32UsedSize ≠ 0 &&
    ((c.u32StartOffset ≤ u32Offset && u32Offset ≤ u32 (c.u32StartOffset + c.u32UsedSize)) ||
      (u32Offset < c.u32StartOffset && c.u32StartOffset < u32 (u32Offset + u32Size)))

/-- `PVR_READ_INDEX_DIRECTLY`; the number read is the length of the list. -/
def readIndexDirectly (h : CacheHandle) (size offset : Nat) : CacheHandle × List UInt8 :=
  let h := if ifOffsetInWriteCache h offset size then (flushIdxWriteCache h).1 else h
  (h, pread h.file.bytes (u32 (offset + h.u32IdxStartOffsetLen)) size)

/-- Copy out of the read window. -/
def readWindow (c : IdxBuf) (size offset : Nat) : List UInt8 :=
  (c.data.drop (offset - c.u32StartOffset)).take size

/-- Load the read window around `offset`. -/
def loadWindow (h : CacheHandle) (offset : Nat) : CacheHandle :=
  let len := h.stIdxReadCache.u32BufferLen
  -- `s32CacheStartReadOffset`: negative values are set to 0
  let start := (s32 (u32sub offset (len / 2))).toNat
  let (h, bytes) := readIndexDirectly h len start
  { h with stIdxReadCache := { u32BufferLen := len, u32StartOffset := start, data := bytes } }

/-- `PVRCacheReadIdx`. -/
def cacheReadIdx (h : CacheHandle) (size offset : Nat) (direct : Bool) :
    CacheHandle × List UInt8 :=
  if h.stIdxReadCache.u32BufferLen = 0 ∨ direct ∨ h.stIdxReadCache.u32BufferLen < size then
    readIndexDirectly h size offset
  else if ifOffsetReadCache h offset size = 1 then
    (h, readWindow h.stIdxReadCache size offset)
  else
    let h := loadWindow h offset
    if ifOffsetReadCache h offset size = 1 then
      (h, readWindow h.stIdxReadCache size offset)
    else readIndexDirectly h size offset

/-! ## Runs -/

/-- A call on the handle. -/
inductive Call
  | cacheWrite (data : List UInt8) (offset : Nat) (direct : Bool)
  | writeFunc (data : List UInt8) (offset : Nat)
  | flush
  | cacheRead (size offset : Nat) (direct : Bool)

/-- One call: the next handle and the bytes it read. -/
def step (h : CacheHandle) : Call → CacheHandle × List UInt8
  | .cacheWrite data offset direct => ((cacheWriteIdx h data offset direct).1, [])
  | .writeFunc data offset => ((pvrWriteIndexFunc h data offset).1, [])
  | .flush => ((flushIdxWriteCache h).1, [])
  | .cacheRead size offset direct => cacheReadIdx h size offset direct

/-- The values last written: what the entries would be if every write went
    straight to the file.  `none` where nothing was ever written. -/
abbrev LastWritten := Nat → Option UInt8

/-- A write as it should appear to every later read. -/
def LastWritten.put (v : LastWritten) (data : List UInt8) (offset : Nat) : LastWritten :=
  fun a => if offset ≤ a ∧ a < offset + data.length then data[a - offset]? else v a

/-- What a call adds to the values written. -/
def LastWritten.step (v : LastWritten) : Call → LastWritten
  | .cacheWrite data offset _ => v.put data offset
  | .writeFunc data offset => v.put data offset
  | .flush => v
  | .cacheRead _ _ _ => v

/-- The handle beside the values written so far. -/
def machine : Machine (CacheHandle × LastWritten) Call (List UInt8) where
  step s c := (((step s.1 c).1, s.2.step c), (step s.1 c).2)

/-- A handle as opening the index file leaves it; each buffer is there or its
    allocation failed. -/
def opened (bytes : List UInt8) (headerLen : Nat) (writeBuf readBuf : Bool) : CacheHandle where
  file := { bytes := bytes }
  u32IdxStartOffsetLen := headerLen
  stIdxWriteCache := { u32BufferLen := if writeBuf then dftIdxWritecacheSize else 0 }
  stIdxReadCache := { u32BufferLen := if readBuf then dftIdxReadcacheSize else 0 }

/-- The values written when the file is opened: what it holds. -/
def onFile (bytes : List UInt8) (headerLen : Nat) : LastWritten :=
  fun a => bytes[headerLen + a]?

/-- A read of a range whose bytes have all been written returns them. -/
def ReadsBack (s : CacheHandle × LastWritten) : Call → Prop
  | .cacheRead size offset direct =>
    ∀ xs : List UInt8, xs.length = size → (∀ k, k < size → s.2 (offset + k) = xs[k]?) →
      (cacheReadIdx s.1 size offset direct).2 = xs
  | _ => True

end Tntsat.PvrIdxCache
