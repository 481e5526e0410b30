import Tntsat.Native.PvrRecAttr

/-!
# Opening and closing the index of a recording

`PVR_Index_CreatRec`, `PVR_Index_PrepareHeaderInfo` and `PVR_Index_Destroy` of
`msp/api/pvr/mt_pvr_index.c` with the functions that read the header back.  A
recording that is continued (`bEnable_CTrec`) takes over the counters of the
header it finds.

A file that nobody has open is an `IdxDisk`.  Its header is kept apart from its
bytes, which leave room for it; no header stands for a file without the start
code.  Opening the file and the allocations that are not for the caches succeed.
-/

namespace Tntsat.PvrIndex

open PvrIdxCache (CacheHandle WriteRes sizeofEntry opened)
open PvrRec (RecAttr wholeBlocks)

/-- An index file under its name. -/
structure IdxDisk where
  header : Option IdxHeaderInfo := none
  bytes : List UInt8 := []
deriving DecidableEq

/-- `sizeof(PVR_IDX_HEADER_INFO_S)`. -/
def sizeofIdxHeaderInfo : Nat := 56 + 128 * 136

/-- `PVR_MAX_CADATA_LEN`. -/
def maxCadataLen : Nat := 1024

/-- The enumerator with a value; `MT_UNF_PVR_REC_INDEX_TYPE_NONE` for any other. -/
def IndexType.ofValue (n : Nat) : IndexType :=
  if n = IndexType.video.toNat then .video
  else if n = IndexType.audio.toNat then .audio
  else .none

/-! ## The header of a new file -/

/-- `u32HeadInfoSize`: a multiple of the size of an entry. -/
def headInfoSize (u32UsrDataLen : Nat) : Nat :=
  (sizeofIdxHeaderInfo + maxCadataLen + u32UsrDataLen + sizeofEntry) / sizeofEntry * sizeofEntry

/-- `PVR_Index_PrepareHeaderInfo`. -/
def prepareHeaderInfo (s : Index CacheHandle) (u32UsrDataLen : Nat) : Index CacheHandle :=
  let len := headInfoSize u32UsrDataLen
  { s with
    header := {
      u32HeaderLen := len
      u32StartFrame := s.stCycMgr.u32StartFrame
      u32EndFrame := s.stCycMgr.u32EndFrame
      u32LastFrame := s.stCycMgr.u32LastFrame
      u32IsRewind := s.stCycMgr.bIsRewind
      u64ValidSize := s.stCycMgr.u64MaxCycSize }
    store := { s.store with
      file := { s.store.file with
        bytes := pwrite 0 s.store.file.bytes 0 (List.replicate len 0) }
      u32IdxStartOffsetLen := len } }

/-! ## Reading a header -/

/-- `PVRIndexGetHeaderInfo`: the end and the last frame are cut to the number of
    entries that the file has. -/
def getHeaderInfo (d : IdxDisk) : Option IdxHeaderInfo :=
  d.header.map fun h =>
    let indexEntryNum := u32 (u64sub d.bytes.length h.u32HeaderLen / sizeofEntry)
    { h with
      u32EndFrame := if h.u32EndFrame > indexEntryNum then indexEntryNum else h.u32EndFrame
      u32LastFrame := if h.u32LastFrame > indexEntryNum then indexEntryNum else h.u32LastFrame }

/-- An entry read without the caches; the offset is a `MT_S32`. -/
def readEntryAt (d : IdxDisk) (h : IdxHeaderInfo) (num : Nat) : Option IndexEntry :=
  let s32Offset := s32 (h.u32HeaderLen + sizeofEntry * num : Nat)
  if s32Offset < 0 then none
  else
    let bytes := pread d.bytes s32Offset.toNat sizeofEntry
    if bytes.length = sizeofEntry then some (.ofBytes bytes) else none

/-- `enIdxType` of `PVR_Index_PlayGetFileAttrByFileName`, which also fails when the
    end or the last entry cannot be read. -/
def fileIdxType (d : IdxDisk) : Option IndexType :=
  match getHeaderInfo d with
  | none => none
  | some h =>
    if (h.u32StartFrame = 0 ∧ h.u32EndFrame = 0) ∨ h.u32LastFrame = 0 then some .none
    else
      match readEntryAt d h h.u32StartFrame, readEntryAt d h (u32sub h.u32EndFrame 1),
        readEntryAt d h (u32sub h.u32LastFrame 1) with
      | some startEntry, some _, some _ => some (.ofValue startEntry.u16IndexType)
      | _, _, _ => none

/-- `PVRIndexReadHeaderInfo` once the header is there. -/
def takeHeader (s : Index CacheHandle) (h : IdxHeaderInfo) : Index CacheHandle :=
  { s with
    store := { s.store with u32IdxStartOffsetLen := h.u32HeaderLen }
    stCycMgr := { s.stCycMgr with
      bIsRewind := h.u32IsRewind
      u32StartFrame := h.u32StartFrame
      u32EndFrame := h.u32EndFrame
      u32LastFrame := h.u32LastFrame
      u64MaxCycSize := h.u64ValidSize }
    u32ReadFrame := h.u32StartFrame }

/-! ## Creating and destroying a handle -/

/-- `stCycMgr` as the attributes of a recording set it up. -/
def cycMgrOf (a : RecAttr) : CycMgr :=
  let maxCycSize := wholeBlocks a.u64MaxFileSize.toNat
  let maxCycTime := a.u64MaxTimeInMs.toNat
  { bIsRewind := a.bRewind
    u64MaxCycSize := maxCycSize
    u64MaxCycTimeInMs := maxCycTime
    enRewindType :=
      if maxCycSize = 0 ∧ maxCycTime > 0 then .byTime
      else if maxCycSize > 0 ∧ maxCycTime = 0 then .bySize
      else .byBoth }

/-- The handle before a header is read.  Handles are reused: what is not set here
    is as the recording before left it. -/
def freshIndex (old : Index CacheHandle) (a : RecAttr) (disk : IdxDisk) (writeBuf readBuf : Bool) :
    Index CacheHandle :=
  { old with
    store := opened disk.bytes 0 writeBuf readBuf
    header := disk.header.getD {}
    stCycMgr := cycMgrOf a
    enIndexType := .ofValue a.enIndexType.toNat
    u64GlobalOffset := 0
    u32PauseFrame := 0
    u64PauseOffset := pauseInvalidOffset
    u16RecLastIframe := invalidIFrameOffset
    u16RecUpFlowFlag := 0
    u32RecLastValidPtsMs := invalidPtsMs
    u32WriteFrame := 0
    u32ReadFrame := 0
    u32FflushTime := 0
    bTimeRewindFlg := false
    bTimeRewindTsPauseFlg := false
    u64TimeRewindMaxSize := 0
    u32LastDisplayTimeMs := 0 }

/-- The end of `PVR_Index_CreatRec` for a recording that is continued. -/
def continueRec (s : Index CacheHandle) (h : IdxHeaderInfo) (enIdxType : IndexType) :
    Index CacheHandle :=
  let s := takeHeader s h
  let r := cached.getEntryByNum s.store {} s.stCycMgr.u32EndFrame
  let c := s.stCycMgr
  { s with
    store := r.1
    u32LastDisplayTimeMs := r.2.1.u32DisplayTimeMs
    enIndexType := enIdxType
    stCycMgr := { c with u32EndFrame := c.u32EndFrame + 1, u32LastFrame := c.u32LastFrame + 1 }
    u32WriteFrame := c.u32EndFrame + 1 }

/-- `PVR_Index_CreatRec` on the handle `old`; `disk` is the file found under the
    name, and the flags tell which caches could be allocated. -/
def creatRec (old : Index CacheHandle) (a : RecAttr) (disk : Option IdxDisk)
    (writeBuf readBuf : Bool) : Option (Index CacheHandle) :=
  let s := freshIndex old a (disk.getD {}) writeBuf readBuf
  match if a.bEnable_CTrec then disk else none with
  | none => some s
  | some d =>
    match getHeaderInfo d, fileIdxType d with
    | some h, some enIdxType => some (continueRec s h enIdxType)
    | _, _ => none

/-- `PVR_Index_Destroy` of a recording nobody plays, and the file it leaves; the
    arguments tell what the writes of entries and of the header will do. -/
def destroyRec (s : Index CacheHandle) (outcomes : List WriteRes) (headerOk : Bool) (now : Nat) :
    IdxDisk :=
  let store := cached.withOutcomes s.store outcomes
  let s := { s with store := cached.flushIdxWriteCache store }
  let s := recordCycInfo cached s headerOk now true
  { header := some s.header, bytes := s.store.file.bytes }

end Tntsat.PvrIndex
