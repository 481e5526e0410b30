import Mathlib.Algebra.Group.Nat.Defs
import Mathlib.Data.List.Infix
import Tntsat.ForStd.CInt
import Tntsat.ForStd.Machine

/-!
# The PVR node files

`msp/api/pvr/mt_pvr_fifo.c`.  A recording is one logical stream of bytes cut
twice: into events, listed in the cells of the event index, and each event into
node files of `u64FileNodeSize` bytes.  `PVR_PWRITE64` and `PVR_PREAD64` both
translate a logical offset into a node file and a position in it.

What the file system answers is an input of each call (`WriteEnv`, `EventEnv`);
what reaches storage is an output (`NodeWrite`).  Files are named as
`PVRFileGetRealFName` names them in the HISI format, which is the one recordings
are created in: the event's name and the number of the node.
-/

namespace Tntsat.PvrFifo

/-- `PVR_INVALID_DEFAULT_FILE_EVENT_SIZE`. -/
def invalidDefaultFileEventSize : Nat := 0xffffffffffffffff

/-- `PVR_FILE_MAX_EVENT`. -/
def pvrFileMaxEvent : Nat := 128

/-- `PVR_FILE_MAX_EVENT_NODE`. -/
def pvrFileMaxEventNode : Nat := 512

/-- `PVR_REC_MAX_NODE`. -/
def pvrRecMaxNode : Nat := 0xffff

/-- `PVR_EventDataNode_S`. -/
structure EventDataNode where
  u32NodeCreateTime : Nat := 0
  u32NodeStartFrame : Nat := 0
deriving DecidableEq

/-- `PVR_CELLMAP_S`: the part of the stream that one event covers. -/
structure CellMap where
  u64head : Nat := 0
  u64Tail : Nat := 0
  u64size : Nat := 0
  cellname : String := ""
  u32StartTime : Nat := 0
  bSaved : Bool := false
  u32EventNode : Nat → EventDataNode := fun _ => {}
  firstNode : Nat := 0

/-- `PVR_EVENTIDX_S`.  `celllen` counts cells, not bytes, and of
    `currentRunningEventCell` only the two fields that are read are kept. -/
structure EventIdx where
  normalnum : Nat := 0
  widpos : Nat := 0
  celllen : Nat := pvrFileMaxEvent
  cell : Nat → CellMap
  runningHead : Nat := 0
  runningName : String := ""

/-- Replace one cell. -/
def EventIdx.setCell (idx : EventIdx) (i : Nat) (c : CellMap) : EventIdx :=
  { idx with cell := fun j => if j = i then c else idx.cell j }

/-- A node file: the event it belongs to and its number within the event. -/
structure NodeFile where
  cell : Nat
  cellname : String
  nodeIdx : Nat
deriving DecidableEq

/-- `PVR_FILE_S`.  `systemFd` is the node file the handle has open, or `none`
    for `PVR_FILE_INVALID_FILE`. -/
structure PvrFile where
  systemFd : Option NodeFile
  u64FileNodeSize : Nat
  u64StartOfCurFd : Nat := 0
  u64SeekOffset : Nat := 0
  szFileName : String
  eventidx : Option EventIdx

/-- The handle and the module's `loop_event_id`. -/
structure State where
  file : PvrFile
  loopEventId : Nat := 0xffffffff

/-- `PVRFileOffsetMatchNode`. -/
def offsetMatchNode (offset nodeStartOffset nodeSize : Nat) : Bool :=
  nodeStartOffset ≤ offset ∧ offset < u64 (nodeStartOffset + nodeSize)

/-! ## Opening a recording -/

/-- `pvr_init_eventidx`. -/
def pvrInitEventidx (filename : String) : EventIdx where
  cell i := if i = 0 then { u64size := invalidDefaultFileEventSize, cellname := filename } else {}
  runningName := filename

/-- The node size `PVR_OPEN64` gives a file opened for writing; the product with
    `ONE_M_BYTES` is a 32-bit one. -/
def openNodeSize (bSupportTimeShiftEvent : Bool) (u32TimeShiftEventDataUnitSize : Nat)
    (gFileSizeInMbytes : Nat) : Nat :=
  if bSupportTimeShiftEvent then
    if u32TimeShiftEventDataUnitSize ≥ 20 * 1024 * 1024 then u32TimeShiftEventDataUnitSize
    else 2000 * 1024 * 1024
  else u32 (gFileSizeInMbytes * (1024 * 1024))

/-- The handle after `PVR_OPEN64` in mode `PVR_FOPEN_MODE_DATA_WRITE`: one event,
    its first node open. -/
def pvrOpen64 (filename : String) (fileNodeSize : Nat) : State where
  file := {
    systemFd := some { cell := 0, cellname := filename, nodeIdx := 0 }
    u64FileNodeSize := fileNodeSize
    szFileName := filename
    eventidx := some (pvrInitEventidx filename) }

/-! ## Writing -/

/-- What a `PVR_WRITE` does: it fails, or stores at most `n` bytes. -/
inductive WriteResult
  | fail
  | wrote (n : Nat)
deriving DecidableEq

/-- The return value of a `PVR_WRITE` of `len` bytes; `none` for a negative one. -/
def WriteResult.written (r : WriteResult) (len : Nat) : Option Nat :=
  match r with
  | .fail => none
  | .wrote n => some (min n len)

/-- What the system answers during one `PVR_PWRITE64`. -/
structure WriteEnv where
  writen1 : WriteResult
  writen2 : WriteResult
  openOk : Bool := true
  u32CurrentTimeMs : Nat := 0
  gTimeShiftEventLoopTimeInMs : Nat := 2 * 60 * 60 * 1000
  /-- whether the file of a node of the running event exists -/
  nodeExists : Nat → Bool := fun _ => true

/-- The fields of `PVR_REC_CHN_S` that `PVR_PWRITE64` uses; `u32LastFrame` is
    `IndexHandle->stCycMgr.u32LastFrame`. -/
structure RecChn where
  bRewind : Bool := false
  u64MaxTimeInMs : Nat := 0
  bSupportTimeShiftEvent : Bool := false
  u32LastFrame : Nat := 0
  realFileStartFrame : Nat := 0
  timeShiftEventTsFileFirstNode : Nat := 0
deriving DecidableEq

/-- Bytes that reached storage: `count` bytes of logical offset `offset` and up
    are in `file` from position `pos` on. -/
structure NodeWrite where
  offset : Nat
  count : Nat
  file : NodeFile
  pos : Nat
deriving DecidableEq

/-- What `PVR_PWRITE64` hands back. -/
structure PwriteResult where
  ret : Int
  writes : List NodeWrite := []
  pRecChn : Option RecChn
deriving DecidableEq

/-- One round of the loop of `PVR_PWRITE64` that drops node files older than the
    timeshift window. -/
def dropOldNode (env : WriteEnv) (cc : CellMap × RecChn) (i : Nat) : CellMap × RecChn :=
  let (c, chn) := cc
  let nodeTime := (c.u32EventNode i).u32NodeCreateTime
  if nodeTime > 0 ∧ u32 (env.u32CurrentTimeMs + 0x100000000 - nodeTime) >
      env.gTimeShiftEventLoopTimeInMs ∧ env.nodeExists i then
    let c := { c with
      u32EventNode := fun j =>
        if j = i then { c.u32EventNode i with u32NodeCreateTime := 0 } else c.u32EventNode j
      firstNode := i + 1 }
    (c, { chn with
      realFileStartFrame := (c.u32EventNode (i + 1)).u32NodeStartFrame
      timeShiftEventTsFileFirstNode := i + 1 })
  else (c, chn)

/-- The bookkeeping of `PVR_PWRITE64` for the node it is about to open: its
    creation time and, in timeshift mode, its first frame and the old nodes. -/
def enterNode (env : WriteEnv) (c : CellMap) (chn : RecChn) (nodeIdx : Nat) :
    CellMap × RecChn :=
  let startFrame := if chn.bSupportTimeShiftEvent then chn.u32LastFrame
    else (c.u32EventNode nodeIdx).u32NodeStartFrame
  let c := { c with u32EventNode := fun j => if j = nodeIdx
    then { u32NodeCreateTime := env.u32CurrentTimeMs, u32NodeStartFrame := startFrame }
    else c.u32EventNode j }
  if chn.bSupportTimeShiftEvent ∧ nodeIdx > 2 ∧ c.bSaved = false then
    (List.range' 1 (nodeIdx - 3)).foldl (dropOldNode env) (c, chn)
  else (c, chn)

/-- The part of `PVR_PWRITE64` that closes the current node file and opens the
    one for `offset`. -/
def openOtherNode (s : State) (idx : EventIdx) (chn : RecChn) (env : WriteEnv) (offset : Nat) :
    State × RecChn :=
  let c := idx.cell idx.widpos
  let chn := if c.bSaved then { chn with bRewind := false, u64MaxTimeInMs := 0 } else chn
  let c := if offset = 0 ∧ c.u64head > 0 then { c with u64head := 0 } else c
  let nodeIdx := u32 (u64sub offset c.u64head / s.file.u64FileNodeSize)
  -- the guard of `loop_event_id`: too many nodes although the offset is 0
  let tooMany := nodeIdx > pvrRecMaxNode ∧ offset = 0
  let loopEventId := if tooMany then idx.widpos else s.loopEventId
  let nodeIdx := if tooMany then 0 else nodeIdx
  if pvrFileMaxEventNode ≤ nodeIdx then
    ({ file := { s.file with
          systemFd := none
          eventidx := some (idx.setCell idx.widpos c) },
       loopEventId }, chn)
  else
    let (c, chn) := enterNode env c chn nodeIdx
    let file := { s.file with systemFd := none, eventidx := some (idx.setCell idx.widpos c) }
    if env.openOk then
      ({ file := { file with
            systemFd := some { cell := idx.widpos, cellname := c.cellname, nodeIdx }
            u64StartOfCurFd := offset },
         loopEventId }, chn)
    else ({ file, loopEventId }, chn)

/-- The second chunk of `PVR_PWRITE64`, after the attempt to open its node file
    has left the state `s`. -/
def writeSecondChunk (s : State) (chn : RecChn) (env : WriteEnv) (size readLen1 offset : Nat)
    (writes : List NodeWrite) : State × PwriteResult :=
  match s.file.systemFd with
  | none => (s, { ret := -1, writes, pRecChn := some chn })
  | some fd =>
    let readLen2 := size - readLen1
    match env.writen2.written readLen2 with
    | none => (s, { ret := -1, writes, pRecChn := some chn })
    | some 0 => (s, { ret := 0, writes, pRecChn := some chn })
    | some (n + 1) =>
      let w := { offset, count := n + 1, file := fd,
                 pos := u64sub offset s.file.u64StartOfCurFd }
      ({ s with file := { s.file with u64SeekOffset := u64 (offset + (n + 1)) } },
        { ret := (n + 1 : Nat) + readLen1, writes := writes ++ [w], pRecChn := some chn })

/-- The second half of `PVR_PWRITE64`, entered when the first `readLen1` of
    `size` bytes are stored and `offset` has been advanced past them. -/
def pwriteRest (s : State) (chn : RecChn) (env : WriteEnv) (size readLen1 offset : Nat)
    (writes : List NodeWrite) : State × PwriteResult :=
  match s.file.eventidx with
  | some idx =>
    if readLen1 ≠ size then
      let r := openOtherNode s idx chn env offset
      writeSecondChunk r.1 r.2 env size readLen1 offset writes
    else ({ s with file := { s.file with u64SeekOffset := offset } },
      { ret := size, writes, pRecChn := some chn })
  | none => ({ s with file := { s.file with u64SeekOffset := offset } },
      { ret := size, writes, pRecChn := some chn })

/-- The first chunk of `PVR_PWRITE64`: `readLen1` bytes for the open node file. -/
def writeFirstChunk (s : State) (fd : NodeFile) (chn : RecChn) (env : WriteEnv)
    (size readLen1 offset : Nat) : State × PwriteResult :=
  match env.writen1.written readLen1 with
  | none => (s, { ret := -1, pRecChn := some chn })
  | some 0 => (s, { ret := 0, pRecChn := some chn })
  | some (n + 1) =>
    let w := { offset, count := n + 1, file := fd, pos := u64sub offset s.file.u64StartOfCurFd }
    if n + 1 ≠ readLen1 then
      ({ s with file := { s.file with u64SeekOffset := u64 (offset + (n + 1)) } },
        { ret := (n + 1 : Nat), writes := [w], pRecChn := some chn })
    else pwriteRest s chn env size readLen1 (u64 (offset + readLen1)) [w]

/-- The number of bytes of a write that `PVR_PWRITE64` counts into the open node
    file when `offset` lies in it. -/
def readLen1 (f : PvrFile) (size offset : Nat) : Nat :=
  let nodeEnd := u64 (f.u64StartOfCurFd + f.u64FileNodeSize)
  if u64 (offset + size) ≥ nodeEnd then u64sub nodeEnd offset else size

/-- `PVR_PWRITE64` on an open handle. -/
def pvrPwrite64 (s : State) (pRecChn : Option RecChn) (env : WriteEnv) (size offset : Nat) :
    State × PwriteResult :=
  if size = 0 then (s, { ret := 0, pRecChn }) else
  match pRecChn, s.file.systemFd with
  | none, _ => (s, { ret := -1, pRecChn })
  | some _, none => (s, { ret := 0, pRecChn })
  | some chn, some fd =>
    if offsetMatchNode offset s.file.u64StartOfCurFd s.file.u64FileNodeSize then
      writeFirstChunk s fd chn env size (readLen1 s.file size offset) offset
    else pwriteRest s chn env size 0 offset []

/-! ## Events -/

/-- What the system answers during one `PVR_RecNewEvent`. -/
structure EventEnv where
  openOk : Bool := true
  mallocOk : Bool := true
  /-- the clock as `PVR_Remove_Timeout_Event` reads it -/
  currentTime : Nat := 0
  /-- the clock as it is read for the new cell -/
  u32StartTime : Nat := 0
  gTimeShiftEventLoopTimeInMs : Nat := 2 * 60 * 60 * 1000
  /-- the loop over saved events stops at this cell: the index file of the first
      of them has no room for another share -/
  shareFull : Nat → Bool := fun _ => false

/-- `PVR_Remove_Timeout_Event`: the events whose files are dropped are marked by
    clearing their start time. -/
def pvrRemoveTimeoutEvent (idx : EventIdx) (env : EventEnv) : EventIdx :=
  { idx with cell := fun i =>
      let c := idx.cell i
      if i < idx.widpos ∧ c.bSaved = false ∧ c.u32StartTime > 0 ∧
          env.currentTime > env.gTimeShiftEventLoopTimeInMs ∧
          u32 (env.currentTime + 0x100000000 - c.u32StartTime) > env.gTimeShiftEventLoopTimeInMs
      then { c with u32StartTime := 0 } else c }

/-- `PVR_Add_New_Event`; `none` for a negative result. -/
def pvrAddNewEvent (f : PvrFile) (filename : String) (isStop : Bool) (env : EventEnv)
    (eventNameIsNull : Bool) : Option PvrFile :=
  match f.eventidx with
  | none => none
  | some idx =>
    let wid := idx.widpos
    let next := 1 + wid
    if next + 1 ≥ idx.celllen ∧ env.mallocOk = false then none
    else
      let celllen := if next + 1 ≥ idx.celllen then idx.celllen + pvrFileMaxEvent else idx.celllen
      let idx := pvrRemoveTimeoutEvent { idx with celllen } env
      let old := idx.cell wid
      let idx := idx.setCell wid { old with
        u64size := u64sub f.u64SeekOffset old.u64head
        u64Tail := if isStop then f.u64SeekOffset else 0 }
      let new := idx.cell next
      let idx := idx.setCell next { new with
        cellname := filename
        u64head := f.u64SeekOffset
        u64size := 0
        u64Tail := invalidDefaultFileEventSize
        bSaved := false
        u32StartTime := env.u32StartTime
        u32EventNode := fun j =>
          if j = 0 then { new.u32EventNode 0 with u32NodeStartFrame := 0 } else new.u32EventNode j }
      let idx := if eventNameIsNull then idx
        else { idx with runningHead := f.u64SeekOffset, runningName := filename }
      some { f with eventidx := some { idx with widpos := next } }

/-- `strcat(name, ".ts")` unless the name already contains it. -/
def withTs (name : String) : String :=
  if ['.', 't', 's'] <:+: name.toList then name else name ++ ".ts"

/-- The loop of `PVR_RecNewEvent` over the event the user saved and all later
    ones. -/
def markSaved (idx : EventIdx) (preEventName : String) (env : EventEnv) : EventIdx :=
  let name := withTs preEventName
  let cells := List.range (idx.widpos + 1)
  match cells.find? (fun i => (idx.cell i).cellname == name) with
  | none => idx
  | some first =>
    -- the cell the loop breaks at is still marked
    let last := (cells.find? (fun i => first < i ∧ env.shareFull i)).getD idx.widpos
    { idx with cell := fun i =>
        if first ≤ i ∧ i ≤ last then { idx.cell i with bSaved := true } else idx.cell i }

/-- The arguments of `PVR_RecNewEvent`; `fname` is `none` when the caller passes
    `NULL`, `savedEvent` is the name of the previous event when it was saved. -/
structure EventArgs where
  fname : Option String
  stopStart : Bool := false
  savedEvent : Option String := none

/-- The file name of the new event: the caller's, or one made from the running
    event's. -/
def eventName (idx : EventIdx) (fname : Option String) : String × EventIdx :=
  match fname with
  | none =>
    let name := if idx.runningHead > 0 ∧ idx.runningName.length > 1
      then idx.runningName ++ "_" ++ toString idx.normalnum
      else (idx.cell idx.widpos).cellname ++ "_0"
    (name, { idx with normalnum := idx.normalnum + 1 })
  | some fname => (withTs fname, idx)

/-- The second half of `PVR_RecNewEvent`: open the event's first node file and
    enter it in the map. -/
def openEvent (s : State) (idx : EventIdx) (name : String) (isStop eventNameIsNull : Bool)
    (env : EventEnv) : State × Bool :=
  let file := { s.file with eventidx := some idx }
  if env.openOk then
    match pvrAddNewEvent file name isStop env eventNameIsNull with
    | some file =>
      ({ s with file := { file with
          systemFd := some { cell := idx.widpos + 1, cellname := name, nodeIdx := 0 }
          u64StartOfCurFd := file.u64SeekOffset } }, true)
    | none => ({ s with file }, false)
  else ({ s with file }, false)

/-- `PVR_RecNewEvent`; the flag tells whether it returned 0. -/
def pvrRecNewEvent (s : State) (args : EventArgs) (env : EventEnv) : State × Bool :=
  match s.file.eventidx with
  | none => (s, false)
  | some idx =>
    let saved := match args.savedEvent with
      | some name => markSaved idx name env
      | none => idx
    let named := eventName saved args.fname
    openEvent s named.2 named.1 (args.fname.isNone || args.stopStart) args.fname.isNone env

/-! ## Reading -/

/-- The test of `PVR_PREAD64`'s search: whether the cell covers `offset`. -/
def CellMap.covers (c : CellMap) (offset : Nat) : Bool :=
  c.u64head ≤ offset ∧
    (offset < u64 (c.u64head + c.u64size) ∨ c.u64size = invalidDefaultFileEventSize ∨
      (c.u64size = 0 ∧ c.u64Tail = invalidDefaultFileEventSize))

/-- The search of `PVR_PREAD64` over `cell[0..widpos]`; the first match wins. -/
def EventIdx.search (idx : EventIdx) (offset : Nat) : Option Nat :=
  (List.range (idx.widpos + 1)).find? fun i => (idx.cell i).covers offset

/-- The node file that `PVR_PREAD64` opens for `offset` and the
    `u64StartOfCurFd` it sets; it reads from position `offset - u64StartOfCurFd`. -/
def preadNode (s : State) (offset : Nat) : Option (NodeFile × Nat) :=
  let nodeSize := s.file.u64FileNodeSize
  match s.file.eventidx with
  | some idx =>
    match idx.search offset with
    | none => none
    | some ridpos =>
      let ridpos := if s.loopEventId ≠ 0xffffffff then s.loopEventId else ridpos
      let c := idx.cell ridpos
      let nodeIdx := u32 (u64sub offset c.u64head / nodeSize)
      some ({ cell := ridpos, cellname := c.cellname, nodeIdx },
        u64 (c.u64head + nodeIdx * nodeSize))
  | none =>
    let nodeIdx := u32 (offset / nodeSize)
    some ({ cell := 0, cellname := s.file.szFileName, nodeIdx }, u64 (nodeIdx * nodeSize))

/-! ## Runs -/

/-- A `PVR_PWRITE64` at the current `u64SeekOffset`. -/
structure WriteCall where
  pRecChn : Option RecChn
  env : WriteEnv
  size : Nat

/-- A call on a recording; `rewind` is `PVR_SEEK64(file, 0, SEEK_SET)`. -/
inductive Call
  | write (c : WriteCall)
  | newEvent (args : EventArgs) (env : EventEnv)
  | rewind

/-- What a call returned and what it stored. -/
structure Event where
  ret : Int
  writes : List NodeWrite := []
deriving DecidableEq

/-- The recording as a machine over calls. -/
def machine : Machine State Call Event where
  step s
    | .write c =>
      let (s', r) := pvrPwrite64 s c.pRecChn c.env c.size s.file.u64SeekOffset
      (s', { ret := r.ret, writes := r.writes })
    | .newEvent args env =>
      let (s', ok) := pvrRecNewEvent s args env
      (s', { ret := if ok then 0 else -1 })
    | .rewind => ({ s with file := { s.file with u64SeekOffset := 0 } }, { ret := 0 })

/-- Everything a run stored, oldest first. -/
def stored (events : List Event) : List NodeWrite := events.flatMap Event.writes

end Tntsat.PvrFifo
