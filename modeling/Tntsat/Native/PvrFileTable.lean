import Mathlib.Algebra.Group.Nat.Defs
import Mathlib.Logic.Function.Basic
import Tntsat.ForStd.Machine

/-!
# The table of open PVR files

`g_stPvrFiles` of `msp/api/pvr/mt_pvr_fifo.c`, as far as `PVR_OPEN64` and
`PVR_CLOSE64` decide who refers to which event index.  An event index is named
by the number of the `malloc` that made it, so a pointer to a freed index stays
distinguishable from one to a later index at the same address; `freed` lists the
calls of `free` on an index.  What the index holds is modelled in
`Tntsat.Native.PvrFifo`.
-/

namespace Tntsat.PvrFileTable

/-- `PVR_FILE_MAX_FILE`. -/
def pvrFileMaxFile : Nat := 10

/-- `O_APPEND`. -/
def oAppend : Nat := 0o2000

/-- `PVR_FOPEN_MODE_DATA_READ`: `O_RDWR | O_LARGEFILE`. -/
def fopenModeDataRead : Nat := 0o2 ||| 0o400000

/-- `PVR_FOPEN_MODE_DATA_WRITE`: `O_CREAT | O_RDWR | O_LARGEFILE`. -/
def fopenModeDataWrite : Nat := 0o100 ||| 0o2 ||| 0o400000

/-- The test by which both functions recognise a file opened for writing. -/
def isWrite (mode : Nat) : Bool := mode &&& fopenModeDataWrite = fopenModeDataWrite

/-- `PVR_FILE_S`, the fields that decide about the event index. -/
structure PvrFile where
  bOpened : Bool := false
  openMode : Nat := 0
  szFileName : String := ""
  eventidx : Option Nat := none

/-- The table, the `flag_shared` of every event index ever made, the number of
    indices made, and the indices that were freed, the last one first. -/
structure State where
  files : Nat → PvrFile := fun _ => {}
  flagShared : Nat → Bool := fun _ => false
  made : Nat := 0
  freed : List Nat := []

/-- Store one slot of the table. -/
def State.setFile (s : State) (i : Nat) (f : PvrFile) : State :=
  { s with files := Function.update s.files i f }

/-- The first slot that is not open. -/
def State.freeSlot (s : State) : Option Nat :=
  (List.range pvrFileMaxFile).find? fun i => !(s.files i).bOpened

/-- The first slot that has `filename` open for writing. -/
def State.writer (s : State) (filename : String) : Option Nat :=
  (List.range pvrFileMaxFile).find? fun i =>
    (s.files i).szFileName == filename && isWrite (s.files i).openMode

/-- What the system answers during one `PVR_OPEN64`. -/
structure OpenEnv where
  /-- `PVR_Check_FileType` recognises the name -/
  fileTypeOk : Bool := true
  /-- the `malloc` of the cells succeeds -/
  mallocOk : Bool := true
  /-- the `PVR_OPEN` succeeds -/
  openOk : Bool := true

/-- `pvr_init_eventidx`; the slot refers to the new index even when the `malloc`
    of its cells fails. -/
def pvrInitEventidx (s : State) (pvrFd : Nat) : State :=
  { s with
    files := Function.update s.files pvrFd { s.files pvrFd with eventidx := some s.made }
    flagShared := Function.update s.flagShared s.made false
    made := s.made + 1 }

/-- `pvr_free_eventidx`; the slot keeps its pointer. -/
def pvrFreeEventidx (s : State) (pvrFd : Nat) : State :=
  match (s.files pvrFd).eventidx with
  | some e => { s with freed := e :: s.freed }
  | none => s

/-- The end of `PVR_OPEN64`: the `PVR_OPEN` of the file. -/
def openFile (s : State) (pvrFd : Nat) (filename : String) (mode : Nat) (env : OpenEnv) :
    State × Bool :=
  if env.openOk then
    (s.setFile pvrFd { s.files pvrFd with
      szFileName := filename
      openMode := mode &&& (0xffffffff ^^^ oAppend) }, true)
  else
    let s := pvrFreeEventidx s pvrFd
    (s.setFile pvrFd { s.files pvrFd with bOpened := false }, false)

/-- The reference a read open takes to the event index of the file's writer. -/
def shareEventidx (s : State) (pvrFd i : Nat) : State :=
  match (s.files i).eventidx with
  | some e =>
    { s with
      files := Function.update s.files pvrFd { s.files pvrFd with eventidx := some e }
      flagShared := Function.update s.flagShared e true }
  | none => s

/-- `PVR_OPEN64`; the flag tells whether it returned a handle. -/
def pvrOpen64 (s : State) (filename : String) (mode : Nat) (env : OpenEnv) : State × Bool :=
  if mode = fopenModeDataRead ∧ env.fileTypeOk = false then (s, false) else
  match s.freeSlot with
  | none => (s, false)
  | some pvrFd =>
    let s := s.setFile pvrFd { bOpened := true }
    if isWrite mode then
      let s := pvrInitEventidx s pvrFd
      -- without cells the call fails, but the slot is left open
      if env.mallocOk then openFile s pvrFd filename mode env else (s, false)
    else
      match s.writer filename with
      | some i => openFile (shareEventidx s pvrFd i) pvrFd filename mode env
      | none => openFile s pvrFd filename mode env

/-- `PVR_CLOSE64`; the flag tells whether the slot was open. -/
def pvrClose64 (s : State) (pvrFd : Nat) : State × Bool :=
  if pvrFd < pvrFileMaxFile ∧ (s.files pvrFd).bOpened then
    let f := s.files pvrFd
    let s := s.setFile pvrFd { f with bOpened := false }
    let s := match f.eventidx with
      | some e =>
        let flagShared := s.flagShared e
        let s := { s with flagShared := Function.update s.flagShared e false }
        if flagShared then s
        else
          let s := pvrFreeEventidx s pvrFd
          s.setFile pvrFd { s.files pvrFd with eventidx := none }
      | none => s
    (s.setFile pvrFd { s.files pvrFd with openMode := 0 }, true)
  else (s, false)

/-! ## Runs -/

/-- A call on the table. -/
inductive Call
  | open64 (filename : String) (mode : Nat) (env : OpenEnv)
  | close64 (pvrFd : Nat)

/-- The table as a machine over calls. -/
def machine : Machine State Call Bool where
  step s
    | .open64 filename mode env => pvrOpen64 s filename mode env
    | .close64 pvrFd => pvrClose64 s pvrFd

/-- The lifetime rule: no open slot refers to a freed event index, and none was
    freed twice. -/
def Sound (s : State) : Prop :=
  (∀ i e, (s.files i).bOpened = true → (s.files i).eventidx = some e → e ∉ s.freed) ∧
    s.freed.Nodup

end Tntsat.PvrFileTable
