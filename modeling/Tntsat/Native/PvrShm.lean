import Mathlib.Algebra.Group.Nat.Defs
import Mathlib.Logic.Function.Basic
import Tntsat.ForStd.CInt
import Tntsat.ForStd.Machine

/-!
# The slots of the kernel index buffers

`PVR_Create_Shm` and `PVR_Config_Shm` of `msp/drv/pvr/drv_pvr_intf.c`, and
`PVR_Exit` with `shm_clear_pvr` of `msp/drv/pvr/fw_api_pvr.c` as they are built
where the table itself is allocated with the driver.  A slot of the table is
occupied while its `pu8KnlVirAddr` is not null.

A buffer of media memory is known by its addresses; beside the table stand the
buffers that are out.  Left out are the semaphores and the index buffer of the
hardware that `shm_clear_pvr` clears.
-/

namespace Tntsat.PvrShm

/-- `CFG_PVR_IDX_INS_COUNT`. -/
def cfgPvrIdxInsCount : Nat := 4

/-- `sizeof(DMX_REC_INDEX_S)`. -/
def sizeofDmxRecIndex : Nat := 24

/-- The value of `rec_dmxid` before `PVR_Config_Shm`. -/
def invalidDmxid : Nat := 0xffffffff

/-- `mmz_buffer_s`, as the allocator hands it out: it is mapped. -/
structure MmzBuffer where
  startPhyAddr : Nat
  startVirAddr : Nat
  size : Nat
  mapped : startVirAddr ≠ 0
deriving DecidableEq

/-- `mtPVRShmDataType_T`. -/
inductive ShmDataType
  | idx | other
deriving DecidableEq

/-- `MT_UNF_VCODEC_TYPE_E`, the codecs that are told apart. -/
inductive VcodecType
  | mpeg2 | mpeg4 | avs | h264 | vc1 | hevc | other | butt
deriving DecidableEq

/-- `PVR_INDEX_INST_S`; a null `pu8KnlVirAddr` is 0. -/
structure IndexInst where
  u32PhyAddr : Nat := 0
  pu8KnlVirAddr : Nat := 0
  u32Size : Nat := 0
  status : Nat := 0
  index_num : Nat := 0
  index_rp : Nat := 0
  index_wp : Nat := 0
  rec_dmxid : Nat := 0
  video_type : VcodecType := .mpeg2
deriving DecidableEq

/-- `pvr_idx_buffer_inst`, and the buffers obtained and not yet released. -/
structure ShmTable where
  pvr_idx_buffer_inst : Nat → IndexInst := fun _ => {}
  live : List MmzBuffer := []

/-- The first free slot. -/
def freeSlot (t : ShmTable) : Option Nat :=
  (List.range cfgPvrIdxInsCount).find? fun i => (t.pvr_idx_buffer_inst i).pu8KnlVirAddr == 0

/-- A slot as `PVR_Create_Shm` leaves it. -/
def newInst (buf : MmzBuffer) (size : Nat) : IndexInst where
  u32PhyAddr := buf.startPhyAddr
  pu8KnlVirAddr := buf.startVirAddr
  u32Size := size
  index_num := size / sizeofDmxRecIndex
  rec_dmxid := invalidDmxid

/-- `PVR_Create_Shm`: the slot on success.  `alloc` is what `mt_drv_mmz_alloc_and_map`
    does with a size. -/
def createShm (t : ShmTable) (size : Nat) (type : ShmDataType)
    (alloc : Nat → Option MmzBuffer) : ShmTable × Option Nat :=
  match type with
  | .other => (t, none)
  | .idx =>
    let size := size / sizeofDmxRecIndex * sizeofDmxRecIndex
    match alloc size with
    | none => (t, none)
    | some buf =>
      let t := { t with live := buf :: t.live }
      match freeSlot t with
      | none => (t, none)
      | some chn_num =>
        ({ t with pvr_idx_buffer_inst :=
            Function.update t.pvr_idx_buffer_inst chn_num (newInst buf size) }, some chn_num)

/-- `PVR_Config_Shm`. -/
def configShm (inst : IndexInst) (dmxid : Nat) (vdectype : VcodecType) : IndexInst :=
  if inst.pu8KnlVirAddr = 0 then inst
  else { inst with rec_dmxid := dmxid, video_type := vdectype, status := 1 }

/-- `mt_drv_mmz_unmap_and_release` of the buffer at the addresses of a slot. -/
def release (live : List MmzBuffer) (inst : IndexInst) : List MmzBuffer :=
  live.eraseP fun buf =>
    buf.startPhyAddr == inst.u32PhyAddr && buf.startVirAddr == inst.pu8KnlVirAddr

/-- `shm_clear_pvr`. -/
def shmClearPvr (t : ShmTable) (chn_num : Nat) : ShmTable :=
  if cfgPvrIdxInsCount ≤ chn_num then t
  else
    let inst := t.pvr_idx_buffer_inst chn_num
    if inst.pu8KnlVirAddr ≠ 0 then
      { pvr_idx_buffer_inst :=
          Function.update t.pvr_idx_buffer_inst chn_num { inst with pu8KnlVirAddr := 0 }
        live := release t.live inst }
    else t

/-- `PVR_Destroy_Shm`; the result is that of `MT_SUCCESS`. -/
def destroyShm (t : ShmTable) (chn_num : Nat) (type : ShmDataType) : ShmTable × Bool :=
  match type with
  | .other => (t, false)
  | .idx => (shmClearPvr t chn_num, true)

/-! ## Runs -/

/-- A call; a create carries what the allocator will do. -/
inductive ShmCall
  | create (size : Nat) (type : ShmDataType) (alloc : Nat → Option MmzBuffer)
  | destroy (chn_num : Nat) (type : ShmDataType)

/-- What a call returns. -/
inductive ShmRet
  | slot (r : Option Nat)
  | ok (r : Bool)
deriving DecidableEq

/-- The calls on the table. -/
def shmMachine : Machine ShmTable ShmCall ShmRet where
  step t
    | .create size type alloc =>
      ((createShm t size type alloc).1, .slot (createShm t size type alloc).2)
    | .destroy chn_num type => ((destroyShm t chn_num type).1, .ok (destroyShm t chn_num type).2)

end Tntsat.PvrShm
