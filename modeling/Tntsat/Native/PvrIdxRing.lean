import Tntsat.ForStd.Ring
import Tntsat.Native.PvrIndex
import Tntsat.Native.PvrShm

/-!
# The kernel index ring of a recording

The ring of records in a buffer of `PVR_Create_Shm`: `av_pvr_process_index_data` of
`msp/drv/pvr/drv_pvr_intf.c` stores one record at a time, with the time it was
recorded at in `u32PrivatePara`; `PVR_Read_Data` and `PVR_Read_Data_Ex` take
records out, and `PVR_Read_Last_index` looks at the newest one.

What `Dmx_AcquireRecIndex` and the codec's frame type function find is part of the
input, as are the readings of the clock and of the hardware's write address.  Of
`INDEXMANAGE` only the times are kept here.
-/

namespace Tntsat.PvrIdxRing

open PvrIndex (FrameType)
open PvrShm (IndexInst VcodecType MmzBuffer invalidDmxid newInst configShm)

/-- `DMX_REC_INDEX_S`. -/
structure DmxRecIndex where
  u64GlobalOffset : Nat := 0
  enFrameType : FrameType := .unknown
  u32PtsMs : Nat := 0
  u32FrameSize : Nat := 0
  u32PrivatePara : Nat := 0
deriving DecidableEq

/-- The fields of `MT_UNF_DMX_REC_INDEX_S` that a read fills in. -/
structure UnfRecIndex where
  enFrameType : FrameType
  u32PtsMs : Nat
  u64GlobalOffset : Nat
  u32FrameSize : Nat
  u32DataTimeMs : Nat
deriving DecidableEq

/-- What a read makes of a record. -/
def DmxRecIndex.toUnf (r : DmxRecIndex) : UnfRecIndex where
  enFrameType := r.enFrameType
  u32PtsMs := r.u32PtsMs
  u64GlobalOffset := r.u64GlobalOffset
  u32FrameSize := r.u32FrameSize
  u32DataTimeMs := r.u32PrivatePara

/-- `MAX_FRAME_INERTVAL_TIME`. -/
def maxFrameInertvalTime : Nat := 60

/-- One channel: its slot and ring, the elements of `g_indexmanage`, `g_pvr_index`,
    `g_rec_waddr` and `g_rec_parseiframe`, and the static of `PVR_Read_Last_index`. -/
structure Chn where
  inst : IndexInst
  cells : Memory DmxRecIndex := fun _ => {}
  last_get : Nat := 0
  last_update : Nat := 0
  g_pvr_index : DmxRecIndex := {}
  g_rec_waddr : Nat := 0
  g_rec_parseiframe : Bool := false
  last_data_time_ms : Nat := 0

/-- A channel after `PVR_Create_Shm` and `PVR_Config_Shm`.  The globals are as an
    earlier recording left them. -/
def started (buf : MmzBuffer) (size dmxid : Nat) (vdectype : VcodecType) (old : Chn) : Chn :=
  { old with
    inst := configShm (newInst buf size) dmxid vdectype
    cells := fun _ => {} }

/-! ## Storing a record -/

/-- What a step finds in its surroundings. -/
structure StepEnv where
  /-- what `Dmx_AcquireRecIndex` returns with 0, and the frame type of it -/
  acquired : Option DmxRecIndex := none
  /-- the hardware's write address -/
  rec_waddr : Nat := 0
  /-- the clock at the first step, before the tests and in the record -/
  initTime : Nat := 0
  ktime : Nat := 0
  stampTime : Nat := 0
deriving DecidableEq

/-- What a step does besides the change of the channel. -/
structure StepOut where
  /-- `Dmx_AcquireRecIndex` was called -/
  asked : Bool := false
  stored : Option DmxRecIndex := none
deriving DecidableEq

/-- The patches of the frame type for H264 and HEVC: the record and
    `g_rec_parseiframe`. -/
def patchFrameType (video_type : VcodecType) (parseiframe : Bool) (r : DmxRecIndex) :
    DmxRecIndex × Bool :=
  let r :=
    if (video_type = .hevc ∨ video_type = .h264) ∧ r.enFrameType ≠ .i then
      { r with enFrameType := .b }
    else r
  if video_type = .hevc then
    let parseiframe := parseiframe || r.enFrameType == .i
    if r.u32PrivatePara = 1 ∧ parseiframe = false then ({ r with enFrameType := .i }, parseiframe)
    else (r, parseiframe)
  else (r, parseiframe)

/-- `abs` of a difference of two times. -/
def absDiff (a b : Nat) : Int :=
  let d := s32 (a - b : Int)
  if d < 0 then s32 (-d) else d

/-- `lost_pts_offset` is not 0: the signal was away for a second, and the time
    stamps of the stream have gone on. -/
def lostSignal (c : Chn) (r : DmxRecIndex) (ktime : Nat) : Bool :=
  c.g_pvr_index.u32PtsMs ≠ 0 && u32sub ktime c.last_get > 1000 &&
    absDiff r.u32PtsMs c.g_pvr_index.u32PtsMs > 1000 && r.u32PtsMs > c.g_pvr_index.u32PtsMs

/-- The time of the record and the new `last_get`. -/
def recordTime (c : Chn) (r : DmxRecIndex) (env : StepEnv) : Nat × Nat :=
  if u32sub env.ktime c.last_get ≥ maxFrameInertvalTime ∧ c.g_pvr_index.enFrameType ≠ .unknown then
    if lostSignal c r env.ktime then (env.stampTime, env.stampTime)
    else
      (u32 (c.g_pvr_index.u32PrivatePara + maxFrameInertvalTime),
        u32 (c.last_get + maxFrameInertvalTime))
  else (env.stampTime, env.stampTime)

/-- The write position behind the next record. -/
def nextWp (inst : IndexInst) : Nat :=
  if inst.index_wp + 1 = inst.index_num then 0 else inst.index_wp + 1

/-- Put a record into the ring. -/
def putRecord (c : Chn) (r : DmxRecIndex) : Chn :=
  { c with
    cells := c.cells.set c.inst.index_wp r
    inst := { c.inst with index_wp := nextWp c.inst } }

/-- A frame was acquired. -/
def storeFrame (c : Chn) (r : DmxRecIndex) (env : StepEnv) : Chn × StepOut :=
  let p := patchFrameType c.inst.video_type c.g_rec_parseiframe r
  let time := recordTime c p.1 env
  let r := { p.1 with u32PrivatePara := time.1 }
  ({ putRecord c r with
      last_get := time.2
      last_update := time.2
      g_pvr_index := r
      g_rec_waddr := env.rec_waddr
      g_rec_parseiframe := p.2 },
    { asked := true, stored := some r })

/-- No frame was acquired: a record of the time alone, when the hardware still writes. -/
def insertTime (c : Chn) (env : StepEnv) : Chn × StepOut :=
  let idle := u32sub env.ktime c.last_update
  if c.g_pvr_index.enFrameType ≠ .unknown ∧ (200 ≤ idle ∧ idle ≤ 900) ∧
      env.rec_waddr ≠ c.g_rec_waddr then
    let r := { c.g_pvr_index with enFrameType := .unknown, u32PrivatePara := env.stampTime }
    ({ putRecord c r with g_rec_waddr := env.rec_waddr, last_update := env.stampTime },
      { asked := true, stored := some r })
  else (c, { asked := true })

/-- The first step of a recording. -/
def firstInit (c : Chn) (initTime : Nat) : Chn :=
  { c with
    inst := { c.inst with status := 2 }
    last_get := initTime
    last_update := 0
    g_pvr_index := {}
    g_rec_waddr := 0
    g_rec_parseiframe := false }

/-- `av_pvr_process_index_data`. -/
def processIndexData (c : Chn) (env : StepEnv) : Chn × StepOut :=
  if c.inst.pu8KnlVirAddr = 0 then ({ c with inst := { c.inst with status := 3 } }, {})
  else if c.inst.rec_dmxid = invalidDmxid then (c, {})
  else if c.inst.status = 0 then (c, {})
  else
    let c := if c.inst.status = 1 then firstInit c env.initTime else c
    if nextWp c.inst = c.inst.index_rp then (c, {})
    else if c.inst.video_type = .butt then (c, {})
    else
      match env.acquired with
      | some r => storeFrame c r env
      | none => insertTime c env

/-! ## Reading -/

/-- The channel can be read. -/
def readable (inst : IndexInst) : Bool :=
  inst.pu8KnlVirAddr ≠ 0 && inst.rec_dmxid ≠ invalidDmxid && inst.status ≠ 0

/-- `PVR_Read_Data`; `none` is `MT_FAILURE`. -/
def readData (c : Chn) : Chn × Option UnfRecIndex :=
  if readable c.inst then
    if c.inst.index_rp = c.inst.index_wp then (c, none)
    else
      let rpnxt := if c.inst.index_rp + 1 = c.inst.index_num then 0 else c.inst.index_rp + 1
      ({ c with inst := { c.inst with index_rp := rpnxt } },
        some (c.cells c.inst.index_rp).toUnf)
  else (c, none)

/-- The loop of `PVR_Read_Data_Ex`: the records, and where the next one lies. -/
def copyOut (cells : Memory DmxRecIndex) (index_num : Nat) : Nat → Nat → List UnfRecIndex × Nat
  | 0, rp => ([], rp)
  | n + 1, rp =>
    let rest := copyOut cells index_num n ((rp + 1) % index_num)
    ((cells rp).toUnf :: rest.1, rest.2)

/-- `PVR_Read_Data_Ex` into a buffer for `maxnum` records; the flag tells whether the
    record behind the last one is marked as the end. -/
def readDataEx (c : Chn) (maxnum : Nat) : Chn × Option (List UnfRecIndex × Bool) :=
  if readable c.inst then
    let rp := c.inst.index_rp
    let num := c.inst.index_num
    if rp = c.inst.index_wp then (c, none)
    else
      let cp := min ((c.inst.index_wp + num - rp) % num) maxnum
      let out := copyOut c.cells num cp rp
      ({ c with inst := { c.inst with index_rp := out.2 } }, some (out.1, cp ≠ maxnum))
  else (c, none)

/-- `PVR_Read_Last_index`. -/
def readLastIndex (c : Chn) : Chn × Option UnfRecIndex :=
  if readable c.inst then
    let found := c.inst.index_wp ≠ 0 ∨ c.inst.index_rp ≠ 0 ∨ c.inst.status = 2
    let last_index :=
      if c.inst.index_wp ≠ 0 then c.inst.index_wp - 1
      else if c.inst.index_rp ≠ 0 ∨ c.inst.status = 2 then c.inst.index_num - 1
      else 0
    let r := c.cells last_index
    let out := r.toUnf
    -- the record itself gets the time of the read before
    let cells :=
      if c.last_data_time_ms > out.u32DataTimeMs then
        c.cells.set last_index { r with u32PrivatePara := c.last_data_time_ms }
      else c.cells
    ({ c with cells := cells, last_data_time_ms := out.u32DataTimeMs },
      if found ∧ ¬ (r.u32PtsMs = 0 ∧ out.u32DataTimeMs = 0) then some out else none)
  else (c, none)

/-! ## Runs -/

/-- A step of the kernel thread or a call of a reader. -/
inductive RingInput
  | process (env : StepEnv)
  | readData
  | readDataEx (maxnum : Nat)
  | readLastIndex
deriving DecidableEq

/-- What a step returns. -/
inductive RingOut
  | processed (out : StepOut)
  | data (r : Option UnfRecIndex)
  | dataEx (r : Option (List UnfRecIndex × Bool))
  | last (r : Option UnfRecIndex)
deriving DecidableEq

/-- The steps on one channel. -/
def machine : Machine Chn RingInput RingOut where
  step c
    | .process env => ((processIndexData c env).1, .processed (processIndexData c env).2)
    | .readData => ((readData c).1, .data (readData c).2)
    | .readDataEx maxnum => ((readDataEx c maxnum).1, .dataEx (readDataEx c maxnum).2)
    | .readLastIndex => ((readLastIndex c).1, .last (readLastIndex c).2)

end Tntsat.PvrIdxRing
