import Tntsat.ForStd.Machine
import Tntsat.ForStd.Memory
import Tntsat.ForStd.LittleEndian
import Mathlib.Logic.Function.Basic

/-!
# The memory pool of the drawing engine

`msp/drv/tde/wmalloc_k.c`, with `SIZE_256BYTE_ALIGN`: one buffer is cut into units of
four sizes, and the free units of a size form a list whose links are the first two
bytes of the units themselves.

`mallocUnit` holds the lock for the list only and clears the unit behind it, and
`wmalloc` takes the lock anew for every size it tries.  So a call is split where the
lock is released (`Pc`), and any number of threads may be inside (`wmMachine`).
`wfree` is one step: the sizes it tries in vain only compare addresses that never
change.  Addresses are numbers that do not wrap.  The statistics of
`MT_TDE_MEMCOUNT_SUPPORT` are left out.
-/

namespace Tntsat.WmAlloc

/-- `UNIT_SIZE_E`. -/
inductive UnitSize
  | cmd
  | job
  | node
  | filter
deriving DecidableEq

/-- `CMD_SIZE`, `JOB_SIZE`, `NODE_SIZE` and `FILTER_SIZE`. -/
def UnitSize.bytes : UnitSize → Nat
  | cmd => 64
  | job => 96
  | node => 1536
  | filter => 2048

/-- `MemoryBlock`; `pNext` is never read. -/
structure MemoryBlock where
  nSize : Nat
  nFree : Nat
  nFirst : Nat
  nUnitSize : Nat
  pStartAddr : Nat
deriving DecidableEq

/-- A read through a `mt_u16*`. -/
def readU16 (mem : Memory UInt8) (p : Nat) : Nat := ofLe (mem.read p 2)

/-- A write through a `mt_u16*`. -/
def writeU16 (mem : Memory UInt8) (p v : Nat) : Memory UInt8 := mem.write p (le 2 v)

/-- `memset(p, 0, n)`. -/
def clear (mem : Memory UInt8) (p n : Nat) : Memory UInt8 := mem.write p (List.replicate n 0)

/-- The pool: `g_struMemBlock`, the memory, and where it is mapped. -/
structure Pool where
  blk : UnitSize → MemoryBlock
  mem : Memory UInt8
  phys : Nat
  vrt : Nat
  tdeBuf : Nat

/-! ## Init -/

/-- The loop of `MemoryBlockInit` from unit `i` on: the unit before it links to it. -/
def linkUnits (nUnitSize pAddr : Nat) : Nat → Nat → Memory UInt8 → Memory UInt8
  | _, 0, mem => mem
  | i, n + 1, mem =>
    linkUnits nUnitSize pAddr (i + 1) n (writeU16 mem (pAddr + (i - 1) * nUnitSize) i)

/-- `MemoryBlockInit`; without units or an address nothing happens, and `wmeminit` does not
    look. -/
def memoryBlockInit (u : UnitSize) (nUnitNum pAddr : Nat) (g : Pool) : Pool :=
  if pAddr = 0 ∨ nUnitNum = 0 then g
  else
    { g with
      mem := linkUnits u.bytes pAddr 1 (nUnitNum - 1) g.mem
      blk := Function.update g.blk u
        { nSize := nUnitNum * u.bytes, nFree := nUnitNum % 2 ^ 16, nFirst := 0
          nUnitSize := u.bytes, pStartAddr := pAddr } }

/-- `TDE_MIN_BUFFER`. -/
def tdeMinBuffer : Nat := 2048 * 2 + (64 + 1536 + 96) * 2

/-- `TDE_MAX_BUFFER`. -/
def tdeMaxBuffer : Nat := 1024 * 1024

/-- `g_u32TdeBuf`, by the configured `MT_TDE_BUFFER`. -/
def tdeBufOf (cfg : Nat) : Nat :=
  if cfg > tdeMaxBuffer then tdeMaxBuffer else if cfg < tdeMinBuffer then tdeMinBuffer else cfg

/-- `MT_TDE_CMD_NUM`, `MT_TDE_JOB_NUM`, `MT_TDE_NODE_NUM` and `MT_TDE_FILTER_NUM`. -/
def unitNum (tdeBuf : Nat) : UnitSize → Nat
  | .filter => 2
  | _ => (tdeBuf - 2048 * 2) / (64 + 1536 + 96)

/-- `TDE_CMD_OFFSET`, `TDE_JOB_OFFSET`, `TDE_NODE_OFFSET` and `TDE_FILTER_OFFSET`. -/
def unitOffset (tdeBuf : Nat) : UnitSize → Nat
  | .cmd => 0
  | .job => unitNum tdeBuf .cmd * 64
  | .node => unitNum tdeBuf .cmd * 64 + unitNum tdeBuf .job * 96
  | .filter => unitNum tdeBuf .cmd * 64 + unitNum tdeBuf .job * 96 + unitNum tdeBuf .node * 1536

/-- `TDE_MEMPOOL_SIZE`. -/
def memPoolSize (tdeBuf : Nat) : Nat := unitOffset tdeBuf .filter + unitNum tdeBuf .filter * 2048

/-- `wmeminit` with the answers of `MT_GFX_AllocMem` and `MT_GFX_Map` and the memory that they
    return. -/
def wmeminit (cfg phys vrt : Nat) (mem : Memory UInt8) : Option Pool :=
  if phys = 0 then none
  else
    let tdeBuf := tdeBufOf cfg
    let init (u : UnitSize) (g : Pool) : Pool :=
      memoryBlockInit u (unitNum tdeBuf u) (vrt + unitOffset tdeBuf u) g
    let g : Pool := { blk := fun _ => ⟨0, 0, 0, 0, 0⟩, mem, phys, vrt, tdeBuf }
    some (init .filter (init .node (init .job (init .cmd g))))

/-! ## Allocation -/

/-- `mallocUnit` as far as the lock is held. -/
def takeUnit (u : UnitSize) (g : Pool) : Option Nat × Pool :=
  let pBlock := g.blk u
  if pBlock.nFree = 0 then (none, g)
  else
    let pFree := pBlock.pStartAddr + pBlock.nFirst * pBlock.nUnitSize
    (some pFree, { g with
      blk := Function.update g.blk u
        { pBlock with nFirst := readU16 g.mem pFree, nFree := pBlock.nFree - 1 } })

/-- `mallocUnit` behind the lock. -/
def clearUnit (u : UnitSize) (pFree : Nat) (g : Pool) : Pool :=
  { g with mem := clear g.mem pFree (g.blk u).nUnitSize }

/-- The sizes that `wmalloc` tries in order; `none` is a size it refuses. -/
def wmallocSizes (size : Nat) : Option (List UnitSize) :=
  if size > 2048 ∨ size = 0 then none
  else if size ≤ 64 then some [.cmd, .job, .node, .filter]
  else if size ≤ 96 then some [.job, .node, .filter]
  else if size ≤ 1536 then some [.node, .filter]
  else some [.filter]

/-- `freeUnit`; `none` is `MT_FAILURE`. -/
def freeUnit (u : UnitSize) (ptr : Nat) (g : Pool) : Option Pool :=
  let pBlock := g.blk u
  if ptr < pBlock.pStartAddr ∨ ptr ≥ pBlock.pStartAddr + pBlock.nSize then none
  else
    some { g with
      mem := writeU16 g.mem ptr pBlock.nFirst
      blk := Function.update g.blk u
        { pBlock with
          nFree := (pBlock.nFree + 1) % 2 ^ 16
          nFirst := (ptr - pBlock.pStartAddr) / pBlock.nUnitSize % 2 ^ 16 } }

/-- The loop of `wfree`. -/
def wfreeFrom (ptr : Nat) : List UnitSize → Pool → Option Pool
  | [], _ => none
  | u :: us, g =>
    match freeUnit u ptr g with
    | some g => some g
    | none => wfreeFrom ptr us g

/-- `wfree`; `none` is `MT_FAILURE`. -/
def wfree (ptr : Nat) (g : Pool) : Option Pool := wfreeFrom ptr [.cmd, .job, .node, .filter] g

/-- `wgetphy`; 0 stands for a pointer outside the pool. -/
def wgetphy (ptr : Nat) (g : Pool) : Nat :=
  if ptr < g.vrt ∨ ptr ≥ g.vrt + memPoolSize g.tdeBuf then 0 else g.phys + (ptr - g.vrt)

/-- `wgetvrt`; 0 is `NULL`. -/
def wgetvrt (phyaddr : Nat) (g : Pool) : Nat :=
  if phyaddr < g.phys ∨ phyaddr ≥ g.phys + memPoolSize g.tdeBuf then 0
  else g.vrt + (phyaddr - g.phys)

/-! ## Threads -/

/-- Where a thread is inside `wmalloc`. -/
inductive Pc
  | idle
  /-- in front of the lock, with the sizes still to try -/
  | trying (size : Nat) (sizes : List UnitSize)
  /-- behind the lock, with a unit to clear -/
  | clearing (size : Nat) (u : UnitSize) (pFree : Nat)
deriving DecidableEq

/-- What a thread does next. -/
inductive Event
  | call (thread size : Nat)
  | lock (thread : Nat)
  | finish (thread : Nat)
  | write (address : Nat) (b : UInt8)
  | free (ptr : Nat)

/-- The pool and its threads.  `live` and `data` are not in the code: the pointers that were
    returned and not freed, with their units, and what their owners expect to read. -/
structure Sys where
  pool : Pool
  pc : Nat → Pc
  live : List (UnitSize × Nat)
  data : Memory UInt8

/-- A return of `wmalloc`, with the size that was asked for. -/
structure Returned where
  size : Nat
  ptr : Option Nat
deriving DecidableEq

/-- One step of a thread. -/
def step (s : Sys) : Event → Sys × Option Returned
  | .call t size =>
    match s.pc t, wmallocSizes size with
    | .idle, none => (s, some ⟨size, none⟩)
    | .idle, some sizes => ({ s with pc := Function.update s.pc t (.trying size sizes) }, none)
    | _, _ => (s, none)
  | .lock t =>
    match s.pc t with
    | .trying size [] => ({ s with pc := Function.update s.pc t .idle }, some ⟨size, none⟩)
    | .trying size (u :: us) =>
      match takeUnit u s.pool with
      | (none, pool) => ({ s with pool, pc := Function.update s.pc t (.trying size us) }, none)
      | (some pFree, pool) =>
        ({ s with pool, pc := Function.update s.pc t (.clearing size u pFree) }, none)
    | _ => (s, none)
  | .finish t =>
    match s.pc t with
    | .clearing size u pFree =>
      ({ pool := clearUnit u pFree s.pool
         pc := Function.update s.pc t .idle
         live := (u, pFree) :: s.live
         data := clear s.data pFree u.bytes }, some ⟨size, some pFree⟩)
    | _ => (s, none)
  | .write a b =>
    ({ s with
       pool := { s.pool with mem := s.pool.mem.set a b }
       data := s.data.set a b }, none)
  | .free ptr =>
    match wfree ptr s.pool with
    | some pool => ({ s with pool, live := s.live.filter fun l => l.2 ≠ ptr }, none)
    | none => (s, none)

/-- Any interleaving of the threads is a run. -/
def wmMachine : Machine Sys Event (Option Returned) where
  step := step

/-- The system behind `wmeminit`. -/
def start (pool : Pool) : Sys where
  pool := pool
  pc := fun _ => .idle
  live := []
  data := fun _ => 0

/-- `wmalloc` of a thread that is alone. -/
def wmallocFrom : List UnitSize → Pool → Option Nat × Pool
  | [], g => (none, g)
  | u :: us, g =>
    match takeUnit u g with
    | (some pFree, g) => (some pFree, clearUnit u pFree g)
    | (none, g) => wmallocFrom us g

/-- `wmalloc`. -/
def wmalloc (size : Nat) (g : Pool) : Option Nat × Pool :=
  match wmallocSizes size with
  | none => (none, g)
  | some sizes => wmallocFrom sizes g

end Tntsat.WmAlloc
