import Mathlib.Algebra.Group.Nat.Defs
import Mathlib.Data.Nat.Size
import Tntsat.Native.MmzBlock

/-!
# The zones of media memory

`__mmb_alloc` with `_do_mmb_alloc`, the retries of `mtl_mmb_alloc`, and
`mtl_mmb_getby_phys_2` of `common/drv/mmz/drv_media_mem.c`.

A zone keeps its blocks in a list and takes their pages from its device.  The page
allocators of the kernel are not part of the driver: an attempt comes with what they
would answer, and what a zone has taken from its device is kept beside its blocks.
`mtl_mmb_alloc` gives up `mmz_lock` while it sleeps, so each of its attempts is a step
of its own, and calls that wait for their next attempt are part of the state.
-/

namespace Tntsat.MmzZone

open MmzBlock (Mmb mmzGrain mmzGrainAlign)

/-- A range of physical addresses: its start and its length. -/
abbrev Range := Nat × Nat

/-- `struct mtl_media_memory_zone`; `cma_area` and `dma_mem` are those of its device. -/
structure Mmz where
  name : String
  gfp : Nat
  cma_area : Bool
  dma_mem : Bool
  mmb_list : List Mmb := []
  /-- the pages that have been taken from the device -/
  taken : List Range := []
deriving DecidableEq

/-- `anony` and `dont_steal_av`. -/
structure Config where
  anony : Bool
  dont_steal_av : Bool
deriving DecidableEq

/-- What an allocation asks for. -/
structure Request where
  size : Nat
  align : Nat
  gfp : Nat
  mmz_name : Option String
  /-- `_user_mmz`, as a place in the list of zones -/
  user_mmz : Option Nat := none
deriving DecidableEq

/-- What the kernel would answer to one attempt: where a zone's device has pages for a
    size and an order, and whether `kzalloc` succeeds. -/
structure Kernel where
  pages : Mmz → Nat → Nat → Option Nat
  kzalloc : Bool

/-- `MTL_MMZ_NAME_LEN`. -/
def mmzNameLen : Nat := 32

/-- `strncmp(a, b, MTL_MMZ_NAME_LEN) == 0`. -/
def sameName (a b : String) : Bool := a.toList.take mmzNameLen == b.toList.take mmzNameLen

/-- The zones that `begin_list_for_each_mmz` does not skip. -/
def eachMmz (cfg : Config) (gfp : Nat) (mmz_name : Option String) (p : Mmz) : Bool :=
  if gfp ≠ 0 ∧ p.gfp ≠ gfp then false
  else
    match mmz_name with
    | some name =>
      if name ≠ "" ∧ ¬ sameName name p.name then false
      else if cfg.dont_steal_av ∧ name = "" ∧ ¬ sameName "ddr" p.name then false
      else true
    | none =>
      if cfg.anony ∧ ¬ sameName "anonymous" p.name then false
      else if cfg.dont_steal_av ∧ ¬ sameName "ddr" p.name then false
      else true

/-- `get_order`, on 64-bit sizes. -/
def getOrder (size : Nat) : Nat := Nat.size ((size + (2 ^ 64 - 1)) % 2 ^ 64 / mmzGrain)

/-- The alignment that is asked for. -/
def alignOf (req : Request) : Nat :=
  if req.align = 0 ∨ req.align > 0x400000 then mmzGrain else req.align

/-- The size in whole pages, as an `ulong`. -/
def sizeOf (req : Request) : Nat := mmzGrainAlign req.size % 2 ^ 64

/-- `align_order`: from `MMZ_ALIGN_ORDER64K` pages on it is at least that. -/
def alignOrder (req : Request) : Nat :=
  if getOrder (alignOf req) < 4 ∧ getOrder (sizeOf req) ≥ 4 then 4 else getOrder (alignOf req)

/-- The pages for a request in one zone, from the one allocator its device has.  A
    coherent pool that has no room leaves `dma_handle` at 0. -/
def pagesFrom (k : Kernel) (req : Request) (mmz : Mmz) : Option Nat :=
  if mmz.cma_area ∧ ¬ mmz.dma_mem then k.pages mmz (sizeOf req) (alignOrder req)
  else if mmz.dma_mem ∧ ¬ mmz.cma_area then
    match k.pages mmz (sizeOf req) (alignOrder req) with
    | some dma_handle => if dma_handle ≠ 0 then some dma_handle else none
    | none => none
  -- a device with both allocators, or with none
  else none

/-- The loop over the zones: the first one that has pages, at place `i` or later, and
    where they start. -/
def findPages (cfg : Config) (k : Kernel) (req : Request) : Nat → List Mmz → Option (Nat × Nat)
  | _, [] => none
  | i, mmz :: rest =>
    if eachMmz cfg req.gfp req.mmz_name mmz = false then findPages cfg k req (i + 1) rest
    -- another zone than the one that is asked for
    else if req.user_mmz ≠ none ∧ req.user_mmz ≠ some i then findPages cfg k req (i + 1) rest
    else
      match pagesFrom k req mmz with
      | none => findPages cfg k req (i + 1) rest
      | some page => some (i, page)

/-- `_do_mmb_alloc`: in front of the first block that starts behind this one. -/
def doMmbAlloc (mmb : Mmb) : List Mmb → List Mmb
  | [] => [mmb]
  | p :: rest =>
    if mmb.phys_addr < p.phys_addr then mmb :: p :: rest else p :: doMmbAlloc mmb rest

/-- `__mmb_alloc` with the count that `mtl_mmb_alloc` sets before it gives up the lock.
    The descriptor is asked for when the pages have been taken. -/
def mmbAlloc (cfg : Config) (zones : List Mmz) (req : Request) (k : Kernel) :
    List Mmz × Option Mmb :=
  if req.size = 0 then (zones, none)
  else
    match findPages cfg k req 0 zones with
    | none => (zones, none)
    | some (i, start) =>
      let zones := zones.modify i fun z => { z with taken := (start, sizeOf req) :: z.taken }
      if k.kzalloc then
        let mmb : Mmb := { phys_addr := start, length := sizeOf req, kphy_ref := 1 }
        (zones.modify i fun z => { z with mmb_list := doMmbAlloc mmb z.mmb_list }, some mmb)
      -- no descriptor; the pages stay taken
      else (zones, none)

/-- The test of `MACH_MMB_2`, with the sum as a `phys_addr_t`. -/
def machMmb2 (val : Nat) (mmb : Mmb) : Bool :=
  decide (mmb.phys_addr ≤ val ∧ (mmb.length + mmb.phys_addr) % 2 ^ 64 > val)

/-- `mtl_mmb_getby_phys_2`: the block and `*Outoffset`. -/
def mtlMmbGetbyPhys2 (zones : List Mmz) (addr : Nat) : Option (Mmb × Nat) :=
  if addr = 0 then none
  else zones.findSome? fun z =>
    (z.mmb_list.find? (machMmb2 addr)).map fun mmb => (mmb, addr - mmb.phys_addr)

/-! ## Runs -/

/-- The zones, and the calls of `mtl_mmb_alloc` that sleep, with their `try_count`. -/
structure State where
  zones : List Mmz
  waiting : List (Request × Nat) := []

/-- One stretch under `mmz_lock`. -/
inductive Input
  /-- the first attempt of `mtl_mmb_alloc` -/
  | alloc (req : Request) (k : Kernel)
  /-- the next attempt of the `n`-th call that waits -/
  | again (n : Nat) (k : Kernel)
  /-- a call on the `j`-th block of the `i`-th zone -/
  | call (i j : Nat) (c : MmzBlock.Call)

/-- What a step returns. -/
inductive Output
  | block (mmb : Mmb)
  | null
  | ret (r : MmzBlock.Ret)
  /-- no such call waits, or no such block is there -/
  | nothing
deriving DecidableEq

/-- An attempt of `mtl_mmb_alloc`; it sleeps after the first two failures. -/
def attempt (cfg : Config) (s : State) (req : Request) (try_count : Nat) (k : Kernel) :
    State × Output :=
  match mmbAlloc cfg s.zones req k with
  | (zones, some mmb) => ({ s with zones := zones }, .block mmb)
  | (zones, none) =>
    -- it gives up the lock and tries again later
    if try_count < 2 then
      ({ s with zones := zones, waiting := s.waiting ++ [(req, try_count + 1)] }, .null)
    else ({ s with zones := zones }, .null)

/-- The zone after a call on its `j`-th block: a block that is given back leaves the list
    and its pages go back to the device. -/
def afterCall (z : Mmz) (j : Nat) (mmb mmb' : Mmb) : Mmz :=
  if mmb'.givenBack ≠ mmb.givenBack then
    { z with
      mmb_list := z.mmb_list.eraseIdx j
      taken := z.taken.erase (mmb.phys_addr, mmb.length) }
  else { z with mmb_list := z.mmb_list.set j mmb' }

/-- A call on a block that is in its zone's list. -/
def callBlock (s : State) (i j : Nat) (c : MmzBlock.Call) : State × Output :=
  match s.zones[i]? with
  | none => (s, .nothing)
  | some z =>
    match z.mmb_list[j]? with
    | none => (s, .nothing)
    | some mmb =>
      let r := MmzBlock.machine.step mmb c
      ({ s with zones := s.zones.set i (afterCall z j mmb r.1) }, .ret r.2)

/-- Everything that happens under `mmz_lock`. -/
def machine (cfg : Config) : Machine State Input Output where
  step s
    | .alloc req k => attempt cfg s req 0 k
    | .again n k =>
      match s.waiting[n]? with
      | none => (s, .nothing)
      | some (req, try_count) =>
        attempt cfg { s with waiting := s.waiting.eraseIdx n } req try_count k
    | .call i j c => callBlock s i j c

end Tntsat.MmzZone
