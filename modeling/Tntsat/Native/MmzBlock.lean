import Tntsat.ForStd.Machine

/-!
# A block of media memory

`mtl_mmb_alloc` of `common/drv/mmz/drv_media_mem.c` and the calls that count who
uses the block: `mtl_mmb_get` and `mtl_mmb_put` (`phy_ref`), `mtl_mmb_map2kern`,
`mtl_mmb_map2kern_cached` and `mtl_mmb_unmap` (`map_ref`), and `mtl_mmb_free`,
which leaves the release to the last `mtl_mmb_put` or `mtl_mmb_unmap` when the
block is still in use.

Every call holds `mmz_lock` from its first test to its last.  A call on a block
that has been given back finds the block as `_mmb_free` left it.  The counters are
unbounded; of the zone only the number of times the block came back to it is kept.
-/

namespace Tntsat.MmzBlock

/-- `struct mtl_media_memory_block`; the bits of `flags` are fields of their own. -/
structure Mmb where
  phys_addr : Nat
  length : Nat
  kvirt : Option Nat := none
  map2kern : Bool := false
  map2kernCached : Bool := false
  released : Bool := false
  phy_ref : Int := 0
  map_ref : Int := 0
  kphy_ref : Int := 0
  /-- how often the pages have gone back to the zone -/
  givenBack : Nat := 0
deriving DecidableEq

/-- `MMZ_GRAIN`: the size of a page. -/
def mmzGrain : Nat := 4096

/-- `mmz_grain_align`. -/
def mmzGrainAlign (size : Nat) : Nat := (size + (mmzGrain - 1)) / mmzGrain * mmzGrain

/-- `__mmb_alloc`; `page` is what the zones hand out for so many bytes, and the flag
    tells whether `kzalloc` succeeds. -/
def mmbAlloc (size : Nat) (page : Nat → Option Nat) (kzalloc : Bool) : Option Mmb :=
  if size = 0 then none
  else
    let size := mmzGrainAlign size
    match page size with
    | none => none
    | some phys_addr => if kzalloc then some { phys_addr := phys_addr, length := size } else none

/-- `mtl_mmb_alloc`, the attempt that succeeds. -/
def mtlMmbAlloc (size : Nat) (page : Nat → Option Nat) (kzalloc : Bool) : Option Mmb :=
  (mmbAlloc size page kzalloc).map fun mmb => { mmb with kphy_ref := mmb.kphy_ref + 1 }

/-- `_mmb_free`. -/
def mmbFree (mmb : Mmb) : Mmb :=
  if mmb.kphy_ref = 0 ∨ mmb.phys_addr = 0 ∨ mmb.length = 0 then mmb
  else { mmb with kphy_ref := mmb.kphy_ref - 1, givenBack := mmb.givenBack + 1 }

/-- `_mmb_map2kern`; `remap` is what `mt_remap_mmz_k` returns. -/
def mmbMap2kern (mmb : Mmb) (cached : Bool) (remap : Option Nat) : Mmb × Option Nat :=
  if mmb.map2kern then
    if cached ≠ mmb.map2kernCached then (mmb, none)
    else ({ mmb with map_ref := mmb.map_ref + 1 }, mmb.kvirt)
  else
    let mmb := { mmb with map2kernCached := cached, kvirt := remap }
    match remap with
    | some _ => ({ mmb with map2kern := true, map_ref := mmb.map_ref + 1 }, remap)
    | none => (mmb, none)

/-- The end of `mtl_mmb_unmap`: no mapping is left. -/
def dropMapping (mmb : Mmb) : Mmb :=
  let mmb := { mmb with kvirt := none, map2kern := false, map2kernCached := false }
  if mmb.released ∧ mmb.phy_ref = 0 then mmbFree mmb else mmb

/-- `mtl_mmb_unmap`. -/
def mtlMmbUnmap (mmb : Mmb) : Mmb × Int :=
  if mmb.phys_addr = 0 ∨ mmb.length = 0 then (mmb, -1)
  else if mmb.map2kern then
    let mmb := { mmb with map_ref := mmb.map_ref - 1 }
    if mmb.map_ref ≠ 0 then (mmb, mmb.map_ref) else (dropMapping mmb, 0)
  else (dropMapping mmb, 0)

/-- `mtl_mmb_get`. -/
def mtlMmbGet (mmb : Mmb) : Mmb × Int :=
  ({ mmb with phy_ref := mmb.phy_ref + 1 }, mmb.phy_ref + 1)

/-- `mtl_mmb_put`. -/
def mtlMmbPut (mmb : Mmb) : Mmb × Int :=
  let mmb := { mmb with phy_ref := mmb.phy_ref - 1 }
  (if mmb.released ∧ mmb.phy_ref = 0 ∧ mmb.map_ref = 0 then mmbFree mmb else mmb, mmb.phy_ref)

/-- `mtl_mmb_free`. -/
def mtlMmbFree (mmb : Mmb) : Mmb × Int :=
  if mmb.released then (mmb, 0)
  else if mmb.phy_ref > 0 then ({ mmb with released := true }, 0)
  else if mmb.map2kern then ({ mmb with released := true }, 0)
  else (mmbFree mmb, 0)

/-! ## Runs -/

/-- A call; a map carries what `mt_remap_mmz_k` would return. -/
inductive Call
  | get
  | put
  | map2kern (remap : Option Nat)
  | map2kernCached (remap : Option Nat)
  | unmap
  | free
deriving DecidableEq

/-- What a call returns. -/
inductive Ret
  | int (r : Int)
  | ptr (p : Option Nat)
deriving DecidableEq

/-- The calls on one block. -/
def machine : Machine Mmb Call Ret where
  step mmb
    | .get => ((mtlMmbGet mmb).1, .int (mtlMmbGet mmb).2)
    | .put => ((mtlMmbPut mmb).1, .int (mtlMmbPut mmb).2)
    | .map2kern remap => ((mmbMap2kern mmb false remap).1, .ptr (mmbMap2kern mmb false remap).2)
    | .map2kernCached remap =>
      ((mmbMap2kern mmb true remap).1, .ptr (mmbMap2kern mmb true remap).2)
    | .unmap => ((mtlMmbUnmap mmb).1, .int (mtlMmbUnmap mmb).2)
    | .free => ((mtlMmbFree mmb).1, .int (mtlMmbFree mmb).2)

end Tntsat.MmzBlock
