import Mathlib.Algebra.Group.Nat.Defs
import Mathlib.Logic.Function.Basic
import Tntsat.ForStd.CInt
import Tntsat.ForStd.Machine

/-!
# The table of the shared memory between the processors

`msp/drv/ampshm/mt_drv_ampshm.c` as the kernel builds it: records of named shared
memory, found by their name, by a descriptor or by an address.  What the media memory
answers to `mt_ampshm_mmap` is part of the call.  Secure memory, which has an
allocator of its own, is left out, and with it the flags of a record.

Beside its result a call shows the media memory buffer that it obtained and the one
that it released, with the name of the record.
-/

namespace Tntsat.AmpShm

/-- A character of a C string. -/
abbrev CChar := { b : UInt8 // b ≠ 0 }

/-- A C string. -/
abbrev Name := List CChar

/-- `MAX_SHM_NAME_LEN`. -/
def maxShmNameLen : Nat := 11

/-- `MAX_SHM_BUFF_COUNT`. -/
def maxShmBuffCount : Nat := 32

/-- An address that is not null. -/
abbrev Addr := { a : Nat // a ≠ 0 }

/-- `struct mt_ampshm_record_t`; a null address is 0. -/
structure AmpshmRecord where
  vir_addr : Nat := 0
  phy_addr : Nat := 0
  size : Nat := 0
  name : Name := []
deriving DecidableEq

/-- `struct mt_ampshm_manager_t` of an initialised module. -/
structure AmpshmManager where
  records : Nat → AmpshmRecord := fun _ => {}
  bitmap : BitVec 32 := 0

/-- What `mt_drv_mmz_alloc` and `mt_drv_mmz_map` answer. -/
inductive MmzAnswer
  | allocFails
  | mapFails (phy : Addr)
  | mapped (phy vir : Addr)
deriving DecidableEq

/-- What a call returns and does to the media memory. -/
structure ShmOut where
  ret : Int
  obtained : Option (Name × Nat) := none
  released : Option (Name × Nat) := none
deriving DecidableEq

/-- A descriptor is in range. -/
def validFd (fd : Int) : Bool := 0 ≤ fd && fd < maxShmBuffCount

/-- Change one record. -/
def AmpshmManager.setRecord (m : AmpshmManager) (fd : Nat) (r : AmpshmRecord) : AmpshmManager :=
  { m with records := Function.update m.records fd r }

/-- `mt_set_bit`. -/
def mtSetBit (bitmap : BitVec 32) (bit : Nat) : BitVec 32 := bitmap ||| (1#32 <<< bit)

/-- `mt_clear_bit`. -/
def mtClearBit (bitmap : BitVec 32) (bit : Nat) : BitVec 32 := bitmap &&& ~~~(1#32 <<< bit)

/-- `find_record_by_name`. -/
def findRecordByName (m : AmpshmManager) (name : Name) : Option Nat :=
  (List.range maxShmBuffCount).find? fun i =>
    (m.records i).name ≠ [] ∧ name = (m.records i).name

/-- `find_record_by_addr`. -/
def findRecordByAddr (m : AmpshmManager) (addr : Nat) : Option Nat :=
  (List.range maxShmBuffCount).find? fun i => addr = (m.records i).vir_addr

/-- The test of `allocate_record`. -/
def AmpshmRecord.isFree (r : AmpshmRecord) : Bool :=
  r.name = [] ∧ r.phy_addr = 0 ∧ r.size = 0

/-- `allocate_record`. -/
def allocateRecord (m : AmpshmManager) : Option Nat :=
  (List.range maxShmBuffCount).find? fun i => (m.records i).isFree

/-- `mt_ampshm_open`. -/
def ampshmOpen (m : AmpshmManager) (name : Name) : AmpshmManager × ShmOut :=
  match findRecordByName m name with
  | some fd => ({ m with bitmap := mtSetBit m.bitmap fd }, { ret := fd })
  | none =>
    match allocateRecord m with
    | none => (m, { ret := -1 })
    | some fd =>
      ({ m.setRecord fd { name := name.take maxShmNameLen } with
          bitmap := mtSetBit m.bitmap fd }, { ret := fd })

/-- `mt_ampshm_ftruncate`. -/
def ampshmFtruncate (m : AmpshmManager) (fd length : Int) : AmpshmManager × ShmOut :=
  if validFd fd = false ∨ length ≤ 0 then (m, { ret := -1 })
  else
    (m.setRecord fd.toNat { m.records fd.toNat with size := u32 length.toNat }, { ret := 0 })

/-- `mt_ampshm_mmap` without `MT_MAP_SECURE`; a null result is 0. -/
def ampshmMmap (m : AmpshmManager) (length : Nat) (fd : Int) (answer : MmzAnswer) :
    AmpshmManager × ShmOut :=
  if validFd fd = false ∨ length = 0 then (m, { ret := 0 })
  else
    let r := m.records fd.toNat
    if r.vir_addr ≠ 0 then (m, { ret := r.vir_addr })
    else if r.phy_addr ≠ 0 then (m, { ret := 0 })
    else
      match answer with
      | .allocFails => (m, { ret := 0 })
      | .mapFails phy =>
        (m, { ret := 0, obtained := some (r.name, phy), released := some (r.name, phy) })
      | .mapped phy vir =>
        (m.setRecord fd.toNat { r with phy_addr := phy, vir_addr := vir },
          { ret := (vir : Nat), obtained := some (r.name, phy) })

/-- `mt_ampshm_munmap`. -/
def ampshmMunmap (m : AmpshmManager) (addr : Nat) : AmpshmManager × ShmOut :=
  if addr = 0 then (m, { ret := -1 })
  else
    match findRecordByAddr m addr with
    | none => (m, { ret := -1 })
    | some fd => (m.setRecord fd { m.records fd with vir_addr := 0 }, { ret := 0 })

/-- `mt_ampshm_unlink`. -/
def ampshmUnlink (m : AmpshmManager) (name : Name) : AmpshmManager × ShmOut :=
  match findRecordByName m name with
  | none => (m, { ret := -1 })
  | some fd =>
    -- the source takes this for a record that is unlinked already
    if (m.records fd).phy_addr = 0 then (m, { ret := 0 })
    else
      ({ m.setRecord fd {} with bitmap := mtClearBit m.bitmap fd },
        { ret := 0, released := some (name, (m.records fd).phy_addr) })

/-! ## Runs -/

/-- A call on the table. -/
inductive ShmCall
  | openShm (name : Name)
  | ftruncate (fd length : Int)
  | mmap (length : Nat) (fd : Int) (answer : MmzAnswer)
  | munmap (addr : Nat)
  | unlink (name : Name)
deriving DecidableEq

/-- The calls on the table. -/
def machine : Machine AmpshmManager ShmCall ShmOut where
  step m
    | .openShm name => ampshmOpen m name
    | .ftruncate fd length => ampshmFtruncate m fd length
    | .mmap length fd answer => ampshmMmap m length fd answer
    | .munmap addr => ampshmMunmap m addr
    | .unlink name => ampshmUnlink m name

end Tntsat.AmpShm
