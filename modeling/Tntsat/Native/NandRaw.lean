import Tntsat.ForStd.CInt
import Tntsat.ForStd.Machine
import Tntsat.ForStd.Memory

/-!
# Raw access to NAND flash

`nand_raw_read`, `nand_raw_write` and `nand_raw_erase` of
`common/api/flash/src/nand_raw.c` with the scans over the bad blocks they use, and
`mt_flash_read` and `mt_flash_write` of `mt_flash.c` for a NAND handle.

The three operations pass over the flash in the same way: partition by partition,
block by block, skipping bad blocks, and up to the limit of the handle.  This pass is
`walk`, with what is done in a block as a parameter.

Every partition can be read and written.  The driver's calls act on the addressed page
or block; only an erase may fail, and the block is then marked bad.  Left out are
reading with OOB, the flash's OOB area, and overflows of 64-bit addresses and of the
block numbers and byte counts, which are `int`.
-/

namespace Tntsat.NandRaw

/-- `struct mtd_partition`: the first and the last byte. -/
structure MtdPartition where
  start : Nat
  «end» : Nat
deriving DecidableEq

/-- The bytes of a partition. -/
def MtdPartition.size (ptn : MtdPartition) : Nat := ptn.end - ptn.start + 1

/-- `struct nand_raw_ctrl`. -/
structure NandRawCtrl where
  size : Nat
  pageshift : Nat
  blockshift : Nat
  partition : List MtdPartition

/-- `nandraw_ctrl->pagesize`. -/
def NandRawCtrl.pagesize (c : NandRawCtrl) : Nat := 2 ^ c.pageshift

/-- `nandraw_ctrl->blocksize`. -/
def NandRawCtrl.blocksize (c : NandRawCtrl) : Nat := 2 ^ c.blockshift

/-- `nandraw_ctrl->oobused`. -/
def oobused : Nat := 32

/-- `NAND_PAGE_BUF_SIZE`. -/
def nandPageBufSize : Nat := 16384

/-- `NAND_OOB_BUF_SIZE`. -/
def nandOobBufSize : Nat := 1200

/-- `MT_FAILURE`. -/
def mtFailure : Int := -1

/-- `MT_FLASH_END_DUETO_BADBLOCK`. -/
def mtFlashEndDuetoBadblock : Int := -10

/-- The flash: its bytes, and its bad blocks by their number from the start. -/
structure Nand where
  data : Memory UInt8
  bad : Nat → Bool

/-! ## Bad blocks -/

/-- `MEMGETBADBLOCK` at an offset in a partition. -/
def badAt (c : NandRawCtrl) (bad : Nat → Bool) (ptn : MtdPartition) (offset : Nat) : Bool :=
  bad ((ptn.start + offset) / c.blocksize)

/-- The loop of `check_skip_badblock`. -/
def skipLoop (c : NandRawCtrl) (bad : Nat → Bool) (ptn : MtdPartition) : Nat → Nat → Nat
  | 0, _ => 0
  | fuel + 1, blockindex =>
    if badAt c bad ptn (blockindex * c.blocksize) then
      if (blockindex + 1) * c.blocksize < ptn.size then
        1 + skipLoop c bad ptn fuel (blockindex + 1)
      else 1
    else 0

/-- `check_skip_badblock`: the number of bad blocks from a block of the partition on. -/
def checkSkipBadblock (c : NandRawCtrl) (bad : Nat → Bool) (ptn : MtdPartition)
    (blockindex : Nat) : Nat :=
  skipLoop c bad ptn (ptn.size / c.blocksize) blockindex

/-- A number of blocks in bytes: `(unsigned long)((mt_u32)rel << blockshift)`. -/
def blocksToBytes (c : NandRawCtrl) (rel : Nat) : Nat := u32 (rel * 2 ^ c.blockshift)

/-- The variables of `nand_raw_get_physical_index`. -/
structure PhysicalScan where
  i : Nat
  physical_index : Nat
  offset_addr : Nat

/-- Its loop over one partition. -/
def scanPartition (c : NandRawCtrl) (bad : Nat → Bool) (ptn : MtdPartition)
    (logical_index : Nat) : Nat → PhysicalScan → PhysicalScan
  | 0, s => s
  | fuel + 1, s =>
    if s.i < logical_index ∧ s.offset_addr < ptn.end then
      scanPartition c bad ptn logical_index fuel
        { i := if badAt c bad ptn (s.offset_addr - ptn.start) then s.i else s.i + 1
          physical_index := s.physical_index + 1
          offset_addr := s.offset_addr + c.blocksize }
    else s

/-- Its loop over the partitions. -/
def scanPartitions (c : NandRawCtrl) (bad : Nat → Bool) (start_addr logical_index : Nat) :
    List MtdPartition → PhysicalScan → PhysicalScan
  | [], s => s
  | ptn :: rest, s =>
    if ptn.end + 1 ≤ start_addr then scanPartitions c bad start_addr logical_index rest s
    else
      scanPartitions c bad start_addr logical_index rest
        (scanPartition c bad ptn logical_index (ptn.size / c.blocksize + 1) s)

/-- `nand_raw_get_physical_index`: how many blocks from an address on hold a number of
    good ones. -/
def nandRawGetPhysicalIndex (c : NandRawCtrl) (bad : Nat → Bool) (start_addr blockindex : Nat) :
    Nat :=
  (scanPartitions c bad start_addr blockindex c.partition
    { i := 0, physical_index := 0, offset_addr := start_addr }).physical_index

/-- `compensate_nand_address`. -/
def compensateNandAddress (c : NandRawCtrl) (bad : Nat → Bool) (addr start_addr : Nat) : Nat :=
  start_addr + blocksToBytes c (nandRawGetPhysicalIndex c bad start_addr (addr >>> c.blockshift)) +
    addr % c.blocksize

/-! ## Passing over the flash -/

/-- Where a pass stands. -/
inductive Walk (σ : Type)
  /-- at an offset, with so many bytes left -/
  | at (s : σ) (offset len : Nat)
  /-- at the limit of the handle -/
  | limited (s : σ)
  /-- left with a result -/
  | failed (s : σ) (ret : Int)

/-- A pass: the bad blocks as far as they are known, what is done in a good block, and
    whether the limit is tested before bad blocks are skipped. -/
structure Pass (σ : Type) where
  bad : σ → Nat → Bool
  block : σ → Nat → Nat → Walk σ
  limitFirst : Bool

/-- The `while` loop over one partition; `none` when it does not end. -/
def walkPartition {σ : Type} (c : NandRawCtrl) (P : Pass σ) (openaddr limit_len : Nat)
    (ptn : MtdPartition) : Nat → σ → Nat → Nat → Option (Walk σ)
  | 0, _, _, _ => none
  | fuel + 1, s, offset, len =>
    if ptn.start ≤ offset ∧ offset < ptn.end ∧ len ≠ 0 then
      let beyond := offset - openaddr ≥ limit_len
      let rel := checkSkipBadblock c (P.bad s) ptn ((offset - ptn.start) / c.blocksize)
      if P.limitFirst ∧ beyond then some (.limited s)
      else if rel > 0 then
        walkPartition c P openaddr limit_len ptn fuel s (offset + blocksToBytes c rel) len
      else if beyond then some (.limited s)
      else
        match P.block s offset len with
        | .at s offset len => walkPartition c P openaddr limit_len ptn fuel s offset len
        | w => some w
    else some (.at s offset len)

/-- The `for` loop over the partitions. -/
def walk {σ : Type} (c : NandRawCtrl) (P : Pass σ) (openaddr limit_len : Nat) :
    List MtdPartition → σ → Nat → Nat → Option (Walk σ)
  | [], s, offset, len => some (.at s offset len)
  | ptn :: rest, s, offset, len =>
    if len = 0 then some (.at s offset len)
    else
      match walkPartition c P openaddr limit_len ptn (ptn.size / c.blocksize + 1) s offset len with
      | some (.at s offset len) => walk c P openaddr limit_len rest s offset len
      | w => w

/-! ## Reading -/

/-- The pages of one block that are read; the bytes read so far are kept. -/
def readPages (c : NandRawCtrl) (data : Memory UInt8) :
    Nat → List UInt8 → Nat → Nat → Walk (List UInt8)
  | 0, buffer, offset, len => .at buffer offset len
  | fuel + 1, buffer, offset, len =>
    let num_read := min len c.pagesize
    let buffer := buffer ++ data.read offset num_read
    if len - num_read ≠ 0 ∧ (offset + num_read) % c.blocksize ≠ 0 then
      readPages c data fuel buffer (offset + num_read) (len - num_read)
    else .at buffer (offset + num_read) (len - num_read)

/-- The pages of a block. -/
def NandRawCtrl.pages (c : NandRawCtrl) : Nat := c.blocksize / c.pagesize

/-- The pass of `nand_raw_read`. -/
def readPass (c : NandRawCtrl) (nand : Nand) : Pass (List UInt8) where
  bad _ := nand.bad
  block := readPages c nand.data c.pages
  limitFirst := false

/-- `nand_raw_read` without OOB: the bytes and the result. -/
def nandRawRead (c : NandRawCtrl) (nand : Nand) (start_addr len openaddr limit_len : Nat) :
    Option (List UInt8 × Int) :=
  if start_addr ≥ c.size ∨ len = 0 ∨ start_addr % c.pagesize ≠ 0 then some ([], -1)
  else
    (walk c (readPass c nand) openaddr limit_len c.partition [] start_addr len).map fun
      | .at buffer _ _ => (buffer, buffer.length)
      | .limited buffer => (buffer, buffer.length)
      | .failed buffer ret => (buffer, ret)

/-! ## Erasing -/

/-- The state of `nand_raw_erase`, with the blocks it has erased. -/
structure EraseState where
  nand : Nand
  totalerase : Nat := 0
  erased : List Nat := []

/-- Erase one block; `fails` tells which blocks cannot be erased and are marked bad. -/
def eraseBlock (c : NandRawCtrl) (fails : Nat → Bool) (s : EraseState) (offset len : Nat) :
    Walk EraseState :=
  let b := offset / c.blocksize
  let s :=
    if fails b then
      { s with nand := { s.nand with bad := fun i => if i = b then true else s.nand.bad i } }
    else
      { s with
        nand := { s.nand with data := fun x => if x / c.blocksize = b then 0xFF else s.nand.data x }
        erased := s.erased ++ [b] }
  -- the block counts as erased either way
  .at { s with totalerase := s.totalerase + c.blocksize } (offset + blocksToBytes c 1)
    (len - c.blocksize)

/-- The pass of `nand_raw_erase`. -/
def erasePass (c : NandRawCtrl) (fails : Nat → Bool) : Pass EraseState where
  bad s := s.nand.bad
  block := eraseBlock c fails
  limitFirst := true

/-- `nand_raw_erase`: the flash, the blocks that were erased and the result. -/
def nandRawErase (c : NandRawCtrl) (nand : Nand) (fails : Nat → Bool)
    (start_addr len openaddr limit_len : Nat) : Option (EraseState × Int) :=
  if start_addr ≥ c.size ∨ len = 0 ∨ start_addr % c.blocksize ≠ 0 ∨ len % c.blocksize ≠ 0 then
    some ({ nand := nand }, -1)
  else
    let len := if start_addr + len > c.size then c.size - start_addr else len
    (walk c (erasePass c fails) openaddr limit_len c.partition { nand := nand } start_addr len).map
      fun
      | .at s _ _ => (s, s.totalerase)
      | .limited s => (s, s.totalerase)
      | .failed s ret => (s, ret)

/-! ## Writing -/

/-- The state of `nand_raw_write`, with the blocks that were programmed. -/
structure WriteState where
  nand : Nand
  buffer : List UInt8
  totalwrite : Nat := 0
  programmed : List Nat := []

/-- The OOB bytes would mark the block bad. -/
def marksBad (oob : List UInt8) : Bool := oob.getD 0 0 ≠ 0xFF || oob.getD 1 0 ≠ 0xFF

/-- `MEMWRITE` of one page. -/
def WriteState.program (c : NandRawCtrl) (s : WriteState) (start : Nat) (page : List UInt8) :
    WriteState :=
  { s with
    nand := { s.nand with data := s.nand.data.write start page }
    programmed := s.programmed ++ [start / c.blocksize] }

/-- The pages of one block that are written. -/
def writePages (c : NandRawCtrl) (write_oob : Bool) :
    Nat → WriteState → Nat → Nat → Walk WriteState
  | 0, s, offset, len => .at s offset len
  | fuel + 1, s, offset, len =>
    let num_write := min len c.pagesize
    let page := s.buffer.take num_write ++ List.replicate (c.pagesize - num_write) 0xFF
    let len := len - num_write
    if write_oob ∧ len < oobused then .failed s (-1)
    else
      let oob :=
        if write_oob then (s.buffer.drop num_write).take oobused
        else List.replicate nandOobBufSize 0xFF
      let num_oob := if write_oob then oobused else 0
      let len := len - num_oob
      if marksBad oob then .failed s (-1)
      else
        let s := s.program c offset page
        let s := { s with
          buffer := s.buffer.drop (num_write + num_oob)
          totalwrite := s.totalwrite + num_write + num_oob }
        if len ≠ 0 ∧ (offset + num_write) % c.blocksize ≠ 0 then
          writePages c write_oob fuel s (offset + num_write) len
        else .at s (offset + num_write) len

/-- The pass of `nand_raw_write`. -/
def writePass (c : NandRawCtrl) (write_oob : Bool) : Pass WriteState where
  bad s := s.nand.bad
  block := writePages c write_oob c.pages
  limitFirst := false

/-- `nand_raw_write`: the flash, the blocks that were programmed and the result. -/
def nandRawWrite (c : NandRawCtrl) (nand : Nand) (start_addr : Nat) (buffer : List UInt8)
    (openaddr limit_len : Nat) (write_oob : Bool) : Option (WriteState × Int) :=
  let s : WriteState := { nand := nand, buffer := buffer }
  if start_addr ≥ c.size ∨ buffer.length = 0 ∨ start_addr % c.pagesize ≠ 0 ∨
      (write_oob ∧ buffer.length % (c.pagesize + oobused) ≠ 0) ∨
      (¬ write_oob ∧ nandOobBufSize < oobused) ∨ nandPageBufSize < c.pagesize then
    some (s, -1)
  else
    (walk c (writePass c write_oob) openaddr limit_len c.partition s start_addr buffer.length).map
      fun
      | .at s _ _ => (s, s.totalwrite)
      | .limited s => (s, mtFlashEndDuetoBadblock)
      | .failed s ret => (s, ret)

/-! ## Handles -/

/-- The part of `g_flashinfo` that a NAND handle uses. -/
structure FlashInfo where
  open_addr : Nat
  limit_len : Nat
deriving DecidableEq

/-- `CHECK_ADDR_LEN_VALID`. -/
def addrLenValid (addr len limit_len : Nat) : Bool := !(addr ≥ limit_len || addr + len > limit_len)

/-- `mt_flash_read` without OOB. -/
def mtFlashRead (c : NandRawCtrl) (f : FlashInfo) (nand : Nand) (addr len : Nat) :
    Option (List UInt8 × Int) :=
  if addrLenValid addr len f.limit_len then
    nandRawRead c nand (compensateNandAddress c nand.bad addr f.open_addr) len f.open_addr
      f.limit_len
  else some ([], mtFailure)

/-- `len_without_oob` of `mt_flash_write`. -/
def lenWithoutOob (c : NandRawCtrl) (len : Nat) : Nat :=
  len / (oobused + c.pagesize) * c.pagesize +
    if len % (oobused + c.pagesize) ≠ 0 then c.pagesize else 0

/-- `eraselen` of `mt_flash_write`. -/
def eraseLen (c : NandRawCtrl) (len : Nat) (write_oob : Bool) : Nat :=
  let blocksize_new :=
    if write_oob then c.blocksize + oobused * (c.blocksize / c.pagesize) else c.blocksize
  (len / blocksize_new + if len % blocksize_new ≠ 0 then 1 else 0) * c.blocksize

/-- What `mt_flash_write` leaves. -/
structure FlashWrite where
  nand : Nand
  ret : Int
  erased : List Nat := []
  programmed : List Nat := []

/-- `mt_flash_write`; the flags are `write_oob` and `erase`. -/
def mtFlashWrite (c : NandRawCtrl) (f : FlashInfo) (nand : Nand) (fails : Nat → Bool) (addr : Nat)
    (buf : List UInt8) (write_oob erase : Bool) : Option FlashWrite :=
  let checked := if write_oob then lenWithoutOob c buf.length else buf.length
  if addrLenValid addr checked f.limit_len then
    let start_addr := compensateNandAddress c nand.bad addr f.open_addr
    let write := fun (nand : Nand) (erased : List Nat) =>
      (nandRawWrite c nand start_addr buf f.open_addr f.limit_len write_oob).map fun r =>
        ({ nand := r.1.nand, ret := r.2, erased := erased, programmed := r.1.programmed } :
          FlashWrite)
    if erase then
      match nandRawErase c nand fails start_addr (eraseLen c buf.length write_oob) f.open_addr
          f.limit_len with
      | none => none
      | some r =>
        if r.2 ≤ 0 ∧ r.2 ≠ mtFlashEndDuetoBadblock then
          some { nand := r.1.nand, ret := r.2, erased := r.1.erased }
        else write r.1.nand r.1.erased
    else write nand []
  else some { nand := nand, ret := mtFailure }

/-! ## Runs -/

/-- A call on a handle. -/
inductive FlashCall
  | read (addr len : Nat)
  | write (addr : Nat) (buf : List UInt8)
deriving DecidableEq

/-- Reads and writes without OOB and erase on one handle; the output is the bytes read,
    `none` when the call does not end. -/
def machine (c : NandRawCtrl) (f : FlashInfo) : Machine Nand FlashCall (Option (List UInt8)) where
  step nand
    | .read addr len => (nand, (mtFlashRead c f nand addr len).map Prod.fst)
    | .write addr buf =>
      match mtFlashWrite c f nand (fun _ => false) addr buf false false with
      | some w => (w.nand, some [])
      | none => (nand, none)

end Tntsat.NandRaw
