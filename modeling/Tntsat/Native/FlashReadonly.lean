import Tntsat.Native.NandRaw

/-!
# Erasing and writing flash with read-only partitions

`nand_raw_erase` and `nand_raw_write` of `common/api/flash/src/nand_raw.c` and
`spi_raw_erase` and `spi_raw_write` of `spi_raw.c`, on tables in which some partitions
are read-only.  All four ask of each partition the loop comes to whether it is
read-only, before they ask whether the request lies in it.

A partition is read-only when its device could be opened for reading only; the others
have `ACCESS_WR` and a valid `fd`.  A NAND partition is passed over as in
`Tntsat.Native.NandRaw`, and with what is left out there.  Left out for SPI are
`lseek` errors, and overflows of 64-bit addresses and of byte counts, which are `int`.
-/

namespace Tntsat.FlashReadonly

open NandRaw

/-- How an erase or a write ends. -/
inductive Ended (σ : Type)
  /-- `-1`, for a partition that is read-only -/
  | refused (s : σ)
  /-- with a result -/
  | ended (s : σ) (ret : Int)

/-! ## NAND -/

/-- How a pass over the flash ends. -/
inductive Passed (σ : Type)
  /-- at a read-only partition -/
  | refused (s : σ)
  /-- elsewhere -/
  | walked (w : Walk σ)

/-- The `for` loop over the partitions; `readonly` is `ptn->readonly`. -/
def pass {σ : Type} (c : NandRawCtrl) (readonly : MtdPartition → Bool) (P : Pass σ)
    (openaddr limit_len : Nat) : List MtdPartition → σ → Nat → Nat → Option (Passed σ)
  | [], s, offset, len => some (.walked (.at s offset len))
  | ptn :: rest, s, offset, len =>
    if len = 0 then some (.walked (.at s offset len))
    -- asked before the test whether `offset` lies in the partition
    else if readonly ptn then some (.refused s)
    else
      match walkPartition c P openaddr limit_len ptn (ptn.size / c.blocksize + 1) s offset len with
      | some (.at s offset len) => pass c readonly P openaddr limit_len rest s offset len
      | w => w.map .walked

/-- `nand_raw_erase`. -/
def nandRawErase (c : NandRawCtrl) (readonly : MtdPartition → Bool) (nand : Nand)
    (fails : Nat → Bool) (start_addr len openaddr limit_len : Nat) : Option (Ended EraseState) :=
  if start_addr ≥ c.size ∨ len = 0 ∨ start_addr % c.blocksize ≠ 0 ∨ len % c.blocksize ≠ 0 then
    some (.ended { nand := nand } (-1))
  else
    -- what lies behind the end of the flash is cut off
    let len := if start_addr + len > c.size then c.size - start_addr else len
    (pass c readonly (erasePass c fails) openaddr limit_len c.partition { nand := nand } start_addr
      len).map fun
      | .refused s => .refused s
      | .walked (.at s _ _) => .ended s s.totalerase
      -- the limit of the open is no error of an erase
      | .walked (.limited s) => .ended s s.totalerase
      | .walked (.failed s ret) => .ended s ret

/-- `nand_raw_write`. -/
def nandRawWrite (c : NandRawCtrl) (readonly : MtdPartition → Bool) (nand : Nand)
    (start_addr : Nat) (buffer : List UInt8) (openaddr limit_len : Nat) (write_oob : Bool) :
    Option (Ended WriteState) :=
  let s : WriteState := { nand := nand, buffer := buffer }
  if start_addr ≥ c.size ∨ buffer.length = 0 ∨ start_addr % c.pagesize ≠ 0 ∨
      (write_oob ∧ buffer.length % (c.pagesize + oobused) ≠ 0) ∨
      (¬ write_oob ∧ nandOobBufSize < oobused) ∨ nandPageBufSize < c.pagesize then
    some (.ended s (-1))
  else
    (pass c readonly (writePass c write_oob) openaddr limit_len c.partition s start_addr
      buffer.length).map fun
      | .refused s => .refused s
      | .walked (.at s _ _) => .ended s s.totalwrite
      | .walked (.limited s) => .ended s mtFlashEndDuetoBadblock
      | .walked (.failed s ret) => .ended s ret

/-! ## SPI -/

/-- The state of `spi_raw_erase` and `spi_raw_write`, with the ranges the driver was asked
    to erase or to write. -/
structure SpiState where
  data : Memory UInt8
  buffer : List UInt8 := []
  offset : Nat
  len : Nat
  total : Nat := 0
  issued : List (Nat × Nat) := []

/-- What is done with the next bytes, and whether the call goes on. -/
abbrev SpiCall := SpiState → Nat → SpiState × Bool

/-- The bytes that lie in a partition. -/
def chunk (ptn : MtdPartition) (s : SpiState) : Nat :=
  if s.offset + s.len > ptn.end then ptn.end - s.offset + 1 else s.len

/-- Behind so many bytes. -/
def SpiState.advance (s : SpiState) (n : Nat) : SpiState :=
  { s with offset := s.offset + n, len := s.len - n, total := s.total + n }

/-- The `for` loop over the partitions. -/
def spiLoop (readonly : MtdPartition → Bool) (call : SpiCall) :
    List MtdPartition → SpiState → Ended SpiState
  | [], s => .ended s s.total
  | ptn :: rest, s =>
    if s.len = 0 then .ended s s.total
    -- also asked of partitions in front of the request
    else if readonly ptn then .refused s
    else if ptn.start ≤ s.offset ∧ s.offset < ptn.end then
      let n := chunk ptn s
      match call s n with
      | (s, true) => spiLoop readonly call rest (s.advance n)
      | (s, false) => .ended s mtFailure
    -- nothing of the request lies in this partition
    else spiLoop readonly call rest s

/-- `MEMERASE64`; that it fails is only printed. -/
def memErase (fails : Nat → Bool) : SpiCall := fun s n =>
  ({ s with
      data := if fails s.offset then s.data else s.data.write s.offset (List.replicate n 0xFF)
      issued := s.issued ++ [(s.offset, n)] }, true)

/-- `write`; when it fails none of the bytes is written. -/
def memWrite (fails : Nat → Bool) : SpiCall := fun s n =>
  ({ s with
      data := if fails s.offset then s.data else s.data.write s.offset (s.buffer.take n)
      buffer := s.buffer.drop n
      issued := s.issued ++ [(s.offset, n)] }, !fails s.offset)

/-- `spi_raw_erase`; `fails` tells at which addresses the driver fails. -/
def spiRawErase (c : NandRawCtrl) (readonly : MtdPartition → Bool) (data : Memory UInt8)
    (fails : Nat → Bool) (start_addr len : Nat) : Ended SpiState :=
  if start_addr ≥ c.size ∨ len = 0 ∨ start_addr % c.blocksize ≠ 0 ∨ len % c.blocksize ≠ 0 then
    .ended { data := data, offset := start_addr, len := len } (-1)
  else
    let len := if start_addr + len > c.size then c.size - start_addr else len
    spiLoop readonly (memErase fails) c.partition { data := data, offset := start_addr, len := len }

/-- `spi_raw_write`. -/
def spiRawWrite (c : NandRawCtrl) (readonly : MtdPartition → Bool) (data : Memory UInt8)
    (fails : Nat → Bool) (start_addr : Nat) (buffer : List UInt8) : Ended SpiState :=
  let s : SpiState :=
    { data := data, buffer := buffer, offset := start_addr, len := buffer.length }
  if start_addr ≥ c.size ∨ buffer.length = 0 then .ended s (-1)
  else spiLoop readonly (memWrite fails) c.partition s

end Tntsat.FlashReadonly
