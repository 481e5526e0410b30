import Tntsat.ForStd.CInt

/-!
# Opening flash by address

`mt_flash_openby_type_and_addr` of `common/api/flash/src/mt_flash.c` with
`permission_check` and `mt_flash_unused_handle`.

The start-up (`all_flash_init`) is given by whether it succeeds and by the tables it fills;
what `spi_raw_get_info` and `nand_raw_get_info` report is a part of the state, and
`emmc_raw_open` a function that may give a control block.  The names of partitions and
devices, which are only printed, and `p_partinfo`, which is set to `NULL`, are left out.
-/

namespace Tntsat.FlashOpen

/-- `mt_flash_type_t`. -/
inductive FlashType where
  | spi0
  | nand0
  | emmc0
  | butt
deriving DecidableEq

/-- `mt_flash_access_perm_t`. -/
inductive AccessPerm where
  | none
  | rd
  | wr
  | rdwr
  | butt
deriving DecidableEq

/-- `mt_flash_partinfo_s`. -/
structure PartInfo where
  start_addr : Nat
  partsize : Nat
  flash_type : FlashType
  perm : AccessPerm
deriving DecidableEq

/-- What `spi_raw_get_info` and `nand_raw_get_info` report. -/
structure RawInfo where
  total_size : Nat := 0
  pagesize : Nat := 0
  blocksize : Nat := 0
  oobsize : Nat := 0
  blockshift : Nat := 0
deriving DecidableEq

/-- `mt_flash_interinfo_s`; `fd` is `none` where it is `INVALID_FD`. -/
structure InterInfo where
  fd : Option Nat := none
  open_addr : Nat := 0
  open_len : Nat := 0
  flash_type : FlashType := .butt
  pagesize : Nat := 0
  oobsize : Nat := 0
  blocksize : Nat := 0
  p_flashopt : Option FlashType := none
deriving DecidableEq

/-- `SPAN_PART_HANDLE`. -/
def spanPartHandle : Nat := 1000

/-- The variables of `mt_flash.c`.  `initOk` tells whether `all_flash_init` succeeds, and
    `installed` which kinds of flash it has found. -/
structure Flash where
  initOk : Bool := true
  installed : FlashType → Bool
  g_flashinfo : List InterInfo
  g_partinfo : List PartInfo
  rawInfo : FlashType → RawInfo

/-- `permission_check`. -/
def permissionCheck (g_partinfo : List PartInfo) (flash_type : FlashType)
    (start_addr len : Nat) : Bool :=
  let end_addr := u64sub (u64 (start_addr + len)) 1
  g_partinfo.all fun p =>
    if p.flash_type ≠ flash_type then true
    else if p.perm ≠ .none then true
    -- only where the partition starts is looked at
    else ! (p.start_addr ≥ start_addr && p.start_addr ≤ end_addr)

/-- `mt_flash_unused_handle`: the number of handles where none is unused. -/
def unusedHandle (g_flashinfo : List InterInfo) : Nat :=
  g_flashinfo.findIdx fun info => info.fd.isNone

/-- The end of `mt_flash_openby_type_and_addr`: a handle is taken and filled in. -/
def takeHandle (s : Flash) (info : Nat → InterInfo → InterInfo) : Flash × Option Nat :=
  let p_flash := unusedHandle s.g_flashinfo
  if p_flash = s.g_flashinfo.length then (s, none)
  else ({ s with g_flashinfo := s.g_flashinfo.modify p_flash (info p_flash) }, some p_flash)

/-- What an open of SPI or NAND flash writes to its handle. -/
def fillInfo (flash_type : FlashType) (raw : RawInfo) (addr len p_flash : Nat)
    (_ : InterInfo) : InterInfo where
  fd := some (spanPartHandle + p_flash)
  open_addr := addr
  open_len := len
  flash_type := flash_type
  pagesize := raw.pagesize
  oobsize := raw.oobsize
  blocksize := raw.blocksize
  p_flashopt := some flash_type

/-- `mt_flash_openby_type_and_addr`: the handle, `none` for `INVALID_FD`. -/
def openbyTypeAndAddr (emmcRawOpen : Nat → Nat → Option Nat) (s : Flash)
    (flash_type : FlashType) (addr len : Nat) : Flash × Option Nat :=
  if !s.initOk then (s, none)
  else if flash_type = .butt then (s, none)
  else if !s.installed flash_type then (s, none)
  else if flash_type = .emmc0 then
    match emmcRawOpen addr len with
    | none => (s, none)
    | some p_emmc_cb =>
      takeHandle s fun _ info => { info with fd := some p_emmc_cb, flash_type := .emmc0 }
  else
    let raw := s.rawInfo flash_type
    if raw.blocksize = 0 then (s, none)
    -- the remainders are converted to `int`
    else if u32 (addr % raw.blocksize) ≠ 0 ∨ u32 (len % raw.blocksize) ≠ 0 then (s, none)
    -- the sum has 64 bits
    else if addr ≥ raw.total_size ∨ u64 (addr + len) > raw.total_size then (s, none)
    else if !permissionCheck s.g_partinfo flash_type addr len then (s, none)
    else takeHandle s (fillInfo flash_type raw addr len)

end Tntsat.FlashOpen
