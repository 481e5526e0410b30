import Tntsat.Native.FlashOpen

/-!
# Opening flash by address

A range that is opened should lie inside the flash and touch no partition whose `perm` is
`ACCESS_NONE`.

The code adds address and length in 64 bits, so a length close to 2^64 passes the test
against the size of the flash; and of the partitions it compares the start address only, so
a range may begin in the middle of one that is not to be opened.

## Key results

- `isSome_openbyTypeAndAddr_iff`: exactly which requests are admitted.
- `openbyTypeAndAddr_iff`: exactly when what is opened may be opened.
-/

namespace Tntsat.FlashOpen

variable {s : Flash} {flash_type : FlashType} {addr len : Nat}

/-- The range and the partition have a byte in common. -/
def Touches (addr len : Nat) (p : PartInfo) : Prop :=
  ∃ x, (addr ≤ x ∧ x < addr + len) ∧ p.start_addr ≤ x ∧ x < p.start_addr + p.partsize

/-- The range lies inside the flash and touches no partition that is not to be opened. -/
def MayOpen (s : Flash) (flash_type : FlashType) (addr len : Nat) : Prop :=
  addr + len ≤ (s.rawInfo flash_type).total_size ∧
    ∀ p ∈ s.g_partinfo, p.flash_type = flash_type → p.perm = .none → ¬ Touches addr len p

/-- The tests that a request has to pass. -/
structure Admitted (s : Flash) (flash_type : FlashType) (addr len : Nat) : Prop where
  initOk : s.initOk = true
  installed : s.installed flash_type = true
  block : (s.rawInfo flash_type).blocksize ≠ 0
  aligned : u32 (addr % (s.rawInfo flash_type).blocksize) = 0 ∧
    u32 (len % (s.rawInfo flash_type).blocksize) = 0
  start : addr < (s.rawInfo flash_type).total_size
  stop : u64 (addr + len) ≤ (s.rawInfo flash_type).total_size
  permission : permissionCheck s.g_partinfo flash_type addr len = true
  unused : unusedHandle s.g_flashinfo ≠ s.g_flashinfo.length

theorem isSome_takeHandle_iff (info : Nat → InterInfo → InterInfo) :
    (takeHandle s info).2.isSome ↔ unusedHandle s.g_flashinfo ≠ s.g_flashinfo.length := by
  unfold takeHandle
  dsimp only
  split
  · exact iff_of_false (fun h => nomatch h) (fun h => h ‹_›)
  · exact iff_of_true rfl ‹_›

/-- SPI and NAND flash is opened exactly where the request passes the tests. -/
theorem isSome_openbyTypeAndAddr_iff (emmcRawOpen : Nat → Nat → Option Nat)
    (htype : flash_type = .spi0 ∨ flash_type = .nand0) :
    (openbyTypeAndAddr emmcRawOpen s flash_type addr len).2.isSome ↔
      Admitted s flash_type addr len := by
  have hbutt : flash_type ≠ .butt := by rintro rfl; simp at htype
  have hemmc : flash_type ≠ .emmc0 := by rintro rfl; simp at htype
  constructor
  · intro h
    unfold openbyTypeAndAddr at h
    dsimp only at h
    rw [if_neg hbutt, if_neg hemmc] at h
    -- a test that fails leaves no handle
    split at h
    · cases h
    split at h
    · cases h
    split at h
    · cases h
    split at h
    · cases h
    split at h
    · cases h
    split at h
    · cases h
    rename_i hinit hinst hblock halign hrange hperm
    exact {
      initOk := by simpa using hinit
      installed := by simpa using hinst
      block := hblock
      aligned := by omega
      start := by omega
      stop := by omega
      permission := by simpa using hperm
      unused := (isSome_takeHandle_iff _).mp h }
  · intro h
    unfold openbyTypeAndAddr
    rw [if_neg hbutt, if_neg hemmc, if_neg (by simp [h.initOk]), if_neg (by simp [h.installed])]
    dsimp only
    rw [if_neg h.block, if_neg (by have := h.aligned; omega),
      if_neg (by have := h.start; have := h.stop; omega), if_neg (by simp [h.permission])]
    exact (isSome_takeHandle_iff _).mpr h.unused

/-- No partition that is not to be opened starts in a range that is permitted. -/
theorem permissionCheck_iff (hpos : 0 < len) (hfit : addr + len < 18446744073709551616) :
    permissionCheck s.g_partinfo flash_type addr len = true ↔
      ∀ p ∈ s.g_partinfo, p.flash_type = flash_type → p.perm = .none →
        ¬ (addr ≤ p.start_addr ∧ p.start_addr < addr + len) := by
  have hend : u64sub (u64 (addr + len)) 1 = addr + len - 1 := by
    rw [u64_of_lt hfit, u64sub_of_le (by omega) hfit]
  rw [permissionCheck, hend, List.all_eq_true]
  refine forall₂_congr fun p _ => ?_
  by_cases htype : p.flash_type = flash_type
  · by_cases hperm : p.perm = .none
    · simp only [htype, hperm, ne_eq, not_true_eq_false, if_false, Bool.not_eq_true',
        Bool.and_eq_false_iff, decide_eq_false_iff_not, true_imp_iff]
      omega
    · simp [htype, hperm]
  · simp [htype]

/-- A partition touches a range exactly where it starts in it or the range starts in the
    partition. -/
theorem touches_iff (p : PartInfo) : Touches addr len p ↔ 0 < p.partsize ∧ 0 < len ∧
    (addr ≤ p.start_addr ∧ p.start_addr < addr + len ∨
      p.start_addr < addr ∧ addr < p.start_addr + p.partsize) := by
  constructor
  · rintro ⟨x, hx, hp⟩
    omega
  · rintro ⟨hsize, hlen, hin | hin⟩
    · exact ⟨p.start_addr, hin, by omega⟩
    · exact ⟨addr, by omega, by omega⟩

/-- What is opened may be opened exactly when its end does not wrap around 2^64 and it does
    not begin inside a partition that is not to be opened. -/
theorem openbyTypeAndAddr_iff (emmcRawOpen : Nat → Nat → Option Nat) (s : Flash)
    (flash_type : FlashType) (htype : flash_type = .spi0 ∨ flash_type = .nand0)
    (htotal : (s.rawInfo flash_type).total_size < 18446744073709551616) (addr len : Nat) :
    (∀ p_flash, (openbyTypeAndAddr emmcRawOpen s flash_type addr len).2 = some p_flash →
      MayOpen s flash_type addr len) ↔
    (Admitted s flash_type addr len → addr + len < 18446744073709551616 ∧
      (0 < len → ∀ p ∈ s.g_partinfo, p.flash_type = flash_type → p.perm = .none →
        ¬ (p.start_addr < addr ∧ addr < p.start_addr + p.partsize))) := by
  have hopen := @isSome_openbyTypeAndAddr_iff s flash_type addr len emmcRawOpen htype
  constructor
  · intro h hadm
    obtain ⟨p_flash, hsome⟩ := Option.isSome_iff_exists.mp (hopen.mpr hadm)
    obtain ⟨hinside, hperm⟩ := h p_flash hsome
    refine ⟨by omega, fun hpos p hp hflash hnone hin => ?_⟩
    exact hperm p hp hflash hnone ⟨addr, by omega, by omega⟩
  · intro h p_flash hsome
    have hadm := hopen.mp (Option.isSome_iff_exists.mpr ⟨p_flash, hsome⟩)
    obtain ⟨hfit, hbefore⟩ := h hadm
    have hstop := hadm.stop
    rw [u64_of_lt hfit] at hstop
    refine ⟨hstop, fun p hp hflash hnone htouch => ?_⟩
    obtain ⟨-, hpos, hin | hin⟩ := (touches_iff p).mp htouch
    · exact (permissionCheck_iff hpos hfit).mp hadm.permission p hp hflash hnone hin
    · exact hbefore hpos p hp hflash hnone hin

/-- 8 MiB of SPI flash in blocks of 64 KiB, whose first MiB is not to be opened. -/
def sampleFlash : Flash where
  installed type := type = .spi0
  g_flashinfo := List.replicate 32 {}
  g_partinfo := [{ start_addr := 0, partsize := 0x100000, flash_type := .spi0, perm := .none },
    { start_addr := 0x100000, partsize := 0x700000, flash_type := .spi0, perm := .rdwr }]
  rawInfo _ := { total_size := 0x800000, blocksize := 0x10000 }

/-- A range in the middle of the first partition is opened, and so is one whose end wraps
    around. -/
theorem openbyTypeAndAddr_forbidden :
    ((openbyTypeAndAddr (fun _ _ => none) sampleFlash .spi0 0x10000 0x10000).2 = some 0 ∧
      ¬ MayOpen sampleFlash .spi0 0x10000 0x10000) ∧
    (openbyTypeAndAddr (fun _ _ => none) sampleFlash .spi0 0x100000 0xfffffffffff00000).2 = some 0 ∧
      ¬ MayOpen sampleFlash .spi0 0x100000 0xfffffffffff00000 := by
  refine ⟨⟨by decide, fun h => ?_⟩, by decide, fun h => ?_⟩
  · exact h.2 _ (List.mem_cons_self ..) rfl rfl ⟨0x10000, by decide, by decide⟩
  · exact absurd h.1 (by decide)

theorem openbyTypeAndAddr_iff_sample : MayOpen sampleFlash .spi0 0x100000 0x10000 :=
  (openbyTypeAndAddr_iff (fun _ _ => none) sampleFlash .spi0 (.inl rfl) (by decide)
    0x100000 0x10000).mpr (fun _ => ⟨by decide, by decide⟩) _ rfl

end Tntsat.FlashOpen
