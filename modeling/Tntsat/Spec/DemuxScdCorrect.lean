import Tntsat.ForStd.BitString
import Tntsat.Native.DemuxScd

/-!
# The two descriptor decoders agree

The video and the audio path read one 33-bit PTS, one 40-bit packet count, one back-count and
one offset out of a descriptor. `dmxIdxToPvrIdx_u64TSCnt` and its companions say so for the
shared words; what the two paths then compute differs in the packet size.

## Key results

- `toNat_ptsToMs`: the milliseconds of a 33-bit PTS
- `decoders_agree_iff`: the decoders agree exactly where packets have 188 bytes, where the
  audio path stores nothing, and where the packet lies at the start of the recording
-/

namespace Tntsat.DemuxScd

/-! ## The fields of a descriptor -/

namespace DmxIdxData

/-- The type of index. -/
def indexType (d : DmxIdxData) : Nat := d.u32Chn_Ovflag_IdxType_Flags.toNat / 2 ^ 24 % 16

/-- The PTS-valid bit. -/
def ptsValid (d : DmxIdxData) : Bool := d.u32TsCntHi8_Byte345AfterSc.toNat.testBit 1

/-- The 33-bit PTS. -/
def pts33 (d : DmxIdxData) : Nat :=
  d.u32TsCntHi8_Byte345AfterSc.toNat % 2 * 2 ^ 32 + d.u32ScCode_Byte678AfterSc.toNat

/-- The 40-bit packet count. -/
def tsCount (d : DmxIdxData) : Nat :=
  d.u32TsCntHi8_Byte345AfterSc.toNat / 2 ^ 24 * 2 ^ 32 + d.u32TsCntLo32.toNat

/-- The back-count. -/
def backCount (d : DmxIdxData) : Nat := d.u32BackPacetNum.toNat % 2 ^ 21

/-- The offset in the packet. -/
def offsetInTs (d : DmxIdxData) : Nat := d.u32ScType_Byte12AfterSc_OffsetInTs.toNat % 2 ^ 8

theorem tsCount_lt (d : DmxIdxData) : d.tsCount < 2 ^ 40 := by
  have hhi := d.u32TsCntHi8_Byte345AfterSc.toNat_lt
  have hlo := d.u32TsCntLo32.toNat_lt
  unfold tsCount
  omega

theorem backCount_lt (d : DmxIdxData) : d.backCount < 2 ^ 21 := Nat.mod_lt _ (by decide)

end DmxIdxData

/-! ## Words and their parts -/

/-- The upper byte of a word stays in its place. -/
theorem toNat_and_upper (w : UInt32) : (w &&& 0xff000000).toNat = w.toNat / 2 ^ 24 * 2 ^ 24 := by
  have hmask : (0xff000000 : UInt32).toNat = (2 ^ 8 - 1) <<< 24 := rfl
  have hlt := w.toNat_lt
  rw [UInt32.toNat_and, hmask, land_mask, Nat.mod_eq_of_lt (by omega)]

/-- The packet count is put together from two words. -/
theorem toNat_count (hi lo : UInt32) :
    (((hi &&& 0xff000000).toUInt64 <<< 8) ||| lo.toUInt64).toNat =
      hi.toNat / 2 ^ 24 * 2 ^ 32 + lo.toNat := by
  have hhi := hi.toNat_lt
  have hlo := lo.toNat_lt
  have hshift : ((hi &&& 0xff000000).toUInt64 <<< 8).toNat = hi.toNat / 2 ^ 24 * 2 ^ 32 := by
    rw [UInt64.toNat_shiftLeft, UInt32.toNat_toUInt64, toNat_and_upper, Nat.shiftLeft_eq]
    rw [show (2 : Nat) ^ (UInt64.toNat 8 % 64) = 2 ^ 8 from rfl]
    omega
  rw [UInt64.toNat_or, hshift, UInt32.toNat_toUInt64, lor_of_lt hlo]

/-- The two decoders test the PTS-valid bit in two ways. -/
theorem and_two_eq_zero_iff (w : UInt32) : w &&& 0x2 = 0 ↔ w.toNat.testBit 1 = false := by
  rw [← UInt32.toNat_inj, UInt32.toNat_and, show (2 : UInt32).toNat = 2 ^ 1 from rfl,
    Nat.and_two_pow]
  cases w.toNat.testBit 1 <;> simp

theorem shift_and_one_eq_zero_iff (w : UInt32) :
    (w >>> 1) &&& 0x1 = 0 ↔ w.toNat.testBit 1 = false := by
  rw [← UInt32.toNat_inj, Nat.testBit_eq_decide_div_mod_eq]
  simp [Nat.shiftRight_eq_div_pow]

/-- A distance that may go below zero, in 64 bits. -/
theorem toNat_sub_sub_one {a c : UInt64} (ha : a.toNat < 2 ^ 40) (hc : c.toNat < 2 ^ 21) :
    (a - c - 1).toNat = a.toNat - (c.toNat + 1) ∧ c.toNat + 1 ≤ a.toNat ∨
      (a - c - 1).toNat + (c.toNat + 1) = a.toNat + 18446744073709551616 ∧
        a.toNat < c.toNat + 1 := by
  have hone : (1 : UInt64).toNat = 1 := rfl
  rw [UInt64.toNat_sub, UInt64.toNat_sub, hone]
  generalize a.toNat = t at *
  generalize c.toNat = b at *
  simp only [Nat.reducePow] at *
  omega

/-- The two packet sizes give one product only at zero. -/
theorem mul_188_eq_mul_192_iff {a c : UInt64} (ha : a.toNat < 2 ^ 40) (hc : c.toNat < 2 ^ 21) :
    (a - c - 1) * 188 = (a - c - 1) * 192 ↔ a.toNat = c.toNat + 1 := by
  have hdist := toNat_sub_sub_one ha hc
  have h188 : (188 : UInt64).toNat = 188 := rfl
  have h192 : (192 : UInt64).toNat = 192 := rfl
  rw [← UInt64.toNat_inj, UInt64.toNat_mul, UInt64.toNat_mul, h188, h192]
  generalize (a - c - 1).toNat = x at *
  generalize a.toNat = t at *
  generalize c.toNat = b at *
  simp only [Nat.reducePow] at *
  omega

/-- The milliseconds of a 33-bit PTS: halving it first loses nothing. -/
theorem toNat_ptsToMs (hi lo : UInt32) :
    (ptsToMs (hi &&& 0x1) lo).toNat = (hi.toNat % 2 * 2 ^ 32 + lo.toNat) / 90 := by
  have hlo := lo.toNat_lt
  have hbit : (hi &&& 0x1 = 0) ↔ hi.toNat % 2 = 0 := by
    rw [← UInt32.toNat_inj]
    simp
  unfold ptsToMs
  by_cases hzero : hi.toNat % 2 = 0
  · simp [hbit.mpr hzero, hzero, Nat.shiftRight_eq_div_pow]
    omega
  · have hone : hi.toNat % 2 = 1 := by omega
    simp [hbit.not.mpr hzero, hone, Nat.shiftRight_eq_div_pow]
    omega

/-! ## What the decoders read -/

theorem dmxIdxToPvrIdx_u64TSCnt (d : DmxIdxData) :
    (dmxIdxToPvrIdx d).u64TSCnt.toNat = d.tsCount := toNat_count _ _

theorem dmxIdxToPvrIdx_u32OffsetInDavBuf (d : DmxIdxData) :
    (dmxIdxToPvrIdx d).u32OffsetInDavBuf.toNat = d.backCount := by
  have hmask : (0x0001fffff : UInt32).toNat = 2 ^ 21 - 1 := rfl
  rw [dmxIdxToPvrIdx, UInt32.toNat_and, hmask, Nat.and_two_pow_sub_one_eq_mod]
  rfl

theorem dmxIdxToPvrIdx_u16OffsetInTs (d : DmxIdxData) :
    (dmxIdxToPvrIdx d).u16OffsetInTs.toNat = d.offsetInTs := by
  have hmask : (0x00ff : UInt32).toNat = 2 ^ 8 - 1 := rfl
  rw [dmxIdxToPvrIdx, UInt32.toNat_toUInt16, UInt32.toNat_and, hmask,
    Nat.and_two_pow_sub_one_eq_mod, DmxIdxData.offsetInTs]
  omega

theorem toNat_indexType (d : DmxIdxData) :
    ((d.u32Chn_Ovflag_IdxType_Flags >>> 24) &&& 0xf).toNat = d.indexType := by
  have hmask : (0xf : UInt32).toNat = 2 ^ 4 - 1 := rfl
  rw [UInt32.toNat_and, hmask, Nat.and_two_pow_sub_one_eq_mod, UInt32.toNat_shiftRight,
    Nat.shiftRight_eq_div_pow]
  rfl

theorem dmxIdxToPvrIdx_u8IndexType (d : DmxIdxData) :
    (dmxIdxToPvrIdx d).u8IndexType.toNat = d.indexType := by
  have hlt : d.indexType < 16 := Nat.mod_lt _ (by decide)
  rw [dmxIdxToPvrIdx, UInt32.toNat_toUInt8, toNat_indexType]
  omega

/-! ## Agreement -/

/-- The descriptor announces a PES header with a PTS. -/
def DmxIdxData.HasPts (d : DmxIdxData) : Prop :=
  d.indexType = dmxIndexScTypePts ∧ d.ptsValid = true

/-- The audio path stores something where there is a PTS. -/
theorem dmxScdToAudioIndex_of_hasPts {d : DmxIdxData} (h : d.HasPts) (CurrFrame : DmxRecIndex) :
    dmxScdToAudioIndex CurrFrame d = some
      { enFrameType := mtUnfFrameTypeI
        u32PtsMs := ptsToMs (d.u32TsCntHi8_Byte345AfterSc &&& 0x1) d.u32ScCode_Byte678AfterSc
        u64GlobalOffset := indexCalcGlobalOffset false (dmxIdxToPvrIdx d)
        u32DataTimeMs := d.u32SrcClk / 90 } := by
  obtain ⟨htype, hvalid⟩ := h
  have hbit : ¬ (d.u32TsCntHi8_Byte345AfterSc >>> 1) &&& 0x1 = 0 := by
    rw [shift_and_one_eq_zero_iff]
    exact ne_of_eq_of_ne hvalid Bool.noConfusion
  -- the offset in the packet goes through sixteen bits on the video path
  have hoffset : (d.u32ScType_Byte12AfterSc_OffsetInTs &&& 0xff).toUInt64 =
      (dmxIdxToPvrIdx d).u16OffsetInTs.toUInt64 := by
    have hmask : (0xff : UInt32).toNat = 2 ^ 8 - 1 := rfl
    rw [← UInt64.toNat_inj, UInt16.toNat_toUInt64, dmxIdxToPvrIdx_u16OffsetInTs,
      UInt32.toNat_toUInt64, UInt32.toNat_and, hmask, Nat.and_two_pow_sub_one_eq_mod]
    rfl
  unfold dmxScdToAudioIndex
  rw [if_neg (by rw [toNat_indexType]; exact not_or.mpr ⟨not_not.mpr htype, hbit⟩)]
  dsimp only
  rw [hoffset]
  rfl

/-- It stores nothing elsewhere. -/
theorem dmxScdToAudioIndex_of_not_hasPts {d : DmxIdxData} (h : ¬ d.HasPts)
    (CurrFrame : DmxRecIndex) : dmxScdToAudioIndex CurrFrame d = none := by
  unfold dmxScdToAudioIndex
  rw [if_pos]
  rw [toNat_indexType, shift_and_one_eq_zero_iff]
  by_cases htype : d.indexType = dmxIndexScTypePts
  · exact Or.inr (Bool.eq_false_of_not_eq_true fun hvalid => h ⟨htype, hvalid⟩)
  · exact Or.inl htype

/-- The video path's descriptor holds the PTS in milliseconds. -/
theorem dmxIdxToPvrIdx_u32PtsMs {d : DmxIdxData} (h : d.HasPts) :
    (dmxIdxToPvrIdx d).u32PtsMs =
      ptsToMs (d.u32TsCntHi8_Byte345AfterSc &&& 0x1) d.u32ScCode_Byte678AfterSc := by
  have htype : (dmxIdxToPvrIdx d).u8IndexType.toNat = dmxIndexScTypePts := by
    rw [dmxIdxToPvrIdx_u8IndexType, h.1]
  have hbit : ¬ d.u32TsCntHi8_Byte345AfterSc &&& 0x2 = 0 := by
    rw [and_two_eq_zero_iff]
    exact ne_of_eq_of_ne h.2 Bool.noConfusion
  exact (if_pos htype).trans (if_neg hbit)

/-- A PTS in milliseconds is never the mark of an invalid one. -/
theorem ptsToMs_ne_invalid (hi lo : UInt32) : ptsToMs (hi &&& 0x1) lo ≠ pvrIndexInvalidPtsms := by
  have hlo := lo.toNat_lt
  rw [ne_eq, ← UInt32.toNat_inj, toNat_ptsToMs, show pvrIndexInvalidPtsms.toNat = 2 ^ 32 - 1 from rfl]
  omega

/-- The video path stores something where there is a PTS. -/
theorem dmxScdToVideoIndex_of_hasPts {d : DmxIdxData} (h : d.HasPts) (bUseTimeStamp : Bool) :
    ∃ v, dmxScdToVideoIndex bUseTimeStamp d = some v ∧
      v.u32PtsMs = (dmxIdxToPvrIdx d).u32PtsMs := by
  have htype : (dmxIdxToPvrIdx d).u8IndexType.toNat = dmxIndexScTypePts := by
    rw [dmxIdxToPvrIdx_u8IndexType, h.1]
  have hptsms : (dmxIdxToPvrIdx d).u32PtsMs ≠ pvrIndexInvalidPtsms := by
    rw [dmxIdxToPvrIdx_u32PtsMs h]
    exact ptsToMs_ne_invalid _ _
  unfold dmxScdToVideoIndex
  rw [if_neg (fun hother => hother.1 htype), if_neg (fun hinvalid => hptsms hinvalid.2)]
  exact ⟨_, rfl, rfl⟩

/-- The two packet sizes give one offset only for the first packet of the recording. -/
theorem indexCalcGlobalOffset_eq_iff (d : DmxIdxData) :
    indexCalcGlobalOffset false (dmxIdxToPvrIdx d) = indexCalcGlobalOffset true (dmxIdxToPvrIdx d) ↔
      d.tsCount = d.backCount + 1 := by
  have hback : (dmxIdxToPvrIdx d).u32OffsetInDavBuf.toUInt64.toNat = d.backCount := by
    rw [UInt32.toNat_toUInt64, dmxIdxToPvrIdx_u32OffsetInDavBuf]
  rw [← dmxIdxToPvrIdx_u64TSCnt, ← hback]
  refine Iff.trans ?_ (mul_188_eq_mul_192_iff ?_ ?_)
  · exact UInt64.add_left_inj _
  · rw [dmxIdxToPvrIdx_u64TSCnt]
    exact d.tsCount_lt
  · rw [hback]
    exact d.backCount_lt

/-- What is asked of the two decoders: one PTS, rounded down to milliseconds, and the offset
that `indexCalcGlobalOffset` computes. -/
structure DecodersAgree (bUseTimeStamp : Bool) (d : DmxIdxData) : Prop where
  pts : d.HasPts → ∀ CurrFrame, ∃ v a, dmxScdToVideoIndex bUseTimeStamp d = some v ∧
    dmxScdToAudioIndex CurrFrame d = some a ∧
    v.u32PtsMs = a.u32PtsMs ∧ v.u32PtsMs.toNat = d.pts33 / 90
  offset : ∀ CurrFrame a, dmxScdToAudioIndex CurrFrame d = some a →
    a.u64GlobalOffset = indexCalcGlobalOffset bUseTimeStamp (dmxIdxToPvrIdx d)

/-- The decoders agree where packets have 188 bytes, where there is no PTS to store, and for
the first packet of a recording. -/
theorem decoders_agree_iff (bUseTimeStamp : Bool) (d : DmxIdxData) :
    DecodersAgree bUseTimeStamp d ↔
      bUseTimeStamp = false ∨ ¬ d.HasPts ∨ d.tsCount = d.backCount + 1 := by
  -- the times agree in any case
  have hpts : d.HasPts → ∀ CurrFrame, ∃ v a, dmxScdToVideoIndex bUseTimeStamp d = some v ∧
      dmxScdToAudioIndex CurrFrame d = some a ∧
      v.u32PtsMs = a.u32PtsMs ∧ v.u32PtsMs.toNat = d.pts33 / 90 := by
    intro h CurrFrame
    obtain ⟨v, hv, hms⟩ := dmxScdToVideoIndex_of_hasPts h bUseTimeStamp
    rw [dmxIdxToPvrIdx_u32PtsMs h] at hms
    refine ⟨v, _, hv, dmxScdToAudioIndex_of_hasPts h CurrFrame, hms, ?_⟩
    rw [hms, toNat_ptsToMs]
    rfl
  by_cases h : d.HasPts
  · constructor
    · intro hagree
      -- so the offsets decide
      have hoffset := hagree.offset {} _ (dmxScdToAudioIndex_of_hasPts h {})
      cases bUseTimeStamp with
      | false => exact Or.inl rfl
      | true => exact Or.inr (Or.inr ((indexCalcGlobalOffset_eq_iff d).mp hoffset))
    · intro hcond
      refine ⟨hpts, fun CurrFrame a ha => ?_⟩
      rw [dmxScdToAudioIndex_of_hasPts h] at ha
      cases ha
      rcases hcond with hfalse | habsent | hcount
      · rw [hfalse]
      · exact absurd h habsent
      · cases bUseTimeStamp with
        | false => rfl
        | true => exact (indexCalcGlobalOffset_eq_iff d).mpr hcount
  -- without a time the audio decoder returns nothing
  · refine ⟨fun _ => Or.inr (Or.inl h), fun _ => ⟨hpts, fun CurrFrame a ha => ?_⟩⟩
    rw [dmxScdToAudioIndex_of_not_hasPts h] at ha
    exact absurd ha (Option.some_ne_none a).symm

/-- The PES header of the eleventh packet of a recording, with the PTS 2³² + 90. -/
def eleventhPacket : DmxIdxData where
  u32Chn_Ovflag_IdxType_Flags := 0x12000000
  u32ScType_Byte12AfterSc_OffsetInTs := 4
  u32TsCntLo32 := 11
  u32TsCntHi8_Byte345AfterSc := 3
  u32ScCode_Byte678AfterSc := 90
  u32SrcClk := 0
  u32BackPacetNum := 0

/-- In a recording with time stamps its offset is 1924, and 1884 is stored. -/
theorem eleventhPacket_disagrees :
    (dmxScdToAudioIndex {} eleventhPacket).map DmxRecIndex.u64GlobalOffset = some 1884 ∧
      indexCalcGlobalOffset true (dmxIdxToPvrIdx eleventhPacket) = 1924 ∧
      ¬ DecodersAgree true eleventhPacket := by
  refine ⟨by decide, by decide, fun h => ?_⟩
  have hoffset := h.offset {}
  revert hoffset
  decide

end Tntsat.DemuxScd
