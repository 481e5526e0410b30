import Tntsat.Native.PvrRecWrite
import Tntsat.Spec.PvrIndexStep

/-!
# The remainder of a recording that loops by size

`PVRRecCycWriteStream` takes a remainder by the size of a cycle whenever the
recording loops and not by time.  A recording that once loops by time always
does, and one that does not keeps the size it began with.  So the size at the
beginning decides: the check of the configuration lets a loop without a size and
without a time pass, against its own comment.

## Key results

- `step_keepsSize`: what saving a frame can do to the type and size of a loop
- `never_by_zero_iff`: the configurations that never divide by zero
- `by_zero`: an accepted configuration that does
-/

namespace Tntsat.PvrIndex

variable {σ : Type}

/-- A loop by time stays one, and any other keeps its size and is not cut. -/
structure KeepsSize (s s' : Index σ) : Prop where
  byTime : s.stCycMgr.enRewindType = .byTime → s'.stCycMgr.enRewindType = .byTime
  size : s'.stCycMgr.enRewindType ≠ .byTime →
    s'.stCycMgr.u64MaxCycSize = s.stCycMgr.u64MaxCycSize ∧
      s'.bTimeRewindTsPauseFlg = s.bTimeRewindTsPauseFlg

theorem KeepsSize.of_eq {s s' : Index σ}
    (htype : s'.stCycMgr.enRewindType = s.stCycMgr.enRewindType)
    (hsize : s'.stCycMgr.u64MaxCycSize = s.stCycMgr.u64MaxCycSize)
    (hpause : s'.bTimeRewindTsPauseFlg = s.bTimeRewindTsPauseFlg) : KeepsSize s s' where
  byTime h := htype.trans h
  size _ := ⟨hsize, hpause⟩

theorem KeepsSize.of_byTime {s s' : Index σ} (h : s'.stCycMgr.enRewindType = .byTime) :
    KeepsSize s s' where
  byTime _ := h
  size hne := absurd h hne

theorem KeepsSize.trans {s s' s'' : Index σ} (h : KeepsSize s s') (h' : KeepsSize s' s'') :
    KeepsSize s s'' where
  byTime ht := h'.byTime (h.byTime ht)
  size hne := by
    have hmid : s'.stCycMgr.enRewindType ≠ .byTime := fun ht => hne (h'.byTime ht)
    have h1 := h.size hmid
    have h2 := h'.size hne
    exact ⟨h2.1.trans h1.1, h2.2.trans h1.2⟩

/-- A recording that does not loop sets its size only when the time decides. -/
theorem placeStraight_keepsSize (s : Index σ) (f : DmxIndex) :
    KeepsSize s (placeStraight s f).1 := by
  by_cases htype : s.stCycMgr.enRewindType = .byTime
  · exact KeepsSize.of_byTime htype
  · have hsize : (placeStraight s f).1.stCycMgr.u64MaxCycSize = s.stCycMgr.u64MaxCycSize := by
      simp [placeStraight, htype]
    exact KeepsSize.of_eq rfl hsize rfl

/-- A loop by size changes nothing before the write. -/
theorem placeBySize_fst (s : Index σ) (f : DmxIndex) : (placeBySize s f).1 = s := by
  rw [placeBySize]
  exact (apply_ite Prod.fst _ _ _).trans (ite_self s)

/-- Looking for the place of a frame. -/
theorem place_keepsSize (st : IdxStore σ) {s s₁ : Index σ} {i : SaveCall} {offset : Nat}
    {rewinds : Bool} (h : i.place st s = some (s₁, offset, rewinds)) : KeepsSize s s₁ := by
  have hprep : KeepsSize s (i.prepared st s) := by
    obtain ⟨lastI, pts, type, heq, htype⟩ :=
      prepareFrame_eq { s with store := st.withOutcomes s.store i.env.outcomes } i.frame
    rw [SaveCall.prepared, heq]
    exact
      { byTime := fun ht => (htype (by rw [ht]; decide)).trans ht
        size := fun _ => ⟨rfl, rfl⟩ }
  apply hprep.trans
  unfold SaveCall.place placeFrame at h
  split at h
  · split at h
    · -- a loop by time
      rename_i htype
      rcases placeByTime_cases h with ⟨-, -, rfl, -⟩ | ⟨-, -, store, m, total, rfl⟩
      · exact KeepsSize.of_byTime htype
      · exact KeepsSize.of_byTime htype
    · -- a loop by size
      have hs := placeBySize_fst (i.prepared st s) i.frame
      rw [Option.some.inj h] at hs
      rw [show s₁ = i.prepared st s from hs]
      exact KeepsSize.of_eq rfl rfl rfl
  · have hs := placeStraight_keepsSize (i.prepared st s) i.frame
    rw [Option.some.inj h] at hs
    exact hs

/-- Writing the entry and moving the ring. -/
theorem writeFrame_keepsSize (st : IdxStore σ) (s : Index σ) (e : IndexEntry) (env : SaveEnv)
    (rewinds direct : Bool) : KeepsSize s (writeFrame st s e env rewinds direct).1 := by
  obtain ⟨err, -, hw⟩ | ⟨-, record, hw⟩ := writeFrame_cases st s e env rewinds direct
  · rw [hw]
    exact KeepsSize.of_eq rfl rfl rfl
  · rw [hw]
    obtain ⟨store, start, count, header, t, heq, -, -⟩ := finishFrame_eq st
      (advance { s with
        store := (st.cacheWriteIdx s.store e (if rewinds = true then 0 else s.u32WriteFrame)
          (direct || s.stCycMgr.u32LastFrame == 0)).1
        u32WriteFrame := if rewinds = true then 0 else s.u32WriteFrame } env rewinds) e env record
    simp only
    rw [heq]
    unfold advance
    simp only
    split
    · split <;> exact KeepsSize.of_eq rfl rfl rfl
    · exact KeepsSize.of_eq rfl rfl rfl

/-- One call of `PVR_Index_SaveFramePosition`. -/
theorem step_keepsSize (st : IdxStore σ) (s : Index σ) (i : SaveCall) :
    KeepsSize s ((machine st).step s i).1 := by
  obtain ⟨-, store, lastI, hstep⟩ | ⟨-, -, hstep⟩ | ⟨-, s₁, offset, rewinds, hplace, hstep⟩ :=
    step_eq st s i
  · rw [hstep]; exact KeepsSize.of_eq rfl rfl rfl
  · rw [hstep]; exact KeepsSize.of_eq rfl rfl rfl
  · rw [hstep]
    exact (place_keepsSize st hplace).trans (writeFrame_keepsSize st s₁ _ _ _ _)

end Tntsat.PvrIndex

namespace Tntsat.PvrRec

open PvrIndex (Index IdxStore IdxDisk IdxHeaderInfo KeepsSize)
open PvrIdxCache (CacheHandle)

variable {σ : Type}

/-- The divisor of the remainder that a step takes. -/
def RecOut.divisor : RecOut → Option Nat
  | .wrote o => o.divisor
  | .cut => none
  | .saved _ => none

/-- A step takes no remainder by zero. -/
def DividesSafely (st : IdxStore σ) (ch : RecChn σ) (i : RecInput) : Prop :=
  ((machine st).step ch i).2.divisor ≠ some 0

instance (st : IdxStore σ) (ch : RecChn σ) (i : RecInput) : Decidable (DividesSafely st ch i) :=
  inferInstanceAs (Decidable (_ ≠ _))

/-! ## One step -/

/-- The loop is by time, or its size is there. -/
def Sized (h : Index σ) : Prop :=
  h.stCycMgr.enRewindType = .byTime ∨
    (h.bTimeRewindTsPauseFlg = false ∧ 0 < h.stCycMgr.u64MaxCycSize)

/-- The channel does not loop, or its index is `Sized`. -/
def SizedChn (ch : RecChn σ) : Prop :=
  ch.stUserCfg.bRewind = true → ch.stUserCfg.enStreamType ≠ .allTs ∧
    ∀ h, ch.IndexHandle = some h → Sized h

theorem KeepsSize.sized {s s' : Index σ} (hk : KeepsSize s s') (h : Sized s) : Sized s' := by
  by_cases htype : s'.stCycMgr.enRewindType = .byTime
  · exact .inl htype
  · have hsize := hk.size htype
    cases h with
    | inl ht => exact absurd (hk.byTime ht) htype
    | inr h => exact .inr ⟨hsize.2.trans h.1, hsize.1 ▸ h.2⟩

/-- `u64MaxSize` of a channel with an index that is not being cut. -/
theorem maxSize_eq {ch : RecChn σ} {h : Index σ} (hts : ch.stUserCfg.enStreamType ≠ .allTs)
    (hh : ch.IndexHandle = some h) (hpause : h.bTimeRewindTsPauseFlg = false) :
    ch.maxSize = h.stCycMgr.u64MaxCycSize := by
  simp [RecChn.maxSize, hts, hh, hpause]

/-- The divisor is the one of the place where the chunk goes. -/
theorem cycWriteStream_divisor (ch : RecChn σ) (c : Chunk) :
    (cycWriteStream ch c).2.divisor = (placeChunk ch c.data.length).bind Placed.divisor := by
  unfold cycWriteStream
  split
  · rename_i hp; rw [hp]; rfl
  · rename_i p hp
    rw [hp]
    split
    · rfl
    · split <;> rfl

/-- A chunk changes the configuration not at all, and the index only in the flag of
    a new cycle and the type of a loop by size. -/
theorem placeChunk_chn {ch : RecChn σ} {len : Nat} {p : Placed σ} (hp : placeChunk ch len = some p) :
    p.chn.stUserCfg = ch.stUserCfg ∧
      ∀ h', p.chn.IndexHandle = some h' → ∃ h, ch.IndexHandle = some h ∧ KeepsSize h h' := by
  have hsame : ch.stUserCfg = ch.stUserCfg ∧
      ∀ h', ch.IndexHandle = some h' → ∃ h, ch.IndexHandle = some h ∧ KeepsSize h h' :=
    ⟨rfl, fun h' hh => ⟨h', hh, KeepsSize.of_eq rfl rfl rfl⟩⟩
  unfold placeChunk at hp
  simp only at hp
  split at hp
  · split at hp
    · cases hp
    · cases hp; exact hsame
  · split at hp
    · split at hp
      · cases hp; exact hsame
      · rename_i h hh
        split at hp
        · -- by time: the flag of a new cycle is taken back
          cases hp
          unfold placeByTime
          split
          · simp only
            split
            · exact ⟨rfl, fun h' hh' => ⟨h, hh, by cases hh'; exact KeepsSize.of_eq rfl rfl rfl⟩⟩
            · exact hsame
          · exact hsame
        · -- by size: from now on the size alone decides
          rename_i htype
          cases hp
          unfold placeBySize
          simp only
          split
          · refine ⟨rfl, fun h' hh' => ⟨h, hh, ?_⟩⟩
            cases hh'
            exact { byTime := fun ht => absurd ht htype, size := fun _ => ⟨rfl, rfl⟩ }
          · exact hsame
    · cases hp; exact hsame

theorem writePart_chn {ch ch' : RecChn σ} {pos : Nat} {part : List UInt8} {err : Option StreamErr}
    {ws : List (Nat × List UInt8)} (h : writePart ch pos part err = .ok (ch', ws)) :
    ch'.stUserCfg = ch.stUserCfg ∧ ch'.IndexHandle = ch.IndexHandle := by
  unfold writePart at h
  split at h
  · cases h; exact ⟨rfl, rfl⟩
  · split at h
    · cases h
    · cases h; exact ⟨rfl, rfl⟩

/-- What a write leaves of the channel's configuration and index. -/
theorem cycWriteStream_chn (ch : RecChn σ) (c : Chunk) :
    (cycWriteStream ch c).1.stUserCfg = ch.stUserCfg ∧
      ∀ h', (cycWriteStream ch c).1.IndexHandle = some h' →
        ∃ h, ch.IndexHandle = some h ∧ KeepsSize h h' := by
  unfold cycWriteStream
  split
  · exact ⟨rfl, fun h' hh => ⟨h', hh, KeepsSize.of_eq rfl rfl rfl⟩⟩
  · rename_i p hp
    obtain ⟨hcfg, hidx⟩ := placeChunk_chn hp
    split
    · exact ⟨hcfg, hidx⟩
    · rename_i ch₁ ws hw
      obtain ⟨hcfg₁, hidx₁⟩ := writePart_chn hw
      split
      · exact ⟨hcfg₁.trans hcfg, fun h' hh => hidx h' (hidx₁ ▸ hh)⟩
      · rename_i ch₂ ws₂ hw₂
        obtain ⟨hcfg₂, hidx₂⟩ := writePart_chn hw₂
        exact ⟨hcfg₂.trans (hcfg₁.trans hcfg), fun h' hh => hidx h' (hidx₁ ▸ hidx₂ ▸ hh)⟩

/-- Only a loop by time is cut. -/
theorem cutStream_chn (ch : RecChn σ) :
    (cutStream ch).stUserCfg = ch.stUserCfg ∧
      ∀ h', (cutStream ch).IndexHandle = some h' →
        ∃ h, ch.IndexHandle = some h ∧ KeepsSize h h' := by
  have hsame : ch.stUserCfg = ch.stUserCfg ∧
      ∀ h', ch.IndexHandle = some h' → ∃ h, ch.IndexHandle = some h ∧ KeepsSize h h' :=
    ⟨rfl, fun h' hh => ⟨h', hh, KeepsSize.of_eq rfl rfl rfl⟩⟩
  unfold cutStream
  split
  · exact hsame
  · rename_i h hh
    split
    · rename_i hcut
      refine ⟨rfl, fun h' hh' => ⟨h, hh, ?_⟩⟩
      cases hh'
      exact KeepsSize.of_byTime hcut.2.2.1
    · exact hsame

/-- Every step keeps the configuration, and the type and size of the loop. -/
theorem step_chn (st : IdxStore σ) (ch : RecChn σ) (i : RecInput) :
    ((machine st).step ch i).1.stUserCfg = ch.stUserCfg ∧
      ∀ h', ((machine st).step ch i).1.IndexHandle = some h' →
        ∃ h, ch.IndexHandle = some h ∧ KeepsSize h h' := by
  cases i with
  | write c => exact cycWriteStream_chn ch c
  | cut => exact cutStream_chn ch
  | save i =>
    simp only [machine]
    split
    · exact ⟨rfl, fun h' hh => ⟨h', hh, KeepsSize.of_eq rfl rfl rfl⟩⟩
    · rename_i h hh
      refine ⟨rfl, fun h' hh' => ⟨h, hh, ?_⟩⟩
      cases hh'
      exact PvrIndex.step_keepsSize st h i

/-- A step of a sized channel divides by no zero and leaves it sized. -/
theorem step_sized (st : IdxStore σ) (ch : RecChn σ) (i : RecInput) (hI : SizedChn ch) :
    DividesSafely st ch i ∧ SizedChn ((machine st).step ch i).1 := by
  obtain ⟨hcfg, hidx⟩ := step_chn st ch i
  constructor
  · cases i with
    | write c =>
      show (cycWriteStream ch c).2.divisor ≠ some 0
      rw [cycWriteStream_divisor]
      unfold placeChunk
      simp only
      split
      · split <;> simp
      · split
        · rename_i hrew
          split
          · simp
          · rename_i h hh
            split
            · -- by time there is no remainder
              unfold placeByTime
              split <;> simp
            · rename_i htype
              obtain ⟨hts, hsized⟩ := hI hrew
              obtain ⟨hpause, hpos⟩ := (hsized h hh).resolve_left htype
              rw [maxSize_eq hts hh hpause]
              unfold placeBySize
              simp only
              split
              · simp; omega
              · simp; omega
        · simp
    | cut => exact nofun
    | save i =>
      simp only [DividesSafely, machine]
      split <;> exact nofun
  · intro hrew
    rw [hcfg] at hrew ⊢
    obtain ⟨hts, hsized⟩ := hI hrew
    refine ⟨hts, fun h' hh' => ?_⟩
    obtain ⟨h, hh, hk⟩ := hidx h' hh'
    exact KeepsSize.sized hk (hsized h hh)

/-! ## The configuration -/

theorem check_eq_none {p : Prop} [Decidable p] {e : CfgErr} {rest : Option CfgErr} :
    (if p then some e else rest) = none ↔ ¬ p ∧ rest = none := by
  split <;> simp_all

/-- What an accepted configuration has been checked for, as far as it decides the
    divisor. -/
theorem of_checkUserCfg {chns : List UsedChn} {a : RecAttr} (h : checkUserCfg chns a = none) :
    (a.bRewind = true → a.enStreamType ≠ .allTs) ∧ a.limitsOk = true := by
  simp only [checkUserCfg, check_eq_none] at h
  obtain ⟨-, -, hall, -, -, -, -, -, -, -, hlimits, -⟩ := h
  exact ⟨fun hrew hts => hall ⟨hts, .inl hrew⟩, by simpa using hlimits⟩

/-- An accepted size is unlimited or holds a block. -/
theorem wholeBlocks_eq_zero {a : RecAttr} (hok : a.limitsOk = true) :
    wholeBlocks a.u64MaxFileSize.toNat = 0 ↔ a.u64MaxFileSize = 0 := by
  have hzero : a.u64MaxFileSize = 0 ↔ a.u64MaxFileSize.toNat = 0 := UInt64.toNat_inj.symm
  have hmin : ¬ (0 < a.u64MaxFileSize.toNat ∧ a.u64MaxFileSize.toNat < minCycSize) := by
    intro hlt
    simp [RecAttr.limitsOk, hlt.1, hlt.2] at hok
  rw [hzero]
  simp only [minCycSize, wholeBlocks, PvrIndex.fifoWriteBlockSize] at *
  omega

/-- The attributes kept are those of the user, but for the size and the time. -/
theorem adjusted_eq (a : RecAttr) :
    a.adjusted.bRewind = a.bRewind ∧ a.adjusted.enStreamType = a.enStreamType ∧
      a.adjusted.bEnable_CTrec = a.bEnable_CTrec ∧
      a.adjusted.u64MaxFileSize = .ofNat (wholeBlocks a.u64MaxFileSize.toNat) := by
  unfold RecAttr.adjusted
  simp only
  split <;> exact ⟨rfl, rfl, rfl, rfl⟩

theorem wholeBlocks_adjusted (a : RecAttr) :
    wholeBlocks a.adjusted.u64MaxFileSize.toNat = wholeBlocks a.u64MaxFileSize.toNat := by
  have hlt := a.u64MaxFileSize.toNat_lt
  rw [(adjusted_eq a).2.2.2, UInt64.toNat_ofNat']
  simp only [wholeBlocks, PvrIndex.fifoWriteBlockSize]
  omega

/-- The header of the index that is continued. -/
def continuedHeader (a : RecAttr) (disk : Option IdxDisk) : Option IdxHeaderInfo :=
  (if a.bEnable_CTrec then disk else none).bind IdxDisk.header

/-- The recording loops, but neither by a time nor by a size: it has neither, or it
    is to loop by size and continues an index whose size is unlimited. -/
def loopsWithoutLimit (a : RecAttr) (disk : Option IdxDisk) : Bool :=
  a.bRewind &&
    match continuedHeader a disk with
    | none => a.u64MaxFileSize == 0 && a.adjusted.u64MaxTimeInMs == 0
    | some h => h.u64ValidSize == 0 && !(a.u64MaxFileSize == 0 && a.adjusted.u64MaxTimeInMs != 0)

/-- The index that a recording begins with. -/
theorem of_creatRec {old h : Index CacheHandle} {a : RecAttr} {disk : Option IdxDisk}
    {writeBuf readBuf : Bool} (hc : PvrIndex.creatRec old a disk writeBuf readBuf = some h) :
    h.stCycMgr.enRewindType = (PvrIndex.cycMgrOf a).enRewindType ∧
      h.bTimeRewindTsPauseFlg = false ∧
      h.stCycMgr.u64MaxCycSize =
        match continuedHeader a disk with
        | none => wholeBlocks a.u64MaxFileSize.toNat
        | some hd => hd.u64ValidSize := by
  unfold PvrIndex.creatRec at hc
  unfold continuedHeader
  simp only at hc
  split at hc
  · rename_i hnew
    cases hc
    rw [hnew]
    exact ⟨rfl, rfl, rfl⟩
  · rename_i d hd
    rw [hd]
    split at hc
    · rename_i hd' ty hget hty
      cases hc
      obtain ⟨hd₀, hhd₀, rfl⟩ := Option.map_eq_some_iff.mp hget
      rw [Option.bind_some, hhd₀]
      exact ⟨rfl, rfl, rfl⟩
    · cases hc

/-- Starting a channel leaves the loop as it was created. -/
theorem recStartChn_index {ch : RecChn CacheHandle} {h : Index CacheHandle}
    (hh : ch.IndexHandle = some h) :
    ∃ h', (recStartChn ch).IndexHandle = some h' ∧
      h'.stCycMgr.enRewindType = h.stCycMgr.enRewindType ∧
      h'.bTimeRewindTsPauseFlg = h.bTimeRewindTsPauseFlg ∧
      h'.stCycMgr.u64MaxCycSize = h.stCycMgr.u64MaxCycSize := by
  unfold recStartChn
  simp only [hh]
  split
  · exact ⟨_, rfl, rfl, rfl, rfl⟩
  · exact ⟨h, rfl, rfl, rfl, rfl⟩

/-- A channel records with the adjusted attributes. -/
theorem started_cfg {old : Index CacheHandle} {a : RecAttr} {disk : Option IdxDisk}
    {streamSize : Nat} {writeBuf readBuf : Bool} {ch : RecChn CacheHandle}
    (hc : recCreateChn old a disk streamSize writeBuf readBuf = some ch) :
    (recStartChn ch).stUserCfg = a.adjusted := by
  have hcfg : ch.stUserCfg = a.adjusted := by
    unfold recCreateChn at hc
    simp only at hc
    split at hc
    · cases hc; rfl
    · obtain ⟨h, -, rfl⟩ := Option.map_eq_some_iff.mp hc
      rfl
  rw [← hcfg]
  unfold recStartChn
  simp only
  split
  · rfl
  · split <;> rfl

/-- The index of a channel when recording starts. -/
theorem started_index {old : Index CacheHandle} {a : RecAttr} {disk : Option IdxDisk}
    {streamSize : Nat} {writeBuf readBuf : Bool} {ch : RecChn CacheHandle}
    (hc : recCreateChn old a disk streamSize writeBuf readBuf = some ch)
    (hts : a.enStreamType ≠ .allTs) :
    ∃ h, (recStartChn ch).IndexHandle = some h ∧
      h.stCycMgr.enRewindType = (PvrIndex.cycMgrOf a.adjusted).enRewindType ∧
      h.bTimeRewindTsPauseFlg = false ∧
      h.stCycMgr.u64MaxCycSize =
        match continuedHeader a disk with
        | none => wholeBlocks a.u64MaxFileSize.toNat
        | some hd => hd.u64ValidSize := by
  obtain ⟨-, hstream, henable, -⟩ := adjusted_eq a
  unfold recCreateChn at hc
  simp only [hstream, if_neg hts] at hc
  obtain ⟨h, hh, hch⟩ := Option.map_eq_some_iff.mp hc
  obtain ⟨htype, hpause, hsize⟩ := of_creatRec hh
  rw [wholeBlocks_adjusted, show continuedHeader a.adjusted disk = continuedHeader a disk by
    rw [continuedHeader, henable, continuedHeader]] at hsize
  obtain ⟨h', hh', htype', hpause', hsize'⟩ := recStartChn_index
    (show ch.IndexHandle = some h by rw [← hch])
  exact ⟨h', hh', htype'.trans htype, hpause'.trans hpause, hsize'.trans hsize⟩

/-- The type of the loop that a configuration asks for. -/
theorem cycMgrOf_byTime {a : RecAttr} (hok : a.limitsOk = true) :
    (PvrIndex.cycMgrOf a.adjusted).enRewindType = .byTime ↔
      a.u64MaxFileSize = 0 ∧ a.adjusted.u64MaxTimeInMs ≠ 0 := by
  have hsize := wholeBlocks_eq_zero hok
  have htime : a.adjusted.u64MaxTimeInMs ≠ 0 ↔ 0 < a.adjusted.u64MaxTimeInMs.toNat := by
    rw [Nat.pos_iff_ne_zero, ne_eq, ← UInt64.toNat_inj]
    rfl
  rw [← hsize, htime, PvrIndex.cycMgrOf, wholeBlocks_adjusted]
  simp only
  split
  · rename_i hc; simp [hc.1, hc.2]
  · rename_i hc
    split <;> simpa using hc

/-- The index of a recording that loops is `Sized` unless it loops without a limit. -/
theorem sized_iff {a : RecAttr} {disk : Option IdxDisk} {h : Index CacheHandle}
    (hok : a.limitsOk = true) (hrew : a.bRewind = true)
    (htype : h.stCycMgr.enRewindType = (PvrIndex.cycMgrOf a.adjusted).enRewindType)
    (hpause : h.bTimeRewindTsPauseFlg = false)
    (hsize : h.stCycMgr.u64MaxCycSize =
      match continuedHeader a disk with
      | none => wholeBlocks a.u64MaxFileSize.toNat
      | some hd => hd.u64ValidSize) :
    Sized h ↔ loopsWithoutLimit a disk = false := by
  have hblocks := wholeBlocks_eq_zero hok
  have htime := cycMgrOf_byTime hok
  rw [Sized, htype, htime, hsize, hpause, loopsWithoutLimit, hrew]
  cases continuedHeader a disk with
  | none =>
    simp only [true_and, Bool.true_and, Nat.pos_iff_ne_zero, ne_eq, hblocks]
    by_cases hfs : a.u64MaxFileSize = 0 <;> simp [hfs]
  | some hd =>
    simp only [true_and, Bool.true_and, Nat.pos_iff_ne_zero]
    by_cases hvalid : hd.u64ValidSize = 0 <;> simp [hvalid]

/-- No run of a recording with an accepted configuration takes a remainder by zero,
    exactly when it does not loop without a limit. -/
theorem never_by_zero_iff (chns : List UsedChn) (a : RecAttr) (hok : checkUserCfg chns a = none)
    (old : Index CacheHandle) (disk : Option IdxDisk) (streamSize : Nat) (writeBuf readBuf : Bool)
    (ch : RecChn CacheHandle)
    (hch : recCreateChn old a disk streamSize writeBuf readBuf = some ch) :
    (∀ inputs, (machine PvrIndex.cached).Always (DividesSafely PvrIndex.cached) (recStartChn ch)
      inputs) ↔ loopsWithoutLimit a disk = false := by
  obtain ⟨hts, hlimits⟩ := of_checkUserCfg hok
  obtain ⟨hrew, hstream, -, -⟩ := adjusted_eq a
  have hcfg := started_cfg hch
  constructor
  · intro hall
    cases hloops : a.bRewind with
    | false => rw [loopsWithoutLimit, hloops, Bool.false_and]
    | true =>
      obtain ⟨h, hh, htype, hpause, hsize⟩ := started_index hch (hts hloops)
      rw [← sized_iff hlimits hloops htype hpause hsize]
      by_contra hno
      obtain ⟨htype, hzero⟩ := by simpa [Sized, hpause] using hno
      -- the first chunk already meets the empty limit
      have hmax : (recStartChn ch).maxSize = 0 :=
        (maxSize_eq (by rw [hcfg, hstream]; exact hts hloops) hh hpause).trans hzero
      have hplace : (placeChunk (recStartChn ch) 0).bind Placed.divisor = some 0 := by
        simp [placeChunk, RecAttr.isFixsize, hcfg, hrew, hloops, hh, htype, hmax, placeBySize]
      apply (hall [.write { data := [] }]).1
      exact (cycWriteStream_divisor _ _).trans hplace
  · intro hlimit
    have hsized : SizedChn (recStartChn ch) := by
      intro hloops
      rw [hcfg, hrew] at hloops
      obtain ⟨h, hh, htype, hpause, hsize⟩ := started_index hch (hts hloops)
      refine ⟨by rw [hcfg, hstream]; exact hts hloops, fun h' hh' => ?_⟩
      obtain rfl := Option.some.inj (hh.symm.trans hh')
      exact (sized_iff hlimits hloops htype hpause hsize).mpr hlimit
    exact fun inputs => (Machine.always_of_invariant
      (fun s i hs _ => step_sized PvrIndex.cached s i hs) hsized (Machine.always_true _ _ _)).1

/-- Attributes of a time shift: an index of video, no encryption, the smallest
    buffers. -/
def timeshift : RecAttr where
  u32DavBufSize := 192512
  u32ScdBufSize := 28764
  bRewind := true
  szFileName := [116, 115]
  u32FileNameLen := 2

/-- A handle that has not been used. -/
def unused : Index CacheHandle where
  store := PvrIdxCache.opened [] 0 true true

/-- The channel created for some attributes where there is no file yet. -/
def createdFor (a : RecAttr) : RecChn CacheHandle where
  stUserCfg := a.adjusted
  IndexHandle := some (PvrIndex.freshIndex unused a.adjusted {} true true)

/-- A time shift of 100 MiB. -/
theorem never_by_zero_100MiB :
    (∀ inputs, (machine PvrIndex.cached).Always (DividesSafely PvrIndex.cached)
      (recStartChn (createdFor { timeshift with u64MaxFileSize := 104857600 })) inputs) ↔
      loopsWithoutLimit { timeshift with u64MaxFileSize := 104857600 } none = false :=
  never_by_zero_iff [] { timeshift with u64MaxFileSize := 104857600 } (by decide +kernel) unused
    none 0 true true _ (by decide +kernel)

/-- A time shift without a size and a time is accepted, and divides by zero as soon
    as a byte of the stream arrives. -/
theorem by_zero :
    ¬ ∀ ch, checkUserCfg [] timeshift = none →
      recCreateChn unused timeshift none 0 true true = some ch →
      ∀ inputs, (machine PvrIndex.cached).Always (DividesSafely PvrIndex.cached) (recStartChn ch)
        inputs := by
  intro hall
  have hsafe := hall (createdFor timeshift) (by decide +kernel) (by decide +kernel)
    [.write { data := [0x47] }]
  exact absurd hsafe (by decide +kernel)

end Tntsat.PvrRec
