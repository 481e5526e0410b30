import Tntsat.Native.PvrIndexFile
import Tntsat.Spec.PvrIndexCorrect

/-!
# Closing an index and continuing it

The header stores the end frame as one less than it is, and the last frame as one
less only while the ring is not wrapped; the reader adds one to both.  So a
recording whose ring is not wrapped continues where it stopped, and every other
one makes the position behind its last frame playable.

How far the file reaches decides what the reader cuts off.  `Reaches h hdr n` says
that the entries below byte `n` are on the file or pending; writes can only extend
it, whether they fail or not.

## Key results

- `cacheWriteIdx_reaches`: a write that succeeds extends the entries
- `step_fileOk`: what every successful call keeps of the counters and the file
- `reopen_restores_iff`: the recordings that are restored
- `reopen_broken`: a recording that is closed before its first frame
-/

namespace Tntsat.PvrIdxCache

/-! ## How far the entries reach -/

/-- The entries up to byte `n` are on the file or pending, and everything lies below
    2 GiB. -/
structure Reaches (h : CacheHandle) (hdr n : Nat) : Prop where
  startLen : h.u32IdxStartOffsetLen = hdr
  fits : hdr + h.stIdxWriteCache.u32StartOffset + h.stIdxWriteCache.u32UsedSize ≤ 2147483648
  short : h.file.bytes.length ≤ 8589934592
  /-- only a handle with a buffer has pending bytes -/
  buffered : h.stIdxWriteCache.u32UsedSize ≠ 0 → h.stIdxWriteCache.u32BufferLen ≠ 0
  covers : hdr + n ≤ h.file.bytes.length ∨ (h.stIdxWriteCache.u32UsedSize ≠ 0 ∧
    n ≤ h.stIdxWriteCache.u32StartOffset + h.stIdxWriteCache.u32UsedSize)

/-- `h'` is `h` with a longer file. -/
structure Longer (h h' : CacheHandle) : Prop where
  startLen : h'.u32IdxStartOffsetLen = h.u32IdxStartOffsetLen
  writeCache : h'.stIdxWriteCache = h.stIdxWriteCache
  length : h.file.bytes.length ≤ h'.file.bytes.length
  short : h.file.bytes.length ≤ 8589934592 → h'.file.bytes.length ≤ 8589934592

theorem Longer.reaches {h h' : CacheHandle} {hdr n : Nat} (hl : Longer h h')
    (hr : Reaches h hdr n) : Reaches h' hdr n where
  startLen := hl.startLen.trans hr.startLen
  fits := by rw [hl.writeCache]; exact hr.fits
  short := hl.short hr.short
  buffered := by rw [hl.writeCache]; exact hr.buffered
  covers := by
    have hlen := hl.length
    rw [hl.writeCache]
    exact hr.covers.imp_left (fun h => Nat.le_trans h hlen)

/-- A write puts its bytes, or a part of them, over the file. -/
theorem pvrWrite_bytes (f : IdxFile) (buf : List UInt8) (pos : Nat) :
    ∃ part, part.length ≤ buf.length ∧
      (pvrWrite f buf pos).1.bytes = pwrite 0 f.bytes pos part ∧
      ((pvrWrite f buf pos).2.1 = buf.length → part = buf) := by
  unfold pvrWrite
  split
  · exact ⟨buf, Nat.le_refl _, rfl, fun _ => rfl⟩
  · exact ⟨buf, Nat.le_refl _, rfl, fun _ => rfl⟩
  · rename_i n _ _ _
    refine ⟨buf.take n, List.length_take_le' n buf, rfl, fun hlen => ?_⟩
    exact List.take_of_length_le (by simp at hlen; omega)
  · exact ⟨[], Nat.zero_le _, rfl, fun hlen => by simp only at hlen; omega⟩

/-- `PVR_WRITE_INDEX` extends the file, and one that succeeds as far as its bytes
    reach. -/
theorem pvrWriteIndex_longer (h : CacheHandle) (buf : List UInt8) (offset : Nat)
    (hbuf : buf.length ≤ 4294967296) :
    Longer h (pvrWriteIndex h buf offset).1 ∧
      ((pvrWriteIndex h buf offset).2 = none → offset + h.u32IdxStartOffsetLen < 4294967296 →
        buf ≠ [] → offset + h.u32IdxStartOffsetLen + buf.length ≤
          (pvrWriteIndex h buf offset).1.file.bytes.length) := by
  obtain ⟨part, hpart, hbytes, hfull⟩ :=
    pvrWrite_bytes h.file buf (u32 (offset + h.u32IdxStartOffsetLen))
  have hpos : u32 (offset + h.u32IdxStartOffsetLen) < 4294967296 := Nat.mod_lt _ (by decide)
  -- what is written is put into the file, which can only grow by it
  have hlen : part = [] ∨ (pwrite 0 h.file.bytes (u32 (offset + h.u32IdxStartOffsetLen)) part).length =
      max h.file.bytes.length (u32 (offset + h.u32IdxStartOffsetLen) + part.length) := by
    by_cases hnil : part = []
    · exact .inl hnil
    · exact .inr (length_pwrite _ _ _ hnil)
  have hlonger : Longer h { h with
      file := (pvrWrite h.file buf (u32 (offset + h.u32IdxStartOffsetLen))).1 } :=
    { startLen := rfl
      writeCache := rfl
      length := by
        rw [hbytes]
        rcases hlen with rfl | hlen
        · exact Nat.le_refl _
        · rw [hlen]; omega
      short := fun hs => by
        rw [hbytes]
        rcases hlen with rfl | hlen
        · exact hs
        · rw [hlen]; omega }
  unfold pvrWriteIndex
  simp only
  split
  -- a short write is reported
  · exact ⟨hlonger, nofun⟩
  · rename_i hsz
    refine ⟨hlonger, fun _ hfit hne => ?_⟩
    obtain rfl := hfull (by simpa using hsz)
    rw [hbytes, length_pwrite _ _ _ hne, u32_of_lt hfit]
    omega

/-! ## What each operation keeps -/

variable {h : CacheHandle} {hdr n : Nat}

/-- Writing the pending bytes. -/
theorem writePending_reaches (hr : Reaches h hdr n) :
    Reaches (writePending h).1 hdr n ∧
      ((writePending h).2 = none → Reaches (clearPending (writePending h).1) hdr n) := by
  have hfits := hr.fits
  have hstart := hr.startLen
  obtain ⟨hl, hok⟩ := pvrWriteIndex_longer h h.stIdxWriteCache.data
    h.stIdxWriteCache.u32StartOffset (by rw [IdxBuf.u32UsedSize] at hfits; omega)
  refine ⟨hl.reaches hr, fun hnone => ?_⟩
  have hr' := hl.reaches hr
  have hlen := hl.length
  exact
    { startLen := hr'.startLen
      fits := by
        show hdr + 0 + 0 ≤ _
        omega
      short := hr'.short
      buffered := fun hused => absurd rfl hused
      covers := by
        refine .inl ?_
        show hdr + n ≤ (writePending h).1.file.bytes.length
        -- the file had it all already, or it has what was pending now
        rcases hr.covers with hfile | ⟨hused, hpend⟩
        · exact Nat.le_trans hfile hlen
        · rw [IdxBuf.u32UsedSize] at hused hpend hfits
          have hreach := hok hnone (by omega) (fun hnil => hused (by rw [hnil]; rfl))
          rw [writePending]
          omega }

theorem flush_reaches (hr : Reaches h hdr n) : Reaches (flushIdxWriteCache h).1 hdr n := by
  obtain ⟨hw, hclear⟩ := writePending_reaches hr
  unfold flushIdxWriteCache
  split
  · exact hr
  · split
    · split
      · rename_i h' err heq
        rw [heq] at hw
        exact hw
      · rename_i h' heq
        rw [heq] at hclear
        exact hclear rfl
    · exact hr

theorem readIndexDirectly_reaches (hr : Reaches h hdr n) (size offset : Nat) :
    Reaches (readIndexDirectly h size offset).1 hdr n := by
  unfold readIndexDirectly
  simp only
  split
  · exact flush_reaches hr
  · exact hr

/-- The read window has no say. -/
theorem Reaches.setWindow (hr : Reaches h hdr n) (c : IdxBuf) :
    Reaches { h with stIdxReadCache := c } hdr n :=
  ⟨hr.startLen, hr.fits, hr.short, hr.buffered, hr.covers⟩

theorem cacheReadIdx_reaches (hr : Reaches h hdr n) (size offset : Nat) (direct : Bool) :
    Reaches (cacheReadIdx h size offset direct).1 hdr n := by
  have hload : Reaches (loadWindow h offset) hdr n := by
    unfold loadWindow
    simp only
    exact (readIndexDirectly_reaches hr _ _).setWindow _
  unfold cacheReadIdx
  split
  · exact readIndexDirectly_reaches hr size offset
  · split
    · exact hr
    · simp only
      split
      · exact hload
      · exact readIndexDirectly_reaches hload size offset

/-- Fewer entries. -/
theorem Reaches.mono {m : Nat} (hr : Reaches h hdr n) (hle : m ≤ n) : Reaches h hdr m :=
  ⟨hr.startLen, hr.fits, hr.short, hr.buffered,
    hr.covers.imp (fun hfile => by omega) (fun hp => ⟨hp.1, by omega⟩)⟩

/-- The file alone covers the entries. -/
theorem Reaches.clear {m : Nat} (hr : Reaches h hdr n) (hfile : hdr + m ≤ h.file.bytes.length) :
    Reaches (clearPending h) hdr m where
  startLen := hr.startLen
  fits := by
    have hfits := hr.fits
    show hdr + 0 + 0 ≤ _
    omega
  short := hr.short
  buffered := fun hused => absurd rfl hused
  covers := .inl hfile

/-- Nothing is pending any more. -/
theorem Reaches.on_file (hr : Reaches (clearPending h) hdr n) : hdr + n ≤ h.file.bytes.length :=
  hr.covers.resolve_right fun hp => hp.1 rfl

/-- The direct branch. -/
theorem cacheWriteDirect_reaches (hr : Reaches h hdr n) {data : List UInt8} {offset : Nat}
    (hne : data ≠ []) (hfit : hdr + offset + data.length ≤ 2147483648)
    (hok : (cacheWriteDirect h data offset).2 = none) :
    Reaches (cacheWriteDirect h data offset).1 hdr (max n (offset + data.length)) := by
  have hfits := hr.fits
  have hstart := hr.startLen
  rw [IdxBuf.u32UsedSize] at hfits
  revert hok
  unfold cacheWriteDirect
  simp only
  split
  · rename_i hpend
    split
    · -- the bytes follow the pending ones
      rename_i hcont
      obtain ⟨hoff, -⟩ := by simpa [contiguous] using hcont
      rw [IdxBuf.u32UsedSize, u32_of_lt (by omega)] at hoff
      obtain ⟨hl, hreach⟩ := pvrWriteIndex_longer h (h.stIdxWriteCache.data ++ data)
        h.stIdxWriteCache.u32StartOffset (by rw [List.length_append]; omega)
      split
      · exact nofun
      · rename_i h' heq
        rw [heq] at hl hreach
        have hlen := hreach rfl (by omega) (by simp [hne])
        rw [List.length_append] at hlen
        refine fun _ => (hl.reaches hr).clear ?_
        have hmono := hl.length
        show _ ≤ h'.file.bytes.length
        simp only at hlen hmono
        rcases hr.covers with hfile | ⟨-, hpend'⟩
        · omega
        · rw [IdxBuf.u32UsedSize] at hpend'; omega
    · -- first the pending bytes, then the new ones
      obtain ⟨-, hclear⟩ := writePending_reaches hr
      split
      · exact nofun
      · rename_i h₁ heq₁
        rw [heq₁] at hclear
        have hr₁ := hclear rfl
        obtain ⟨hl, hreach⟩ := pvrWriteIndex_longer h₁ data offset (by omega)
        split
        · exact nofun
        · rename_i h₂ heq₂
          rw [heq₂] at hl hreach
          have hstart₁ : h₁.u32IdxStartOffsetLen = hdr := hr₁.startLen
          have hlen := hreach rfl (by omega) hne
          have hmono := hl.length
          have hfile := hr₁.on_file
          simp only at hlen hmono hfile
          intro _
          exact
            { startLen := hl.startLen.trans hstart₁
              fits := by show hdr + 0 + 0 ≤ _; omega
              short := hl.short hr₁.short
              buffered := fun hused => absurd rfl hused
              covers := .inl (by show _ ≤ h₂.file.bytes.length; omega) }
  · -- nothing is pending
    intro hok
    obtain ⟨hl, hreach⟩ := pvrWriteIndex_longer h data offset (by omega)
    have hr' := hl.reaches hr
    have hlen := hreach hok (by omega) hne
    exact
      { startLen := hr'.startLen, fits := hr'.fits, short := hr'.short, buffered := hr'.buffered
        covers := by
          rcases hr'.covers with hfile | hpend
          · exact .inl (by omega)
          · by_cases hmax : n ≤ offset + data.length
            · exact .inl (by omega)
            · exact .inr ⟨hpend.1, by omega⟩ }

/-- Appending to the write cache. -/
theorem appendPending_reaches (hr : Reaches h hdr n) {data : List UInt8} {offset : Nat}
    (hne : data ≠ []) (hfit : hdr + offset + data.length ≤ 2147483648)
    (hbuf : h.stIdxWriteCache.u32BufferLen ≠ 0)
    (hcont : h.stIdxWriteCache.u32UsedSize = 0 ∨
      offset = h.stIdxWriteCache.u32StartOffset + h.stIdxWriteCache.u32UsedSize) :
    Reaches (appendPending h data offset) hdr (max n (offset + data.length)) := by
  have hpos := List.length_pos_iff.mpr hne
  have hlen : (appendPending h data offset).stIdxWriteCache.u32UsedSize =
      h.stIdxWriteCache.u32UsedSize + data.length := List.length_append
  -- the pending bytes now end with the new ones
  have hend : (appendPending h data offset).stIdxWriteCache.u32StartOffset +
      (appendPending h data offset).stIdxWriteCache.u32UsedSize = offset + data.length := by
    rw [hlen]
    show (if h.stIdxWriteCache.u32UsedSize = 0 then offset
      else h.stIdxWriteCache.u32StartOffset) + _ = _
    by_cases hzero : h.stIdxWriteCache.u32UsedSize = 0
    · rw [if_pos hzero, hzero, Nat.zero_add]
    · rw [if_neg hzero]
      have hoff := hcont.resolve_left hzero
      omega
  exact
    { startLen := hr.startLen
      fits := by rw [Nat.add_assoc, hend]; omega
      short := hr.short
      buffered := fun _ => hbuf
      covers := by
        rcases hr.covers with hfile | ⟨hused, hpend⟩
        · by_cases hmax : n ≤ offset + data.length
          · exact .inr ⟨by omega, by omega⟩
          · exact .inl (by show _ ≤ h.file.bytes.length; omega)
        · have hoff := hcont.resolve_left hused
          exact .inr ⟨by omega, by omega⟩ }

/-- The caching branch. -/
theorem cacheWriteCached_reaches (hr : Reaches h hdr n) {data : List UInt8} {offset : Nat}
    (hbuf : h.stIdxWriteCache.u32BufferLen ≠ 0) (hne : data ≠ [])
    (hfit : hdr + offset + data.length ≤ 2147483648)
    (hok : (cacheWriteCached h data offset).2.1 = none) :
    Reaches (cacheWriteCached h data offset).1 hdr (max n (offset + data.length)) := by
  have hfits := hr.fits
  have hstart := hr.startLen
  revert hok
  unfold cacheWriteCached
  split
  -- the entry continues what is pending
  · rename_i hcont
    obtain ⟨hoff, -⟩ := by simpa [contiguous] using hcont
    rw [u32_of_lt (by omega)] at hoff
    exact fun _ => appendPending_reaches hr hne hfit hbuf (.inr hoff)
  · split
    · exact nofun
    · rename_i h₁ heq₁
      -- another one is put in the cache after that is written
      have hcache : h₁.stIdxWriteCache = h.stIdxWriteCache := by
        obtain ⟨hl, -⟩ := pvrWriteIndex_longer h h.stIdxWriteCache.data
          h.stIdxWriteCache.u32StartOffset (by rw [IdxBuf.u32UsedSize] at hfits; omega)
        rw [← writePending, heq₁] at hl
        exact hl.writeCache
      obtain ⟨-, hclear⟩ := writePending_reaches hr
      rw [heq₁] at hclear
      refine fun _ => appendPending_reaches (hclear rfl) hne hfit ?_ (.inl rfl)
      show h₁.stIdxWriteCache.u32BufferLen ≠ 0
      rw [hcache]
      exact hbuf

theorem invalidateRead_reaches (hr : Reaches h hdr n) (offset len : Nat) :
    Reaches (invalidateRead h offset len) hdr n := by
  unfold invalidateRead
  split
  · exact hr.setWindow _
  · exact hr

/-- `PVRCacheWriteIdx` extends the entries by what it wrote. -/
theorem cacheWriteIdx_reaches (hr : Reaches h hdr n) {data : List UInt8} {offset : Nat}
    {direct : Bool} (hne : data ≠ []) (hfit : hdr + offset + data.length ≤ 2147483648)
    (hok : (cacheWriteIdx h data offset direct).2.1 = none) :
    Reaches (cacheWriteIdx h data offset direct).1 hdr (max n (offset + data.length)) := by
  revert hok
  unfold cacheWriteIdx
  split
  · split
    · exact nofun
    · rename_i h' heq
      have hw := cacheWriteDirect_reaches hr hne hfit (by rw [heq])
      rw [heq] at hw
      exact fun _ => invalidateRead_reaches hw _ _
  · rename_i hcached
    split
    · exact nofun
    · rename_i h' flag heq
      have hw := cacheWriteCached_reaches hr (fun hzero => hcached (.inr hzero)) hne hfit
        (by rw [heq])
      rw [heq] at hw
      exact fun _ => invalidateRead_reaches hw _ _

/-- A flush whose write succeeds leaves the entries on the file. -/
theorem flush_on_file (hr : Reaches h hdr n) (hok : (flushIdxWriteCache h).2 = none) :
    hdr + n ≤ (flushIdxWriteCache h).1.file.bytes.length := by
  revert hok
  unfold flushIdxWriteCache
  split
  · rename_i hzero
    exact fun _ => hr.covers.resolve_right fun hp => hr.buffered hp.1 hzero
  · split
    · obtain ⟨-, hclear⟩ := writePending_reaches hr
      split
      · exact nofun
      · rename_i h' heq
        rw [heq] at hclear
        exact fun _ => (hclear rfl).on_file
    · rename_i hused
      exact fun _ => hr.covers.resolve_right fun hp => hused hp.1

/-- Writes that are not told otherwise succeed. -/
theorem flush_succeeds (ho : h.file.outcomes = []) : (flushIdxWriteCache h).2 = none := by
  have hw : (writePending h).2 = none := by
    simp [writePending, pvrWriteIndex, pvrWrite, ho]
  unfold flushIdxWriteCache
  split
  · rfl
  · split
    · split
      · rename_i h' err heq
        rw [heq] at hw
        cases hw
      · rfl
    · rfl

end Tntsat.PvrIdxCache

namespace Tntsat.PvrIndex

open PvrIdxCache (CacheHandle Reaches sizeofEntry)
open PvrRec (RecAttr maxUserdataLen)

/-! ## The counters

What `PVRIndexRecordCycInfo` relies on to tell a wrapped ring from one that is
not. -/

variable {σ : Type}

/-- The number of entries below the end or the last frame. -/
def CycMgr.entries (c : CycMgr) : Nat := max c.u32EndFrame c.u32LastFrame

/-- How the counters stand to each other while every write succeeds. -/
structure Counters (s : Index σ) : Prop where
  write : s.u32WriteFrame = s.stCycMgr.u32EndFrame
  behind : s.stCycMgr.u32EndFrame ≤ s.stCycMgr.u32LastFrame + 1
  straight : s.stCycMgr.bIsRewind = false → s.stCycMgr.u32EndFrame = s.stCycMgr.u32LastFrame
  played : s.stCycMgr.u32StartFrame < s.stCycMgr.u32EndFrame → 1 ≤ s.stCycMgr.u32LastFrame

/-- Moving the ring adds at most the entry just written. -/
theorem advance_counters {s : Index σ} (env : SaveEnv) (rewinds : Bool)
    (hbehind : s.stCycMgr.u32EndFrame ≤ s.stCycMgr.u32LastFrame + 1)
    (hstraight : s.stCycMgr.bIsRewind = false → s.stCycMgr.u32EndFrame = s.stCycMgr.u32LastFrame)
    (hwrite : s.u32WriteFrame = if rewinds then 0 else s.stCycMgr.u32EndFrame)
    (hrew : rewinds = true → s.stCycMgr.bIsRewind = true) :
    Counters (advance s env rewinds) ∧
      (advance s env rewinds).stCycMgr.entries ≤
        max s.stCycMgr.entries (s.u32WriteFrame + 1) := by
  cases hloop : s.stCycMgr.bIsRewind with
  | false =>
    have hEL := hstraight hloop
    cases rewinds with
    | true => exact absurd (hrew rfl) (by rw [hloop]; decide)
    | false =>
      replace hwrite : s.u32WriteFrame = s.stCycMgr.u32EndFrame := hwrite
      rw [advance_straight hloop]
      refine ⟨⟨?_, ?_, fun _ => ?_, fun _ => ?_⟩, ?_⟩ <;>
        simp only [goStraight, CycMgr.entries] <;> omega
  | true =>
    have hfalse : s.stCycMgr.bIsRewind ≠ false := by rw [hloop]; decide
    cases rewinds with
    | false =>
      replace hwrite : s.u32WriteFrame = s.stCycMgr.u32EndFrame := hwrite
      rw [advance_move hloop]
      -- the end pushes the last frame before it once it catches up
      by_cases hpush : s.stCycMgr.u32LastFrame < s.stCycMgr.u32EndFrame + 1
      · refine ⟨⟨?_, ?_, fun h => absurd h hfalse, fun _ => ?_⟩, ?_⟩ <;>
          simp only [moveOn, CycMgr.entries, if_pos hpush] <;> omega
      · refine ⟨⟨?_, ?_, fun h => absurd h hfalse, fun _ => ?_⟩, ?_⟩ <;>
          simp only [moveOn, CycMgr.entries, if_neg hpush] <;> omega
    | true =>
      rw [advance_start hloop]
      refine ⟨⟨rfl, ?_, fun h => absurd h hfalse, fun hlt => ?_⟩, ?_⟩
      · simp only [startCycle]; omega
      · -- the start of the new cycle lies behind its end
        simp only [startCycle, rewindFramesGap] at hlt
        split at hlt <;> omega
      · simp only [startCycle, CycMgr.entries]; omega

/-- The end of a call moves nothing but the start, and moves it up. -/
theorem finishFrame_counters (st : IdxStore σ) {s : Index σ} (hc : Counters s) (e : IndexEntry)
    (env : SaveEnv) (record : Bool) :
    Counters (finishFrame st s e env record) ∧
      (finishFrame st s e env record).stCycMgr.entries = s.stCycMgr.entries := by
  obtain ⟨store, start, count, header, t, heq, hle, -⟩ := finishFrame_eq st s e env record
  rw [heq]
  exact ⟨⟨hc.write, hc.behind, hc.straight, fun hlt => hc.played (Nat.lt_of_le_of_lt hle hlt)⟩,
    rfl⟩

/-! ## The header -/

theorem adjustStartFrame_header (st : IdxStore σ) (s : Index σ) (e : IndexEntry) :
    (adjustStartFrame st s e).header = s.header := by
  obtain ⟨store, start, count, heq, -⟩ := adjustStartFrame_eq st s e
  rw [heq]

/-- The length of the header stays what the file was created with. -/
theorem recordCycInfo_headerLen (st : IdxStore σ) (s : Index σ) (headerOk : Bool) (now : Nat)
    (force : Bool) :
    (recordCycInfo st s headerOk now force).header.u32HeaderLen = s.header.u32HeaderLen := by
  unfold recordCycInfo
  simp only
  cases headerOk with
  | false => rfl
  | true =>
    rw [if_pos rfl, apply_ite Index.header, ite_self]
    rfl

theorem finishFrame_headerLen (st : IdxStore σ) (s : Index σ) (e : IndexEntry) (env : SaveEnv)
    (record : Bool) :
    (finishFrame st s e env record).header.u32HeaderLen = s.header.u32HeaderLen := by
  unfold finishFrame
  simp only
  split
  · exact (recordCycInfo_headerLen st _ _ _ _).trans
      (congrArg IdxHeaderInfo.u32HeaderLen (adjustStartFrame_header st s e))
  · exact congrArg IdxHeaderInfo.u32HeaderLen (adjustStartFrame_header st s e)

theorem advance_header (s : Index σ) (env : SaveEnv) (rewinds : Bool) :
    (advance s env rewinds).header = s.header ∧ (advance s env rewinds).store = s.store := by
  cases hloop : s.stCycMgr.bIsRewind with
  | false => rw [advance_straight hloop]; exact ⟨rfl, rfl⟩
  | true =>
    cases rewinds with
    | false => rw [advance_move hloop]; exact ⟨rfl, rfl⟩
    | true => rw [advance_start hloop]; exact ⟨rfl, rfl⟩

theorem place_header {st : IdxStore σ} {s s₁ : Index σ} {i : SaveCall} {offset : Nat}
    {rewinds : Bool} (h : i.place st s = some (s₁, offset, rewinds)) : s₁.header = s.header := by
  have hprep : (i.prepared st s).header = s.header := rfl
  unfold SaveCall.place placeFrame at h
  split at h
  · split at h
    · rcases placeByTime_cases h with ⟨-, -, rfl, -⟩ | ⟨-, -, store, m, total, rfl⟩
      · exact hprep
      · exact hprep
    · have hs : (placeBySize (i.prepared st s) i.frame).1 = s₁ := by rw [Option.some.inj h]
      rw [← hs, placeBySize, apply_ite Prod.fst, ite_self]
      exact hprep
  · have hs : (placeStraight (i.prepared st s) i.frame).1 = s₁ := by rw [Option.some.inj h]
    rw [← hs]
    exact hprep

/-! ## Runs without a failure -/

@[simp] theorem IndexEntry.length_toBytes (e : IndexEntry) :
    e.toBytes.length = sizeofEntry := by
  simp [IndexEntry.toBytes, sizeofEntry]

/-- The fields of an entry fit their types. -/
structure IndexEntry.Fits (e : IndexEntry) : Prop where
  u16FrameTypeAndGop : e.u16FrameTypeAndGop < 256 ^ 2
  u16UpFlowFlag : e.u16UpFlowFlag < 256 ^ 1
  u8StcOffsinTs : e.u8StcOffsinTs < 256 ^ 1
  s32CycTimes : e.s32CycTimes < 256 ^ 4
  u64GlobalOffset : e.u64GlobalOffset < 256 ^ 8
  u32DisplayTimeMs : e.u32DisplayTimeMs < 256 ^ 4
  u32FrameSize : e.u32FrameSize < 256 ^ 4
  u64Offset : e.u64Offset < 256 ^ 8
  u32PtsMs : e.u32PtsMs < 256 ^ 4
  u16IndexType : e.u16IndexType < 256 ^ 2
  u161stFrameOfTT : e.u161stFrameOfTT < 256 ^ 2

/-- The bytes of an entry stand for it. -/
theorem IndexEntry.ofBytes_toBytes {e : IndexEntry} (h : e.Fits) : ofBytes e.toBytes = e := by
  have hlast := field_le_append h.u161stFrameOfTT []
  rw [List.append_nil] at hlast
  simp only [ofBytes, toBytes, field_le_append h.u16FrameTypeAndGop,
    field_le_append h.u16UpFlowFlag, field_le_append h.u8StcOffsinTs,
    field_le_append h.s32CycTimes, field_le_append h.u64GlobalOffset,
    field_le_append h.u32DisplayTimeMs, field_le_append h.u32FrameSize,
    field_le_append h.u64Offset, field_le_append h.u32PtsMs, field_le_append h.u16IndexType, hlast]

theorem IndexEntry.toBytes_ne_nil (e : IndexEntry) : e.toBytes ≠ [] := by
  apply List.ne_nil_of_length_pos
  rw [e.length_toBytes]
  decide

/-- The counters are in order, and the file reaches as far as they say. -/
structure FileOk (hdr : Nat) (s : Index CacheHandle) : Prop where
  counters : Counters s
  headerLen : s.header.u32HeaderLen = hdr
  reaches : Reaches s.store hdr (sizeofEntry * s.stCycMgr.entries)
  fits : hdr + sizeofEntry * s.stCycMgr.entries ≤ 2147483648

/-- The call succeeds, and its entry ends below 2 GiB. -/
def Succeeds (s : Index CacheHandle) (i : SaveCall) : Prop :=
  ((machine cached).step s i).2.map SaveOut.ret = some none ∧
    s.header.u32HeaderLen + sizeofEntry * (s.u32WriteFrame + 1) ≤ 2147483648

instance (s : Index CacheHandle) (i : SaveCall) : Decidable (Succeeds s i) :=
  inferInstanceAs (Decidable (_ ∧ _))

/-- Everything but the write of an entry leaves the file as long as it is. -/
theorem cached_keeps (hdr n : Nat) : StoreKeeps cached (fun x => Reaches x hdr n) where
  read _ _ _ hr := PvrIdxCache.cacheReadIdx_reaches hr _ _ _
  flush _ hr := PvrIdxCache.flush_reaches hr
  correct x e num hr :=
    (PvrIdxCache.pvrWriteIndex_longer x e.toBytes (u32 (num * sizeofEntry))
      (by rw [e.length_toBytes]; decide)).1.reaches hr
  outcomes _ _ hr := ⟨hr.startLen, hr.fits, hr.short, hr.buffered, hr.covers⟩

/-- A write that succeeds extends the file by its entry. -/
theorem cached_write_reaches {x : CacheHandle} {hdr n pos : Nat} (hr : Reaches x hdr n)
    (e : IndexEntry) {direct : Bool} (hfit : hdr + sizeofEntry * (pos + 1) ≤ 2147483648)
    (hok : (cached.cacheWriteIdx x e pos direct).2.1 = none) :
    Reaches (cached.cacheWriteIdx x e pos direct).1 hdr (max n (sizeofEntry * (pos + 1))) := by
  have hoff : u32 (pos * sizeofEntry) = pos * sizeofEntry :=
    u32_of_lt (by simp only [sizeofEntry] at hfit ⊢; omega)
  have hend : pos * sizeofEntry + e.toBytes.length = sizeofEntry * (pos + 1) := by
    rw [e.length_toBytes, Nat.mul_comm, Nat.mul_add_one]
  have hw := PvrIdxCache.cacheWriteIdx_reaches hr e.toBytes_ne_nil (by rw [hoff]; omega) hok
  rw [hoff, hend] at hw
  show Reaches (PvrIdxCache.cacheWriteIdx x e.toBytes (u32 (pos * sizeofEntry)) direct).1 hdr _
  rw [hoff]
  exact hw

/-- A call that succeeds keeps the counters and the file in order. -/
theorem step_fileOk {hdr : Nat} (s : Index CacheHandle) (i : SaveCall) (hI : FileOk hdr s)
    (hs : Succeeds s i) : FileOk hdr ((machine cached).step s i).1 := by
  obtain ⟨hsucc, hsmall⟩ := hs
  obtain ⟨out, hout, hret⟩ := Option.map_eq_some_iff.mp hsucc
  obtain ⟨hacc, -, store, lastI, hstep⟩ |
    ⟨-, s₁, offset, rewinds, record, hplace, hok, -, hstep⟩ := step_success cached hout hret
  · -- the frame is discarded
    have hr := (cached_keeps hdr _).outcomes _ i.env.outcomes hI.reaches
    rw [← discard_store cached hacc, hstep] at hr
    rw [hstep]
    have hc := hI.counters
    exact ⟨⟨hc.write, hc.behind, hc.straight, hc.played⟩, hI.headerLen, hr, hI.fits⟩
  · -- the entry is stored, and the ring moves
    have hP := placed cached hplace
    have hc := hI.counters
    have hfits := hI.fits
    rw [hI.headerLen] at hsmall
    rw [hstep]
    have hcyc : s₁.stCycMgr.entries = s.stCycMgr.entries := by
      rw [CycMgr.entries, hP.end_, hP.last, CycMgr.entries]
    have hpos : (if rewinds then 0 else s₁.u32WriteFrame) ≤ s.u32WriteFrame := by
      rw [hP.write]
      split <;> omega
    have hmul : sizeofEntry * ((if rewinds then 0 else s₁.u32WriteFrame) + 1) ≤
        sizeofEntry * (s.u32WriteFrame + 1) := Nat.mul_le_mul_left _ (by omega)
    have hwritten := cached_write_reaches (place_store (cached_keeps hdr _) hI.reaches hplace)
      { i.entry s with u64Offset := offset } (by omega) hok
    obtain ⟨hmoved, hentries⟩ := advance_counters
      (s := afterWrite cached s₁ { i.entry s with u64Offset := offset } rewinds i.u32DirectFlag)
      i.env rewinds
      (by
        show s₁.stCycMgr.u32EndFrame ≤ s₁.stCycMgr.u32LastFrame + 1
        rw [hP.end_, hP.last]
        exact hc.behind)
      (fun hloop => by
        have hloop' : s₁.stCycMgr.bIsRewind = false := hloop
        show s₁.stCycMgr.u32EndFrame = s₁.stCycMgr.u32LastFrame
        rw [hP.end_, hP.last]
        exact hc.straight (hP.isRewind ▸ hloop'))
      (by
        show (if rewinds then 0 else s₁.u32WriteFrame) =
          if rewinds then 0 else s₁.stCycMgr.u32EndFrame
        rw [hP.write, hP.end_, hc.write])
      (fun hrew => by
        show s₁.stCycMgr.bIsRewind = true
        have hstarts := hP.starts.symm.trans hrew
        rw [startsCycle, Bool.and_eq_true] at hstarts
        exact hP.isRewind.trans hstarts.1)
    obtain ⟨hcounters, hsame⟩ := finishFrame_counters cached hmoved
      { i.entry s with u64Offset := offset } i.env record
    have hbound : (finishFrame cached (advance (afterWrite cached s₁
        { i.entry s with u64Offset := offset } rewinds i.u32DirectFlag) i.env rewinds)
        { i.entry s with u64Offset := offset } i.env record).stCycMgr.entries ≤
        max s.stCycMgr.entries ((if rewinds then 0 else s₁.u32WriteFrame) + 1) := by
      rw [hsame]
      refine Nat.le_trans hentries ?_
      show max s₁.stCycMgr.entries _ ≤ _
      rw [hcyc]
      exact Nat.le_refl _
    have hmul' := Nat.mul_le_mul_left sizeofEntry hbound
    rw [← Nat.mul_max_mul_left] at hmul'
    exact
      { counters := hcounters
        headerLen := by
          rw [finishFrame_headerLen, (advance_header _ _ _).1]
          show s₁.header.u32HeaderLen = hdr
          rw [place_header hplace, hI.headerLen]
        reaches := by
          apply finishFrame_store (cached_keeps hdr _)
          rw [(advance_header _ _ _).2]
          exact hwritten.mono hmul'
        fits := by omega }

/-! ## Closing the file -/

/-- What a flush that succeeds leaves of the writes to come. -/
theorem flush_outcomes {x : CacheHandle} (ho : x.file.outcomes = []) :
    (cached.flushIdxWriteCache x).file.outcomes = [] := by
  have hw : (PvrIdxCache.writePending x).1.file.outcomes = [] := by
    simp [PvrIdxCache.writePending, PvrIdxCache.pvrWriteIndex, PvrIdxCache.pvrWrite, ho]
  show (PvrIdxCache.flushIdxWriteCache x).1.file.outcomes = []
  unfold PvrIdxCache.flushIdxWriteCache
  split
  · exact ho
  · split
    · split
      · rename_i h' err heq
        rw [heq] at hw
        exact hw
      · rename_i h' heq
        rw [heq] at hw
        exact hw
    · exact ho

/-- The file that is left holds every entry. -/
theorem destroyRec_eq {hdr : Nat} {s : Index CacheHandle} (hI : FileOk hdr s) (now : Nat) :
    ∃ bytes, destroyRec s [] true now =
        { header := some (s.stCycMgr.toHeader s.header), bytes := bytes } ∧
      hdr + sizeofEntry * s.stCycMgr.entries ≤ bytes.length ∧ bytes.length ≤ 8589934592 := by
  have hr := (cached_keeps hdr _).outcomes _ [] hI.reaches
  have hr₁ := (cached_keeps hdr _).flush _ hr
  have hr₂ := (cached_keeps hdr _).flush _ hr₁
  have ho : (cached.flushIdxWriteCache (cached.withOutcomes s.store [])).file.outcomes = [] :=
    flush_outcomes rfl
  refine ⟨_, ?_, PvrIdxCache.flush_on_file hr₁ (PvrIdxCache.flush_succeeds ho), hr₂.short⟩
  unfold destroyRec recordCycInfo
  simp only [if_true, or_true]
  rfl

/-! ## Opening it again -/

variable {hdr : Nat} {s : Index CacheHandle} {bytes : List UInt8}

/-- The number of entries on the file bounds the counters. -/
theorem entries_le_num (hlen : hdr + sizeofEntry * s.stCycMgr.entries ≤ bytes.length)
    (hshort : bytes.length ≤ 8589934592) :
    s.stCycMgr.entries ≤ u32 (u64sub bytes.length hdr / sizeofEntry) := by
  rw [u64sub_of_le (by omega) (by omega), u32_of_lt (by simp only [sizeofEntry]; omega)]
  rw [Nat.le_div_iff_mul_le (by decide), Nat.mul_comm]
  omega

/-- The last frame on the file: one less only while the ring is not wrapped. -/
theorem toHeader_last (hI : FileOk hdr s) :
    (s.stCycMgr.toHeader s.header).u32LastFrame =
      if s.stCycMgr.u32EndFrame ≤ s.stCycMgr.u32StartFrame then s.stCycMgr.u32LastFrame
      else s.stCycMgr.u32LastFrame - 1 := by
  have hfits := hI.fits
  show (if _ then _ else u32sub _ _) = _
  split
  · rfl
  · rename_i hwrapped
    have hplayed := hI.counters.played (by omega)
    simp only [CycMgr.entries, sizeofEntry] at hfits
    exact u32sub_of_le hplayed (by omega)

/-- The reader cuts nothing off. -/
theorem getHeaderInfo_eq (hI : FileOk hdr s)
    (hlen : hdr + sizeofEntry * s.stCycMgr.entries ≤ bytes.length)
    (hshort : bytes.length ≤ 8589934592) :
    getHeaderInfo { header := some (s.stCycMgr.toHeader s.header), bytes := bytes } =
      some (s.stCycMgr.toHeader s.header) := by
  have hnum := entries_le_num hlen hshort
  rw [CycMgr.entries] at hnum
  have hend : ¬ (s.stCycMgr.toHeader s.header).u32EndFrame >
      u32 (u64sub bytes.length (s.stCycMgr.toHeader s.header).u32HeaderLen / sizeofEntry) := by
    show ¬ s.stCycMgr.u32EndFrame - 1 > u32 (u64sub bytes.length s.header.u32HeaderLen / sizeofEntry)
    rw [hI.headerLen]
    omega
  have hlast : ¬ (s.stCycMgr.toHeader s.header).u32LastFrame >
      u32 (u64sub bytes.length (s.stCycMgr.toHeader s.header).u32HeaderLen / sizeofEntry) := by
    rw [toHeader_last hI]
    show ¬ _ > u32 (u64sub bytes.length s.header.u32HeaderLen / sizeofEntry)
    rw [hI.headerLen]
    split <;> omega
  simp only [getHeaderInfo, Option.map_some, if_neg hend, if_neg hlast]

/-- An entry that the file has can be read. -/
theorem readEntryAt_isSome {d : IdxDisk} {h : IdxHeaderInfo} {num : Nat}
    (hfit : h.u32HeaderLen + sizeofEntry * num < 2147483648)
    (hlen : h.u32HeaderLen + sizeofEntry * (num + 1) ≤ d.bytes.length) :
    ∃ e, readEntryAt d h num = some e := by
  have hoff := s32_of_range (n := ((h.u32HeaderLen + sizeofEntry * num : Nat) : Int))
    (by omega) (by omega)
  have hread : (pread d.bytes (h.u32HeaderLen + sizeofEntry * num) sizeofEntry).length =
      sizeofEntry := by
    rw [pread, List.length_take, List.length_drop]
    rw [Nat.mul_add_one] at hlen
    omega
  unfold readEntryAt
  simp only [hoff, Int.toNat_natCast]
  rw [if_neg (by omega), if_pos hread]
  exact ⟨_, rfl⟩

/-- The attributes of a file whose ring is not wrapped are found. -/
theorem fileIdxType_isSome (hI : FileOk hdr s)
    (hlen : hdr + sizeofEntry * s.stCycMgr.entries ≤ bytes.length)
    (hshort : bytes.length ≤ 8589934592)
    (hopen : s.stCycMgr.u32StartFrame < s.stCycMgr.u32EndFrame) :
    ∃ type, fileIdxType { header := some (s.stCycMgr.toHeader s.header), bytes := bytes } =
      some type := by
  have hfits := hI.fits
  have hlast := toHeader_last hI
  rw [if_neg (by omega)] at hlast
  have hend : (s.stCycMgr.toHeader s.header).u32EndFrame = s.stCycMgr.u32EndFrame - 1 := rfl
  have hstart : (s.stCycMgr.toHeader s.header).u32StartFrame = s.stCycMgr.u32StartFrame := rfl
  have hheader : (s.stCycMgr.toHeader s.header).u32HeaderLen = hdr := hI.headerLen
  rw [CycMgr.entries] at hlen hfits
  unfold fileIdxType
  rw [getHeaderInfo_eq hI hlen hshort]
  generalize s.stCycMgr.toHeader s.header = h at hlast hend hstart hheader
  simp only [sizeofEntry] at hlen hfits
  by_cases hnone : (h.u32StartFrame = 0 ∧ h.u32EndFrame = 0) ∨ h.u32LastFrame = 0
  · exact ⟨.none, by simp only [if_pos hnone]⟩
  · simp only [if_neg hnone]
    -- the three entries lie on the file
    have hread : ∀ num, num < max s.stCycMgr.u32EndFrame s.stCycMgr.u32LastFrame →
        ∃ e, readEntryAt { header := some h, bytes := bytes } h num = some e := fun num hnum =>
      readEntryAt_isSome (by simp only [sizeofEntry]; omega) (by simp only [sizeofEntry]; omega)
    obtain ⟨e₁, h₁⟩ := hread h.u32StartFrame (by omega)
    obtain ⟨e₂, h₂⟩ := hread (u32sub h.u32EndFrame 1)
      (by rw [u32sub_of_le (by omega) (by omega)]; omega)
    obtain ⟨e₃, h₃⟩ := hread (u32sub h.u32LastFrame 1)
      (by rw [u32sub_of_le (by omega) (by omega)]; omega)
    exact ⟨_, by rw [h₁, h₂, h₃]⟩

/-- What `PVR_Index_CreatRec` makes of the header. -/
theorem creatRec_counters {old : Index CacheHandle} {a : RecAttr} {d : IdxDisk}
    {writeBuf readBuf : Bool} {s' : Index CacheHandle} {h : IdxHeaderInfo}
    (hct : a.bEnable_CTrec = true) (hh : getHeaderInfo d = some h)
    (hcreat : creatRec old a (some d) writeBuf readBuf = some s') :
    ∃ type, s' = continueRec (freshIndex old a d writeBuf readBuf) h type := by
  unfold creatRec at hcreat
  simp only [hct, if_true, hh, Option.getD_some] at hcreat
  split at hcreat
  · rename_i type _ _ heq htype
    obtain rfl := Option.some.inj heq
    exact ⟨_, (Option.some.inj hcreat).symm⟩
  · cases hcreat

/-- The handle has the counters that the closed one had. -/
def Restored (s : Index CacheHandle) (r : Option (Index CacheHandle)) : Prop :=
  ∃ s', r = some s' ∧
    s'.stCycMgr.u32StartFrame = s.stCycMgr.u32StartFrame ∧
    s'.stCycMgr.u32EndFrame = s.stCycMgr.u32EndFrame ∧
    s'.stCycMgr.u32LastFrame = s.stCycMgr.u32LastFrame ∧
    s'.u32WriteFrame = s.u32WriteFrame

/-- A handle in order is restored exactly when its ring is not wrapped. -/
theorem restored_iff (hI : FileOk hdr s) (old : Index CacheHandle) {a : RecAttr}
    (hct : a.bEnable_CTrec = true) (writeBuf readBuf : Bool) (now : Nat) :
    Restored s (creatRec old a (some (destroyRec s [] true now)) writeBuf readBuf) ↔
      s.stCycMgr.u32StartFrame < s.stCycMgr.u32EndFrame := by
  obtain ⟨bytes, hdisk, hlen, hshort⟩ := destroyRec_eq hI now
  have hh := getHeaderInfo_eq hI hlen hshort
  have htype := fileIdxType_isSome hI hlen hshort
  have hlast := toHeader_last hI
  rw [← hdisk] at hh htype
  generalize destroyRec s [] true now = d at hh htype
  constructor
  · rintro ⟨s', hcreat, -, -, hL, -⟩
    obtain ⟨type, rfl⟩ := creatRec_counters hct hh hcreat
    -- the header of a ring that has wrapped holds the last frame itself, and going on adds one
    by_contra hwrapped
    rw [if_pos (by omega)] at hlast
    have hL' : (s.stCycMgr.toHeader s.header).u32LastFrame + 1 = s.stCycMgr.u32LastFrame := hL
    omega
  · intro hopen
    rw [if_neg (by omega)] at hlast
    -- a ring that has not is continued behind its last frame
    have hplayed := hI.counters.played hopen
    obtain ⟨type, htype⟩ := htype hopen
    refine ⟨continueRec (freshIndex old a d writeBuf readBuf) (s.stCycMgr.toHeader s.header) type,
      ?_, rfl, ?_, ?_, ?_⟩
    · simp only [creatRec, hct, if_true, hh, htype, Option.getD_some]
    · show s.stCycMgr.u32EndFrame - 1 + 1 = _
      omega
    · show (s.stCycMgr.toHeader s.header).u32LastFrame + 1 = _
      omega
    · show s.stCycMgr.u32EndFrame - 1 + 1 = _
      rw [hI.counters.write]
      omega

/-! ## Recordings -/

/-- The handles of recordings that were started on a new file, or continued while
    the ring on the file was not wrapped, and whose calls all succeeded. -/
inductive Recorded : Index CacheHandle → Prop
  /-- a new file -/
  | created (old : Index CacheHandle) (a : RecAttr) (writeBuf readBuf : Bool) (usrLen : Nat) :
    usrLen ≤ maxUserdataLen →
    Recorded (prepareHeaderInfo (resetRecAttr (freshIndex old a {} writeBuf readBuf)) usrLen)
  /-- a call of `PVR_Index_SaveFramePosition` -/
  | saved {s : Index CacheHandle} (i : SaveCall) :
    Recorded s → Succeeds s i → Recorded ((machine cached).step s i).1
  /-- the file is closed and continued -/
  | continued {s s' : Index CacheHandle} (old : Index CacheHandle) (a : RecAttr)
      (writeBuf readBuf : Bool) (now : Nat) :
    Recorded s → s.stCycMgr.u32StartFrame < s.stCycMgr.u32EndFrame → a.bEnable_CTrec = true →
    creatRec old a (some (destroyRec s [] true now)) writeBuf readBuf = some s' → Recorded s'

theorem created_fileOk (old : Index CacheHandle) (a : RecAttr) (writeBuf readBuf : Bool)
    {usrLen : Nat} (husr : usrLen ≤ maxUserdataLen) :
    FileOk (headInfoSize usrLen)
      (prepareHeaderInfo (resetRecAttr (freshIndex old a {} writeBuf readBuf)) usrLen) := by
  have hsize : headInfoSize usrLen ≤ 1100000 ∧ 0 < headInfoSize usrLen := by
    simp only [headInfoSize, sizeofIdxHeaderInfo, maxCadataLen, sizeofEntry]
    simp only [maxUserdataLen] at husr
    omega
  have hne : List.replicate (headInfoSize usrLen) (0 : UInt8) ≠ [] := by
    apply List.ne_nil_of_length_pos
    rw [List.length_replicate]
    exact hsize.2
  -- the file begins with zeros in place of the header
  have hbytes : (prepareHeaderInfo (resetRecAttr (freshIndex old a {} writeBuf readBuf))
      usrLen).store.file.bytes.length = headInfoSize usrLen := by
    show (pwrite 0 [] 0 (List.replicate (headInfoSize usrLen) 0)).length = _
    rw [length_pwrite _ _ _ hne, List.length_replicate]
    exact (Nat.max_eq_right (Nat.zero_le _)).trans (Nat.zero_add _)
  exact
    { counters := ⟨rfl, Nat.zero_le _, fun _ => rfl, fun hlt => absurd hlt (Nat.lt_irrefl 0)⟩
      headerLen := rfl
      reaches :=
        { startLen := rfl
          fits := by show headInfoSize usrLen + 0 + 0 ≤ _; omega
          short := by rw [hbytes]; omega
          buffered := fun hused => absurd rfl hused
          covers := .inl (by rw [hbytes]; exact Nat.le_refl _) }
      fits := by show headInfoSize usrLen + sizeofEntry * 0 ≤ _; omega }

/-- A recording that is continued goes on in order. -/
theorem continueRec_fileOk (hI : FileOk hdr s) {d : IdxDisk}
    (hheader : d.header = some (s.stCycMgr.toHeader s.header))
    (hlen : hdr + sizeofEntry * s.stCycMgr.entries ≤ d.bytes.length)
    (hshort : d.bytes.length ≤ 8589934592)
    (hopen : s.stCycMgr.u32StartFrame < s.stCycMgr.u32EndFrame) (old : Index CacheHandle)
    (a : RecAttr) (writeBuf readBuf : Bool) (type : IndexType) :
    FileOk hdr (continueRec (freshIndex old a d writeBuf readBuf)
      (s.stCycMgr.toHeader s.header) type) := by
  have hlast := toHeader_last hI
  rw [if_neg (by omega)] at hlast
  have hplayed := hI.counters.played hopen
  have hfits := hI.fits
  generalize hs' : continueRec (freshIndex old a d writeBuf readBuf)
    (s.stCycMgr.toHeader s.header) type = s'
  have hS : s'.stCycMgr.u32StartFrame = s.stCycMgr.u32StartFrame := by rw [← hs']; rfl
  have hE : s'.stCycMgr.u32EndFrame = s.stCycMgr.u32EndFrame := by
    rw [← hs']
    show s.stCycMgr.u32EndFrame - 1 + 1 = _
    omega
  have hL : s'.stCycMgr.u32LastFrame = s.stCycMgr.u32LastFrame := by
    rw [← hs']
    show (s.stCycMgr.toHeader s.header).u32LastFrame + 1 = _
    omega
  have hW : s'.u32WriteFrame = s'.stCycMgr.u32EndFrame := by rw [← hs']; rfl
  have hR : s'.stCycMgr.bIsRewind = s.stCycMgr.bIsRewind := by rw [← hs']; rfl
  have hentries : s'.stCycMgr.entries = s.stCycMgr.entries := by
    rw [CycMgr.entries, hE, hL, CycMgr.entries]
  have hc := hI.counters
  refine ⟨⟨hW, by rw [hE, hL]; exact hc.behind, fun hloop => ?_, fun hlt => ?_⟩, ?_, ?_, ?_⟩
  · rw [hE, hL]
    exact hc.straight (hR.symm.trans hloop)
  · rw [hL]
    exact hplayed
  · rw [← hs']
    show (d.header.getD {}).u32HeaderLen = hdr
    rw [hheader]
    exact hI.headerLen
  · -- nothing is pending, and the last entry has been read
    rw [hentries, ← hs']
    refine (cached_keeps hdr _).read _ {} (s.stCycMgr.u32EndFrame - 1) ?_
    exact
      { startLen := hI.headerLen
        fits := by show hdr + 0 + 0 ≤ _; omega
        short := hshort
        buffered := fun hused => absurd rfl hused
        covers := .inl hlen }
  · rw [hentries]
    exact hfits

/-- Every such handle is in order. -/
theorem Recorded.fileOk {s : Index CacheHandle} (hs : Recorded s) : ∃ hdr, FileOk hdr s := by
  induction hs with
  | created old a writeBuf readBuf usrLen husr =>
    exact ⟨_, created_fileOk old a writeBuf readBuf husr⟩
  | saved i _ hsucc ih =>
    obtain ⟨hdr, hI⟩ := ih
    exact ⟨hdr, step_fileOk _ i hI hsucc⟩
  | @continued s s' old a writeBuf readBuf now _ hopen hct hcreat ih =>
    obtain ⟨hdr, hI⟩ := ih
    obtain ⟨bytes, hdisk, hlen, hshort⟩ := destroyRec_eq hI now
    have hh := getHeaderInfo_eq hI hlen hshort
    rw [← hdisk] at hh
    obtain ⟨type, rfl⟩ := creatRec_counters hct hh hcreat
    exact ⟨hdr, continueRec_fileOk hI (by rw [hdisk]) (by rw [hdisk]; exact hlen)
      (by rw [hdisk]; exact hshort) hopen old a writeBuf readBuf type⟩

/-- Closing a recording and continuing it restores the counters exactly while the
    ring is not wrapped. -/
theorem reopen_restores_iff {s : Index CacheHandle} (hs : Recorded s) (old : Index CacheHandle)
    {a : RecAttr} (hct : a.bEnable_CTrec = true) (writeBuf readBuf : Bool) (now : Nat) :
    Restored s (creatRec old a (some (destroyRec s [] true now)) writeBuf readBuf) ↔
      s.stCycMgr.u32StartFrame < s.stCycMgr.u32EndFrame := by
  obtain ⟨hdr, hI⟩ := hs.fileOk
  exact restored_iff hI old hct writeBuf readBuf now

/-- A handle that has not been used. -/
def unusedIndex : Index CacheHandle where
  store := PvrIdxCache.opened [] 0 true true

/-- A recording on a new file. -/
def newRecording : Index CacheHandle :=
  prepareHeaderInfo (resetRecAttr (freshIndex unusedIndex {} {} true true)) 0

theorem recorded_newRecording : Recorded newRecording :=
  .created unusedIndex {} true true 0 (Nat.zero_le _)

/-- An I frame and a P frame. -/
def iFrame : SaveCall where
  frame := { enFrameType := .i, u64GlobalOffset := 0 }

def pFrame : SaveCall where
  frame := { enFrameType := .p, u64GlobalOffset := 1000 }

/-- The recording after two frames. -/
def twoFrames : Index CacheHandle := (machine cached).final newRecording [iFrame, pFrame]

theorem recorded_twoFrames : Recorded twoFrames := by
  have hI : Succeeds newRecording iFrame := by decide +kernel
  have hP : Succeeds ((machine cached).step newRecording iFrame).1 pFrame := by decide +kernel
  exact .saved pFrame (.saved iFrame recorded_newRecording hI) hP

/-- Two frames, then the recording is closed and continued. -/
theorem reopen_restores_two :
    Restored twoFrames (creatRec unusedIndex { bEnable_CTrec := true }
      (some (destroyRec twoFrames [] true 0)) true true) :=
  (reopen_restores_iff recorded_twoFrames unusedIndex rfl true true 0).mpr (by decide +kernel)

/-- A recording without a frame: the position 0 becomes playable. -/
theorem reopen_broken :
    Recorded newRecording ∧
      ¬ Restored newRecording (creatRec unusedIndex { bEnable_CTrec := true }
        (some (destroyRec newRecording [] true 0)) true true) := by
  refine ⟨recorded_newRecording, fun hrestored => ?_⟩
  have hI : FileOk _ newRecording := created_fileOk unusedIndex {} true true (Nat.zero_le _)
  have hlt := (restored_iff hI unusedIndex rfl true true 0).mp hrestored
  exact absurd hlt (by decide +kernel)

end Tntsat.PvrIndex
