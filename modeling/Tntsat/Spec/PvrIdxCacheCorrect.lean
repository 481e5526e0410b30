import Tntsat.Native.PvrIdxCache

/-!
# The index caches and the file

`view` is what a reader who knew about the pending bytes would find: the write
cache laid over the file.  `PVRCacheWriteIdx` and the flush change the view only
where they write; the read window repeats the view as long as every write that
reaches into it is noticed.  `Pvr_Write_Index_Func` is not noticed: it leaves
the window as it was, and bytes that were pending before it overwrite its own at
the next flush.

## Key results

- `cacheWriteIdx_wrote`: what `PVRCacheWriteIdx` changes
- `reads_back`: reads return what was last written, in every run that keeps
  `Pvr_Write_Index_Func` away from both caches
- `reads_stale`: a read of an entry that `Pvr_Write_Index_Func` has changed
-/

namespace Tntsat.PvrIdxCache

/-! ## The entries without the caches -/

/-- The byte of the file at an offset. -/
def onDisk (h : CacheHandle) (a : Nat) : Option UInt8 := h.file.bytes[a + h.u32IdxStartOffsetLen]?

/-- The write cache holds a byte for the offset. -/
def Pending (h : CacheHandle) (a : Nat) : Prop :=
  h.stIdxWriteCache.u32StartOffset ≤ a ∧
    a < h.stIdxWriteCache.u32StartOffset + h.stIdxWriteCache.data.length

instance (h : CacheHandle) (a : Nat) : Decidable (Pending h a) :=
  inferInstanceAs (Decidable (_ ∧ _))

/-- The byte at an offset, pending or on the file. -/
def view (h : CacheHandle) (a : Nat) : Option UInt8 :=
  if Pending h a then h.stIdxWriteCache.data[a - h.stIdxWriteCache.u32StartOffset]?
  else onDisk h a

theorem view_pending {h : CacheHandle} {a : Nat} (hp : Pending h a) :
    view h a = h.stIdxWriteCache.data[a - h.stIdxWriteCache.u32StartOffset]? := if_pos hp

theorem view_notPending {h : CacheHandle} {a : Nat} (hp : ¬ Pending h a) :
    view h a = onDisk h a := if_neg hp

/-- A write of `buf` that succeeds. -/
def store (h : CacheHandle) (buf : List UInt8) (offset : Nat) : CacheHandle :=
  { h with file :=
    { h.file with bytes := pwrite 0 h.file.bytes (offset + h.u32IdxStartOffsetLen) buf } }

theorem pvrWriteIndex_eq {h : CacheHandle} (ho : h.file.outcomes = []) (buf : List UInt8)
    {offset : Nat} (hfit : offset + h.u32IdxStartOffsetLen < 4294967296) :
    pvrWriteIndex h buf offset = (store h buf offset, none) := by
  simp [pvrWriteIndex, pvrWrite, ho, store, u32_of_lt hfit]

@[simp] theorem store_outcomes (h : CacheHandle) (buf : List UInt8) (offset : Nat) :
    (store h buf offset).file.outcomes = h.file.outcomes := rfl

@[simp] theorem store_startOffsetLen (h : CacheHandle) (buf : List UInt8) (offset : Nat) :
    (store h buf offset).u32IdxStartOffsetLen = h.u32IdxStartOffsetLen := rfl

@[simp] theorem store_writeCache (h : CacheHandle) (buf : List UInt8) (offset : Nat) :
    (store h buf offset).stIdxWriteCache = h.stIdxWriteCache := rfl

theorem onDisk_store_inside (h : CacheHandle) {buf : List UInt8} {offset a : Nat}
    (h0 : offset ≤ a) (h1 : a < offset + buf.length) :
    onDisk (store h buf offset) a = buf[a - offset]? := by
  have hin := getElem?_pwrite_inside 0 h.file.bytes
    (show offset + h.u32IdxStartOffsetLen ≤ a + h.u32IdxStartOffsetLen by omega)
    (d := buf) (show a + h.u32IdxStartOffsetLen < _ by omega)
  rwa [show a + h.u32IdxStartOffsetLen - (offset + h.u32IdxStartOffsetLen) = a - offset by omega]
    at hin

theorem onDisk_store_outside (h : CacheHandle) {buf : List UInt8} {offset a : Nat} {b : UInt8}
    (hout : a < offset ∨ offset + buf.length ≤ a) (hb : onDisk h a = some b) :
    onDisk (store h buf offset) a = some b :=
  getElem?_pwrite_outside (i := a + h.u32IdxStartOffsetLen) 0 h.file.bytes (by omega) hb

/-- Nothing is pending. -/
theorem view_of_unused {h : CacheHandle} (hused : h.stIdxWriteCache.u32UsedSize = 0) (a : Nat) :
    view h a = onDisk h a := by
  apply view_notPending
  rw [IdxBuf.u32UsedSize] at hused
  rw [Pending]
  omega

/-- Writing the pending bytes to the file loses nothing. -/
theorem onDisk_writePending {h : CacheHandle} {a : Nat} {b : UInt8} (hb : view h a = some b) :
    onDisk (store h h.stIdxWriteCache.data h.stIdxWriteCache.u32StartOffset) a = some b := by
  by_cases hp : Pending h a
  · rw [view_pending hp] at hb
    rw [onDisk_store_inside h hp.1 hp.2, hb]
  · rw [view_notPending hp] at hb
    rw [Pending] at hp
    exact onDisk_store_outside h (by omega) hb

/-! ## The invariant -/

/-- The first entry that lies in the read window as a whole. -/
def firstEntry (c : IdxBuf) : Nat := (c.u32StartOffset + (sizeofEntry - 1)) / sizeofEntry * sizeofEntry

/-- The read window holds the byte as part of an entry that begins in it. -/
def Held (c : IdxBuf) (a : Nat) : Prop := firstEntry c ≤ a ∧ a < c.u32StartOffset + c.u32UsedSize

/-- The write cache stays within its buffer and below 4 GiB. -/
structure Sound (h : CacheHandle) : Prop where
  outcomes : h.file.outcomes = []
  used_le : h.stIdxWriteCache.u32UsedSize ≤ h.stIdxWriteCache.u32BufferLen
  fits : h.stIdxWriteCache.u32StartOffset + h.stIdxWriteCache.u32UsedSize +
    h.u32IdxStartOffsetLen < 4294967296

/-- A read window of which every held byte is the one last written. -/
structure Window (c : IdxBuf) (v : LastWritten) : Prop where
  len : c.u32BufferLen ≤ 2147483648
  used_le : c.u32UsedSize ≤ c.u32BufferLen
  fits : c.u32StartOffset + c.u32UsedSize < 4294967296
  held : ∀ a b, Held c a → v a = some b → c.data[a - c.u32StartOffset]? = some b

/-- The view and the read window have every byte that was written. -/
structure Coherent (h : CacheHandle) (v : LastWritten) : Prop where
  sound : Sound h
  written : ∀ a b, v a = some b → view h a = some b
  window : Window h.stIdxReadCache v

/-- `h'` is `h` after a write of `data` at `offset`, the read window apart. -/
structure Wrote (h h' : CacheHandle) (data : List UInt8) (offset : Nat) : Prop where
  sound : Sound h'
  startOffsetLen : h'.u32IdxStartOffsetLen = h.u32IdxStartOffsetLen
  writeLen : h'.stIdxWriteCache.u32BufferLen = h.stIdxWriteCache.u32BufferLen
  readCache : h'.stIdxReadCache = h.stIdxReadCache
  inside : ∀ a, offset ≤ a → a < offset + data.length → view h' a = data[a - offset]?
  outside : ∀ a b, (a < offset ∨ offset + data.length ≤ a) → view h a = some b → view h' a = some b

variable {h : CacheHandle}

/-! ## Writing -/

theorem clearPending_sound (hS : Sound h) : Sound (clearPending h) where
  outcomes := hS.outcomes
  used_le := Nat.zero_le _
  fits := by
    have := hS.fits
    simp only [clearPending, IdxBuf.clear, IdxBuf.u32UsedSize, List.length_nil]
    omega

theorem store_sound (hS : Sound h) (buf : List UInt8) (offset : Nat) :
    Sound (store h buf offset) :=
  ⟨hS.outcomes, hS.used_le, hS.fits⟩

theorem view_clearPending (h : CacheHandle) (a : Nat) : view (clearPending h) a = onDisk h a :=
  view_of_unused (by rfl) a

/-- `PVR_Index_FlushIdxWriteCache` writes nothing new. -/
theorem flush_wrote (hS : Sound h) : Wrote h (flushIdxWriteCache h).1 [] 0 := by
  have hsame : Wrote h h [] 0 :=
    ⟨hS, rfl, rfl, rfl, fun a _ h1 => absurd h1 (by simp), fun _ _ _ hb => hb⟩
  unfold flushIdxWriteCache
  split
  · exact hsame
  · split
    · have hfit := hS.fits
      rw [writePending, pvrWriteIndex_eq hS.outcomes _ (by omega)]
      exact
        { sound := clearPending_sound (store_sound hS _ _)
          startOffsetLen := rfl
          writeLen := rfl
          readCache := rfl
          inside := fun a _ h1 => absurd h1 (by simp)
          outside := fun a b _ hb => by
            rw [view_clearPending]; exact onDisk_writePending hb }
    · exact hsame

/-- After a flush nothing is pending. -/
theorem flush_unused (hS : Sound h) : (flushIdxWriteCache h).1.stIdxWriteCache.u32UsedSize = 0 := by
  have hfit := hS.fits
  have hle := hS.used_le
  unfold flushIdxWriteCache
  split
  · rename_i hlen
    rw [hlen] at hle
    exact Nat.le_zero.mp hle
  · split
    · rw [writePending, pvrWriteIndex_eq hS.outcomes _ (by omega)]
      rfl
    · rename_i hused
      exact not_not.mp hused

/-- A write to the file of a range that nothing is pending for. -/
theorem store_wrote (hS : Sound h) {data : List UInt8} {offset : Nat}
    (hpend : data.length = 0 ∨ h.stIdxWriteCache.u32UsedSize = 0 ∨
      offset + data.length ≤ h.stIdxWriteCache.u32StartOffset ∨
      h.stIdxWriteCache.u32StartOffset + h.stIdxWriteCache.u32UsedSize ≤ offset) :
    Wrote h (store h data offset) data offset where
  sound := store_sound hS data offset
  startOffsetLen := rfl
  writeLen := rfl
  readCache := rfl
  inside a h0 h1 := by
    have hp : ¬ Pending (store h data offset) a := by
      rw [IdxBuf.u32UsedSize] at hpend
      rw [Pending, store_writeCache]
      omega
    rw [view_notPending hp, onDisk_store_inside h h0 h1]
  outside a b hout hb := by
    by_cases hp : Pending h a
    · rw [view_pending hp] at hb
      rw [view_pending (h := store h data offset) hp]
      exact hb
    · rw [view_notPending hp] at hb
      rw [view_notPending (h := store h data offset) hp]
      exact onDisk_store_outside h hout hb

/-- What `contiguous` tells, without the wrap of 32 bits. -/
theorem of_contiguous (hS : Sound h) {len offset : Nat}
    (hc : contiguous h.stIdxWriteCache len offset = true) :
    offset = h.stIdxWriteCache.u32StartOffset + h.stIdxWriteCache.u32UsedSize ∧
      h.stIdxWriteCache.u32UsedSize + len ≤ h.stIdxWriteCache.u32BufferLen := by
  have hfit := hS.fits
  have hle := hS.used_le
  simp only [contiguous, Bool.and_eq_true, beq_iff_eq, decide_eq_true_eq] at hc
  rw [u32_of_lt (by omega)] at hc
  omega

/-- The direct branch of `PVRCacheWriteIdx`. -/
theorem cacheWriteDirect_wrote (hS : Sound h) {data : List UInt8} {offset : Nat}
    (hfit : offset + data.length + h.u32IdxStartOffsetLen < 4294967296) :
    (cacheWriteDirect h data offset).2 = none ∧
      Wrote h (cacheWriteDirect h data offset).1 data offset := by
  have hfits := hS.fits
  have hle := hS.used_le
  unfold cacheWriteDirect
  simp only
  split
  · split
    · -- one write of the pending bytes and the new ones
      rename_i hc
      obtain ⟨hoff, hlen⟩ := of_contiguous hS hc
      rw [pvrWriteIndex_eq hS.outcomes _ (by omega)]
      refine ⟨rfl, clearPending_sound (store_sound hS _ _), rfl, rfl, rfl, ?_, ?_⟩
      · intro a h0 h1
        rw [view_clearPending, onDisk_store_inside h (by omega)
          (by rw [List.length_append]; simp only [IdxBuf.u32UsedSize] at hoff; omega),
          List.getElem?_append_right (by simp only [IdxBuf.u32UsedSize] at hoff; omega)]
        congr 1
        simp only [IdxBuf.u32UsedSize] at hoff
        omega
      · intro a b hout hb
        rw [view_clearPending]
        rw [IdxBuf.u32UsedSize] at hoff
        by_cases hp : Pending h a
        · rw [view_pending hp] at hb
          rw [Pending] at hp
          rw [onDisk_store_inside h hp.1 (by rw [List.length_append]; omega),
            List.getElem?_append_left (by omega), hb]
        · rw [view_notPending hp] at hb
          rw [Pending] at hp
          exact onDisk_store_outside h (by rw [List.length_append]; omega) hb
    · -- two writes
      rw [writePending, pvrWriteIndex_eq hS.outcomes _ (by omega)]
      simp only
      rw [pvrWriteIndex_eq (by exact hS.outcomes) _ (by simp only [store_startOffsetLen]; omega)]
      refine ⟨rfl, clearPending_sound (store_sound (store_sound hS _ _) _ _), rfl, rfl, rfl, ?_, ?_⟩
      · intro a h0 h1
        rw [view_clearPending, onDisk_store_inside _ h0 h1]
      · intro a b hout hb
        rw [view_clearPending]
        exact onDisk_store_outside _ hout (onDisk_writePending hb)
  · rename_i hempty
    rw [pvrWriteIndex_eq hS.outcomes _ (by omega)]
    exact ⟨rfl, store_wrote hS (.inr (.inl (by omega)))⟩

/-- Appending what follows the pending bytes, or what comes first. -/
theorem appendPending_wrote (hS : Sound h) {data : List UInt8} {offset : Nat}
    (hfit : offset + data.length + h.u32IdxStartOffsetLen < 4294967296)
    (hlen : h.stIdxWriteCache.u32UsedSize + data.length ≤ h.stIdxWriteCache.u32BufferLen)
    (hnext : h.stIdxWriteCache.u32UsedSize = 0 ∨
      offset = h.stIdxWriteCache.u32StartOffset + h.stIdxWriteCache.u32UsedSize) :
    Wrote h (appendPending h data offset) data offset := by
  have hfits := hS.fits
  -- where the pending bytes begin from now on
  obtain ⟨s, hs⟩ : ∃ s, s = if h.stIdxWriteCache.u32UsedSize = 0 then offset else
    h.stIdxWriteCache.u32StartOffset := ⟨_, rfl⟩
  have hstart : s + h.stIdxWriteCache.data.length = offset := by
    rw [hs]
    split <;> simp only [IdxBuf.u32UsedSize] at * <;> omega
  have hcache : (appendPending h data offset).stIdxWriteCache =
      { h.stIdxWriteCache with data := h.stIdxWriteCache.data ++ data, u32StartOffset := s } := by
    rw [hs]; rfl
  rw [IdxBuf.u32UsedSize] at hlen
  refine { sound := ⟨hS.outcomes, ?_, ?_⟩, startOffsetLen := rfl, writeLen := rfl,
           readCache := rfl, inside := fun a h0 h1 => ?_, outside := fun a b hout hb => ?_ }
  · rw [hcache, IdxBuf.u32UsedSize, List.length_append]
    exact hlen
  · rw [hcache, IdxBuf.u32UsedSize, List.length_append]
    simp only [appendPending]
    omega
  · have hp : Pending (appendPending h data offset) a := by
      rw [Pending, hcache, List.length_append]
      simp only
      omega
    rw [view_pending hp, hcache, List.getElem?_append_right (by simp only; omega)]
    congr 1
    simp only
    omega
  · by_cases hp : Pending h a
    · -- `a` was pending, so the pending bytes still begin where they did
      have hsame : s = h.stIdxWriteCache.u32StartOffset := by
        rw [hs, if_neg]
        rw [Pending] at hp
        rw [IdxBuf.u32UsedSize]
        omega
      rw [view_pending hp] at hb
      rw [Pending] at hp
      have hp' : Pending (appendPending h data offset) a := by
        rw [Pending, hcache, List.length_append, hsame]
        simp only
        omega
      rw [view_pending hp', hcache, hsame, List.getElem?_append_left (by simp only; omega), hb]
    · have hp' : ¬ Pending (appendPending h data offset) a := by
        rw [Pending] at hp ⊢
        rw [hcache, List.length_append]
        simp only
        split at hs
        · rename_i hused
          rw [IdxBuf.u32UsedSize] at hused
          omega
        · omega
      rw [view_notPending hp] at hb
      rw [view_notPending hp']
      exact hb

/-- The caching branch of `PVRCacheWriteIdx`. -/
theorem cacheWriteCached_wrote (hS : Sound h) {data : List UInt8} {offset : Nat}
    (hfit : offset + data.length + h.u32IdxStartOffsetLen < 4294967296)
    (hlen : data.length ≤ h.stIdxWriteCache.u32BufferLen) :
    (cacheWriteCached h data offset).2.1 = none ∧
      Wrote h (cacheWriteCached h data offset).1 data offset := by
  have hfits := hS.fits
  unfold cacheWriteCached
  split
  · rename_i hc
    obtain ⟨hoff, hroom⟩ := of_contiguous hS hc
    exact ⟨rfl, appendPending_wrote hS hfit hroom (.inr hoff)⟩
  · rw [writePending, pvrWriteIndex_eq hS.outcomes _ (by omega)]
    have hS' := clearPending_sound (store_sound hS h.stIdxWriteCache.data
      h.stIdxWriteCache.u32StartOffset)
    have hroom : (clearPending (store h h.stIdxWriteCache.data
        h.stIdxWriteCache.u32StartOffset)).stIdxWriteCache.u32UsedSize + data.length ≤
        h.stIdxWriteCache.u32BufferLen := by
      simpa [clearPending, IdxBuf.clear, IdxBuf.u32UsedSize] using hlen
    have hw := appendPending_wrote hS' hfit hroom (.inl rfl)
    exact ⟨rfl, hw.sound, rfl, rfl, rfl, hw.inside, fun a b hout hb =>
      hw.outside a b hout (by rw [view_clearPending]; exact onDisk_writePending hb)⟩

/-- A window without bytes. -/
theorem window_nil {c : IdxBuf} {v : LastWritten} (hlen : c.u32BufferLen ≤ 2147483648)
    (hstart : c.u32StartOffset < 4294967296) (hdata : c.data = []) : Window c v where
  len := hlen
  used_le := by rw [IdxBuf.u32UsedSize, hdata]; exact Nat.zero_le _
  fits := by rw [IdxBuf.u32UsedSize, hdata]; exact hstart
  held a b hheld := by
    have h1 := hheld.1
    have h2 := hheld.2
    rw [IdxBuf.u32UsedSize, hdata, List.length_nil] at h2
    rw [firstEntry, sizeofEntry] at h1
    omega

/-- A window that was not written to. -/
theorem Window.put {c : IdxBuf} {v : LastWritten} (hW : Window c v) {data : List UInt8}
    {offset : Nat} (hout : ∀ a, offset ≤ a → a < offset + data.length → ¬ Held c a) :
    Window c (v.put data offset) where
  len := hW.len
  used_le := hW.used_le
  fits := hW.fits
  held a b hheld hb := by
    rw [LastWritten.put, if_neg (fun hin => hout a hin.1 hin.2 hheld)] at hb
    exact hW.held a b hheld hb

/-- The write shows in the view. -/
theorem Wrote.written {h' : CacheHandle} {v : LastWritten} {data : List UInt8} {offset : Nat}
    (hw : Wrote h h' data offset) (hv : ∀ a b, v a = some b → view h a = some b) (a : Nat)
    (b : UInt8) (hb : v.put data offset a = some b) : view h' a = some b := by
  rw [LastWritten.put] at hb
  split at hb
  · rename_i hin
    rw [hw.inside a hin.1 hin.2, hb]
  · rename_i hin
    exact hw.outside a b (by omega) (hv a b hb)

theorem ifOffsetReadCache_ne_zero (h : CacheHandle) (offset size : Nat) :
    ifOffsetReadCache h offset size ≠ 0 ↔
      h.stIdxReadCache.u32BufferLen ≠ 0 ∧ h.stIdxReadCache.u32UsedSize ≠ 0 ∧
        h.stIdxReadCache.u32StartOffset ≤ offset ∧
        offset - h.stIdxReadCache.u32StartOffset ≤ h.stIdxReadCache.u32UsedSize := by
  unfold ifOffsetReadCache
  simp only
  split
  · split
    · split <;> simp_all
    · simp_all
  · rename_i h'
    simp only [ne_eq, not_true_eq_false, false_iff]
    intro hall
    exact h' ⟨hall.1, hall.2.1⟩

/-- `PVRCacheWriteIdx` keeps the window right when a write that reaches into it
    also begins in it. -/
theorem invalidateRead_window {v : LastWritten} (hW : Window h.stIdxReadCache v)
    {data : List UInt8} {offset : Nat}
    (hbegin : ∀ a, offset ≤ a → a < offset + data.length → Held h.stIdxReadCache a →
      h.stIdxReadCache.u32StartOffset ≤ offset) :
    Window (invalidateRead h offset data.length).stIdxReadCache (v.put data offset) := by
  have hfits := hW.fits
  unfold invalidateRead
  split
  · exact window_nil hW.len (by simp only; omega) rfl
  · rename_i hno
    rw [ifOffsetReadCache_ne_zero] at hno
    apply hW.put
    intro a h0 h1 hheld
    have hin := hbegin a h0 h1 hheld
    have hused := hW.used_le
    have hlt := hheld.2
    have hge := hheld.1
    rw [firstEntry, sizeofEntry] at hge
    exact hno ⟨by omega, by omega, hin, by omega⟩

theorem invalidateRead_view (h : CacheHandle) (offset len a : Nat) :
    view (invalidateRead h offset len) a = view h a := by
  unfold invalidateRead
  split <;> rfl

theorem invalidateRead_sound (hS : Sound h) (offset len : Nat) :
    Sound (invalidateRead h offset len) := by
  unfold invalidateRead
  split
  · exact ⟨hS.outcomes, hS.used_le, hS.fits⟩
  · exact hS

/-- What `PVRCacheWriteIdx` changes. -/
theorem cacheWriteIdx_coherent {v : LastWritten} (hC : Coherent h v) {data : List UInt8}
    {offset : Nat} {direct : Bool}
    (hfit : offset + data.length + h.u32IdxStartOffsetLen < 4294967296)
    (hlen : direct = true ∨ h.stIdxWriteCache.u32BufferLen = 0 ∨
      data.length ≤ h.stIdxWriteCache.u32BufferLen)
    (hbegin : ∀ a, offset ≤ a → a < offset + data.length → Held h.stIdxReadCache a →
      h.stIdxReadCache.u32StartOffset ≤ offset) :
    (cacheWriteIdx h data offset direct).2.1 = none ∧
      Coherent (cacheWriteIdx h data offset direct).1 (v.put data offset) := by
  -- both branches end with `invalidateRead` of a handle that has the write
  have hend : ∀ h', Wrote h h' data offset →
      Coherent (invalidateRead h' offset data.length) (v.put data offset) := by
    intro h' hw
    have hread := hw.readCache
    exact
      { sound := invalidateRead_sound hw.sound offset data.length
        written := fun a b hb => by
          rw [invalidateRead_view]; exact hw.written hC.written a b hb
        window := invalidateRead_window (hread ▸ hC.window) (hread ▸ hbegin) }
  unfold cacheWriteIdx
  split
  · obtain ⟨hok, hw⟩ := cacheWriteDirect_wrote hC.sound hfit
    cases hd : cacheWriteDirect h data offset with
    | mk h' ret =>
      rw [hd] at hok hw
      simp only at hok hw
      subst hok
      exact ⟨rfl, hend h' hw⟩
  · rename_i hbuf
    obtain ⟨hok, hw⟩ := cacheWriteCached_wrote hC.sound hfit (by
      simp only [not_or] at hbuf
      rcases hlen with hlen | hlen | hlen
      · exact absurd hlen hbuf.1
      · exact absurd hlen hbuf.2
      · exact hlen)
    cases hd : cacheWriteCached h data offset with
    | mk h' ret =>
      obtain ⟨ret, flag⟩ := ret
      rw [hd] at hok hw
      simp only at hok hw
      subst hok
      exact ⟨rfl, hend h' hw⟩

/-- `Pvr_Write_Index_Func` on bytes that neither cache holds. -/
theorem pvrWriteIndexFunc_coherent {v : LastWritten} (hC : Coherent h v) {data : List UInt8}
    {offset : Nat} (hfit : offset + data.length + h.u32IdxStartOffsetLen < 4294967296)
    (hfree : ∀ a, offset ≤ a → a < offset + data.length →
      ¬ Pending h a ∧ ¬ Held h.stIdxReadCache a) :
    Coherent (pvrWriteIndexFunc h data offset).1 (v.put data offset) := by
  have hS := hC.sound
  rw [pvrWriteIndexFunc, pvrWriteIndex_eq hS.outcomes _ (by omega)]
  have hpend : data.length = 0 ∨ h.stIdxWriteCache.u32UsedSize = 0 ∨
      offset + data.length ≤ h.stIdxWriteCache.u32StartOffset ∨
      h.stIdxWriteCache.u32StartOffset + h.stIdxWriteCache.u32UsedSize ≤ offset := by
    -- the larger of the two starts would be written and pending
    have hmax := hfree (max offset h.stIdxWriteCache.u32StartOffset)
    simp only [Pending, IdxBuf.u32UsedSize] at hmax ⊢
    omega
  have hw := store_wrote hS hpend
  exact
    { sound := hw.sound
      written := hw.written hC.written
      window := hC.window.put (fun a h0 h1 => (hfree a h0 h1).2) }

theorem flush_coherent {v : LastWritten} (hC : Coherent h v) :
    Coherent (flushIdxWriteCache h).1 v := by
  have hw := flush_wrote hC.sound
  exact
    { sound := hw.sound
      written := fun a b hb => hw.outside a b (by simp) (hC.written a b hb)
      window := hw.readCache ▸ hC.window }

/-! ## Reading -/

theorem ifOffsetInWriteCache_iff (h : CacheHandle) (offset size : Nat) :
    ifOffsetInWriteCache h offset size = true ↔
      h.stIdxWriteCache.u32BufferLen ≠ 0 ∧ h.stIdxWriteCache.u32UsedSize ≠ 0 ∧
        ((h.stIdxWriteCache.u32StartOffset ≤ offset ∧
          offset ≤ u32 (h.stIdxWriteCache.u32StartOffset + h.stIdxWriteCache.u32UsedSize)) ∨
          (offset < h.stIdxWriteCache.u32StartOffset ∧
            h.stIdxWriteCache.u32StartOffset < u32 (offset + size))) := by
  simp [ifOffsetInWriteCache, and_assoc]

/-- A read of the file sees every byte that was written. -/
theorem readIndexDirectly_coherent {v : LastWritten} (hC : Coherent h v) {size offset : Nat}
    (hfit : offset + h.u32IdxStartOffsetLen < 4294967296) (hsize : offset + size < 4294967296) :
    Coherent (readIndexDirectly h size offset).1 v ∧
      (readIndexDirectly h size offset).1.stIdxReadCache = h.stIdxReadCache ∧
      ((readIndexDirectly h size offset).2.length ≤ size ∧
        ∀ k b, k < size → v (offset + k) = some b →
          (readIndexDirectly h size offset).2[k]? = some b) := by
  have hfits := hC.sound.fits
  have hused := hC.sound.used_le
  unfold readIndexDirectly
  simp only
  rw [u32_of_lt (by split <;> [rw [(flush_wrote hC.sound).startOffsetLen]; skip] <;> omega)]
  split
  -- the range is partly in the write cache, which is written to the file first
  · have hC' := flush_coherent hC
    have hlen := (flush_wrote hC.sound).startOffsetLen
    refine ⟨hC', (flush_wrote hC.sound).readCache, length_pread_le _ _ _, fun k b hk hb => ?_⟩
    have hview := hC'.written _ _ hb
    rw [view_of_unused (flush_unused hC.sound), onDisk] at hview
    rw [getElem?_pread _ _ hk, ← hview]
    congr 1
    omega
  · rename_i hno
    refine ⟨hC, rfl, length_pread_le _ _ _, fun k b hk hb => ?_⟩
    have hview := hC.written _ _ hb
    -- nothing of the range is in the write cache, so the file has it
    have hp : ¬ Pending h (offset + k) := by
      intro hp
      rw [Pending] at hp
      rw [ifOffsetInWriteCache_iff, u32_of_lt (by omega), u32_of_lt hsize] at hno
      simp only [IdxBuf.u32UsedSize] at hno hfits hused
      omega
    rw [view_notPending hp, onDisk] at hview
    rw [getElem?_pread _ _ hk, ← hview]
    congr 1
    omega

/-- The window begins at or before the entry it is loaded for, below 2 GiB. -/
theorem windowStart_le {offset len : Nat} (hlen : len ≤ 2147483648) (hoff : offset < 4294967296) :
    (s32 (u32sub offset (len / 2))).toNat ≤ offset ∧
      (s32 (u32sub offset (len / 2))).toNat < 2147483648 := by
  rw [toNat_s32 (u32sub_lt _ _)]
  by_cases hhalf : len / 2 ≤ offset
  · rw [u32sub_of_le hhalf hoff]
    split <;> omega
  · -- the subtraction wraps, and the result is negative as an `int`
    have hneg : ¬ u32sub offset (len / 2) < 2147483648 := by
      rw [u32sub, u32_of_lt (by omega)]
      omega
    rw [if_neg hneg]
    exact ⟨Nat.zero_le _, Nat.zero_lt_succ _⟩

/-- Another read window. -/
theorem Coherent.setWindow {v : LastWritten} {c : IdxBuf} (hC : Coherent h v) (hW : Window c v) :
    Coherent { h with stIdxReadCache := c } v where
  sound := ⟨hC.sound.outcomes, hC.sound.used_le, hC.sound.fits⟩
  written := hC.written
  window := hW

theorem readIndexDirectly_startOffsetLen (hS : Sound h) (size offset : Nat) :
    (readIndexDirectly h size offset).1.u32IdxStartOffsetLen = h.u32IdxStartOffsetLen := by
  unfold readIndexDirectly
  simp only
  split
  · exact (flush_wrote hS).startOffsetLen
  · rfl

/-- A window filled from the file. -/
theorem window_of_bytes {v : LastWritten} {len start : Nat} {bytes : List UInt8}
    (hlen : len ≤ 2147483648) (hfits : start + len < 4294967296) (hle : bytes.length ≤ len)
    (hbytes : ∀ k b, k < len → v (start + k) = some b → bytes[k]? = some b) :
    Window { u32BufferLen := len, u32StartOffset := start, data := bytes } v where
  len := hlen
  used_le := hle
  fits := Nat.lt_of_le_of_lt (Nat.add_le_add_left hle start) hfits
  held a b hheld hb := by
    obtain ⟨hge, hin⟩ := hheld
    simp only [firstEntry, sizeofEntry, IdxBuf.u32UsedSize] at hge hin
    exact hbytes (a - start) b (by omega) (by rwa [show start + (a - start) = a by omega])

/-- Loading the window makes its bytes the ones last written. -/
theorem loadWindow_coherent {v : LastWritten} (hC : Coherent h v) {offset : Nat}
    (hfit : offset + h.u32IdxStartOffsetLen < 4294967296) :
    Coherent (loadWindow h offset) v ∧
      (loadWindow h offset).u32IdxStartOffsetLen = h.u32IdxStartOffsetLen := by
  have hlen := hC.window.len
  obtain ⟨hle, hlt⟩ := windowStart_le hlen (show offset < 4294967296 by omega)
  unfold loadWindow
  simp only
  generalize (s32 (u32sub offset (h.stIdxReadCache.u32BufferLen / 2))).toNat = start at hle hlt
  have hfit' : start + h.u32IdxStartOffsetLen < 4294967296 := by omega
  have hsize : start + h.stIdxReadCache.u32BufferLen < 4294967296 := by omega
  obtain ⟨hC', -, hread, hbytes⟩ := readIndexDirectly_coherent hC hfit' hsize
  exact ⟨hC'.setWindow (window_of_bytes hlen hsize hread hbytes),
    readIndexDirectly_startOffsetLen hC.sound _ _⟩

/-- A list that has every value of `xs` and is not longer is `xs`. -/
theorem eq_of_getElem?_eq_some {bytes xs : List UInt8} (hlen : bytes.length ≤ xs.length)
    (h : ∀ (k : Nat) (b : UInt8), xs[k]? = some b → bytes[k]? = some b) : bytes = xs := by
  apply List.ext_getElem?
  intro k
  cases hx : xs[k]? with
  | some b => exact h k b hx
  | none =>
    rw [List.getElem?_eq_none_iff] at hx ⊢
    omega

/-- What a range was last written with, read at once. -/
def Reads (v : LastWritten) (offset : Nat) (xs : List UInt8) : Prop :=
  ∀ k, k < xs.length → v (offset + k) = xs[k]?

theorem readIndexDirectly_reads {v : LastWritten} (hC : Coherent h v) {offset : Nat}
    {xs : List UInt8} (hfit : offset + h.u32IdxStartOffsetLen < 4294967296)
    (hsize : offset + xs.length < 4294967296) (hxs : Reads v offset xs) :
    (readIndexDirectly h xs.length offset).2 = xs := by
  obtain ⟨-, -, hlen, hbytes⟩ := readIndexDirectly_coherent hC hfit hsize
  apply eq_of_getElem?_eq_some hlen
  intro k b hb
  have hk := (List.getElem?_eq_some_iff.mp hb).1
  exact hbytes k b hk ((hxs k hk).trans hb)

/-- An aligned read that the window answers. -/
theorem readWindow_reads {v : LastWritten} (hC : Coherent h v) {offset : Nat} {xs : List UInt8}
    (halign : offset % sizeofEntry = 0) (hsize : offset + xs.length < 4294967296)
    (hcached : ifOffsetReadCache h offset xs.length = 1) (hxs : Reads v offset xs) :
    readWindow h.stIdxReadCache xs.length offset = xs := by
  have hin := (ifOffsetReadCache_ne_zero h offset xs.length).mp (by rw [hcached]; decide)
  -- the range lies inside the bytes of the cache that are in use
  have hroom : offset - h.stIdxReadCache.u32StartOffset + xs.length ≤
      h.stIdxReadCache.u32UsedSize := by
    unfold ifOffsetReadCache at hcached
    simp only at hcached
    rw [if_pos ⟨hin.1, hin.2.1⟩, if_pos hin.2.2, u32_of_lt (by omega)] at hcached
    split at hcached
    · assumption
    · cases hcached
  rw [readWindow]
  apply eq_of_getElem?_eq_some (List.length_take_le _ _)
  intro k b hb
  have hk := (List.getElem?_eq_some_iff.mp hb).1
  -- so does each of its bytes, and the cache has what was last written there
  have hheld : Held h.stIdxReadCache (offset + k) := by
    have hstart := hin.2.2.1
    rw [Held, firstEntry]
    rw [sizeofEntry] at halign ⊢
    omega
  have hwin := hC.window.held _ b hheld ((hxs k hk).trans hb)
  rw [List.getElem?_take_of_lt hk, List.getElem?_drop, ← hwin]
  congr 1
  omega

/-- What `PVRCacheReadIdx` returns, and what it leaves behind. -/
theorem cacheReadIdx_coherent {v : LastWritten} (hC : Coherent h v) {size offset : Nat}
    (direct : Bool) (halign : offset % sizeofEntry = 0)
    (hfit : offset + size + h.u32IdxStartOffsetLen < 4294967296) :
    Coherent (cacheReadIdx h size offset direct).1 v ∧
      ∀ xs : List UInt8, xs.length = size → Reads v offset xs →
        (cacheReadIdx h size offset direct).2 = xs := by
  obtain ⟨hCw, hstart⟩ := loadWindow_coherent hC (show offset + h.u32IdxStartOffsetLen < _ by omega)
  unfold cacheReadIdx
  simp only
  split
  · exact ⟨(readIndexDirectly_coherent hC (by omega) (by omega)).1, fun xs hlen hxs => by
      subst hlen; exact readIndexDirectly_reads hC (by omega) (by omega) hxs⟩
  · split
    · rename_i hcached
      exact ⟨hC, fun xs hlen hxs => by
        subst hlen; exact readWindow_reads hC halign (by omega) hcached hxs⟩
    · split
      · rename_i hcached
        exact ⟨hCw, fun xs hlen hxs => by
          subst hlen; exact readWindow_reads hCw halign (by omega) hcached hxs⟩
      · exact ⟨(readIndexDirectly_coherent hCw (by omega) (by omega)).1, fun xs hlen hxs => by
          subst hlen; exact readIndexDirectly_reads hCw (by omega) (by omega) hxs⟩

/-! ## Runs -/

/-- The calls under which the caches cannot be told from the file: ranges below
    4 GiB; writes that fit the write cache and, when they reach an entry of the
    read window, begin in the window; reads of whole entries; and no
    `Pvr_Write_Index_Func` on a byte that either cache holds. -/
def Transparent (h : CacheHandle) : Call → Prop
  | .cacheWrite data offset direct =>
    offset + data.length + h.u32IdxStartOffsetLen < 4294967296 ∧
      (direct = true ∨ h.stIdxWriteCache.u32BufferLen = 0 ∨
        data.length ≤ h.stIdxWriteCache.u32BufferLen) ∧
      ∀ a, offset ≤ a → a < offset + data.length → Held h.stIdxReadCache a →
        h.stIdxReadCache.u32StartOffset ≤ offset
  | .writeFunc data offset =>
    offset + data.length + h.u32IdxStartOffsetLen < 4294967296 ∧
      ∀ a, offset ≤ a → a < offset + data.length → ¬ Pending h a ∧ ¬ Held h.stIdxReadCache a
  | .flush => True
  | .cacheRead size offset _ =>
    offset % sizeofEntry = 0 ∧ offset + size + h.u32IdxStartOffsetLen < 4294967296

/-- One call keeps the caches coherent, and a read returns what was last written. -/
theorem step_coherent (s : CacheHandle × LastWritten) (c : Call) (hC : Coherent s.1 s.2)
    (hT : Transparent s.1 c) :
    ReadsBack s c ∧ Coherent (machine.step s c).1.1 (machine.step s c).1.2 := by
  cases c with
  | cacheWrite data offset direct =>
    obtain ⟨hfit, hlen, hbegin⟩ := hT
    exact ⟨trivial, (cacheWriteIdx_coherent hC hfit hlen hbegin).2⟩
  | writeFunc data offset => exact ⟨trivial, pvrWriteIndexFunc_coherent hC hT.1 hT.2⟩
  | flush => exact ⟨trivial, flush_coherent hC⟩
  | cacheRead size offset direct =>
    obtain ⟨hC', hreads⟩ := cacheReadIdx_coherent hC direct hT.1 hT.2
    exact ⟨fun xs hlen hxs => hreads xs hlen (by subst hlen; exact hxs), hC'⟩

theorem coherent_opened (bytes : List UInt8) {headerLen : Nat} (hlen : headerLen < 4294967296)
    (writeBuf readBuf : Bool) :
    Coherent (opened bytes headerLen writeBuf readBuf) (onFile bytes headerLen) where
  sound := ⟨rfl, Nat.zero_le _, by simpa [opened, IdxBuf.u32UsedSize] using hlen⟩
  written a b hb := by
    rw [view_of_unused (by rfl), ← hb, onDisk, onFile]
    congr 1
    exact Nat.add_comm _ _
  window := window_nil (by cases readBuf <;> simp [opened, dftIdxReadcacheSize])
    (by simp [opened]) rfl

/-- In every run from an opened index file whose calls are `Transparent`, every
    read of bytes that have been written returns them as last written. -/
theorem reads_back (bytes : List UInt8) (headerLen : Nat) (hlen : headerLen < 4294967296)
    (writeBuf readBuf : Bool) (calls : List Call)
    (hT : machine.Always (fun s c => Transparent s.1 c)
      (opened bytes headerLen writeBuf readBuf, onFile bytes headerLen) calls) :
    machine.Always ReadsBack
      (opened bytes headerLen writeBuf readBuf, onFile bytes headerLen) calls :=
  (Machine.always_of_invariant (I := fun s => Coherent s.1 s.2) step_coherent
    (coherent_opened bytes hlen writeBuf readBuf) hT).1

/-- An entry of forty equal bytes. -/
def entryOf (b : UInt8) : List UInt8 := List.replicate sizeofEntry b

/-- An entry that is pending, its neighbour written behind the back of the
    caches, and a read of both. -/
theorem reads_back_two :
    machine.Always ReadsBack (opened [] 0 true true, onFile [] 0)
      [.cacheWrite (entryOf 1) 0 false, .writeFunc (entryOf 2) 40, .cacheRead 80 0 false] := by
  apply reads_back [] 0 (by decide) true true
  refine ⟨⟨by decide, .inr (.inr (by decide)), fun a h0 h1 _ => Nat.zero_le _⟩,
    ⟨by decide, fun a h0 h1 => ⟨?_, ?_⟩⟩, ⟨by decide, by decide⟩, trivial⟩
  · -- the first entry is pending, bytes 0 to 39
    intro hp
    exact absurd hp.2 (Nat.not_lt_of_le h0)
  · -- nothing has been read yet
    intro hheld
    exact absurd hheld.2 (Nat.not_lt_zero a)

/-- An entry is read, changed by `Pvr_Write_Index_Func` and read again: the second
    read returns the entry as it was. -/
theorem reads_stale :
    ¬ machine.Always ReadsBack (opened [] 0 true true, onFile [] 0)
      [.cacheWrite (entryOf 1) 0 true, .cacheRead 40 0 false, .writeFunc (entryOf 2) 0,
        .cacheRead 40 0 false] := by
  rintro ⟨-, -, -, hread, -⟩
  have hnew := hread (entryOf 2) (by decide) (by decide +kernel)
  exact absurd hnew (by decide +kernel)

end Tntsat.PvrIdxCache
