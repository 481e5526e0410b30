import Tntsat.Spec.FrameIndexPts

/-!
# The ranges of the frames

A frame goes from its first start code, or from a header in front of it, up to the border
behind its last start code.  The ranges that are handed out follow one another, as long as
no start code of another picture stands between a frame that begins at a header and this
header: the header stays fresh when a picture of another type uses it, and for AVS it
always does.

## Key results

- `ended_ranges`, `header_ranges`, `opened_ranges`, `touched_ranges`: what the parts of a
  step do to the invariant
- `ranges_disjoint`: the ranges of a run in which every header is used by the next picture
- `header_used_twice`: AVS uses one header for two I pictures
-/

namespace Tntsat.FrameIndex

/-! ## The invariant -/

/-- All frames so far end at an offset or before it. -/
def EndedBy (w : Watch) (x : Int) : Prop := ∀ f ∈ w.frames, f.s64GlobalOffset + f.s32FrameSize ≤ x

/-- An offset lies before that of a start code. -/
def Before (t : Option Int) (x : Int) : Prop := ∃ t', t = some t' ∧ x < t'

/-- A header that is remembered. -/
def Ctx.valid (c : Ctx) (k : Nat) : Prop := (c.stSPS k).eScType = .sps

/-- The border behind the frame that is open has been seen. -/
def Ctx.bordered (c : Ctx) : Prop := c.stSEIFollowSlice.eScType = .nonslice

/-- What holds between start codes, the first of which was at `a` and the latest before `n`. -/
structure RangeInv (a n : Int) (c : Ctx) (w : Watch) : Prop where
  ordered : w.frames.Pairwise fun f g => f.s64GlobalOffset + f.s32FrameSize ≤ g.s64GlobalOffset
  sizes : ∀ f ∈ w.frames, a ≤ f.s64GlobalOffset ∧ 0 ≤ f.s32FrameSize
  header : ∀ k, c.valid k → a ≤ (c.stSPS k).s64GlobalOffset ∧ (c.stSPS k).s64GlobalOffset < n
  /-- a frame that ends behind a header belongs to a picture behind it -/
  headerClosed : ∀ k, c.valid k → c.isOpen = false →
    EndedBy w (c.stSPS k).s64GlobalOffset ∨ Before w.touched (c.stSPS k).s64GlobalOffset
  headerOpen : ∀ k, c.valid k → c.isOpen = true →
    (EndedBy w (c.stSPS k).s64GlobalOffset ∨ Before w.prev (c.stSPS k).s64GlobalOffset) ∧
      (Before w.touched (c.stSPS k).s64GlobalOffset ∨
        c.bordered ∧ c.stSEIFollowSlice.s64GlobalOffset ≤ (c.stSPS k).s64GlobalOffset)
  touched : ∀ t, w.touched = some t → t < n
  prev : c.isOpen = true → ∀ p, w.prev = some p → Before w.touched p
  start : c.isOpen = true → a ≤ c.stNewFramePos.s64GlobalOffset ∧
    ∃ t, w.touched = some t ∧ c.stNewFramePos.s64GlobalOffset ≤ t
  startFree : c.isOpen = true → EndedBy w c.stNewFramePos.s64GlobalOffset ∨
    c.eVideoStandard ≠ .h264 ∧ c.stNewFramePos.eFrameType = .i ∧
      Before w.prev c.stNewFramePos.s64GlobalOffset
  border : c.bordered → a ≤ c.stSEIFollowSlice.s64GlobalOffset ∧
    c.stSEIFollowSlice.s64GlobalOffset < n ∧ EndedBy w c.stSEIFollowSlice.s64GlobalOffset ∧
    (c.isOpen = true → ∀ t, w.touched = some t → t ≤ c.stSEIFollowSlice.s64GlobalOffset)
  borderType : c.bordered ∨ c.stSEIFollowSlice.eScType = .unknown
  noBorder : c.eVideoStandard ≠ .h264 → ¬ c.bordered
  fresh : ∀ k, c.u8SpsFresh k = true → c.valid k
  /-- the header of the frame that is open stands in front of it -/
  current : c.eVideoStandard = .h264 → c.isOpen = true → c.valid c.s32SpsID →
    Before w.touched (c.stSPS c.s32SpsID).s64GlobalOffset
  type : c.stNewFramePos.eFrameType ≠ .pesh

theorem EndedBy.mono {w : Watch} {x y : Int} (h : EndedBy w x) (hxy : x ≤ y) : EndedBy w y :=
  fun f hf => Int.le_trans (h f hf) hxy

theorem Before.trans {t t' : Option Int} {x : Int} (h : Before t x)
    (ht : ∀ p, t = some p → Before t' p) : Before t' x := by
  obtain ⟨p, hp, hlt⟩ := h
  obtain ⟨q, hq, hlt'⟩ := ht p hp
  exact ⟨q, hq, Int.lt_trans hlt hlt'⟩

section Parts

variable {a n : Int} {c : Ctx} {w : Watch}

/-- The invariant does not look at what comes later. -/
theorem RangeInv.mono {n' : Int} (hI : RangeInv a n c w) (hn : n ≤ n') : RangeInv a n' c w :=
  { hI with
    header := fun k hk => ⟨(hI.header k hk).1, Int.lt_of_lt_of_le (hI.header k hk).2 hn⟩
    touched := fun t ht => Int.lt_of_lt_of_le (hI.touched t ht) hn
    border := fun hb =>
      have hborder := hI.border hb
      ⟨hborder.1, Int.lt_of_lt_of_le hborder.2.1 hn, hborder.2.2⟩ }

/-- Nor at the start code that is processed. -/
theorem RangeInv.this (hI : RangeInv a n c w) (sc : ScInfo) :
    RangeInv a n { c with stThisSC := sc } w :=
  { hI with }

/-- Nor at other parts of the watch. -/
theorem RangeInv.congr {w' : Watch} (hI : RangeInv a n c w) (hframes : w'.frames = w.frames)
    (htouched : w'.touched = w.touched) (hprev : w'.prev = w.prev) : RangeInv a n c w' := by
  cases w
  cases w'
  dsimp only at hframes htouched hprev
  subst hframes htouched hprev
  exact { hI with }

/-! ## The parts of a step -/

/-- The frame that is open begins at a header. -/
def borrowed (c : Ctx) : Bool :=
  c.stNewFramePos.eFrameType = .i && (c.eVideoStandard ≠ .h264 || c.u8SpsFresh c.s32SpsID)

/-- The start code of no other picture stands between the header and the frame. -/
def HeaderNext (c : Ctx) (w : Watch) : Prop :=
  borrowed c = true → ∀ t, w.prev = some t → t < frameStart c

/-- The frame that is open begins where all others have ended. -/
theorem frameStart_free (hI : RangeInv a n c w) (hopen : c.isOpen = true) (hc : HeaderNext c w) :
    EndedBy w (frameStart c) := by
  by_cases hheader : c.eVideoStandard = .h264 ∧ c.stNewFramePos.eFrameType = .i ∧
      c.u8SpsFresh c.s32SpsID = true
  · -- at its sequence parameter set
    have hstart : frameStart c = (c.stSPS c.s32SpsID).s64GlobalOffset := by
      simp [frameStart, hheader]
    rcases (hI.headerOpen _ (hI.fresh _ hheader.2.2) hopen).1 with hended | ⟨t, ht, hlt⟩
    · rw [hstart]
      exact hended
    · have hnext := hc (by simp [borrowed, hheader]) t ht
      omega
  · have hstart : frameStart c = c.stNewFramePos.s64GlobalOffset := by
      rw [frameStart, if_neg hheader]
    rcases hI.startFree hopen with hended | ⟨hstd, hi, t, ht, hlt⟩
    · rw [hstart]
      exact hended
    · have hnext := hc (by simp [borrowed, hi, hstd]) t ht
      omega

/-- It lies between the first start code and the latest of its picture. -/
theorem frameStart_bounds (hI : RangeInv a n c w) (hopen : c.isOpen = true) :
    a ≤ frameStart c ∧ ∃ t, w.touched = some t ∧ frameStart c ≤ t := by
  rw [frameStart]
  split
  · rename_i hheader
    have hvalid := hI.fresh _ hheader.2.2
    obtain ⟨t, ht, hlt⟩ := hI.current hheader.1 hopen hvalid
    exact ⟨(hI.header _ hvalid).1, t, ht, Int.le_of_lt hlt⟩
  · exact hI.start hopen

/-- The border lies behind the picture. -/
theorem frameBorder_bounds {now : Int} (hI : RangeInv a n c w) (hn : n ≤ now + 1)
    (hthis : c.stThisSC.s64GlobalOffset = now) :
    frameBorder c ≤ now ∧
      (c.isOpen = true → ∀ t, w.touched = some t → t ≤ frameBorder c) := by
  rw [frameBorder]
  split
  · rename_i hb
    have hborder := hI.border hb
    exact ⟨by omega, hborder.2.2.2⟩
  · rw [hthis]
    refine ⟨Int.le_refl _, fun _ t ht => ?_⟩
    have hlt := hI.touched t ht
    omega

/-- A frame that may be ended. -/
theorem ended_ranges {now : Int} {c1 : Ctx} {out : Option FramePos} (hI : RangeInv a n c w)
    (hn : n ≤ now + 1) (hthis : c.stThisSC.s64GlobalOffset = now) (hspan : now - a < 2 ^ 31)
    (hby : EndedBy w now) (hc : out.isSome = true → HeaderNext c w)
    (h : Ended c (frameBorder c) c1 out) :
    RangeInv a n c1 { w with frames := w.frames ++ out.toList } ∧
      EndedBy { w with frames := w.frames ++ out.toList } now := by
  obtain ⟨hborder, htouched⟩ := frameBorder_bounds hI hn hthis
  -- the size of a frame that has been open fits into 32 bits
  have hsize : c.isOpen = true →
      s32 (frameBorder c - frameStart c) = frameBorder c - frameStart c ∧
        0 ≤ frameBorder c - frameStart c := by
    intro hopen
    obtain ⟨ha, t, ht, hle⟩ := frameStart_bounds hI hopen
    have hle' := htouched hopen t ht
    refine ⟨s32_of_range ?_ ?_, ?_⟩ <;> omega
  cases h with
  | kept => exact ⟨hI.congr (by simp) rfl rfl, by simpa [EndedBy] using hby⟩
  | dropped f hopen hf hneg =>
    obtain ⟨hs, hpos⟩ := hsize hopen
    rw [hs] at hneg
    omega
  | output f fresh hopen htype hpts hstart hfsize hfresh =>
    obtain ⟨hs, hpos⟩ := hsize hopen
    obtain ⟨ha, -⟩ := frameStart_bounds hI hopen
    have hend : f.s64GlobalOffset + f.s32FrameSize = frameBorder c := by
      rw [hstart, hfsize, hs]
      omega
    have hfree := frameStart_free hI hopen (hc rfl)
    -- the new frame ends at the border, as everything before it does
    have hmem : ∀ x, EndedBy w x → frameBorder c ≤ x →
        EndedBy { w with frames := w.frames ++ (some f).toList } x := by
      intro x hx hle g hg
      rcases List.mem_append.mp hg with hg | hg
      · exact hx g hg
      · rw [Option.toList_some, List.mem_singleton] at hg
        rw [hg, hend]
        exact hle
    refine ⟨?_, hmem now hby hborder⟩
    exact
      { ordered := by
          rw [Option.toList_some, List.pairwise_append]
          refine ⟨hI.ordered, List.pairwise_singleton _ _, ?_⟩
          intro g hg g' hg'
          rw [List.mem_singleton.mp hg', hstart]
          exact hfree g hg
        sizes := by
          intro g hg
          rcases List.mem_append.mp hg with hg | hg
          · exact hI.sizes g hg
          · rw [Option.toList_some, List.mem_singleton] at hg
            rw [hg, hstart, hfsize, hs]
            exact ⟨ha, hpos⟩
        header := hI.header
        headerClosed := by
          intro k hk _
          obtain ⟨hended, htouch | ⟨hb, hle⟩⟩ := hI.headerOpen k hk hopen
          · exact .inr htouch
          · have hbeq : frameBorder c = c.stSEIFollowSlice.s64GlobalOffset := if_pos hb
            rcases hended with hended | hprev
            · exact .inl (hmem _ hended (by rw [hbeq]; exact hle))
            · exact .inr (hprev.trans (hI.prev hopen))
        headerOpen := nofun
        touched := hI.touched
        prev := nofun
        start := nofun
        startFree := nofun
        border := by
          intro hb
          have hbeq : frameBorder c = c.stSEIFollowSlice.s64GlobalOffset := if_pos hb
          have hborder := hI.border hb
          exact ⟨hborder.1, hborder.2.1, hmem _ hborder.2.2.1 (Int.le_of_eq hbeq), nofun⟩
        borderType := hI.borderType
        noBorder := hI.noBorder
        fresh := fun k hk => hI.fresh k (hfresh k hk)
        current := nofun
        type := nofun }

/-- What the end of a frame leaves alone. -/
theorem Ended.same {c1 : Ctx} {border : Int} {out : Option FramePos} (h : Ended c border c1 out) :
    c1.eVideoStandard = c.eVideoStandard ∧ c1.stThisSC = c.stThisSC ∧
      c1.stSEIFollowSlice = c.stSEIFollowSlice ∧ c1.s32SpsID = c.s32SpsID := by
  cases h <;> exact ⟨rfl, rfl, rfl, rfl⟩

/-- A header, which ends the frame that is open or leaves its border behind it. -/
theorem header_ranges {now : Int} (hI : RangeInv a n c w) (ha : a ≤ now) (hn : now < n)
    (hthis : c.stThisSC.s64GlobalOffset = now) (hby : EndedBy w now) (k id : Nat) (fresh : Bool)
    (hopen : c.isOpen = true → c.bordered ∧ c.stSEIFollowSlice.s64GlobalOffset ≤ now ∧
      c.s32SpsID ≠ k) :
    RangeInv a n (storeSps c k id fresh) w := by
  -- the header in slot `k` is the new one
  have hslot : ∀ j, ((storeSps c k id fresh).valid j ∧
        ((storeSps c k id fresh).stSPS j).s64GlobalOffset = now) ∨
      ((storeSps c k id fresh).stSPS j = c.stSPS j ∧ j ≠ k) := by
    intro j
    by_cases hj : j = k
    · left
      simp [Ctx.valid, storeSps, hj, hthis]
    · right
      simp [storeSps, hj]
  have hold : ∀ j, (storeSps c k id fresh).valid j → ∀ P : Int → Prop, P now →
      (c.valid j → P (c.stSPS j).s64GlobalOffset) →
      P ((storeSps c k id fresh).stSPS j).s64GlobalOffset := by
    intro j hvalid P hnow hP
    rcases hslot j with ⟨-, heq⟩ | ⟨heq, -⟩
    · rw [heq]
      exact hnow
    · rw [Ctx.valid, heq] at hvalid
      rw [heq]
      exact hP hvalid
  exact
    { hI with
      header := fun j hj => hold j hj (fun x => a ≤ x ∧ x < n) ⟨ha, hn⟩ (hI.header j)
      headerClosed := fun j hj hclosed =>
        hold j hj (fun x => EndedBy w x ∨ Before w.touched x) (.inl hby)
          fun hvalid => hI.headerClosed j hvalid hclosed
      headerOpen := fun j hj hop =>
        hold j hj (fun x => (EndedBy w x ∨ Before w.prev x) ∧
            (Before w.touched x ∨ c.bordered ∧ c.stSEIFollowSlice.s64GlobalOffset ≤ x))
          ⟨.inl hby, .inr ⟨(hopen hop).1, (hopen hop).2.1⟩⟩ fun hvalid => hI.headerOpen j hvalid hop
      fresh := by
        intro j hj
        rcases hslot j with ⟨hvalid, -⟩ | ⟨heq, hne⟩
        · exact hvalid
        · rw [Ctx.valid, heq]
          apply hI.fresh j
          cases fresh with
          | true => simpa [storeSps, hne] using hj
          | false => simpa [storeSps] using hj
      current := by
        intro hstd hop hvalid
        have heq : (storeSps c k id fresh).stSPS c.s32SpsID = c.stSPS c.s32SpsID := by
          simp [storeSps, (hopen hop).2.2]
        have hvalid' : c.valid c.s32SpsID := by
          rw [Ctx.valid, ← heq]
          exact hvalid
        show Before w.touched ((storeSps c k id fresh).stSPS c.s32SpsID).s64GlobalOffset
        rw [heq]
        exact hI.current hstd hop hvalid' }

/-- A start code that opens a frame. -/
theorem opened_ranges {now : Int} {c' : Ctx} (hI : RangeInv a now c w)
    (hclosed : c.isOpen = false) (hopen : c'.isOpen = true)
    (hstd : c'.eVideoStandard = c.eVideoStandard) (hsps : c'.stSPS = c.stSPS)
    (hfresh : ∀ k, c'.u8SpsFresh k = true → c.u8SpsFresh k = true)
    (hborder : c'.stSEIFollowSlice.eScType = .unknown)
    (htype : c'.stNewFramePos.eFrameType ≠ .pesh)
    (hstart : a ≤ c'.stNewFramePos.s64GlobalOffset ∧ c'.stNewFramePos.s64GlobalOffset ≤ now)
    (hfree : EndedBy w c'.stNewFramePos.s64GlobalOffset ∨
      c.eVideoStandard ≠ .h264 ∧ c'.stNewFramePos.eFrameType = .i ∧
        Before w.touched c'.stNewFramePos.s64GlobalOffset) :
    RangeInv a (now + 1) c' { w with prev := w.touched, touched := some now } := by
  have hvalid : ∀ k, c'.valid k ↔ c.valid k := by
    intro k
    rw [Ctx.valid, Ctx.valid, hsps]
  -- a frame that has just begun has no border yet
  have hunbordered : ¬ c'.bordered := by simp [Ctx.bordered, hborder]
  have hclosed' : ¬ c'.isOpen = false := by simp [hopen]
  exact
    { ordered := hI.ordered
      sizes := hI.sizes
      header := by
        intro k hk
        have hbounds := hI.header k ((hvalid k).mp hk)
        rw [hsps]
        exact ⟨hbounds.1, by omega⟩
      headerClosed := fun _ _ h => absurd h hclosed'
      headerOpen := by
        intro k hk _
        have hk' := (hvalid k).mp hk
        rw [hsps]
        exact ⟨hI.headerClosed k hk' hclosed, .inl ⟨now, rfl, (hI.header k hk').2⟩⟩
      touched := by
        rintro t ⟨⟩
        exact Int.lt_succ now
      prev := fun _ p hp => ⟨now, rfl, hI.touched p hp⟩
      start := fun _ => ⟨hstart.1, now, rfl, hstart.2⟩
      startFree := by
        rw [hstd]
        exact fun _ => hfree
      border := fun h => absurd h hunbordered
      borderType := .inr hborder
      noBorder := fun _ => hunbordered
      fresh := fun k hk => (hvalid k).mpr (hI.fresh k (hfresh k hk))
      current := by
        intro _ _ hk
        rw [hsps]
        exact ⟨now, rfl, (hI.header _ ((hvalid _).mp hk)).2⟩
      type := htype }

/-- A slice of H.264 that leaves the frame open. -/
theorem touched_ranges {now : Int} {c' : Ctx} (hI : RangeInv a now c w)
    (hstd : c.eVideoStandard = .h264) (hopen : c.isOpen = true) (hopen' : c'.isOpen = true)
    (hsps : c'.stSPS = c.stSPS) (hfresh : c'.u8SpsFresh = c.u8SpsFresh)
    (hborder : c'.stSEIFollowSlice.eScType = .unknown)
    (htype : c'.stNewFramePos.eFrameType ≠ .pesh)
    (hstart : c'.stNewFramePos.s64GlobalOffset = c.stNewFramePos.s64GlobalOffset) :
    RangeInv a (now + 1) c' { w with touched := some now } := by
  have hvalid : ∀ k, c'.valid k ↔ c.valid k := by
    intro k
    rw [Ctx.valid, Ctx.valid, hsps]
  have hunbordered : ¬ c'.bordered := by simp [Ctx.bordered, hborder]
  have hclosed' : ¬ c'.isOpen = false := by simp [hopen']
  -- the frame that is open starts where it did before
  obtain ⟨ha, t, ht, hle⟩ := hI.start hopen
  have htnow := hI.touched t ht
  exact
    { ordered := hI.ordered
      sizes := hI.sizes
      header := by
        intro k hk
        have hbounds := hI.header k ((hvalid k).mp hk)
        rw [hsps]
        exact ⟨hbounds.1, by omega⟩
      headerClosed := fun _ _ h => absurd h hclosed'
      headerOpen := by
        intro k hk _
        have hk' := (hvalid k).mp hk
        rw [hsps]
        exact ⟨(hI.headerOpen k hk' hopen).1, .inl ⟨now, rfl, (hI.header k hk').2⟩⟩
      touched := by
        rintro t ⟨⟩
        exact Int.lt_succ now
      prev := by
        intro _ p hp
        obtain ⟨q, hq, hlt⟩ := hI.prev hopen p hp
        have hqnow := hI.touched q hq
        exact ⟨now, rfl, by omega⟩
      start := by
        rw [hstart]
        exact fun _ => ⟨ha, now, rfl, by omega⟩
      startFree := by
        rw [hstart]
        intro _
        exact .inl ((hI.startFree hopen).resolve_right fun h => h.1 hstd)
      border := fun h => absurd h hunbordered
      borderType := .inr hborder
      noBorder := fun _ => hunbordered
      fresh := by
        intro k hk
        rw [hfresh] at hk
        exact (hvalid k).mpr (hI.fresh k hk)
      current := by
        intro _ _ hk
        rw [hsps]
        exact ⟨now, rfl, (hI.header _ ((hvalid _).mp hk)).2⟩
      type := htype }

/-- A slice of H.264 that opens no frame. -/
theorem cleared_ranges (hI : RangeInv a n c w) (hclosed : c.isOpen = false) :
    RangeInv a n (clearFollow c) w := by
  have hunbordered : ¬ (clearFollow c).bordered := nofun
  have hclosed' : ¬ (clearFollow c).isOpen = true := by
    show ¬ c.isOpen = true
    simp [hclosed]
  exact
    { hI with
      headerOpen := fun _ _ h => absurd h hclosed'
      border := fun h => absurd h hunbordered
      borderType := .inr rfl
      noBorder := fun _ => hunbordered }

/-- The first start code behind a slice that is not a slice. -/
theorem noteNonslice_ranges {now : Int} (hI : RangeInv a n c w)
    (hstd : c.eVideoStandard = .h264) (ha : a ≤ now) (hn : now < n)
    (hthis : c.stThisSC.s64GlobalOffset = now) (hby : EndedBy w now)
    (htouched : ∀ t, w.touched = some t → t ≤ now) : RangeInv a n (noteNonslice c) w := by
  rw [noteNonslice]
  split
  · rename_i hunknown
    have hunbordered : ¬ c.bordered := by simp [Ctx.bordered, hunknown]
    exact
      { hI with
        headerOpen := by
          intro k hk hopen
          have hold := hI.headerOpen k hk hopen
          exact ⟨hold.1, .inl (hold.2.resolve_right fun h => hunbordered h.1)⟩
        border := by
          intro _
          rw [hthis]
          exact ⟨ha, hn, hby, fun _ => htouched⟩
        borderType := .inl rfl
        noBorder := fun h => absurd hstd h }
  · exact hI

/-! ## One start code -/

/-- What is watched of a start code, by the result of its step. -/
def after (now : Int) (c : Ctx) (w : Watch) (data : List UInt8) (r : Ctx × Option FramePos) :
    Watch :=
  { w with
    frames := w.frames ++ r.2.toList
    prev := if opensTo c data r then w.touched else w.prev
    touched := if isPicture c.eVideoStandard data && r.1.isOpen then some now else w.touched }

/-- The invariant behind a step. -/
def RangeStep (a now : Int) (c : Ctx) (w : Watch) (data : List UInt8)
    (r : Ctx × Option FramePos) : Prop :=
  RangeInv a (now + 1) r.1 (after now c w data r) ∧ EndedBy (after now c w data r) now

variable {now : Int} {data : List UInt8} {r : Ctx × Option FramePos}

/-- A step behind which no picture is touched. -/
theorem RangeStep.of_untouched (hpicture : (isPicture c.eVideoStandard data && r.1.isOpen) = false)
    (hI : RangeInv a (now + 1) r.1 { w with frames := w.frames ++ r.2.toList })
    (hby : EndedBy { w with frames := w.frames ++ r.2.toList } now) :
    RangeStep a now c w data r := by
  have hopens : opensTo c data r = false := by simp [opensTo, hpicture]
  refine ⟨hI.congr rfl ?_ ?_, hby⟩
  · simp [after, hpicture]
  · simp [after, hopens]

theorem mpeg_ranges (hI : RangeInv a now c w) (ha : a ≤ now) (hspan : now - a < 2 ^ 31)
    (hthis : c.stThisSC.s64GlobalOffset = now) (hby : EndedBy w now)
    (hstd : c.eVideoStandard ≠ .h264) (hc : r.2.isSome = true → HeaderNext c w)
    (h : MpegTurn c data r) : RangeStep a now c w data r := by
  obtain ⟨c1, hended, hturn⟩ := h
  have hborder : frameBorder c = c.stThisSC.s64GlobalOffset := if_neg (hI.noBorder hstd)
  rw [← hborder] at hended
  obtain ⟨hI1, hby1⟩ := ended_ranges hI (by omega) hthis hspan hby hc hended
  have hsame := hended.same
  cases hturn with
  | kept heq hclosed =>
    apply RangeStep.of_untouched _ (by rw [heq]; exact hI1.mono (by omega)) hby1
    rw [heq]
    cases hpicture : isPicture c.eVideoStandard data with
    | false => rfl
    | true => simp [hclosed hpicture]
  | header k id fresh heq hpicture hclosed =>
    apply RangeStep.of_untouched (by simp [hpicture]) _ hby1
    rw [heq]
    apply header_ranges (hI1.mono (by omega)) ha (by omega) (by rw [hsame.2.1]; exact hthis) hby1
    simp [hclosed]
  | opened fresh t offset heq hpicture hclosed hfresh hstart =>
    have ht : t ≠ .unknown ∧ t ≠ .pesh := by
      rcases hstart with ⟨rfl, -⟩ | ⟨rfl | rfl, -⟩ <;> simp
    have hopen : r.1.isOpen = true := by
      rw [heq]
      simp [openFrame, Ctx.isOpen, ht.1]
    have hopens : opensTo c data r = true := by simp [opensTo, hpicture, hopen, hstd]
    have hafter : after now c w data r =
        { ({ w with frames := w.frames ++ r.2.toList } : Watch) with
          prev := w.touched, touched := some now } := by
      simp [after, hopens, hpicture, hopen]
    rw [RangeStep, hafter]
    refine ⟨?_, hby1⟩
    have hoffset : a ≤ offset ∧ offset ≤ now ∧
        (EndedBy { w with frames := w.frames ++ r.2.toList } offset ∨
          t = .i ∧ Before w.touched offset) := by
      rcases hstart with ⟨hi, k, hk, hoff⟩ | ⟨-, hoff⟩
      · -- a header
        have hbounds := hI1.header k hk
        rw [hoff]
        exact ⟨hbounds.1, Int.le_of_lt hbounds.2, (hI1.headerClosed k hk hclosed).imp_right
          fun h => ⟨hi, h⟩⟩
      · rw [hoff, hsame.2.1, hthis]
        exact ⟨ha, Int.le_refl _, .inl hby1⟩
    apply opened_ranges hI1 hclosed hopen
    · rw [heq]
      rfl
    · rw [heq]
      rfl
    · rw [heq]
      exact hfresh
    · rw [heq]
      exact hI1.borderType.resolve_left (hI1.noBorder (by rw [hsame.1]; exact hstd))
    · rw [heq]
      exact ht.2
    · rw [heq]
      exact ⟨hoffset.1, hoffset.2.1⟩
    · rw [heq, hsame.1]
      exact hoffset.2.2.imp_right fun h => ⟨hstd, h⟩

/-- The border in front of a new frame is one that all frames so far keep. -/
theorem frameBorder_free (hI : RangeInv a now c w) (ha : a ≤ now)
    (hthis : c.stThisSC.s64GlobalOffset = now) (hby : EndedBy w now) :
    a ≤ frameBorder c ∧ frameBorder c ≤ now ∧ EndedBy w (frameBorder c) := by
  rw [frameBorder]
  split
  · rename_i hb
    have hborder := hI.border hb
    exact ⟨hborder.1, Int.le_of_lt hborder.2.1, hborder.2.2.1⟩
  · rw [hthis]
    exact ⟨ha, Int.le_refl _, hby⟩

/-- A slice behind the end of a frame. -/
theorem openSlice_ranges {c1 : Ctx} {out : Option FramePos} {hdr : SliceHeader}
    (hI : RangeInv a now c1 { w with frames := w.frames ++ out.toList }) (ha : a ≤ now)
    (hthis : c1.stThisSC.s64GlobalOffset = now)
    (hby : EndedBy { w with frames := w.frames ++ out.toList } now)
    (hpicture : isPicture c.eVideoStandard data = true) (hparse : parseSliceHeader data = some hdr)
    (hclosed : c1.isOpen = false) (hout : c.isOpen = false ∨ out.isSome = true) :
    RangeStep a now c w data (clearFollow (openSlice c1 hdr), out) := by
  obtain ⟨hopenType, htype⟩ := slcType2FrmType_spec hparse
  rcases openSlice_cases c1 hdr with ⟨-, heq⟩ | heq
  · rw [heq]
    generalize hc' : clearFollow _ = c'
    have hopen : c'.isOpen = true := by
      rw [← hc']
      simp [clearFollow, openFrame, Ctx.isOpen, hopenType]
    -- the slice opens a frame: it starts at the border of the one before
    have hopens : opensTo c data (c', out) = true := by
      rcases hout with hout | hout <;> simp [opensTo, hpicture, hopen, hout]
    have hafter : after now c w data (c', out) =
        { ({ w with frames := w.frames ++ out.toList } : Watch) with
          prev := w.touched, touched := some now } := by
      simp [after, hopens, hpicture, hopen]
    rw [RangeStep, hafter]
    refine ⟨?_, hby⟩
    obtain ⟨hlow, hhigh, hfree⟩ := frameBorder_free hI ha hthis hby
    rw [← hc'] at hopen ⊢
    exact opened_ranges hI hclosed hopen rfl rfl (fun _ h => h) rfl htype ⟨hlow, hhigh⟩ (.inl hfree)
  · rw [heq]
    have hclosed' : (clearFollow c1).isOpen = false := hclosed
    apply RangeStep.of_untouched (by simp [hclosed']) _ hby
    exact (cleared_ranges hI hclosed).mono (by omega)

theorem markSlice_ranges (hI : RangeInv a n c w) (hdr : SliceHeader) :
    RangeInv a n (markSlice c hdr) w ∧
      (markSlice c hdr).stThisSC.s64GlobalOffset = c.stThisSC.s64GlobalOffset ∧
      (HeaderNext c w → HeaderNext (markSlice c hdr) w) := by
  rw [markSlice]
  split
  · exact ⟨hI.this _, rfl, id⟩
  · exact ⟨hI, rfl, id⟩

theorem processSlice_ranges (hI : RangeInv a now c w) (ha : a ≤ now) (hspan : now - a < 2 ^ 31)
    (hthis : c.stThisSC.s64GlobalOffset = now) (hby : EndedBy w now)
    (hstd : c.eVideoStandard = .h264) (hpicture : isPicture c.eVideoStandard data = true)
    (hc : (processSlice c data).2.isSome = true → HeaderNext c w) :
    RangeStep a now c w data (processSlice c data) := by
  cases hparse : parseSliceHeader data with
  | none =>
    -- the header cannot be read
    rw [processSlice_none hparse]
    cases hopen : c.isOpen with
    | false =>
      have hclosed : (clearFollow c).isOpen = false := hopen
      apply RangeStep.of_untouched (by simp [hclosed])
      · exact ((cleared_ranges hI hopen).mono (by omega)).congr (by simp) rfl rfl
      · simpa [EndedBy] using hby
    | true =>
      have hopen' : (clearFollow c).isOpen = true := hopen
      have hopens : opensTo c data (clearFollow c, none) = false := by
        simp [opensTo, hstd, hopen]
      have hafter : after now c w data (clearFollow c, none) = { w with touched := some now } := by
        simp [after, hopens, hpicture, hopen']
      rw [RangeStep, hafter]
      exact ⟨touched_ranges hI hstd hopen hopen' rfl rfl rfl hI.type rfl, hby⟩
  | some hdr =>
    obtain ⟨hmark, -, hmarkStd⟩ := markSlice_frame c hdr
    have hmarkOpen : (markSlice c hdr).isOpen = c.isOpen := by simp [Ctx.isOpen, hmark]
    obtain ⟨hImark, hthismark, hcmark⟩ := markSlice_ranges hI hdr
    rw [processSlice_some hparse] at hc ⊢
    rcases sliceFrame_cases (markSlice c hdr) hdr with
      ⟨hclosed, hframe⟩ | ⟨hopen, hframe⟩ | ⟨hopen, hframe⟩
    · rw [hframe]
      apply openSlice_ranges (hImark.congr (by simp) rfl rfl) ha (hthismark.trans hthis) _ hpicture
        hparse hclosed (.inl (hmarkOpen.symm.trans hclosed))
      simpa [EndedBy] using hby
    · -- the slice of another picture
      rw [hframe] at hc ⊢
      have hended := makeFrame_ended _ (hmarkStd.trans hstd) hopen
      obtain ⟨hI1, hby1⟩ := ended_ranges hImark (by omega) (hthismark.trans hthis) hspan hby
        (fun hout => hcmark (hc hout)) hended
      have hthis1 := congrArg ScInfo.s64GlobalOffset hended.same.2.1
      exact openSlice_ranges hI1 ha (hthis1.trans (hthismark.trans hthis)) hby1 hpicture hparse rfl
        (.inr rfl)
    · -- one more slice of the same picture
      obtain ⟨hcont, htype⟩ := continueFrame_spec (slcType2FrmType_spec hparse) hopen
      have hsame := openSlice_cases
        (continueFrame (markSlice c hdr) (slcType2FrmType hdr.s32SliceType)) hdr
      rw [hcont] at hsame
      rw [hframe, hsame.resolve_left (by simp)]
      generalize hc' : clearFollow _ = c'
      have hopen' : c'.isOpen = true := by
        rw [← hc']
        exact hcont
      have hopens : opensTo c data (c', none) = false := by
        simp [opensTo, hstd, hmarkOpen.symm.trans hopen]
      have hafter : after now c w data (c', none) = { w with touched := some now } := by
        simp [after, hopens, hpicture, hopen']
      rw [RangeStep, hafter]
      refine ⟨?_, hby⟩
      rw [← hc'] at hopen' ⊢
      exact touched_ranges hImark (hmarkStd.trans hstd) hopen hopen' rfl rfl rfl
        (fun h => hImark.type (htype h)) rfl

theorem noteNonslice_bordered (hI : RangeInv a n c w) : (noteNonslice c).bordered := by
  rw [noteNonslice]
  split
  · rfl
  · rename_i hne
    exact hI.borderType.resolve_right hne

/-- A parameter set of H.264, which may end a frame. -/
theorem h264Header_ranges (hI : RangeInv a now c w) (ha : a ≤ now) (hspan : now - a < 2 ^ 31)
    (hthis : c.stThisSC.s64GlobalOffset = now) (hby : EndedBy w now)
    (hstd : c.eVideoStandard = .h264) (ends : Bool)
    (hc : (endH264Frame (noteNonslice c) ends).2.isSome = true → HeaderNext c w) :
    let c1 := (endH264Frame (noteNonslice c) ends).1
    let w1 := { w with frames := w.frames ++ (endH264Frame (noteNonslice c) ends).2.toList }
    RangeInv a (now + 1) c1 w1 ∧ EndedBy w1 now ∧ c1.stThisSC.s64GlobalOffset = now ∧
      (c1.isOpen = true → ends = false ∧ c1.bordered ∧
        c1.s32SpsID = (noteNonslice c).s32SpsID ∧ c1.stSEIFollowSlice.s64GlobalOffset ≤ now) := by
  dsimp only
  have htouched : ∀ t, w.touched = some t → t ≤ now := fun t ht => Int.le_of_lt (hI.touched t ht)
  have hInote := noteNonslice_ranges (hI.mono (show now ≤ now + 1 by omega)) hstd ha (by omega)
    hthis hby htouched
  have hnote : (noteNonslice c).stThisSC = c.stThisSC ∧
      (noteNonslice c).eVideoStandard = c.eVideoStandard ∧
      (HeaderNext c w → HeaderNext (noteNonslice c) w) := by
    rw [noteNonslice]
    split <;> exact ⟨rfl, rfl, id⟩
  have hbordered := noteNonslice_bordered hI
  have hended := endH264Frame_ended (noteNonslice c) ends (hnote.2.1.trans hstd)
  have hthis0 : (noteNonslice c).stThisSC.s64GlobalOffset = now := by rw [hnote.1, hthis]
  obtain ⟨hI1, hby1⟩ := ended_ranges hInote (by omega) hthis0 hspan hby
    (fun hout => hnote.2.2 (hc hout)) hended
  refine ⟨hI1, hby1, by rw [hended.same.2.1, hthis0], ?_⟩
  intro hopen
  have hfollow := hended.same.2.2
  have hb1 : (endH264Frame (noteNonslice c) ends).1.bordered := by
    rw [Ctx.bordered, hfollow.1]
    exact hbordered
  have hlt := (hI1.border hb1).2.1
  refine ⟨?_, hb1, hfollow.2, by omega⟩
  -- the frame that is still open has not been ended
  cases ends with
  | false => rfl
  | true =>
    exfalso
    rw [endH264Frame] at hopen
    split at hopen
    · cases hopen
    · rename_i hclosed
      exact hclosed (by simpa using hopen)

theorem processScH264_ranges (hI : RangeInv a now c w) (ha : a ≤ now) (hspan : now - a < 2 ^ 31)
    (hthis : c.stThisSC.s64GlobalOffset = now) (hby : EndedBy w now)
    (hstd : c.eVideoStandard = .h264) (hok : isScWrong data = false)
    (hc : (processScH264 c data).2.isSome = true → HeaderNext c w) :
    RangeStep a now c w data (processScH264 c data) := by
  have htouched : ∀ t, w.touched = some t → t ≤ now := fun t ht => Int.le_of_lt (hI.touched t ht)
  have hpicture : nalUnitType (byteAt data 0) ≠ 5 ∧ nalUnitType (byteAt data 0) ≠ 1 →
      isPicture c.eVideoStandard data = false := by
    intro hnal
    simp [isPicture, hstd, hnal.1, hnal.2]
  -- a start code that leaves the frame alone
  have hkept : nalUnitType (byteAt data 0) ≠ 5 ∧ nalUnitType (byteAt data 0) ≠ 1 →
      RangeStep a now c w data (noteNonslice c, none) := by
    intro hnal
    apply RangeStep.of_untouched (by simp [hpicture hnal])
    · apply (noteNonslice_ranges (hI.mono (by omega)) hstd ha (by omega) hthis hby htouched).congr
      · simp
      · rfl
      · rfl
    · simpa [EndedBy] using hby
  simp only [processScH264] at hc ⊢
  split
  · -- not a NAL unit
    rename_i hhigh
    apply RangeStep.of_untouched (by simp [isPicture, hstd, hhigh])
    · exact (hI.mono (by omega)).congr (by simp) rfl rfl
    · simpa [EndedBy] using hby
  · rename_i hlow
    rw [if_neg hlow] at hc
    split
    · rename_i hnal
      have hnonslice : nalUnitType (byteAt data 0) ≠ 5 ∧ nalUnitType (byteAt data 0) ≠ 1 := by
        omega
      rw [if_pos hnal] at hc
      rw [processSps] at hc ⊢
      cases hparse : parseSPS data with
      | none => exact hkept hnonslice
      | some spsID =>
        rw [hparse] at hc
        dsimp only at hc ⊢
        obtain ⟨hI1, hby1, hthis1, hopen1⟩ :=
          h264Header_ranges hI ha hspan hthis hby hstd _ hc
        refine RangeStep.of_untouched (by simp [hpicture hnonslice]) ?_ hby1
        apply header_ranges hI1 ha (by omega) hthis1 hby1
        intro hopen
        obtain ⟨hends, hb, hid, hle⟩ := hopen1 hopen
        rw [hid]
        exact ⟨hb, hle, by simpa using hends⟩
    · rename_i hnot7
      rw [if_neg hnot7] at hc
      split
      · rename_i hnal
        have hnonslice : nalUnitType (byteAt data 0) ≠ 5 ∧ nalUnitType (byteAt data 0) ≠ 1 := by
          omega
        rw [if_pos hnal] at hc
        rw [processPps] at hc ⊢
        cases hparse : parsePPS data with
        | none => exact hkept hnonslice
        | some ids =>
          rw [hparse] at hc
          dsimp only at hc ⊢
          split
          · rename_i hsps
            rw [if_pos hsps] at hc
            obtain ⟨hI1, hby1, -, -⟩ := h264Header_ranges hI ha hspan hthis hby hstd _ hc
            refine RangeStep.of_untouched (by simp [hpicture hnonslice]) ?_ hby1
            exact { hI1 with }
          · exact hkept hnonslice
      · rename_i hnot8
        rw [if_neg hnot8] at hc
        split
        · rename_i hslice
          rw [if_pos hslice] at hc
          apply processSlice_ranges hI ha hspan hthis hby hstd _ hc
          simp only [isPicture, hok, hstd]
          simpa using ⟨not_not.mp hlow, by simpa using hslice⟩
        · rename_i hslice
          exact hkept (by simpa using hslice)

end Parts

/-! ## Runs -/

/-- The offsets of the start codes rise, and span less than `2 ^ 31`. -/
def Rising (s : Ctx × Watch) (sc : FindexScd) : Prop :=
  (∀ l ∈ s.2.last, l < sc.s64GlobalOffset) ∧ ∀ a ∈ s.2.first, sc.s64GlobalOffset - a < 2 ^ 31

/-- A frame that begins at a header and is handed out: the start code of no other picture
    stands between this header and the frame. -/
def HeaderUsedNext (s : Ctx × Watch) (sc : FindexScd) : Prop :=
  frameOut (feedStartCode s.1 sc).2 ≠ none → borrowed s.1 = true →
    ∀ t ∈ s.2.prev, t < frameStart s.1

instance (s : Ctx × Watch) (sc : FindexScd) : Decidable (Rising s sc) :=
  inferInstanceAs (Decidable (_ ∧ _))

instance (s : Ctx × Watch) (sc : FindexScd) : Decidable (HeaderUsedNext s sc) :=
  inferInstanceAs (Decidable (_ → _))

/-- What a start code promises. -/
structure RangesOk (s : Ctx × Watch) (sc : FindexScd) : Prop where
  /-- the ranges handed out so far follow one another -/
  ordered : (watched.step s sc).1.2.frames.Pairwise fun f g =>
    f.s64GlobalOffset + f.s32FrameSize ≤ g.s64GlobalOffset
  /-- none begins before the first start code -/
  bounded : ∀ f ∈ (watched.step s sc).1.2.frames, 0 ≤ f.s32FrameSize ∧
    ∃ a, (watched.step s sc).1.2.first = some a ∧ a ≤ f.s64GlobalOffset

/-- What holds behind every start code of a run. -/
def RunInv (std : VidStd) (s : Ctx × Watch) : Prop :=
  s = (openInstance std, {}) ∨
    ∃ a l, s.2.first = some a ∧ s.2.last = some l ∧ a ≤ l ∧ RangeInv a (l + 1) s.1 s.2 ∧
      EndedBy s.2 l

theorem start_ranges (std : VidStd) (a n : Int) : RangeInv a n (openInstance std) {} where
  ordered := List.Pairwise.nil
  sizes := nofun
  header := nofun
  headerClosed := nofun
  headerOpen := nofun
  touched := nofun
  prev := nofun
  start := nofun
  startFree := nofun
  border := nofun
  borderType := .inr rfl
  noBorder := nofun
  fresh := nofun
  current := nofun
  type := nofun

/-- The invariant in front of a start code. -/
theorem RunInv.before {std : VidStd} {s : Ctx × Watch} {sc : FindexScd} (h : RunInv std s)
    (hrise : Rising s sc) :
    let a := s.2.first.getD sc.s64GlobalOffset
    RangeInv a sc.s64GlobalOffset s.1 s.2 ∧ EndedBy s.2 sc.s64GlobalOffset ∧
      a ≤ sc.s64GlobalOffset ∧ sc.s64GlobalOffset - a < 2 ^ 31 := by
  rcases h with rfl | ⟨a, l, ha, hl, hle, hI, hby⟩
  · exact ⟨start_ranges std _ _, nofun, Int.le_refl _, by simp⟩
  · have hlt := hrise.1 l hl
    have hspan := hrise.2 a ha
    simp only [ha, Option.getD_some]
    exact ⟨hI.mono (by omega), hby.mono (by omega), by omega, hspan⟩

/-- A start code that is not a PES header. -/
theorem feed_ranges {a : Int} {c : Ctx} {w : Watch} {sc : FindexScd}
    (hI : RangeInv a sc.s64GlobalOffset c w) (ha : a ≤ sc.s64GlobalOffset)
    (hspan : sc.s64GlobalOffset - a < 2 ^ 31) (hby : EndedBy w sc.s64GlobalOffset)
    (hpes : isPesSC sc.u8StartCode.toNat c.eVideoStandard = false)
    (hc : (feedStartCode c sc).2.isSome = true → HeaderNext c w) :
    RangeStep a sc.s64GlobalOffset (c.at sc) w sc.data (feedStartCode c sc) := by
  have hIat : RangeInv a sc.s64GlobalOffset (c.at sc) w := hI.this _
  have hcat : HeaderNext c w → HeaderNext (c.at sc) w := id
  rw [feedStartCode_eq c sc hpes, processThisSC] at hc ⊢
  split
  · rename_i hwrong
    apply RangeStep.of_untouched (by simp [isPicture, hwrong])
    · exact (hIat.mono (by omega)).congr (by simp) rfl rfl
    · simpa [EndedBy] using hby
  · rename_i hright
    have hok : isScWrong sc.data = false := by simpa using hright
    rw [if_neg hright] at hc
    split at hc
    · rename_i hstd
      exact mpeg_ranges hIat ha hspan rfl hby (by simp [hstd]) (fun h => hcat (hc h))
        (processScMpeg2_turn _ _ hstd hok)
    · rename_i hstd
      exact processScH264_ranges hIat ha hspan rfl hby hstd hok fun h => hcat (hc h)
    · rename_i hstd
      exact mpeg_ranges hIat ha hspan rfl hby (by simp [hstd]) (fun h => hcat (hc h))
        (processScMpeg4_turn _ _ hstd hok)
    · rename_i hstd
      exact mpeg_ranges hIat ha hspan rfl hby (by simp [hstd]) (fun h => hcat (hc h))
        (processScAvs_turn _ _ hstd hok)
    · -- a standard that has no frames
      have hpicture : isPicture (c.at sc).eVideoStandard sc.data = false := by
        cases hstd : (c.at sc).eVideoStandard <;> simp_all [isPicture]
      apply RangeStep.of_untouched (by simp [hpicture])
      · exact (hIat.mono (by omega)).congr (by simp) rfl rfl
      · simpa [EndedBy] using hby

/-- A start code that is not a PES header hands out no PES header. -/
theorem frameOut_eq {c : Ctx} (sc : FindexScd) (htype : c.stNewFramePos.eFrameType ≠ .pesh)
    (hpes : isPesSC sc.u8StartCode.toNat c.eVideoStandard = false) :
    frameOut (feedStartCode c sc).2 = (feedStartCode c sc).2 := by
  obtain ⟨c0, c1, border, hframe, -, hended, -⟩ := feed_turn c sc hpes
  generalize (feedStartCode c sc).2 = out at hended
  cases hended with
  | kept => rfl
  | dropped f hopen hf hneg => rfl
  | output f fresh hopen hpesh hpts hstart hsize hfresh =>
    have hf : f.eFrameType ≠ .pesh := fun h => htype (hframe ▸ hpesh h)
    simp [frameOut, Option.filter, hf]

theorem ranges_step {std : VidStd} (s : Ctx × Watch) (sc : FindexScd) (hI : RunInv std s)
    (hc : Rising s sc ∧ HeaderUsedNext s sc) :
    RangesOk s sc ∧ RunInv std (watched.step s sc).1 := by
  obtain ⟨c, w⟩ := s
  obtain ⟨hI0, hby, ha, hspan⟩ := hI.before hc.1
  dsimp only at hI0 hby ha hspan
  generalize hfirst : w.first.getD sc.s64GlobalOffset = a at hI0 ha hspan
  -- one start code, of a PES header or of the video itself
  have hstep : RangeInv a (sc.s64GlobalOffset + 1) (feedStartCode c sc).1 (w.next c sc) ∧
      EndedBy (w.next c sc) sc.s64GlobalOffset := by
    cases hpes : isPesSC sc.u8StartCode.toNat c.eVideoStandard with
    | true =>
      obtain ⟨heq, hout, htouches, hopens⟩ := feedStartCode_pes c sc hpes
      constructor
      · rw [heq]
        apply RangeInv.congr (w := w)
        · exact { hI0.mono (show sc.s64GlobalOffset ≤ sc.s64GlobalOffset + 1 by omega) with }
        · simp [Watch.next, hout]
        · simp [Watch.next, htouches]
        · simp [Watch.next, hopens]
      · simpa [EndedBy, Watch.next, hout] using hby
    | false =>
      have hout := frameOut_eq sc hI0.type hpes
      obtain ⟨hI1, hby1⟩ := feed_ranges hI0 ha hspan hby hpes fun hsome hborrowed =>
        hc.2 (by rw [hout]; exact Option.isSome_iff_ne_none.mp hsome) hborrowed
      constructor
      · apply hI1.congr
        · simp [Watch.next, hout, after]
        · rfl
        · rfl
      · simpa [EndedBy, Watch.next, hout, after] using hby1
  refine ⟨⟨hstep.1.ordered, ?_⟩, .inr ⟨a, sc.s64GlobalOffset, ?_, rfl, ha, hstep.1, hstep.2⟩⟩
  · intro f hf
    obtain ⟨hlow, hpos⟩ := hstep.1.sizes f hf
    exact ⟨hpos, a, by rw [← hfirst]; rfl, hlow⟩
  · rw [← hfirst]
    rfl

/-- Every sequence of start codes with rising offsets, for every standard, in which every
    header is used by the next picture. -/
theorem ranges_disjoint (std : VidStd) (scs : List FindexScd)
    (hrise : watched.Always Rising (openInstance std, {}) scs)
    (hc : watched.Always HeaderUsedNext (openInstance std, {}) scs) :
    watched.Always RangesOk (openInstance std, {}) scs :=
  (Machine.always_of_invariant (I := RunInv std) ranges_step (.inl rfl)
    (Machine.Always.and _ hrise hc)).1

/-- The start codes of an H.264 stream: sequence and picture parameter sets, an I slice and a
    P slice. -/
def h264Sps (offset : Int) : FindexScd :=
  { u8StartCode := 0x67, s64GlobalOffset := offset, au8DataAfterSC := [66, 0, 30, 0x80] }

def h264Pps (offset : Int) : FindexScd :=
  { u8StartCode := 0x68, s64GlobalOffset := offset, au8DataAfterSC := [0xc0] }

def h264ISlice (offset : Int) : FindexScd :=
  { u8StartCode := 0x65, s64GlobalOffset := offset, au8DataAfterSC := [0x88, 0x80] }

def h264PSlice (offset : Int) : FindexScd :=
  { u8StartCode := 0x41, s64GlobalOffset := offset, au8DataAfterSC := [0x9a] }

/-- Two groups of pictures, each with its parameter sets in front. -/
theorem ranges_disjoint_h264 :
    watched.Always RangesOk (openInstance .h264, {})
      [h264Sps 0, h264Pps 30, h264ISlice 40, h264PSlice 1000, h264Sps 2000, h264Pps 2030,
        h264ISlice 2040, h264PSlice 3000] :=
  ranges_disjoint .h264 _ (by decide +kernel) (by decide +kernel)

/-- A sequence header of AVS, an I picture, another I picture and the end of the sequence. -/
def avsPictures : List FindexScd :=
  [{ u8StartCode := 0xb0, s64GlobalOffset := 0 }, { u8StartCode := 0xb3, s64GlobalOffset := 10 },
    { u8StartCode := 0xb3, s64GlobalOffset := 100 }, { u8StartCode := 0xb1, s64GlobalOffset := 200 }]

/-- The frames of both pictures begin at the header. -/
theorem header_used_twice :
    watched.Always Rising (openInstance .avs, {}) avsPictures ∧
      ¬ watched.Always RangesOk (openInstance .avs, {}) avsPictures := by
  constructor
  · decide +kernel
  · rintro ⟨-, -, -, hlast, -⟩
    exact absurd hlast.ordered (by decide +kernel)

end Tntsat.FrameIndex
