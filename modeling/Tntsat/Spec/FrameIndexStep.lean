import Tntsat.Native.FrameIndex

/-!
# A start code, step by step

What one call of `FIDX_FeedStartCode` can do: it ends the frame that is open or leaves it
alone, and then remembers a header, opens a frame, or does neither.  The state of a run is
kept beside a `Watch`, which notes what has been fed and what has been handed out.

## Key results

- `processScMpeg2_turn`, `processScAvs_turn`, `processScMpeg4_turn`: the steps of the standards
  that end their frames in the same way
- `feed_turn`: the steps of all standards, as far as PTS are concerned
-/

namespace Tntsat.FrameIndex

/-! ## What is watched -/

/-- The start code is that of a picture. -/
def isPicture (std : VidStd) (data : List UInt8) : Bool :=
  !isScWrong data &&
    match std with
    | .mpeg2 => byteAt data 0 = 0x00
    | .avs => byteAt data 0 = 0xb3 || byteAt data 0 = 0xb6
    | .mpeg4 => byteAt data 0 = 0xb6
    | .h264 =>
      byteAt data 0 &&& 0x80 = 0 &&
        (nalUnitType (byteAt data 0) = 5 || nalUnitType (byteAt data 0) = 1)
    | _ => false

/-- The start code belongs to the picture whose frame is open behind it. -/
def touches (c : Ctx) (sc : FindexScd) : Bool :=
  isPicture c.eVideoStandard sc.data && (feedStartCode c sc).1.isOpen

/-- The start code opens the frame that is open behind it.  For H.264 it may also be a
    slice of the frame that was open before. -/
def opens (c : Ctx) (sc : FindexScd) : Bool :=
  touches c sc &&
    (c.eVideoStandard ≠ .h264 || !c.isOpen || (feedStartCode c sc).2.isSome)

/-- A PES header: its number, and its PTS. -/
structure Pes where
  number : Nat
  u32PTS : Nat
deriving DecidableEq

/-- What has been fed to an instance, and what it has handed out. -/
structure Watch where
  /-- the offset of the first start code -/
  first : Option Int := none
  /-- the offset of the latest one -/
  last : Option Int := none
  /-- the offset of the latest one that belongs to a picture -/
  touched : Option Int := none
  /-- the one before that of the frame that is open -/
  prev : Option Int := none
  /-- the number of PES headers -/
  pesNum : Nat := 0
  /-- the latest one -/
  pes : Option Pes := none
  /-- the latest one before the frame that is open -/
  opener : Option Pes := none
  /-- the frames that have been handed out -/
  frames : List FramePos := []
  /-- their PTS, each with the latest PES header before its frame -/
  given : List (Nat × Option Pes) := []

/-- The frame that is handed out, if it is not a PES header. -/
def frameOut (out : Option FramePos) : Option FramePos :=
  out.filter fun f => f.eFrameType ≠ .pesh

/-- One start code more. -/
def Watch.next (c : Ctx) (w : Watch) (sc : FindexScd) : Watch :=
  let out := frameOut (feedStartCode c sc).2
  let pes := isPesSC sc.u8StartCode.toNat c.eVideoStandard
  { first := some (w.first.getD sc.s64GlobalOffset)
    last := some sc.s64GlobalOffset
    touched := if touches c sc then some sc.s64GlobalOffset else w.touched
    prev := if opens c sc then w.touched else w.prev
    pesNum := if pes then w.pesNum + 1 else w.pesNum
    pes := if pes then some ⟨w.pesNum, sc.u32PtsMs⟩ else w.pes
    opener := if opens c sc then w.pes else w.opener
    frames := w.frames ++ out.toList
    given := w.given ++ (out.map fun f => (f.u32PTS, w.opener)).toList }

/-- An instance that is watched. -/
def watched : Machine (Ctx × Watch) FindexScd (Option FramePos) where
  step s sc := (((feedStartCode s.1 sc).1, s.2.next s.1 sc), (feedStartCode s.1 sc).2)

/-! ## Ending a frame -/

/-- Where the frame that is open begins, once it is handed out. -/
def frameStart (c : Ctx) : Int :=
  if c.eVideoStandard = .h264 ∧ c.stNewFramePos.eFrameType = .i ∧ c.u8SpsFresh c.s32SpsID then
    (c.stSPS c.s32SpsID).s64GlobalOffset
  else c.stNewFramePos.s64GlobalOffset

/-- The frame that is open is left alone, dropped, or handed out up to a border. -/
inductive Ended (c : Ctx) (border : Int) : Ctx → Option FramePos → Prop
  | kept : Ended c border c none
  | dropped (f : FramePos) (hopen : c.isOpen = true) (hf : f.eFrameType = .unknown)
      (hneg : s32 (border - frameStart c) < 0) :
      Ended c border { c with stNewFramePos := f } none
  | output (f : FramePos) (fresh : Nat → Bool) (hopen : c.isOpen = true)
      (htype : f.eFrameType = .pesh → c.stNewFramePos.eFrameType = .pesh)
      (hpts : f.u32PTS = c.stNewFramePos.u32PTS) (hstart : f.s64GlobalOffset = frameStart c)
      (hsize : f.s32FrameSize = s32 (border - frameStart c))
      (hfresh : ∀ k, fresh k = true → c.u8SpsFresh k = true) :
      Ended c border { c with stNewFramePos := {}, u8SpsFresh := fresh } (some f)

theorem isOpen_eq_false {c : Ctx} (h : c.stNewFramePos.eFrameType = .unknown) :
    c.isOpen = false := by
  simp [Ctx.isOpen, h]

/-- Behind a frame that was ended none is open. -/
theorem Ended.closed {c c' : Ctx} {border : Int} {f : FramePos}
    (h : Ended c border c' (some f)) : c'.isOpen = false := by
  cases h
  rfl

/-- Ending a frame that may be open. -/
theorem endFrame_ended (c : Ctx) (ends : Bool) (hstd : c.eVideoStandard ≠ .h264) :
    ∃ c1 out, (if c.isOpen && ends then endFrame c else (c, none)) = (c1, out) ∧
      Ended c c.stThisSC.s64GlobalOffset c1 out ∧ (ends = true → c1.isOpen = false) := by
  have hstart : frameStart c = c.stNewFramePos.s64GlobalOffset := by simp [frameStart, hstd]
  by_cases hopen : c.isOpen = true
  · cases ends with
    | false => exact ⟨c, none, by simp, .kept, by simp⟩
    | true =>
      simp only [hopen, Bool.and_self, if_true, endFrame]
      split
      · rename_i hneg
        refine ⟨_, _, rfl, .dropped _ hopen rfl ?_, fun _ => rfl⟩
        rw [hstart]
        exact hneg
      · refine ⟨_, _, rfl, .output _ c.u8SpsFresh hopen id rfl ?_ ?_ fun _ h => h, fun _ => rfl⟩
        · exact hstart.symm
        · rw [hstart]
  · have hclosed : c.isOpen = false := by simpa using hopen
    exact ⟨c, none, by simp [hclosed], .kept, fun _ => hclosed⟩

/-- Ending a frame of H.264. -/
theorem makeFrame_ended (c : Ctx) (hstd : c.eVideoStandard = .h264) (hopen : c.isOpen = true) :
    Ended c (frameBorder c) (outputFrame (h264MakeFrame c)).1 (outputFrame (h264MakeFrame c)).2 := by
  simp only [outputFrame, h264MakeFrame]
  split
  · -- the frame begins at its header
    rename_i hi
    have hstart : frameStart c = (c.stSPS c.s32SpsID).s64GlobalOffset := by
      simp [frameStart, hstd, hi]
    refine .output _ _ hopen id rfl hstart.symm (by rw [hstart]) ?_
    intro k hk
    by_cases hsame : k = c.s32SpsID
    · simp [hsame] at hk
    · simpa [hsame] using hk
  · rename_i hi
    have hstart : frameStart c = c.stNewFramePos.s64GlobalOffset := by
      simp only [frameStart, hstd, true_and]
      rw [if_neg hi]
    refine .output _ _ hopen ?_ rfl hstart.symm (by rw [hstart]) fun _ h => h
    dsimp only
    split
    · nofun
    · exact id

theorem endH264Frame_ended (c : Ctx) (ends : Bool) (hstd : c.eVideoStandard = .h264) :
    Ended c (frameBorder c) (endH264Frame c ends).1 (endH264Frame c ends).2 := by
  rw [endH264Frame]
  split
  · rename_i h
    exact makeFrame_ended c hstd (Bool.and_eq_true_iff.mp h).1
  · exact .kept

/-! ## MPEG-2, AVS and MPEG-4 -/

/-- What comes behind the end of a frame. -/
inductive Turn (picture : Bool) (c c' : Ctx) : Prop
  | kept (heq : c' = c) (hclosed : picture = true → c.isOpen = false)
  | header (k id : Nat) (fresh : Bool) (heq : c' = storeSps c k id fresh)
      (hpicture : picture = false) (hclosed : c.isOpen = false)
  | opened (fresh : Nat → Bool) (t : FrameType) (offset : Int)
      (heq : c' = openFrame { c with u8SpsFresh := fresh } t offset) (hpicture : picture = true)
      (hclosed : c.isOpen = false) (hfresh : ∀ k, fresh k = true → c.u8SpsFresh k = true)
      (hstart : t = .i ∧ (∃ k, (c.stSPS k).eScType = .sps ∧
          offset = (c.stSPS k).s64GlobalOffset) ∨
        (t = .p ∨ t = .b) ∧ offset = c.stThisSC.s64GlobalOffset)

theorem update_false {fresh : Nat → Bool} {i : Nat} (k : Nat)
    (h : Function.update fresh i false k = true) : fresh k = true := by
  by_cases hk : k = i
  · simp [hk] at h
  · simpa [hk] using h

/-- The steps of a standard that ends its frames with `endFrame`. -/
def MpegTurn (c : Ctx) (data : List UInt8) (r : Ctx × Option FramePos) : Prop :=
  ∃ c1, Ended c c.stThisSC.s64GlobalOffset c1 r.2 ∧
    Turn (isPicture c.eVideoStandard data) c1 r.1

theorem processScMpeg2_turn (c : Ctx) (data : List UInt8) (hstd : c.eVideoStandard = .mpeg2)
    (hok : isScWrong data = false) : MpegTurn c data (processScMpeg2 c data) := by
  obtain ⟨c1, out, heq, hended, hclosed⟩ :=
    endFrame_ended c (byteAt data 0 = 0xb3 || byteAt data 0 = 0x00) (by simp [hstd])
  -- the frame in front is ended first; what follows depends on the code alone
  suffices h : ∃ c', processScMpeg2 c data = (c', out) ∧ Turn (isPicture .mpeg2 data) c1 c' by
    obtain ⟨c', hc', hturn⟩ := h
    rw [MpegTurn, hc', hstd]
    exact ⟨c1, hended, hturn⟩
  simp only [processScMpeg2, heq, isPicture, hok]
  by_cases hb3 : byteAt data 0 = 0xb3
  · rw [if_pos hb3]
    exact ⟨_, rfl, .header _ _ _ rfl (by simp [hb3]) (hclosed (by simp [hb3]))⟩
  · rw [if_neg hb3]
    by_cases h00 : byteAt data 0 = 0x00
    · have hc1 : c1.isOpen = false := hclosed (by simp [h00])
      rw [if_pos h00]
      -- a picture opens a frame where a header has been seen
      by_cases hsps : (c1.stSPS 0).eScType = .sps
      · simp only [hsps, ne_eq, not_true_eq_false, if_false]
        split
        · exact ⟨c1, rfl, .kept rfl fun _ => hc1⟩
        · split
          · exact ⟨_, rfl, .opened _ _ _ rfl (by simp [h00]) hc1 update_false
              (.inl ⟨rfl, 0, hsps, rfl⟩)⟩
          · refine ⟨_, rfl, .opened _ _ _ rfl (by simp [h00]) hc1 (fun _ h => h) (.inr ⟨?_, rfl⟩)⟩
            split <;> simp
      · rw [if_pos hsps]
        exact ⟨c1, rfl, .kept rfl fun _ => hc1⟩
    · rw [if_neg h00]
      exact ⟨c1, rfl, .kept rfl (by simp [h00])⟩

theorem processScAvs_turn (c : Ctx) (data : List UInt8) (hstd : c.eVideoStandard = .avs)
    (hok : isScWrong data = false) : MpegTurn c data (processScAvs c data) := by
  obtain ⟨c1, out, heq, hended, hclosed⟩ :=
    endFrame_ended c (byteAt data 0 = 0xb0 || byteAt data 0 = 0xb1 || byteAt data 0 = 0xb3 ||
      byteAt data 0 = 0xb6) (by simp [hstd])
  -- the frame in front is ended first; what follows depends on the code alone
  suffices h : ∃ c', processScAvs c data = (c', out) ∧ Turn (isPicture .avs data) c1 c' by
    obtain ⟨c', hc', hturn⟩ := h
    rw [MpegTurn, hc', hstd]
    exact ⟨c1, hended, hturn⟩
  simp only [processScAvs, heq, isPicture, hok]
  by_cases hb0 : byteAt data 0 = 0xb0
  · rw [if_pos hb0]
    exact ⟨_, rfl, .header _ _ _ rfl (by simp [hb0]) (hclosed (by simp [hb0]))⟩
  · rw [if_neg hb0]
    by_cases hpicture : (byteAt data 0 = 0xb3 || byteAt data 0 = 0xb6) = true
    · have hc1 : c1.isOpen = false := by
        apply hclosed
        simp only [Bool.or_eq_true, decide_eq_true_eq] at hpicture ⊢
        tauto
      rw [if_pos hpicture]
      -- a picture opens a frame where a header has been seen
      by_cases hsps : (c1.stSPS 0).eScType = .sps
      · simp only [hsps, ne_eq, not_true_eq_false, if_false]
        split
        · exact ⟨_, rfl, .opened c1.u8SpsFresh _ _ rfl (by simpa using hpicture) hc1 (fun _ h => h)
            (.inl ⟨rfl, 0, hsps, rfl⟩)⟩
        · generalize (if byteAt data 0 = 0xb6 then byteAt data 3 >>> 6 &&& 3 else 1) = codingType
          split
          · refine ⟨_, rfl, .opened c1.u8SpsFresh _ _ rfl (by simpa using hpicture) hc1
              (fun _ h => h) (.inr ⟨?_, rfl⟩)⟩
            split <;> simp
          · exact ⟨c1, rfl, .kept rfl fun _ => hc1⟩
      · rw [if_pos hsps]
        exact ⟨c1, rfl, .kept rfl fun _ => hc1⟩
    · rw [if_neg hpicture]
      exact ⟨c1, rfl, .kept rfl fun h => absurd (by simpa using h) hpicture⟩

/-- The header that MPEG-4 selects is one of those that are remembered. -/
theorem latestSps_spec (c : Ctx) (h3 : (c.stSPS 3).eScType = .sps) :
    ∃ k, (c.stSPS k).eScType = .sps ∧
      (latestSps c).s64GlobalOffset = (c.stSPS k).s64GlobalOffset := by
  have hselect : ∀ k, ∀ selected : ScInfo, (∃ j, (c.stSPS j).eScType = .sps ∧ selected = c.stSPS j) →
      ∃ j, (c.stSPS j).eScType = .sps ∧ selectSps (c.stSPS k) selected = c.stSPS j := by
    intro k selected hj
    rw [selectSps]
    split
    · rename_i hk
      exact ⟨k, hk.1, rfl⟩
    · exact hj
  obtain ⟨k, hk, heq⟩ := hselect 0 _ (hselect 1 _ (hselect 2 _ ⟨3, h3, rfl⟩))
  exact ⟨k, hk, congrArg ScInfo.s64GlobalOffset heq⟩

theorem processScMpeg4_turn (c : Ctx) (data : List UInt8) (hstd : c.eVideoStandard = .mpeg4)
    (hok : isScWrong data = false) : MpegTurn c data (processScMpeg4 c data) := by
  obtain ⟨c1, out, heq, hended, hclosed⟩ :=
    endFrame_ended c (byteAt data 0 ≠ 0xb2) (by simp [hstd])
  suffices h : ∃ c', processScMpeg4 c data = (c', out) ∧ Turn (isPicture .mpeg4 data) c1 c' by
    obtain ⟨c', hc', hturn⟩ := h
    rw [MpegTurn, hc', hstd]
    exact ⟨c1, hended, hturn⟩
  simp only [processScMpeg4, heq, isPicture, hok]
  by_cases hb6 : byteAt data 0 = 0xb6
  · have hc1 : c1.isOpen = false := hclosed (by simp [hb6])
    rw [if_neg (by omega), if_neg (by omega), if_neg (by omega), if_neg (by simp [hb6]),
      if_pos hb6]
    by_cases hsps : (c1.stSPS 3).eScType = .sps
    · simp only [hsps, ne_eq, not_true_eq_false, if_false]
      split
      · exact ⟨c1, rfl, .kept rfl fun _ => hc1⟩
      · split
        · exact ⟨_, rfl, .opened _ _ _ rfl (by simp [hb6]) hc1 update_false
            (.inl ⟨rfl, latestSps_spec c1 hsps⟩)⟩
        · refine ⟨_, rfl, .opened _ _ _ rfl (by simp [hb6]) hc1 (fun _ h => h) (.inr ⟨?_, rfl⟩)⟩
          split <;> simp
    · rw [if_pos hsps]
      exact ⟨c1, rfl, .kept rfl fun _ => hc1⟩
  · -- one of the four levels of headers, or nothing
    have hpicture : (!false && decide (byteAt data 0 = 0xb6)) = false := by simp [hb6]
    rw [hpicture]
    have hstore : ∀ k fresh, byteAt data 0 ≠ 0xb2 →
        Turn false c1 (storeSps c1 k (byteAt data 0) fresh) := by
      intro k fresh hb2
      exact .header _ _ _ rfl rfl (hclosed (by simp [hb2]))
    split
    · exact ⟨_, rfl, hstore _ _ (by omega)⟩
    · split
      · exact ⟨_, rfl, hstore _ _ (by omega)⟩
      · split
        · exact ⟨_, rfl, hstore _ _ (by omega)⟩
        · split
          · rename_i hlevel
            simp only [Bool.and_eq_true, decide_eq_true_eq] at hlevel
            exact ⟨_, rfl, hstore _ _ (by omega)⟩
          · exact ⟨_, rfl, .kept rfl nofun⟩

/-! ## The PTS -/

/-- What comes behind the end of a frame, as far as PTS are concerned. -/
inductive PtsTurn (c c' : Ctx) : Bool → Prop
  | kept (hopen : c'.isOpen = c.isOpen) (hpts : c'.u32PTS = c.u32PTS)
      (hframe : c'.stNewFramePos.u32PTS = c.stNewFramePos.u32PTS)
      (htype : c'.stNewFramePos.eFrameType = .pesh → c.stNewFramePos.eFrameType = .pesh) :
      PtsTurn c c' false
  | opened (hclosed : c.isOpen = false) (hopen : c'.isOpen = true) (hpts : c'.u32PTS = 0xffffffff)
      (hframe : c'.stNewFramePos.u32PTS = c.u32PTS)
      (htype : c'.stNewFramePos.eFrameType ≠ .pesh) : PtsTurn c c' true

/-- Whether a frame is opened, by the result of the step. -/
def opensTo (c : Ctx) (data : List UInt8) (r : Ctx × Option FramePos) : Bool :=
  isPicture c.eVideoStandard data && r.1.isOpen &&
    (c.eVideoStandard ≠ .h264 || !c.isOpen || r.2.isSome)

/-- A start code that is not a PES header. -/
def PtsStep (c : Ctx) (data : List UInt8) (r : Ctx × Option FramePos) : Prop :=
  ∃ c0 c1 border, c0.stNewFramePos = c.stNewFramePos ∧ c0.u32PTS = c.u32PTS ∧
    Ended c0 border c1 r.2 ∧ PtsTurn c1 r.1 (opensTo c data r)

/-- A step that opens nothing and ends nothing. -/
theorem ptsStep_kept (c c' : Ctx) {data : List UInt8} (hopen : c'.isOpen = c.isOpen)
    (hpts : c'.u32PTS = c.u32PTS) (hframe : c'.stNewFramePos.u32PTS = c.stNewFramePos.u32PTS)
    (htype : c'.stNewFramePos.eFrameType = .pesh → c.stNewFramePos.eFrameType = .pesh)
    (hopens : opensTo c data (c', none) = false) : PtsStep c data (c', none) := by
  refine ⟨c, c, 0, rfl, rfl, .kept, ?_⟩
  rw [hopens]
  exact .kept hopen hpts hframe htype

theorem mpeg_pts {c : Ctx} {data : List UInt8} {r : Ctx × Option FramePos}
    (hstd : c.eVideoStandard ≠ .h264) (h : MpegTurn c data r) : PtsStep c data r := by
  obtain ⟨c', out⟩ := r
  obtain ⟨c1, hended, hturn⟩ := h
  refine ⟨c, c1, _, rfl, rfl, hended, ?_⟩
  -- only a picture takes up the time stamp that waits
  cases hturn with
  | kept heq hclosed =>
    have hopens : opensTo c data (c', out) = false := by
      cases hpicture : isPicture c.eVideoStandard data with
      | false => simp [opensTo, hpicture]
      | true =>
        have hc' : c'.isOpen = false := by
          rw [show c' = c1 from heq]
          exact hclosed hpicture
        simp [opensTo, hc']
    rw [hopens, show c' = c1 from heq]
    exact .kept rfl rfl rfl id
  | header k id fresh heq hpicture hclosed =>
    have hopens : opensTo c data (c', out) = false := by simp [opensTo, hpicture]
    rw [hopens, show c' = storeSps c1 k id fresh from heq]
    exact .kept rfl rfl rfl fun h => h
  | opened fresh t offset heq hpicture hclosed hfresh hstart =>
    have ht : t ≠ .unknown ∧ t ≠ .pesh := by
      rcases hstart with ⟨rfl, -⟩ | ⟨rfl | rfl, -⟩ <;> simp
    have hopen : c'.isOpen = true := by
      rw [show c' = _ from heq]
      simp [openFrame, Ctx.isOpen, ht.1]
    have hopens : opensTo c data (c', out) = true := by simp [opensTo, hpicture, hopen, hstd]
    rw [hopens]
    rw [show c' = _ from heq] at hopen ⊢
    exact .opened hclosed hopen rfl rfl ht.2

/-- The slice types that are read. -/
theorem slcType2FrmType_spec {data : List UInt8} {hdr : SliceHeader}
    (h : parseSliceHeader data = some hdr) :
    slcType2FrmType hdr.s32SliceType ≠ .unknown ∧ slcType2FrmType hdr.s32SliceType ≠ .pesh := by
  simp only [parseSliceHeader, Option.bind_eq_bind, Option.bind_eq_some_iff] at h
  obtain ⟨⟨pos, firstMb⟩, -, ⟨pos', sliceType⟩, hslice, h⟩ := h
  dsimp only at h
  split at h
  · cases h
  · rename_i hne
    obtain ⟨⟨pos'', ppsID⟩, -, h⟩ := Option.bind_eq_some_iff.mp h
    cases h
    have hle : sliceType ≤ 7 := by
      simp only [getUe] at hslice
      split at hslice
      · rename_i hbound
        cases hslice
        exact hbound.1
      · cases hslice
    have htypes : ∀ n < 8, ¬ (n = 3 ∨ n = 4) →
        slcType2FrmType n ≠ .unknown ∧ slcType2FrmType n ≠ .pesh := by decide
    exact htypes sliceType (by omega) hne

/-- A start code of H.264 that is not a slice opens nothing. -/
theorem opensTo_nonslice {c : Ctx} {data : List UInt8} (hstd : c.eVideoStandard = .h264)
    (h : nalUnitType (byteAt data 0) ≠ 5 ∧ nalUnitType (byteAt data 0) ≠ 1)
    (r : Ctx × Option FramePos) : opensTo c data r = false := by
  simp [opensTo, isPicture, hstd, h.1, h.2]

theorem noteNonslice_frame (c : Ctx) :
    (noteNonslice c).stNewFramePos = c.stNewFramePos ∧ (noteNonslice c).u32PTS = c.u32PTS ∧
      (noteNonslice c).eVideoStandard = c.eVideoStandard := by
  rw [noteNonslice]
  split <;> exact ⟨rfl, rfl, rfl⟩

/-- A parameter set may end a frame. -/
theorem h264Header_pts {c : Ctx} {data : List UInt8} (hstd : c.eVideoStandard = .h264)
    (hnal : nalUnitType (byteAt data 0) ≠ 5 ∧ nalUnitType (byteAt data 0) ≠ 1) {ends : Bool}
    {c' : Ctx} (hframe : c'.stNewFramePos = (endH264Frame (noteNonslice c) ends).1.stNewFramePos)
    (hpts : c'.u32PTS = (endH264Frame (noteNonslice c) ends).1.u32PTS) :
    PtsStep c data (c', (endH264Frame (noteNonslice c) ends).2) := by
  obtain ⟨hnote, hnotePts, hnoteStd⟩ := noteNonslice_frame c
  refine ⟨noteNonslice c, _, _, hnote, hnotePts,
    endH264Frame_ended (noteNonslice c) ends (hnoteStd.trans hstd), ?_⟩
  rw [opensTo_nonslice hstd hnal]
  apply PtsTurn.kept
  · simp [Ctx.isOpen, hframe]
  · exact hpts
  · exact congrArg FramePos.u32PTS hframe
  · rw [show (c', (endH264Frame (noteNonslice c) ends).2).1 = c' from rfl, hframe]
    exact id

theorem markSlice_frame (c : Ctx) (hdr : SliceHeader) :
    (markSlice c hdr).stNewFramePos = c.stNewFramePos ∧ (markSlice c hdr).u32PTS = c.u32PTS ∧
      (markSlice c hdr).eVideoStandard = c.eVideoStandard := by
  rw [markSlice]
  split <;> exact ⟨rfl, rfl, rfl⟩

/-- What `ProcessSC_H264` does last with a slice. -/
def clearFollow (c : Ctx) : Ctx :=
  { c with stSEIFollowSlice := { c.stSEIFollowSlice with eScType := .unknown } }

theorem processSlice_none {c : Ctx} {data : List UInt8} (hparse : parseSliceHeader data = none) :
    processSlice c data = (clearFollow c, none) := by
  simp [processSlice, hparse, clearFollow]

theorem processSlice_some {c : Ctx} {data : List UInt8} {hdr : SliceHeader}
    (hparse : parseSliceHeader data = some hdr) :
    processSlice c data =
      (clearFollow (openSlice (sliceFrame (markSlice c hdr) hdr).1 hdr),
        (sliceFrame (markSlice c hdr) hdr).2) := by
  simp [processSlice, hparse, clearFollow]

/-- What `ProcessSC_H264` does with the frame that is open in front of a slice. -/
theorem sliceFrame_cases (c : Ctx) (hdr : SliceHeader) :
    (c.isOpen = false ∧ sliceFrame c hdr = (c, none)) ∨
      (c.isOpen = true ∧ sliceFrame c hdr = outputFrame (h264MakeFrame c)) ∨
      (c.isOpen = true ∧
        sliceFrame c hdr = (continueFrame c (slcType2FrmType hdr.s32SliceType), none)) := by
  rw [sliceFrame]
  cases hopen : c.isOpen with
  | false => exact .inl ⟨rfl, rfl⟩
  | true =>
    right
    rw [if_pos rfl]
    split
    · exact .inl ⟨rfl, rfl⟩
    · exact .inr ⟨rfl, rfl⟩

/-- What `ProcessSC_H264` does with a slice behind the end of a frame. -/
theorem openSlice_cases (c : Ctx) (hdr : SliceHeader) :
    (c.isOpen = false ∧ openSlice c hdr =
      { openFrame c (slcType2FrmType hdr.s32SliceType) (frameBorder c) with
        s32PpsID := hdr.s32PpsID
        s32SpsID := (c.stPPS hdr.s32PpsID).s32SupScID }) ∨ openSlice c hdr = c := by
  rw [openSlice]
  split
  · rename_i h
    left
    simpa using (Bool.and_eq_true_iff.mp h).1
  · exact .inr rfl

/-- When no frame is open, a slice opens one or does not. -/
theorem openSlice_pts {c c1 : Ctx} {data : List UInt8} {out : Option FramePos} {hdr : SliceHeader}
    (hpicture : isPicture c.eVideoStandard data = true) (hparse : parseSliceHeader data = some hdr)
    (hclosed : c1.isOpen = false) (hout : c.isOpen = false ∨ out.isSome = true) :
    PtsTurn c1 (clearFollow (openSlice c1 hdr))
      (opensTo c data (clearFollow (openSlice c1 hdr), out)) := by
  obtain ⟨hopenType, htype⟩ := slcType2FrmType_spec hparse
  rcases openSlice_cases c1 hdr with ⟨-, heq⟩ | heq
  · rw [heq]
    generalize hc' : clearFollow _ = c'
    have hopen : c'.isOpen = true := by
      rw [← hc']
      simp [clearFollow, openFrame, Ctx.isOpen, hopenType]
    have hopens : opensTo c data (c', out) = true := by
      rcases hout with hout | hout <;> simp [opensTo, hpicture, hopen, hout]
    rw [hopens]
    rw [← hc'] at hopen ⊢
    exact .opened hclosed hopen rfl rfl htype
  · have hopen : (clearFollow c1).isOpen = false := hclosed
    have hopens : opensTo c data (clearFollow c1, out) = false := by simp [opensTo, hopen]
    rw [heq, hopens]
    exact .kept rfl rfl rfl id

/-- A slice of the picture whose frame is open. -/
theorem continueFrame_spec {c : Ctx} {t : FrameType} (ht : t ≠ .unknown ∧ t ≠ .pesh)
    (hopen : c.isOpen = true) :
    (continueFrame c t).isOpen = true ∧
      ((continueFrame c t).stNewFramePos.eFrameType = .pesh →
        c.stNewFramePos.eFrameType = .pesh) := by
  have hc : c.stNewFramePos.eFrameType ≠ .unknown := by simpa [Ctx.isOpen] using hopen
  simp only [continueFrame, Ctx.isOpen]
  split
  · simp [ht.1, ht.2]
  · simp [hc]

theorem processSlice_pts {c : Ctx} {data : List UInt8} (hstd : c.eVideoStandard = .h264)
    (hpicture : isPicture c.eVideoStandard data = true) :
    PtsStep c data (processSlice c data) := by
  cases hparse : parseSliceHeader data with
  | none =>
    -- the header cannot be read
    rw [processSlice_none hparse]
    apply ptsStep_kept c (clearFollow c) rfl rfl rfl id
    cases hopen : c.isOpen with
    | false =>
      have hopen' : (clearFollow c).isOpen = false := hopen
      simp [opensTo, hopen']
    | true => simp [opensTo, hstd, hopen]
  | some hdr =>
    obtain ⟨hmark, hmarkPts, hmarkStd⟩ := markSlice_frame c hdr
    have hmarkOpen : (markSlice c hdr).isOpen = c.isOpen := by simp [Ctx.isOpen, hmark]
    rw [processSlice_some hparse]
    rcases sliceFrame_cases (markSlice c hdr) hdr with
      ⟨hclosed, hframe⟩ | ⟨hopen, hframe⟩ | ⟨hopen, hframe⟩
    · rw [hframe]
      refine ⟨markSlice c hdr, markSlice c hdr, 0, hmark, hmarkPts, .kept, ?_⟩
      exact openSlice_pts hpicture hparse hclosed (.inl (hmarkOpen.symm.trans hclosed))
    · -- the slice of another picture
      rw [hframe]
      refine ⟨markSlice c hdr, _, _, hmark, hmarkPts,
        makeFrame_ended _ (hmarkStd.trans hstd) hopen, ?_⟩
      exact openSlice_pts hpicture hparse rfl (.inr rfl)
    · -- one more slice of the same picture
      obtain ⟨hcont, htype⟩ := continueFrame_spec (slcType2FrmType_spec hparse) hopen
      have hsame := openSlice_cases
        (continueFrame (markSlice c hdr) (slcType2FrmType hdr.s32SliceType)) hdr
      rw [hcont] at hsame
      rw [hframe, hsame.resolve_left (by simp)]
      have hopen' : c.isOpen = true := hmarkOpen.symm.trans hopen
      apply ptsStep_kept c (clearFollow (continueFrame (markSlice c hdr) _))
        (hcont.trans hopen'.symm) hmarkPts
      · simp [clearFollow, continueFrame, hmark]
      · rw [← hmark]
        exact htype
      · simp [opensTo, hstd, hopen']

/-- A start code of H.264. -/
theorem processScH264_pts (c : Ctx) (data : List UInt8) (hstd : c.eVideoStandard = .h264)
    (hok : isScWrong data = false) : PtsStep c data (processScH264 c data) := by
  obtain ⟨hnote, hnotePts, -⟩ := noteNonslice_frame c
  have hnoteOpen : (noteNonslice c).isOpen = c.isOpen := by simp [Ctx.isOpen, hnote]
  -- a start code that leaves the frame alone
  have hkept : nalUnitType (byteAt data 0) ≠ 5 ∧ nalUnitType (byteAt data 0) ≠ 1 →
      PtsStep c data (noteNonslice c, none) := by
    intro hnonslice
    apply ptsStep_kept c _ hnoteOpen hnotePts (congrArg FramePos.u32PTS hnote)
    · rw [hnote]
      exact id
    · exact opensTo_nonslice hstd hnonslice _
  simp only [processScH264]
  split
  · -- not a NAL unit
    rename_i hhigh
    apply ptsStep_kept c _ rfl rfl rfl id
    simp [opensTo, isPicture, hstd, hhigh]
  · rename_i hlow
    split
    · rename_i hnal
      have hnonslice : nalUnitType (byteAt data 0) ≠ 5 ∧ nalUnitType (byteAt data 0) ≠ 1 := by
        omega
      rw [processSps]
      split
      · exact hkept hnonslice
      · exact h264Header_pts hstd hnonslice rfl rfl
    · split
      · rename_i hnal
        have hnonslice : nalUnitType (byteAt data 0) ≠ 5 ∧ nalUnitType (byteAt data 0) ≠ 1 := by
          omega
        rw [processPps]
        split
        · exact hkept hnonslice
        · split
          · exact h264Header_pts hstd hnonslice rfl rfl
          · exact hkept hnonslice
      · split
        · rename_i hslice
          apply processSlice_pts hstd
          simp only [isPicture, hok, hstd]
          simpa using ⟨not_not.mp hlow, by simpa using hslice⟩
        · rename_i hslice
          exact hkept (by simpa using hslice)

/-- The context while a start code is processed. -/
def Ctx.at (c : Ctx) (sc : FindexScd) : Ctx :=
  { c with stThisSC := { c.stThisSC with
      s32ScID := sc.u8StartCode.toNat
      s64GlobalOffset := sc.s64GlobalOffset } }

theorem feedStartCode_eq (c : Ctx) (sc : FindexScd)
    (hpes : isPesSC sc.u8StartCode.toNat c.eVideoStandard = false) :
    feedStartCode c sc = processThisSC (c.at sc) sc.data := by
  simp [feedStartCode, hpes, Ctx.at]

/-- A start code that is not a PES header. -/
theorem feed_turn (c : Ctx) (sc : FindexScd)
    (hpes : isPesSC sc.u8StartCode.toNat c.eVideoStandard = false) :
    ∃ c0 c1 border, c0.stNewFramePos = c.stNewFramePos ∧ c0.u32PTS = c.u32PTS ∧
      Ended c0 border c1 (feedStartCode c sc).2 ∧
      PtsTurn c1 (feedStartCode c sc).1 (opens c sc) := by
  have hopens : opens c sc = opensTo (c.at sc) sc.data (feedStartCode c sc) := rfl
  suffices h : PtsStep (c.at sc) sc.data (feedStartCode c sc) by
    rw [hopens]
    exact h
  rw [feedStartCode_eq c sc hpes, processThisSC]
  split
  · rename_i hwrong
    apply ptsStep_kept (c.at sc) _ rfl rfl rfl id
    simp [opensTo, isPicture, hwrong]
  · rename_i hright
    have hok : isScWrong sc.data = false := by simpa using hright
    split
    · rename_i hstd
      exact mpeg_pts (by simp [hstd]) (processScMpeg2_turn _ _ hstd hok)
    · rename_i hstd
      exact processScH264_pts _ _ hstd hok
    · rename_i hstd
      exact mpeg_pts (by simp [hstd]) (processScMpeg4_turn _ _ hstd hok)
    · rename_i hstd
      exact mpeg_pts (by simp [hstd]) (processScAvs_turn _ _ hstd hok)
    · -- a standard that has no frames
      rename_i h2 h264 h4 havs
      apply ptsStep_kept (c.at sc) _ rfl rfl rfl id
      cases hstd : (c.at sc).eVideoStandard <;> simp_all [opensTo, isPicture]

/-- A PES header belongs to no picture. -/
theorem pes_not_picture (c : Ctx) (sc : FindexScd)
    (hpes : isPesSC sc.u8StartCode.toNat c.eVideoStandard = true) :
    isPicture c.eVideoStandard sc.data = false := by
  have hcode : byteAt sc.data 0 = sc.u8StartCode.toNat := rfl
  -- the codes of PES headers have the top bit, which slices of H.264 do not
  have hhigh : ∀ k < 16, (0xe0 + k) &&& 0x80 ≠ 0 := by decide
  cases hstd : c.eVideoStandard with
  | audioPes => simp [isPicture]
  | vc1 => simp [isPicture]
  | h263 => simp [isPicture]
  | divx3 => simp [isPicture]
  | mpeg2 =>
    simp [isPesSC, hstd] at hpes
    simp [isPicture, hcode]
    omega
  | mpeg4 =>
    simp [isPesSC, hstd] at hpes
    simp [isPicture, hcode]
    omega
  | avs =>
    simp [isPesSC, hstd] at hpes
    simp [isPicture, hcode]
    omega
  | h264 =>
    simp [isPesSC, hstd] at hpes
    obtain ⟨k, hk⟩ := Nat.exists_eq_add_of_le hpes.1
    have hbit := hhigh k (by omega)
    rw [← hk] at hbit
    simp [isPicture, hcode, hbit]

/-- What a PES header does. -/
theorem feedStartCode_pes (c : Ctx) (sc : FindexScd)
    (hpes : isPesSC sc.u8StartCode.toNat c.eVideoStandard = true) :
    (feedStartCode c sc).1 = { c.at sc with u32PTS := sc.u32PtsMs } ∧
      frameOut (feedStartCode c sc).2 = none ∧ touches c sc = false ∧ opens c sc = false := by
  have htouches : touches c sc = false := by simp [touches, pes_not_picture c sc hpes]
  refine ⟨?_, ?_, htouches, ?_⟩
  · simp [feedStartCode, hpes, Ctx.at]
  · simp [feedStartCode, hpes, frameOut, Option.filter]
  · simp [opens, htouches]

end Tntsat.FrameIndex
