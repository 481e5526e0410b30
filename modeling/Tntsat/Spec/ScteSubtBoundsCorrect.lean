import Tntsat.Native.ScteSubtData
import Tntsat.Spec.ScteSubtLayout

/-!
# The bounds of SCTE subtitles

The copies of the desegmentation, the reads of the decoder and the pixels of the picture.  The
lengths of the copies are differences of unsigned numbers, and so is the length of the data that
the decoder gets.  It stops only when it is behind the byte that follows the data, so bits that
are missing are read from there.

## Key results

- `decode_inside_iff`: the data that are read within their bounds
- `step_inside_iff`: the sections that are handled within all bounds
- `inject_inside_iff`: the runs of such sections
-/

namespace Tntsat.ScteSubtParse

open Store

/-! ## Complete data -/

/-- The data hold all the bits that are read of a bitmap: its properties as far as they are
    proper, and codes for all of its pixels unless the data end in front of the codes. -/
def Complete (data : List UInt8) : Prop :=
  72 ≤ 8 * data.length ∧ ((bitmapRect data).Proper →
    outlineStart data ≤ 8 * data.length ∧ ((frameRect data).Frames (bitmapRect data) →
      propertiesStop data ≤ 8 * data.length ∧ (8 * data.length < codesStart data ∨
        Covers ((bitmapRect data).bottom_h - (bitmapRect data).top_h)
          (((bitmapRect data).bottom_h - (bitmapRect data).top_h) *
            ((bitmapRect data).bottom_v - (bitmapRect data).top_v)) []
          ((bytesBits data).drop (codesStart data)))))

theorem codesStart_mod (data : List UInt8) : codesStart data % 8 = 0 := by
  simp only [codesStart, outlineStop, outlineStart]
  split_ifs <;> rfl

/-- The loop over the bitmap, from behind the properties on. -/
theorem codesLoop_inside_iff {data : List UInt8} {w size fuel : Nat} (hsize : 0 < size)
    {s : BsSub} {t : BsSub × List Bool} (hplaced : Placed data s) (hinside : s.Inside)
    (hfuel : 8 * data.length < fuel) (hloop : bitmapLoop w size fuel (s, []) = some t) :
    t.1.Inside ↔ 8 * data.length < codesStart data ∨
      Covers w size [] ((bytesBits data).drop (codesStart data)) := by
  have hpos : 8 * s.p_p + (8 - s.left) = codesStart data := hplaced.position
  have hmod := codesStart_mod data
  have hleft := hplaced.left
  have hstop := hplaced.stop
  by_cases hbehind : 8 * data.length < codesStart data
  · -- The reader is behind the end at once, and nothing is read.
    obtain ⟨fuel, rfl⟩ : ∃ k, fuel = k + 1 := ⟨fuel - 1, by omega⟩
    have heof : s.eof = true := decide_eq_true (by omega)
    simp only [bitmapLoop, List.length_nil, if_neg (Nat.not_le_of_lt hsize), if_pos heof] at hloop
    cases hloop
    exact ⟨fun _ => .inl hbehind, fun _ => hinside⟩
  · have hready : s.Ready := ⟨hleft, by rw [hplaced.start]; exact hstop, by omega⟩
    have hrest : s.rest = (bytesBits data).drop (codesStart data) := by
      rw [BsSub.rest, hplaced.start, hplaced.position]
    have hlength : s.rest.length = 8 * data.length - codesStart data := by
      rw [hrest, List.length_drop, length_bytesBits]
    constructor
    · intro htinside
      have hcovers := covers_of_inside w (s := (s, [])) hready (Nat.zero_le _) hloop htinside
      exact .inr (hrest ▸ hcovers)
    · rintro (hlt | ⟨cs, tail, hbits, hcovers⟩)
      · exact absurd hlt hbehind
      · obtain ⟨t', hloop', hinside'⟩ := bitmapLoop_codes w (s := (s, [])) hready
          (Nat.zero_le _) cs (hrest.trans hbits) hcovers
          (show s.rest.length < fuel by omega)
        rw [hloop] at hloop'
        cases hloop'
        exact hinside' hinside

/-- What a reader that has gone on has read, it has read of the same data. -/
theorem BsSub.Moves.inside_iff {data : List UInt8} {size : Nat} {t : BsSub}
    (h : (bsSubInit data size).Moves t) : (∀ i ∈ t.reads, i < data.length) ↔ t.Inside := by
  rw [BsSub.Inside, h.start]
  rfl

/-- The decoder reads on from behind the properties. -/
theorem decode_moves {data : List UInt8} {size : Nat} {out : ScteSubtOutput} {r : Decoded}
    (hsize : size ≠ 0) (hr : decodeSimpleBitmap data size out = some r) :
    ∃ t, (bsSubInit data size).Moves t ∧ (properties data size out).bs.Moves t ∧
      r.reads = t.reads := by
  have hbitmap := properties_moves data size out
  have hframe := readFrame_moves hbitmap.left
  rcases decode_cases data hsize out with ⟨-, heq⟩ | ⟨-, -, heq⟩ | ⟨-, -, heq⟩
  · rw [heq] at hr
    cases hr
    exact ⟨_, hbitmap, .refl hbitmap.left, rfl⟩
  · rw [heq] at hr
    cases hr
    exact ⟨_, hbitmap.trans hframe, hframe, rfl⟩
  · obtain ⟨t, ht⟩ := codesLoop_returns data size out
    rw [heq, ht] at hr
    cases hr
    have houtline := hframe.trans (readOutline_moves hframe.left)
    have hloop := houtline.trans (bitmapLoop_moves houtline.left ht)
    exact ⟨_, hbitmap.trans hloop, hloop, rfl⟩

/-- The bitmap is in its frame when the properties that are read say so. -/
theorem frames_iff {data : List UInt8} {d : Decoding} (hframed : d.is_framed = isFramed data)
    (hframe : d.frame = frameRect data) :
    (d.is_framed ≠ 0 → d.frame.Frames (bitmapRect data)) ↔
      (frameRect data).Frames (bitmapRect data) := by
  rw [hframe, hframed]
  refine ⟨fun h => ?_, fun h _ => h⟩
  by_cases hzero : isFramed data ≠ 0
  · exact h hzero
  · rw [frameRect, if_neg hzero]
    exact ⟨⟨Nat.le_refl _, Nat.le_refl _⟩, Nat.le_refl _, Nat.le_refl _⟩

/-- Data whose properties are read are read within their bounds when they are complete. -/
theorem decode_inside_of_bitmap {data : List UInt8} (hsize : data.length ≠ 0)
    {out : ScteSubtOutput} {r : Decoded}
    (hr : decodeSimpleBitmap data data.length out = some r) (h72 : 72 ≤ 8 * data.length) :
    (∀ i ∈ r.reads, i < data.length) ↔ Complete data := by
  obtain ⟨htaken, hknown⟩ := properties_fields data out
  obtain ⟨hknown, hframe⟩ := hknown h72
  obtain ⟨htaken', hknown', hframe'⟩ := readFrame_fields htaken hknown hframe
  have hbitmap := properties_moves data data.length out
  have hmoves := hbitmap.trans (readFrame_moves hbitmap.left)
  have hproperIff : (properties data data.length out).bitmap.Proper ↔ (bitmapRect data).Proper := by
    rw [hknown.bitmap]
  rcases decode_cases data hsize out with ⟨hproper, heq⟩ | ⟨hproper, hframes, heq⟩ |
    ⟨hproper, hframes, heq⟩
  -- an improper rectangle ends the decoding behind the properties
  · rw [heq] at hr
    cases hr
    refine ⟨fun _ => ⟨h72, fun h => absurd (hproperIff.mpr h) hproper⟩, fun _ => ?_⟩
    exact hbitmap.inside_iff.mpr (htaken.inside_iff.mpr h72)
  -- a frame that does not hold the bitmap ends it behind the frame
  · rw [heq] at hr
    cases hr
    rw [hmoves.inside_iff, htaken'.inside_iff]
    refine ⟨fun hle => ⟨h72, fun _ => ⟨hle, fun h => ?_⟩⟩, fun h => ?_⟩
    · rw [hknown.bitmap, frames_iff hknown'.is_framed (hframe' hle).1] at hframes
      exact absurd h hframes
    · exact (h.2 (hproperIff.mp hproper)).1
  -- otherwise the outline and the codes are read as well
  · obtain ⟨t, ht⟩ := codesLoop_returns data data.length out
    rw [heq, ht] at hr
    cases hr
    have houtline := hmoves.trans (readOutline_moves hmoves.left)
    have hloop := houtline.trans (bitmapLoop_moves houtline.left ht)
    show (∀ i ∈ t.1.reads, i < data.length) ↔ _
    rw [hloop.inside_iff]
    by_cases hle : outlineStart data ≤ 8 * data.length
    -- the outline lies inside the message
    · have hread := readOutline_fields htaken' hknown' hle
      have hin : (frameRect data).Frames (bitmapRect data) := by
        rw [← frames_iff hknown'.is_framed (hframe' hle).1, ← hknown.bitmap]
        exact hframes
      have hrect := hproperIff.mp hproper
      by_cases hstop : propertiesStop data ≤ 8 * data.length
      -- so the codes decide
      · rw [codesLoop, hknown'.bitmap] at ht
        have hpos := Nat.mul_pos (Nat.sub_pos_of_lt hrect.1) (Nat.sub_pos_of_lt hrect.2)
        rw [codesLoop_inside_iff hpos (hread.placed hstop) (hread.inside_iff.mpr hstop)
          (by omega) ht]
        exact ⟨fun h => ⟨h72, fun _ => ⟨hle, fun _ => ⟨hstop, h⟩⟩⟩,
          fun h => ((h.2 hrect).2 hin).2⟩
      -- a read behind the message stays recorded to the end
      · have hout := (bitmapLoop_moves houtline.left ht).outside
          (BsSub.not_inside_iff.mp fun h => hstop (hread.inside_iff.mp h))
        exact ⟨fun h => absurd h (BsSub.not_inside_iff.mpr hout),
          fun h => absurd ((h.2 hrect).2 hin).1 hstop⟩
    · have hout := ((readOutline_moves hmoves.left).trans
        (bitmapLoop_moves houtline.left ht)).outside (htaken'.short (Nat.lt_of_not_le hle))
      exact ⟨fun h => absurd h (BsSub.not_inside_iff.mpr hout),
        fun h => absurd (h.2 (hproperIff.mp hproper)).1 hle⟩

/-- Data are read within their bounds when they are complete. -/
theorem decode_inside_iff {data : List UInt8} (hne : data ≠ []) {out : ScteSubtOutput}
    {r : Decoded} (hr : decodeSimpleBitmap data data.length out = some r) :
    (∀ i ∈ r.reads, i < data.length) ↔ Complete data := by
  have hsize : data.length ≠ 0 := fun h => hne (List.eq_nil_of_length_eq_zero h)
  by_cases h72 : 72 ≤ 8 * data.length
  · exact decode_inside_of_bitmap hsize hr h72
  · obtain ⟨t, hinit, hmoves, hreads⟩ := decode_moves hsize hr
    rw [hreads, hinit.inside_iff]
    have hout := hmoves.outside ((properties_fields data out).1.short (Nat.lt_of_not_le h72))
    exact ⟨fun hin => absurd hin (BsSub.not_inside_iff.mpr hout), fun h => absurd h.1 h72⟩

/-! ## Sections -/

/-- A section is decoded within all bounds: the decoder ends, it reads bytes of the section, and
    it sets pixels of the picture. -/
def SectionInside (section_ : List UInt8) : Prop :=
  ∀ s64CurPts display out,
    ∃ d, parseSection s64CurPts display section_ section_.length out = some d ∧
      (∀ k ∈ d.reads, 16 + k < section_.length) ∧
      ∀ s ∈ d.stores, s.Within d.stOutputData.u32BitmapDataLen

/-- A section whose data are complete.  A section without any data is none for the decoder. -/
def SectionComplete (section_ : List UInt8) : Prop :=
  section_.length = 16 ∨ 16 < section_.length ∧ Complete (section_.drop 16)

/-- What the decoder gets of a section, and what is left of its result. -/
theorem parseSection_decode (s64CurPts : Option Int) (display : Int) (section_ : List UInt8)
    (u32DataLen : Nat) (out : ScteSubtOutput) :
    ∃ (out' : ScteSubtOutput) (ret : Int → Int),
      parseSection s64CurPts display section_ u32DataLen out =
        (decodeSimpleBitmap (section_.drop 16) (u32sub u32DataLen 16) out').map fun d =>
          { d with ret := ret d.ret } := by
  unfold parseSection
  exact ⟨_, fun ret => if ret ≠ MT_SUCCESS ∨ display ≠ MT_SUCCESS then MT_FAILURE else MT_SUCCESS,
    rfl⟩

/-- The sections that are decoded within all bounds. -/
theorem section_inside_iff {section_ : List UInt8} (hlen : section_.length < 4294967296) :
    SectionInside section_ ↔ SectionComplete section_ := by
  constructor
  · intro h
    obtain ⟨d, hparse, hreads, -⟩ := h none 0 {}
    obtain ⟨out, ret, heq⟩ := parseSection_decode none 0 section_ section_.length {}
    obtain ⟨r, hr⟩ := decode_returns (section_.drop 16) (u32sub section_.length 16) out
    rw [heq, hr] at hparse
    cases hparse
    rcases Nat.lt_trichotomy section_.length 16 with hlt | heq16 | hgt
    · -- The length of the data is below zero, and their first byte is behind the section.
      have hsize : u32sub section_.length 16 ≠ 0 := by
        simp only [u32sub, u32]
        omega
      obtain ⟨t, -, hmoves, ht⟩ := decode_moves hsize hr
      have hfirst := hreads 0 (show 0 ∈ r.reads from ht ▸ hmoves.reads (properties_reads ..))
      omega
    · exact .inl heq16
    · have hdrop : (section_.drop 16).length = section_.length - 16 := List.length_drop
      rw [u32sub_of_le hgt.le hlen, ← hdrop] at hr
      refine .inr ⟨hgt, (decode_inside_iff ?_ hr).mp fun k hk => ?_⟩
      · exact List.ne_nil_of_length_pos (by omega)
      · have hin := hreads k hk
        omega
  · intro h s64CurPts display out
    obtain ⟨out', ret, heq⟩ :=
      parseSection_decode s64CurPts display section_ section_.length out
    obtain ⟨r, hr⟩ := decode_returns (section_.drop 16) (u32sub section_.length 16) out'
    have hwithin := decode_within hr
    refine ⟨{ r with ret := ret r.ret }, by rw [heq, hr]; rfl, fun k hk => ?_, hwithin⟩
    rcases h with heq16 | ⟨hgt, hcomplete⟩
    · rw [heq16, decodeSimpleBitmap, if_pos (by decide)] at hr
      cases hr
      exact absurd hk List.not_mem_nil
    · have hdrop : (section_.drop 16).length = section_.length - 16 := List.length_drop
      rw [u32sub_of_le hgt.le hlen, ← hdrop] at hr
      have hne : section_.drop 16 ≠ [] := List.ne_nil_of_length_pos (by omega)
      have hin := (decode_inside_iff hne hr).mpr hcomplete k hk
      omega

end Tntsat.ScteSubtParse

namespace Tntsat.ScteSubtData

open ScteSubtParse (SectionInside SectionComplete section_inside_iff)

/-! ## The copies of the desegmentation -/

/-- A copy within its bounds. -/
def Copy.Fits (c : Copy) : Prop := c.src + c.len ≤ c.srcSize ∧ c.dst + c.len ≤ c.dstSize

instance (c : Copy) : Decidable c.Fits := inferInstanceAs (Decidable (_ ∧ _))

/-- A segment that holds its header and its CRC.  The CRC of a last segment is kept, and may be
    missing. -/
def SegmentComplete (pu8Data : List UInt8) : Prop :=
  (if segmentNumber pu8Data ≠ 0 ∧ segmentNumber pu8Data = lastSegment pu8Data then 9 else 13) ≤
    pu8Data.length

instance (pu8Data : List UInt8) : Decidable (SegmentComplete pu8Data) :=
  inferInstanceAs (Decidable (_ ≤ _))

/-- What a segment has between its header and its CRC fits when the segment holds both. -/
theorem copy_fits_iff {n dst : Nat} (hle : n ≤ scteSectionMaxSize) (hdst : dst ≤ 4) :
    Copy.Fits ⟨9, n, dst, scteSectionMaxSize, u32sub (u32sub n 9) 4⟩ ↔ 13 ≤ n := by
  unfold Copy.Fits
  unfold scteSectionMaxSize at hle ⊢
  constructor
  · rintro ⟨hfits, -⟩
    by_contra hlt
    simp only [u32sub, u32] at hfits
    omega
  · intro hge
    have h9 : u32sub n 9 = n - 9 := u32sub_of_le (by omega) (by omega)
    rw [h9, u32sub_of_le (by omega) (by omega)]
    exact ⟨by dsimp only; omega, by dsimp only; omega⟩

/-- A segment is copied into its slot when it is complete. -/
theorem storeCopies_fit_iff {pu8Data : List UInt8} (hle : pu8Data.length ≤ scteSectionMaxSize) :
    (∀ c ∈ storeCopies pu8Data, c.Fits) ↔ SegmentComplete pu8Data := by
  unfold storeCopies SegmentComplete
  by_cases hfirst : segmentNumber pu8Data = 0
  · rw [if_pos hfirst, if_neg fun h => h.1 hfirst, List.forall_mem_cons, List.forall_mem_singleton,
      copy_fits_iff hle le_rfl]
    refine ⟨fun h => h.2, fun h => ⟨⟨?_, ?_⟩, h⟩⟩
    · dsimp only
      omega
    · exact Nat.le_add_left 4 1020
  · rw [if_neg hfirst]
    by_cases hlast : segmentNumber pu8Data = lastSegment pu8Data
    · rw [if_pos hlast, if_pos ⟨hfirst, hlast⟩, List.forall_mem_singleton]
      unfold Copy.Fits
      unfold scteSectionMaxSize at hle ⊢
      constructor
      · rintro ⟨hfits, -⟩
        by_contra hlt
        simp only [u32sub, u32] at hfits
        omega
      · intro hge
        rw [u32sub_of_le hge (by omega)]
        exact ⟨by dsimp only; omega, by dsimp only; omega⟩
    · rw [if_neg hlast, if_neg fun h => hlast h.2, List.forall_mem_singleton,
        copy_fits_iff hle (Nat.zero_le 4)]

/-- The slots hold no more than a section. -/
def Small (s : DataRecv) : Prop :=
  ∀ i, (s.astSCTESection i).au8Data.length ≤ scteSectionMaxSize

theorem length_storedBytes_le {pu8Data : List UInt8}
    (hle : pu8Data.length ≤ scteSectionMaxSize) :
    (storedBytes pu8Data).length ≤ scteSectionMaxSize := by
  unfold scteSectionMaxSize at hle ⊢
  unfold storedBytes
  split_ifs
  · rw [List.length_append, List.length_take, List.length_take, List.length_drop]
    omega
  · rw [List.length_drop]
    omega
  · rw [List.length_take, List.length_drop]
    omega

theorem Small.store {s : DataRecv} (h : Small s) {pu8Data : List UInt8}
    (hle : pu8Data.length ≤ scteSectionMaxSize) (i : Nat) :
    (ScteSubtData.store s.astSCTESection pu8Data i).au8Data.length ≤ scteSectionMaxSize := by
  unfold ScteSubtData.store
  cases freeSlot s.astSCTESection with
  | none => exact h i
  | some k =>
    dsimp only
    by_cases hik : i = k
    · rw [hik, Function.update_self]
      exact length_storedBytes_le hle
    · rw [Function.update_of_ne hik]
      exact h i

theorem clear_au8Data (slots : Nat → ScteSection) (ext i : Nat) :
    (clear slots ext i).au8Data = (slots i).au8Data := by
  unfold clear
  split <;> rfl

theorem Small.step {s : DataRecv} (h : Small s) (i : Injection) :
    Small (machine.step s i).1 := by
  have hstep : (machine.step s i).1 = (dataInject s i.pu8Data i.parse).1 := rfl
  rw [hstep]
  unfold dataInject
  by_cases hrefused : i.pu8Data = [] ∨ scteSectionMaxSize < i.pu8Data.length ∨
      byteAt i.pu8Data 0 ≠ 0xC6
  · rw [if_pos hrefused]
    exact h
  · rw [if_neg hrefused]
    have hlen : i.pu8Data.length ≤ scteSectionMaxSize := by omega
    have hstore := h.store hlen
    dsimp only
    split_ifs
    · intro j
      rw [clear_au8Data]
      exact hstore j
    · intro j
      rw [clear_au8Data]
      exact hstore j
    · exact hstore
    · exact hstore
    · exact h

/-- What some slots hold together. -/
theorem length_flatMap_le {slots : List ScteSection}
    (h : ∀ slot ∈ slots, slot.au8Data.length ≤ scteSectionMaxSize) :
    (slots.flatMap (·.au8Data)).length ≤ scteSectionMaxSize * slots.length := by
  induction slots with
  | nil => exact Nat.le_refl _
  | cons slot slots ih =>
    have hslot := h slot List.mem_cons_self
    have hslots := ih fun slot' h' => h slot' (List.mem_cons_of_mem _ h')
    rw [List.flatMap_cons, List.length_append, List.length_cons, Nat.mul_succ]
    omega

/-- The slots of a message are copied one behind the other. -/
theorem gatherCopies_fit {slots : List ScteSection}
    (h : ∀ slot ∈ slots, slot.au8Data.length ≤ scteSectionMaxSize) {dst : Nat}
    (hfits : dst + (slots.flatMap (·.au8Data)).length ≤ mtSectionMaxSize) :
    ∀ c ∈ gatherCopies slots dst, c.Fits := by
  induction slots generalizing dst with
  | nil => exact fun c hc => absurd hc List.not_mem_nil
  | cons slot slots ih =>
    rw [List.flatMap_cons, List.length_append] at hfits
    have hslot := h slot List.mem_cons_self
    intro c hc
    rcases List.mem_cons.mp hc with rfl | hc
    · exact ⟨by dsimp only; omega, by dsimp only; omega⟩
    · exact ih (fun slot' h' => h slot' (List.mem_cons_of_mem _ h')) (by omega) c hc

/-- The slots of a message, and what they hold. -/
theorem gather_flatMap (slots : Nat → ScteSection) (ext : Nat) :
    gather slots ext = (((List.range mtSectionMaxNum).map slots).filter
      fun slot => slot.belongs ext).flatMap (·.au8Data) := by
  rw [List.filter_map, List.flatMap_map]
  rfl

/-- A message is no longer than the array for it. -/
theorem length_gather_le {slots : Nat → ScteSection}
    (h : ∀ i, (slots i).au8Data.length ≤ scteSectionMaxSize) (ext : Nat) :
    (gather slots ext).length ≤ mtSectionMaxSize := by
  have hsome : ∀ slot ∈ ((List.range mtSectionMaxNum).map slots).filter
      fun slot => slot.belongs ext, slot.au8Data.length ≤ scteSectionMaxSize := by
    intro slot hslot
    obtain ⟨i, -, rfl⟩ := List.mem_map.mp (List.mem_filter.mp hslot).1
    exact h i
  have hcount : (((List.range mtSectionMaxNum).map slots).filter
      fun slot => slot.belongs ext).length ≤ mtSectionMaxNum :=
    (List.length_filter_le _ _).trans (by simp)
  rw [gather_flatMap]
  calc _ ≤ scteSectionMaxSize * _ := length_flatMap_le hsome
    _ ≤ scteSectionMaxSize * mtSectionMaxNum := Nat.mul_le_mul_left _ hcount
    _ = mtSectionMaxSize := rfl

/-! ## One section -/

/-- A section that is not refused at once. -/
def Accepted (pu8Data : List UInt8) : Prop :=
  pu8Data ≠ [] ∧ pu8Data.length ≤ scteSectionMaxSize ∧ byteAt pu8Data 0 = 0xC6

theorem accepted_iff {pu8Data : List UInt8} : Accepted pu8Data ↔
    ¬ (pu8Data = [] ∨ scteSectionMaxSize < pu8Data.length ∨ byteAt pu8Data 0 ≠ 0xC6) := by
  rw [not_or, not_or, not_not, Nat.not_lt]
  rfl

/-- The section that is whole with this one: the message of a last segment, or the section
    itself. -/
def whole (s : DataRecv) (pu8Data : List UInt8) : Option (List UInt8) :=
  if isSegmented pu8Data then
    if lastSegment pu8Data = segmentNumber pu8Data then
      let message := gather (store s.astSCTESection pu8Data) (tableExtension pu8Data)
      some (setLength message message.length)
    else none
  else some pu8Data

/-- The copies of a call have their bounds, and so has the decoder when it is called. -/
def InjectInside (s : DataRecv) (i : Injection) : Prop :=
  (∀ c ∈ injectCopies s i.pu8Data, c.Fits) ∧
    ∀ section_ ∈ (dataInject s i.pu8Data i.parse).2.parsed, SectionInside section_

/-- A segment for which there is a slot is complete, and so is what is whole with it. -/
def InjectComplete (s : DataRecv) (i : Injection) : Prop :=
  Accepted i.pu8Data →
    (isSegmented i.pu8Data → freeSlot s.astSCTESection ≠ none → SegmentComplete i.pu8Data) ∧
      (s.hParse ≠ 0 → ∀ section_ ∈ whole s i.pu8Data, SectionComplete section_)

theorem length_setLength (bytes : List UInt8) (n : Nat) :
    (setLength bytes n).length = bytes.length := by
  simp [setLength]

/-- What is whole is decoded. -/
theorem dataInject_parsed {s : DataRecv} (h : Small s) {pu8Data : List UInt8}
    (haccepted : Accepted pu8Data) (parse : Int) :
    (dataInject s pu8Data parse).2.parsed = if s.hParse ≠ 0 then whole s pu8Data else none := by
  have hle := haccepted.2.1
  have hlength := length_gather_le (h.store hle) (tableExtension pu8Data)
  unfold dataInject whole
  rw [if_neg (accepted_iff.mp haccepted)]
  by_cases hseg : isSegmented pu8Data = true
  · simp only [if_pos hseg]
    by_cases hlast : lastSegment pu8Data = segmentNumber pu8Data
    · simp only [if_pos hlast, if_neg (Nat.not_lt.mpr hlength), handOver]
      split <;> rfl
    · simp only [if_neg hlast]
      split <;> rfl
  · simp only [if_neg hseg, handOver]
    split <;> rfl

/-- What is whole has a length of 32 bits. -/
theorem length_whole_lt {s : DataRecv} (h : Small s) {pu8Data section_ : List UInt8}
    (hle : pu8Data.length ≤ scteSectionMaxSize) (hwhole : section_ ∈ whole s pu8Data) :
    section_.length < 4294967296 := by
  have hlength := length_gather_le (h.store hle) (tableExtension pu8Data)
  unfold mtSectionMaxSize at hlength
  unfold scteSectionMaxSize at hle
  unfold whole at hwhole
  split_ifs at hwhole
  · cases hwhole
    rw [length_setLength]
    omega
  · cases hwhole
  · cases hwhole
    omega

/-- The copies of a call have their bounds when the segment is complete. -/
theorem injectCopies_fit_iff {s : DataRecv} (h : Small s) {pu8Data : List UInt8}
    (haccepted : Accepted pu8Data) :
    (∀ c ∈ injectCopies s pu8Data, c.Fits) ↔
      (isSegmented pu8Data → freeSlot s.astSCTESection ≠ none → SegmentComplete pu8Data) := by
  have hle := haccepted.2.1
  unfold injectCopies
  rw [if_neg (accepted_iff.mp haccepted)]
  by_cases hseg : isSegmented pu8Data = true
  · rw [if_pos hseg]
    dsimp only
    rw [List.forall_mem_append]
    -- a stored segment is at most a section long, and so are all of them together
    have hgather : ∀ c ∈ (if lastSegment pu8Data = segmentNumber pu8Data then
        gatherCopies (((List.range mtSectionMaxNum).map (store s.astSCTESection pu8Data)).filter
          fun slot => slot.belongs (tableExtension pu8Data)) 0 else []), c.Fits := by
      split
      · refine gatherCopies_fit (fun slot hslot => ?_) ?_
        · obtain ⟨i, -, rfl⟩ := List.mem_map.mp (List.mem_filter.mp hslot).1
          exact h.store hle i
        · rw [Nat.zero_add, ← gather_flatMap]
          exact length_gather_le (h.store hle) _
      · exact fun c hc => absurd hc List.not_mem_nil
    rw [and_iff_left hgather]
    -- storing the segment is the only copy that may not fit
    cases hfree : freeSlot s.astSCTESection with
    | none => simp
    | some k => simpa [hseg] using storeCopies_fit_iff hle
  -- a message in one piece is copied as it is
  · rw [if_neg hseg, List.forall_mem_singleton]
    unfold scteSectionMaxSize at hle
    refine ⟨fun _ h => absurd h hseg, fun _ => ⟨by dsimp only; omega, ?_⟩⟩
    dsimp only
    unfold mtSectionMaxSize
    omega

/-- A section is handled within all bounds when it is complete. -/
theorem step_inside_iff {s : DataRecv} (h : Small s) (i : Injection) :
    InjectInside s i ↔ InjectComplete s i := by
  unfold InjectInside InjectComplete
  by_cases haccepted : Accepted i.pu8Data
  · rw [injectCopies_fit_iff h haccepted, dataInject_parsed h haccepted, imp_iff_right haccepted]
    refine and_congr_right fun _ => ?_
    by_cases hparse : s.hParse ≠ 0
    · rw [if_pos hparse, imp_iff_right hparse]
      exact forall₂_congr fun section_ hwhole =>
        section_inside_iff (length_whole_lt h haccepted.2.1 hwhole)
    · rw [if_neg hparse]
      simp [hparse]
  · -- A section that is refused does nothing.
    have hguard := Classical.not_not.mp (mt accepted_iff.mpr haccepted)
    unfold injectCopies dataInject
    rw [if_pos hguard, if_pos hguard]
    simp [haccepted]

/-! ## Runs -/

theorem small_create (hParse : Nat) : Small (dataCreate hParse) :=
  fun _ => Nat.zero_le scteSectionMaxSize

/-- From the creation on, all bounds are kept exactly as long as the sections are complete. -/
theorem inject_inside_iff (hParse : Nat) (injections : List Injection) :
    machine.Always InjectInside (dataCreate hParse) injections ↔
      machine.Always InjectComplete (dataCreate hParse) injections :=
  Machine.always_iff_of_invariant (fun _ i h => step_inside_iff h i) (fun _ i h _ => h.step i)
    (small_create hParse)

/-- A first segment of nine bytes is copied with a length below zero. -/
theorem short_segment_outside : ¬ ∀ (hParse : Nat) (injections : List Injection),
    machine.Always InjectInside (dataCreate hParse) injections := by
  intro h
  have hinside := (h 1 [⟨[0xC6, 0, 0, 0x40, 0, 1, 0, 0x10, 0], 0⟩]).1.1
  have hcopy : (⟨9, 9, 4, 1024, 4294967292⟩ : Copy) ∈ injectCopies (dataCreate 1)
      [0xC6, 0, 0, 0x40, 0, 1, 0, 0x10, 0] := by decide
  exact absurd (hinside _ hcopy) (by decide)

end Tntsat.ScteSubtData
