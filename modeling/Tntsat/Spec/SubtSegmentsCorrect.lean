import Tntsat.Spec.SubtSearch

/-!
# The segments of a PES data field

`SUBT_Parse_CreateSegment` on a field that is a concatenation of segments with the end marker
behind them.  Of a segment that is not asked for only the header is passed over: its length is
cleared before the cursor would be moved by it, while the processed length counts its data.

## Key results

- `createLoop_kept`: the segments up to the first one that is passed over and has data are kept
- `createLoop_inside`: the bytes behind the field make no difference
- `records_iff`: the wanted segments are recorded when none of them stands behind a segment that
  is passed over and has data
-/

namespace Tntsat.SubtParse

/-! ## Fields -/

/-- A segment as it stands in the field. -/
structure FieldSegment where
  u8SegmentType : UInt8
  u16PageId : Nat
  data : List UInt8
deriving DecidableEq

/-- The page and the length fit their fields. -/
structure FieldSegment.WellFormed (s : FieldSegment) : Prop where
  page : s.u16PageId < 0x10000
  length : s.data.length < 0x10000

/-- 16 bits, the high byte first. -/
def put16 (n : Nat) : List UInt8 := [.ofNat (n / 256), .ofNat n]

/-- The bytes of a segment. -/
def FieldSegment.bytes (s : FieldSegment) : List UInt8 :=
  [0x0f, s.u8SegmentType] ++ put16 s.u16PageId ++ put16 s.data.length ++ s.data

/-- The segments, and the end marker. -/
def fieldBytes (segs : List FieldSegment) : List UInt8 :=
  segs.flatMap FieldSegment.bytes ++ [0xff]

/-- The segment is of a page that is asked for and of a type that is known. -/
def FieldSegment.Wanted (ids : PageIds) (s : FieldSegment) : Prop :=
  (s.u16PageId = ids.u16PageID ∨ ids.u16AncillaryID = s.u16PageId) ∧ KeptType s.u8SegmentType

instance (ids : PageIds) (s : FieldSegment) : Decidable (s.Wanted ids) :=
  inferInstanceAs (Decidable (_ ∧ _))

/-- The descriptor of a segment with the bytes `behind` it. -/
def FieldSegment.descriptor (s : FieldSegment) (behind : List UInt8) : Segment where
  u8SegmentType := s.u8SegmentType
  u16DataLength := s.data.length
  pu8SegmentData := some (s.data ++ behind)

/-- The descriptors of the wanted segments, when `after` stands behind the field. -/
def wantedSegments (ids : PageIds) (after : List UInt8) : List FieldSegment → List Segment
  | [] => []
  | s :: segs =>
    if s.Wanted ids then
      s.descriptor (fieldBytes segs ++ after) :: wantedSegments ids after segs
    else wantedSegments ids after segs

/-- Those of the wanted segments up to the first one that is passed over and has data. -/
def keptSegments (ids : PageIds) (after : List UInt8) : List FieldSegment → List Segment
  | [] => []
  | s :: segs =>
    if s.Wanted ids then s.descriptor (fieldBytes segs ++ after) :: keptSegments ids after segs
    else if s.data = [] then keptSegments ids after segs
    else []

variable {ids : PageIds}

theorem get16_put16 {n : Nat} (hn : n < 0x10000) (p : List UInt8) :
    get16 (put16 n ++ p) 0 = n := by
  have hhigh : n / 256 < 256 := by omega
  show (UInt8.ofNat (n / 256)).toNat * 256 + (UInt8.ofNat n).toNat = n
  rw [UInt8.toNat_ofNat_of_lt' hhigh, UInt8.toNat_ofNat']
  omega

theorem fieldBytes_cons (s : FieldSegment) (segs : List FieldSegment) (after : List UInt8) :
    fieldBytes (s :: segs) ++ after =
      0x0f :: s.u8SegmentType :: (put16 s.u16PageId ++ (put16 s.data.length ++
        (s.data ++ (fieldBytes segs ++ after)))) := by
  simp [fieldBytes, FieldSegment.bytes]

theorem length_fieldBytes_cons (s : FieldSegment) (segs : List FieldSegment) :
    (fieldBytes (s :: segs)).length = 6 + s.data.length + (fieldBytes segs).length := by
  simp [fieldBytes, FieldSegment.bytes, put16]
  omega

theorem length_fieldBytes_pos (segs : List FieldSegment) : 0 < (fieldBytes segs).length := by
  simp [fieldBytes]

/-! ## One segment -/

/-- A segment at the cursor is kept, or its header is passed over. -/
theorem createLoop_segment {s : FieldSegment} (hs : s.WellFormed) (segs : List FieldSegment)
    (after : List UInt8) (fuel u32ProcessedLen : Nat) (seg : Segment) (descs : List Segment) :
    createLoop ids (u32ProcessedLen + (fieldBytes (s :: segs)).length) (fuel + 1)
        (fieldBytes (s :: segs) ++ after) u32ProcessedLen (seg :: descs) =
      if s.Wanted ids then
        s.descriptor (fieldBytes segs ++ after) ::
          createLoop ids (u32ProcessedLen + (6 + s.data.length) + (fieldBytes segs).length) fuel
            (fieldBytes segs ++ after) (u32ProcessedLen + (6 + s.data.length)) descs
      else
        createLoop ids (u32ProcessedLen + (6 + s.data.length) + (fieldBytes segs).length) fuel
          (s.data ++ (fieldBytes segs ++ after)) (u32ProcessedLen + (6 + s.data.length))
          ({} :: descs) := by
  have hpos := length_fieldBytes_pos segs
  have hlen := length_fieldBytes_cons s segs
  -- the fields that the code reads at the front of the segment
  have hpage : get16 (fieldBytes (s :: segs) ++ after) 2 = s.u16PageId := by
    rw [fieldBytes_cons]
    exact get16_put16 hs.page (put16 s.data.length ++ (s.data ++ (fieldBytes segs ++ after)))
  have hlength : get16 (fieldBytes (s :: segs) ++ after) 4 = s.data.length := by
    rw [fieldBytes_cons]
    exact get16_put16 hs.length (s.data ++ (fieldBytes segs ++ after))
  have hdata : (fieldBytes (s :: segs) ++ after).drop 6 =
      s.data ++ (fieldBytes segs ++ after) := by
    rw [fieldBytes_cons]
    rfl
  have hnext : (fieldBytes (s :: segs) ++ after).drop (6 + s.data.length) =
      fieldBytes segs ++ after := by
    rw [← List.drop_drop, hdata, List.drop_left]
  have hsync : get8 (fieldBytes (s :: segs) ++ after) 0 = 0x0f := by
    rw [fieldBytes_cons]
    rfl
  have htype : get8 (fieldBytes (s :: segs) ++ after) 1 = s.u8SegmentType := by
    rw [fieldBytes_cons]
    rfl
  -- the code counts data and head apart
  have hprocessed : u32ProcessedLen + s.data.length + 6 =
      u32ProcessedLen + (6 + s.data.length) := by omega
  have htotal : u32ProcessedLen + (fieldBytes (s :: segs)).length =
      u32ProcessedLen + (6 + s.data.length) + (fieldBytes segs).length := by omega
  rw [createLoop, if_neg (by omega), if_pos hsync]
  simp only [hpage, hlength, hdata, hnext, htype, hprocessed]
  rw [if_neg (by omega), htotal]
  rfl

/-- What is passed over and has data ends the loop, unless the data begin like a segment. -/
theorem createLoop_data {data : List UInt8} (hne : data ≠ []) (hplain : data.head? ≠ some 0x0f)
    (p : List UInt8) (u32DataLen fuel u32ProcessedLen : Nat) (descs : List Segment) :
    createLoop ids u32DataLen fuel (data ++ p) u32ProcessedLen descs = descs := by
  obtain ⟨b, data, rfl⟩ := List.exists_cons_of_ne_nil hne
  have hb : get8 (b :: data ++ p) 0 ≠ 0x0f := fun h => hplain (congrArg some h)
  cases fuel with
  | zero => rw [createLoop]
  | succ fuel =>
    cases descs with
    | nil => rw [createLoop]
    | cons seg descs => rw [createLoop, if_neg hb, ite_self]

/-! ## The loop -/

/-- The data of a segment that is passed over do not begin like a segment. -/
def Plain (ids : PageIds) (segs : List FieldSegment) : Prop :=
  ∀ s ∈ segs, ¬ s.Wanted ids → s.data.head? ≠ some 0x0f

/-- The loop keeps what comes before the first segment that is passed over and has data. -/
theorem createLoop_kept {segs : List FieldSegment} (hwf : ∀ s ∈ segs, s.WellFormed)
    (hplain : Plain ids segs) (after : List UInt8) {fuel : Nat} (u32ProcessedLen : Nat)
    (hfuel : (fieldBytes segs).length ≤ fuel) {descs : List Segment} (hclear : Cleared descs)
    (hroom : (keptSegments ids after segs).length ≤ descs.length) :
    ∃ rest, Cleared rest ∧
      createLoop ids (u32ProcessedLen + (fieldBytes segs).length) fuel (fieldBytes segs ++ after)
        u32ProcessedLen descs = keptSegments ids after segs ++ rest := by
  induction segs generalizing fuel u32ProcessedLen descs with
  | nil =>
    refine ⟨descs, hclear, ?_⟩
    cases fuel with
    | zero => rfl
    | succ fuel =>
      cases descs with
      | nil => rfl
      | cons seg descs => exact if_pos (Nat.add_le_add_left (by decide) u32ProcessedLen)
  | cons s segs ih =>
    have hlen := length_fieldBytes_cons s segs
    have hs := hwf s List.mem_cons_self
    have ih := @ih (fun t ht => hwf t (List.mem_cons_of_mem s ht))
      (fun t ht => hplain t (List.mem_cons_of_mem s ht))
    obtain ⟨fuel, rfl⟩ : ∃ n, fuel = n + 1 := ⟨fuel - 1, by omega⟩
    have hfuel' : (fieldBytes segs).length ≤ fuel := by omega
    cases descs with
    | nil =>
      -- no descriptor is left, and none is needed
      have hnone := List.length_eq_zero_iff.mp (Nat.le_zero.mp hroom)
      exact ⟨[], hclear, by rw [hnone]; rfl⟩
    | cons seg descs =>
      obtain ⟨hseg, hdescs⟩ := List.forall_mem_cons.mp hclear
      rw [createLoop_segment hs, keptSegments]
      rw [keptSegments] at hroom
      by_cases hwanted : s.Wanted ids
      -- a wanted segment takes the first descriptor
      · rw [if_pos hwanted] at hroom
        obtain ⟨rest, hrest, heq⟩ := ih (u32ProcessedLen + (6 + s.data.length)) hfuel' hdescs
          (Nat.le_of_succ_le_succ hroom)
        exact ⟨rest, hrest, by rw [if_pos hwanted, if_pos hwanted, heq, List.cons_append]⟩
      -- another one clears it and leaves it to the next
      · have hcleared : Cleared ({} :: descs) :=
          List.forall_mem_cons.mpr ⟨⟨rfl, rfl⟩, hdescs⟩
        rw [if_neg hwanted] at hroom
        rw [if_neg hwanted, if_neg hwanted]
        by_cases hdata : s.data = []
        -- without data the loop stands on the next segment
        · rw [if_pos hdata] at hroom
          obtain ⟨rest, hrest, heq⟩ := ih (u32ProcessedLen + (6 + s.data.length)) hfuel'
            hcleared hroom
          exact ⟨rest, hrest, by rw [if_pos hdata, ← heq, hdata, List.nil_append]⟩
        -- with data it stands inside them, where nothing starts a segment
        · rw [if_neg hdata,
            createLoop_data hdata (hplain s List.mem_cons_self hwanted) _ _ _ _ _]
          exact ⟨_, hcleared, rfl⟩

/-- The kept segments are the first of the wanted ones. -/
theorem keptSegments_prefix (ids : PageIds) (after : List UInt8) (segs : List FieldSegment) :
    keptSegments ids after segs <+: wantedSegments ids after segs := by
  induction segs with
  | nil => exact List.prefix_rfl
  | cons s segs ih =>
    rw [keptSegments, wantedSegments]
    split_ifs
    · exact (List.prefix_cons_inj _).mpr ih
    · exact ih
    · exact List.nil_prefix

theorem keptSegments_hasData (after : List UInt8) (segs : List FieldSegment) :
    HasData (keptSegments ids after segs) := by
  induction segs with
  | nil => exact fun _ h => absurd h List.not_mem_nil
  | cons s segs ih =>
    rw [keptSegments]
    split_ifs
    · exact List.forall_mem_cons.mpr ⟨rfl, ih⟩
    · exact ih
    · exact fun _ h => absurd h List.not_mem_nil

theorem length_wantedSegments (ids : PageIds) (after : List UInt8) (segs : List FieldSegment) :
    (wantedSegments ids after segs).length = segs.countP fun s => s.Wanted ids := by
  induction segs with
  | nil => rfl
  | cons s segs ih =>
    by_cases h : s.Wanted ids
    · simp [wantedSegments, h, ih]
    · simp [wantedSegments, h, ih]

/-! ## The bytes behind a field -/

/-- A descriptor with more bytes behind its data. -/
def Segment.extend (after : List UInt8) (seg : Segment) : Segment :=
  { seg with pu8SegmentData := seg.pu8SegmentData.map (· ++ after) }

theorem get8_append {p : List UInt8} (after : List UInt8) {i : Nat} (hi : i < p.length) :
    get8 (p ++ after) i = get8 p i := by
  simp [get8, List.getElem?_append_left hi]

theorem get16_append {p : List UInt8} (after : List UInt8) {i : Nat} (hi : i + 1 < p.length) :
    get16 (p ++ after) i = get16 p i := by
  rw [get16, get16, get8_append after (by omega), get8_append after hi]

theorem extend_of_cleared (after : List UInt8) {descs : List Segment} (hclear : Cleared descs) :
    descs.map (Segment.extend after) = descs := by
  refine List.map_congr_left (g := id) (fun seg hseg => ?_) |>.trans (List.map_id descs)
  cases seg
  have hnone := (hclear _ hseg).1
  simp only at hnone
  subst hnone
  rfl

/-- The loop does not look behind the field: the cursor is never ahead of the processed length. -/
theorem createLoop_inside {p : List UInt8} (after : List UInt8) (u32DataLen fuel : Nat)
    {u32ProcessedLen : Nat} (hlen : u32DataLen ≤ u32ProcessedLen + p.length)
    {descs : List Segment} (hclear : Cleared descs) :
    createLoop ids u32DataLen fuel (p ++ after) u32ProcessedLen descs =
      (createLoop ids u32DataLen fuel p u32ProcessedLen descs).map (Segment.extend after) := by
  induction fuel generalizing p u32ProcessedLen descs with
  | zero => exact (extend_of_cleared after hclear).symm
  | succ fuel ih =>
    cases descs with
    | nil => rfl
    | cons seg descs =>
      obtain ⟨hseg, hdescs⟩ := List.forall_mem_cons.mp hclear
      have hstop := (extend_of_cleared after hclear).symm
      rw [createLoop, createLoop]
      by_cases hend : u32DataLen ≤ u32ProcessedLen + 6
      · rw [if_pos hend, if_pos hend]
        exact hstop
      -- the head of a segment is read only where it lies inside the data
      · have hroom : 6 < p.length := by omega
        dsimp only
        rw [if_neg hend, if_neg hend, get8_append after (by omega), get8_append after (by omega),
          get16_append after (by omega), get16_append after (by omega)]
        split_ifs
        · refine (extend_of_cleared after ?_).symm
          exact List.forall_mem_cons.mpr ⟨⟨hseg.1, rfl⟩, hdescs⟩
        · rw [List.map_cons, List.drop_append_of_le_length (by omega),
            List.drop_append_of_le_length (by omega), ih (by simp; omega) hdescs]
          rfl
        · rw [List.drop_append_of_le_length (by omega)]
          exact ih (by simp; omega) (List.forall_mem_cons.mpr ⟨⟨rfl, rfl⟩, hdescs⟩)
        · exact hstop

/-! ## What is recorded -/

/-- The wanted segments are the ones that are recorded, whatever stands behind the field. -/
def RecordsExactly (ids : PageIds) (segs : List FieldSegment) : Prop :=
  ∀ after, ownSegments ids (fieldBytes segs ++ after) (fieldBytes segs).length =
    wantedSegments ids after segs

/-- In front of a wanted segment stand only wanted ones and ones without data. -/
def NothingLost (ids : PageIds) (segs : List FieldSegment) : Prop :=
  segs.Pairwise fun s t => t.Wanted ids → s.Wanted ids ∨ s.data = []

instance (ids : PageIds) (segs : List FieldSegment) : Decidable (NothingLost ids segs) :=
  inferInstanceAs (Decidable (List.Pairwise _ _))

theorem keptSegments_eq_iff (ids : PageIds) (after : List UInt8) (segs : List FieldSegment) :
    keptSegments ids after segs = wantedSegments ids after segs ↔ NothingLost ids segs := by
  induction segs with
  | nil => exact ⟨fun _ => List.Pairwise.nil, fun _ => rfl⟩
  | cons s segs ih =>
    rw [keptSegments, wantedSegments, NothingLost, List.pairwise_cons]
    split_ifs with hwanted hdata
    · rw [List.cons_inj_right, ih]
      exact (and_iff_right fun _ _ _ => .inl hwanted).symm
    · rw [ih]
      exact (and_iff_right fun _ _ _ => .inr hdata).symm
    · -- none of the segments behind is kept, so none may be wanted
      have hzero : [] = wantedSegments ids after segs ↔ ∀ t ∈ segs, ¬ t.Wanted ids := by
        rw [eq_comm, ← List.length_eq_zero_iff, length_wantedSegments, List.countP_eq_zero]
        simp
      rw [hzero]
      constructor
      · intro hnone
        exact ⟨fun t ht h => absurd h (hnone t ht),
          List.pairwise_of_forall_mem_list fun _ _ t ht h => absurd h (hnone t ht)⟩
      · rintro ⟨hall, -⟩ t ht h
        exact (hall t ht h).elim hwanted hdata

/-- The descriptors that a field fills. -/
theorem ownSegments_field {segs : List FieldSegment} (hwf : ∀ s ∈ segs, s.WellFormed)
    (hplain : Plain ids segs)
    (hroom : (segs.countP fun s => s.Wanted ids) ≤ SUBT_SEGMENT_IN_PES_MAX)
    (after : List UInt8) :
    ownSegments ids (fieldBytes segs ++ after) (fieldBytes segs).length =
      keptSegments ids after segs := by
  have hlen := ( keptSegments_prefix ids after segs).length_le
  rw [length_wantedSegments] at hlen
  have hclear : Cleared (List.replicate SUBT_SEGMENT_IN_PES_MAX {}) :=
    fun seg hseg => by rw [List.eq_of_mem_replicate hseg]; exact ⟨rfl, rfl⟩
  obtain ⟨rest, hrest, heq⟩ := createLoop_kept hwf hplain after 0 (Nat.le_refl _) hclear
    (by rw [List.length_replicate]; omega)
  rw [Nat.zero_add] at heq
  rw [ownSegments, createSegment]
  show List.takeWhile _ (createLoop ids _ _ _ 0 (List.replicate SUBT_SEGMENT_IN_PES_MAX {})) = _
  rw [heq, List.takeWhile_append_of_pos (keptSegments_hasData after segs)]
  cases rest with
  | nil => simp
  | cons seg rest => simp [(hrest seg List.mem_cons_self).1]

/-- Exactly the wanted segments of a field are recorded when none of them stands behind a segment
    that is passed over and has data. -/
theorem records_iff {segs : List FieldSegment} (hwf : ∀ s ∈ segs, s.WellFormed)
    (hroom : (segs.countP fun s => s.Wanted ids) ≤ SUBT_SEGMENT_IN_PES_MAX)
    (hplain : Plain ids segs) : RecordsExactly ids segs ↔ NothingLost ids segs := by
  constructor
  · intro h
    have hnil := h []
    rw [ownSegments_field hwf hplain hroom] at hnil
    exact (keptSegments_eq_iff ids [] segs).mp hnil
  · intro h after
    rw [ownSegments_field hwf hplain hroom]
    exact (keptSegments_eq_iff ids after segs).mpr h

/-- A display definition of page 1 and a page composition, with an empty segment of page 2 between
    them. -/
def threeSegments : List FieldSegment :=
  [⟨SUBT_DISPLAY_DEFINITION_SEGMENT, 1, [0, 2, 207, 2, 63]⟩, ⟨SUBT_CLUT_SEGMENT, 2, []⟩,
    ⟨SUBT_PAGE_SEGMENT, 1, [5, 4]⟩]

theorem records_iff_three : RecordsExactly ⟨1, 1⟩ threeSegments ↔ NothingLost ⟨1, 1⟩ threeSegments :=
  records_iff
    (fun s hs => by
      simp only [threeSegments, List.mem_cons, List.not_mem_nil, or_false] at hs
      obtain rfl | rfl | rfl := hs <;> exact ⟨by decide, by decide⟩)
    (by decide) (by unfold Plain; decide)

/-- A page composition behind a colour table of another page is lost. -/
theorem page_lost :
    ¬ RecordsExactly ⟨1, 1⟩ [⟨SUBT_CLUT_SEGMENT, 2, [0, 0]⟩, ⟨SUBT_PAGE_SEGMENT, 1, [5, 4]⟩] := by
  intro h
  exact absurd (h []) (by decide)

end Tntsat.SubtParse
