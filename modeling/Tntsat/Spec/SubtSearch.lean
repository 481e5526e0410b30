import Tntsat.Native.SubtParse

/-!
# The descriptors of a packet and those behind them

A packet fills the first descriptors of the handle and leaves the ones behind them as earlier
packets have left them.  A search that finds nothing among the packet's own descriptors goes on
behind them.

## Key results

- `createSegment_eq`: the descriptors are those of the packet, whatever they held before, with
  others behind them
- `createSegment_again`: a second attempt leaves the descriptors as they are
- `regionLoop_append`: the descriptors behind do not matter when they answer no search
-/

namespace Tntsat.SubtParse

/-! ## Searches -/

/-- The `rest` behind the descriptors `own` does not answer a search. -/
def Answered (find : List Segment → List Segment) (own rest : List Segment) : Prop :=
  find own ≠ [] ∨ find rest = []

instance (find : List Segment → List Segment) (own rest : List Segment) :
    Decidable (Answered find own rest) :=
  inferInstanceAs (Decidable (_ ∨ _))

/-- A search goes on behind the descriptors `own`. -/
def GoesOn (find : List Segment → List Segment) (own : List Segment) : Prop :=
  ∀ rest, find (own ++ rest) = if find own = [] then find rest else find own ++ rest

/-- Descriptors with data. -/
def HasData (segs : List Segment) : Prop := ∀ seg ∈ segs, seg.pu8SegmentData.isSome

/-- Descriptors that are clear. -/
def Cleared (segs : List Segment) : Prop :=
  ∀ seg ∈ segs, seg.pu8SegmentData = none ∧ seg.u16DataLength = 0

theorem GoesOn.append {find : List Segment → List Segment} {own rest : List Segment}
    (h : GoesOn find own) (hans : Answered find own rest) :
    find (own ++ rest) = if find own = [] then [] else find own ++ rest := by
  rw [h rest]
  split
  · rename_i hown
    exact hans.resolve_left (fun hne => hne hown)
  · rfl

theorem findType_goesOn (u8SegmentType : UInt8) (own : List Segment) :
    GoesOn (findType u8SegmentType) own := by
  intro rest
  induction own with
  | nil => simp [findType]
  | cons seg segs ih =>
    simp only [List.cons_append, findType]
    split
    · simp
    · exact ih

theorem findId_goesOn (u8SegmentType : UInt8) (id : Nat) (idOf : List UInt8 → Nat)
    {own : List Segment} (hown : HasData own) :
    GoesOn (findId u8SegmentType id idOf) own := by
  intro rest
  induction own with
  | nil => simp [findId]
  | cons seg segs ih =>
    obtain ⟨data, hdata⟩ := Option.isSome_iff_exists.mp (hown seg List.mem_cons_self)
    simp only [List.cons_append, findId, hdata]
    split
    · simp
    · exact ih fun s hs => hown s (List.mem_cons_of_mem seg hs)

theorem findType_suffix (u8SegmentType : UInt8) (segs : List Segment) :
    findType u8SegmentType segs <:+ segs := by
  induction segs with
  | nil => exact List.suffix_rfl
  | cons seg segs ih =>
    simp only [findType]
    split
    · exact List.suffix_rfl
    · exact ih.trans (List.suffix_cons seg segs)

theorem findId_suffix (u8SegmentType : UInt8) (id : Nat) (idOf : List UInt8 → Nat)
    (segs : List Segment) : findId u8SegmentType id idOf segs <:+ segs := by
  induction segs with
  | nil => exact List.suffix_rfl
  | cons seg segs ih =>
    simp only [findId]
    split
    · exact List.nil_suffix
    · split
      · exact List.suffix_rfl
      · exact ih.trans (List.suffix_cons seg segs)

theorem HasData.suffix {own found : List Segment} (h : HasData own) (hfound : found <:+ own) :
    HasData found := fun seg hseg => h seg (hfound.mem hseg)

/-- Nothing is found in clear descriptors. -/
theorem findType_cleared (u8SegmentType : UInt8) {segs : List Segment} (h : Cleared segs) :
    findType u8SegmentType segs = [] := by
  induction segs with
  | nil => rfl
  | cons seg segs ih =>
    simp only [findType, (h seg List.mem_cons_self).2, ne_eq, not_true_eq_false, and_false,
      if_false]
    exact ih fun s hs => h s (List.mem_cons_of_mem seg hs)

theorem findId_cleared (u8SegmentType : UInt8) (id : Nat) (idOf : List UInt8 → Nat)
    {segs : List Segment} (h : Cleared segs) : findId u8SegmentType id idOf segs = [] := by
  cases segs with
  | nil => rfl
  | cons seg segs => simp only [findId, (h seg List.mem_cons_self).1]

/-! ## The descriptors of a packet -/

@[simp] theorem length_createLoop (ids : PageIds) (u32DataLen fuel : Nat) (p : List UInt8)
    (u32ProcessedLen : Nat) (segs : List Segment) :
    (createLoop ids u32DataLen fuel p u32ProcessedLen segs).length = segs.length := by
  induction fuel generalizing p u32ProcessedLen segs with
  | zero => simp [createLoop]
  | succ fuel ih =>
    cases segs with
    | nil => simp [createLoop]
    | cons seg segs => simp only [createLoop]; split_ifs <;> simp [ih]

@[simp] theorem length_createSegment (ids : PageIds) (p : List UInt8) (u32DataLen : Nat)
    (segs : List Segment) : (createSegment ids p u32DataLen segs).length = segs.length := by
  simp [createSegment]

/-- A round of the loop ends it, ends it at a segment that is cut off, keeps a segment or passes
    over one; the bytes decide which. -/
theorem createLoop_round (ids : PageIds) (u32DataLen fuel : Nat) (p : List UInt8)
    (u32ProcessedLen : Nat) :
    (∀ seg segs, createLoop ids u32DataLen (fuel + 1) p u32ProcessedLen (seg :: segs) =
      seg :: segs) ∨
    (∃ u8SegmentType, ∀ seg segs,
      createLoop ids u32DataLen (fuel + 1) p u32ProcessedLen (seg :: segs) =
        { seg with u8SegmentType, u16DataLength := 0 } :: segs) ∨
    (∃ (kept : Segment) (p' : List UInt8) (len : Nat), kept.pu8SegmentData.isSome ∧
      ∀ seg segs, createLoop ids u32DataLen (fuel + 1) p u32ProcessedLen (seg :: segs) =
        kept :: createLoop ids u32DataLen fuel p' len segs) ∨
    (∃ (p' : List UInt8) (len : Nat), ∀ seg segs,
      createLoop ids u32DataLen (fuel + 1) p u32ProcessedLen (seg :: segs) =
        createLoop ids u32DataLen fuel p' len ({} :: segs)) := by
  simp only [createLoop]
  split_ifs with hend hsync hcut hkept
  · exact .inl fun _ _ => rfl
  · exact .inr (.inl ⟨_, fun _ _ => rfl⟩)
  · exact .inr (.inr (.inl ⟨_, _, _, rfl, fun _ _ => rfl⟩))
  · exact .inr (.inr (.inr ⟨_, _, fun _ _ => rfl⟩))
  · exact .inl fun _ _ => rfl

/-- What a packet fills does not depend on what the descriptors held; the others are clear when
    all were, and the first one stays empty if none is filled. -/
theorem createLoop_split (ids : PageIds) (u32DataLen fuel : Nat) (p : List UInt8)
    (u32ProcessedLen n : Nat) :
    ∃ own, HasData own ∧ ∀ segs : List Segment, segs.length = n →
      ∃ rest, createLoop ids u32DataLen fuel p u32ProcessedLen segs = own ++ rest ∧
        (Cleared segs → Cleared rest) ∧
        (own = [] → (segs.headD {}).u16DataLength = 0 → (rest.headD {}).u16DataLength = 0) := by
  induction fuel generalizing p u32ProcessedLen n with
  | zero => exact ⟨[], by simp [HasData], fun segs _ => ⟨segs, rfl, id, fun _ => id⟩⟩
  | succ fuel ih =>
    cases n with
    | zero =>
      refine ⟨[], by simp [HasData], fun segs hsegs => ⟨[], ?_, by simp [Cleared], by simp⟩⟩
      rw [List.length_eq_zero_iff.mp hsegs]
      rfl
    | succ n =>
      rcases createLoop_round ids u32DataLen fuel p u32ProcessedLen with
        hstop | ⟨ty, hcut⟩ | ⟨kept, p', len, hdata, hkeep⟩ | ⟨p', len, hpass⟩
      · refine ⟨[], by simp [HasData], fun segs hsegs => ⟨segs, ?_, id, fun _ => id⟩⟩
        obtain ⟨seg, segs, rfl⟩ := List.exists_cons_of_length_eq_add_one hsegs
        exact hstop seg segs
      · refine ⟨[], by simp [HasData], fun segs hsegs => ?_⟩
        obtain ⟨seg, segs, rfl⟩ := List.exists_cons_of_length_eq_add_one hsegs
        refine ⟨_, hcut seg segs, fun hclear => ?_, fun _ _ => rfl⟩
        have hhead := hclear seg List.mem_cons_self
        exact List.forall_mem_cons.mpr ⟨⟨hhead.1, rfl⟩, (List.forall_mem_cons.mp hclear).2⟩
      · -- A segment that is kept is one more descriptor of the packet.
        obtain ⟨own, hown, hsplit⟩ := ih p' len n
        refine ⟨kept :: own, List.forall_mem_cons.mpr ⟨hdata, hown⟩, fun segs hsegs => ?_⟩
        obtain ⟨seg, segs, rfl⟩ := List.exists_cons_of_length_eq_add_one hsegs
        obtain ⟨rest, heq, hrest, -⟩ := hsplit segs (by simpa using hsegs)
        exact ⟨rest, by rw [hkeep, heq, List.cons_append],
          fun hclear => hrest (List.forall_mem_cons.mp hclear).2, fun hnil => by simp at hnil⟩
      · obtain ⟨own, hown, hsplit⟩ := ih p' len (n + 1)
        refine ⟨own, hown, fun segs hsegs => ?_⟩
        obtain ⟨seg, segs, rfl⟩ := List.exists_cons_of_length_eq_add_one hsegs
        obtain ⟨rest, heq, hrest, hhead⟩ := hsplit ({} :: segs) (by simpa using hsegs)
        refine ⟨rest, by rw [hpass, heq], fun hclear => hrest ?_, fun hnil _ => hhead hnil rfl⟩
        exact List.forall_mem_cons.mpr ⟨⟨rfl, rfl⟩, (List.forall_mem_cons.mp hclear).2⟩

theorem createLoop_eq_cons (ids : PageIds) (u32DataLen fuel : Nat) (p : List UInt8)
    (u32ProcessedLen : Nat) (seg : Segment) (segs : List Segment) :
    ∃ first others, createLoop ids u32DataLen fuel p u32ProcessedLen (seg :: segs) =
      first :: others :=
  List.exists_cons_of_length_eq_add_one (length_createLoop ids u32DataLen fuel p _ (seg :: segs))

/-- The loop changes nothing in descriptors that it has been over, also when their first one is
    as it was before. -/
theorem createLoop_again (ids : PageIds) (u32DataLen fuel : Nat) (p : List UInt8)
    (u32ProcessedLen : Nat) :
    (∀ segs, createLoop ids u32DataLen fuel p u32ProcessedLen
        (createLoop ids u32DataLen fuel p u32ProcessedLen segs) =
      createLoop ids u32DataLen fuel p u32ProcessedLen segs) ∧
    ∀ seg segs, createLoop ids u32DataLen fuel p u32ProcessedLen
        (seg :: (createLoop ids u32DataLen fuel p u32ProcessedLen (seg :: segs)).tail) =
      createLoop ids u32DataLen fuel p u32ProcessedLen (seg :: segs) := by
  induction fuel generalizing p u32ProcessedLen with
  | zero => exact ⟨fun _ => rfl, fun _ _ => rfl⟩
  | succ fuel ih =>
    rcases createLoop_round ids u32DataLen fuel p u32ProcessedLen with
      hstop | ⟨ty, hcut⟩ | ⟨kept, p', len, -, hkeep⟩ | ⟨p', len, hpass⟩
    -- the loop ends here
    · refine ⟨fun segs => ?_, fun seg segs => by simp only [hstop, List.tail_cons]⟩
      cases segs with
      | nil => rfl
      | cons seg segs => simp only [hstop]
    -- it ends at a segment that is cut off
    · refine ⟨fun segs => ?_, fun seg segs => by simp only [hcut, List.tail_cons]⟩
      cases segs with
      | nil => rfl
      | cons seg segs => simp only [hcut]
    -- it keeps a segment and goes on behind it
    · refine ⟨fun segs => ?_, fun seg segs => by simp only [hkeep, List.tail_cons, (ih p' len).1]⟩
      cases segs with
      | nil => rfl
      | cons seg segs => simp only [hkeep, (ih p' len).1]
    -- it clears the descriptor and goes on with the same one
    · refine ⟨fun segs => ?_, fun seg segs => by rw [hpass, hpass, (ih p' len).2]⟩
      cases segs with
      | nil => rfl
      | cons seg segs =>
        obtain ⟨first, others, heq⟩ := createLoop_eq_cons ids u32DataLen fuel p' len {} segs
        have htail := (ih p' len).2 {} segs
        rw [heq, List.tail_cons] at htail
        rw [hpass, heq, hpass, htail]

/-- A second attempt leaves the descriptors as they are. -/
theorem createSegment_again (ids : PageIds) (p : List UInt8) (u32DataLen : Nat)
    (segs : List Segment) :
    createSegment ids p u32DataLen (createSegment ids p u32DataLen segs) =
      createSegment ids p u32DataLen segs := by
  cases segs with
  | nil => cases u32DataLen <;> rfl
  | cons seg segs =>
    cases u32DataLen with
    | zero => rfl
    | succ fuel =>
      simp only [createSegment, List.modifyHead_cons]
      rcases createLoop_round ids (fuel + 1) fuel p 0 with
        hstop | ⟨ty, hcut⟩ | ⟨kept, p', len, -, hkeep⟩ | ⟨p', len, hpass⟩
      · simp only [hstop, List.modifyHead_cons]
      · simp only [hcut, List.modifyHead_cons]
      · simp only [hkeep, List.modifyHead_cons, (createLoop_again ids _ fuel p' len).1]
      · obtain ⟨first, others, heq⟩ := createLoop_eq_cons ids (fuel + 1) fuel p' len {} segs
        have htail := (createLoop_again ids (fuel + 1) fuel p' len).2 {} segs
        rw [heq, List.tail_cons] at htail
        rw [hpass, heq, List.modifyHead_cons, hpass, htail]

/-- The descriptors that a packet fills. -/
def ownSegments (ids : PageIds) (p : List UInt8) (u32DataLen : Nat) : List Segment :=
  (createSegment ids p u32DataLen (List.replicate SUBT_SEGMENT_IN_PES_MAX {})).takeWhile
    fun seg => seg.pu8SegmentData.isSome

/-- The descriptors behind those of a packet. -/
def segmentsBehind (ids : PageIds) (p : List UInt8) (u32DataLen : Nat) (segs : List Segment) :
    List Segment :=
  (createSegment ids p u32DataLen segs).drop (ownSegments ids p u32DataLen).length

/-- The descriptors are those of the packet, with others behind them: clear ones if all were
    clear. -/
theorem createSegment_split (ids : PageIds) (p : List UInt8) (u32DataLen : Nat) :
    HasData (ownSegments ids p u32DataLen) ∧
      ∀ segs : List Segment, segs.length = SUBT_SEGMENT_IN_PES_MAX →
        createSegment ids p u32DataLen segs =
          ownSegments ids p u32DataLen ++ segmentsBehind ids p u32DataLen segs ∧
        (Cleared segs → Cleared (segmentsBehind ids p u32DataLen segs)) ∧
        (ownSegments ids p u32DataLen = [] →
          ((segmentsBehind ids p u32DataLen segs).headD {}).u16DataLength = 0) := by
  obtain ⟨own, hown, hsplit⟩ :=
    createLoop_split ids u32DataLen u32DataLen p 0 SUBT_SEGMENT_IN_PES_MAX
  -- setting the first length to zero keeps cleared descriptors so
  have hcleared : ∀ segs, Cleared segs →
      Cleared (segs.modifyHead fun seg => { seg with u16DataLength := 0 }) := by
    intro segs hsegs
    cases segs with
    | nil => exact hsegs
    | cons seg segs =>
      have hhead := hsegs seg List.mem_cons_self
      exact List.forall_mem_cons.mpr ⟨⟨hhead.1, rfl⟩, (List.forall_mem_cons.mp hsegs).2⟩
  -- a cleared table shows where the segments of the data end
  have heq : ownSegments ids p u32DataLen = own := by
    obtain ⟨rest, hrest, hclear, -⟩ := hsplit
      ((List.replicate SUBT_SEGMENT_IN_PES_MAX {}).modifyHead
        fun seg => { seg with u16DataLength := 0 }) (by simp)
    have hrep : Cleared (List.replicate SUBT_SEGMENT_IN_PES_MAX {}) :=
      fun seg hseg => by rw [List.eq_of_mem_replicate hseg]; exact ⟨rfl, rfl⟩
    have hnone := hclear (hcleared _ hrep)
    rw [ownSegments, createSegment, hrest, List.takeWhile_append_of_pos hown]
    cases rest with
    | nil => simp
    | cons seg rest => simp [(hnone seg List.mem_cons_self).1]
  refine ⟨heq ▸ hown, fun segs hsegs => ?_⟩
  obtain ⟨rest, hrest, hclear, hhead⟩ := hsplit
    (segs.modifyHead fun seg => { seg with u16DataLength := 0 }) (by simpa using hsegs)
  have hbehind : segmentsBehind ids p u32DataLen segs = rest := by
    rw [segmentsBehind, heq, createSegment, hrest, List.drop_left]
  rw [hbehind, heq]
  refine ⟨hrest, fun h => hclear (hcleared segs h), fun hnil => hhead hnil ?_⟩
  cases segs <;> rfl

/-! ## The searches of a page -/

/-- The table that a region segment names. -/
def regionClutId (seg : Segment) : Nat := (get8 (seg.pu8SegmentData.getD []) 7).toNat

/-- The objects that a region segment names. -/
def regionObjectIds (seg : Segment) : List Nat :=
  (parseRegionSegment seg {} ⟨0, 0, 0⟩ false SUBTITLE_PAGE_ACQUISITION_POINT).1.stObjectInfo.map
    ObjectInfo.u16ObjectId

/-- No search for the objects of a region is answered by the `rest`; each begins where the one
    before it has ended. -/
def ObjectsAnswered (rest : List Segment) : List Segment → List Nat → Prop
  | _, [] => True
  | own, id :: ids =>
    Answered (findObjectSegment id) own rest ∧
      (findObjectSegment id own ≠ [] → ObjectsAnswered rest (findObjectSegment id own) ids)

instance decidableObjectsAnswered (rest : List Segment) :
    (own : List Segment) → (ids : List Nat) → Decidable (ObjectsAnswered rest own ids)
  | _, [] => inferInstanceAs (Decidable True)
  | own, id :: ids =>
    have := decidableObjectsAnswered rest (findObjectSegment id own) ids
    inferInstanceAs (Decidable (_ ∧ _))

/-- No search for a region is answered by the `rest`, and if it names objects, none for its table
    and for its objects. -/
def RegionAnswered (own rest : List Segment) (region : RegionInfoInPage) : Prop :=
  Answered (findRegionSegment region.u8RegionId) own rest ∧
    ∀ seg ∈ (findRegionSegment region.u8RegionId own).head?, regionObjectIds seg ≠ [] →
      Answered (findClutSegment (regionClutId seg))
        (findRegionSegment region.u8RegionId own) rest ∧
      ObjectsAnswered rest own (regionObjectIds seg)

instance (own rest : List Segment) (region : RegionInfoInPage) :
    Decidable (RegionAnswered own rest region) :=
  inferInstanceAs (Decidable (_ ∧ _))

/-- Clear descriptors answer no search. -/
theorem objectsAnswered_cleared {rest : List Segment} (h : Cleared rest) (own : List Segment)
    (ids : List Nat) : ObjectsAnswered rest own ids := by
  induction ids generalizing own with
  | nil => trivial
  | cons id ids ih => exact ⟨.inr (findId_cleared _ _ _ h), fun _ => ih _⟩

theorem regionAnswered_cleared {rest : List Segment} (h : Cleared rest) (own : List Segment)
    (region : RegionInfoInPage) : RegionAnswered own rest region :=
  ⟨.inr (findId_cleared _ _ _ h), fun _ _ _ =>
    ⟨.inr (findId_cleared _ _ _ h), objectsAnswered_cleared h own _⟩⟩

theorem regionObjects_u8ClutId (data_status : Bool) (enPageState fuel : Nat) (p : List UInt8)
    (s32DataLen : Int) (u32ObjectLeftOffset : Nat) (info : AllInfo) (region : RegionInfoInPage) :
    (regionObjects data_status enPageState fuel p s32DataLen u32ObjectLeftOffset info
      region).1.u8ClutId = info.u8ClutId := by
  induction fuel generalizing p s32DataLen u32ObjectLeftOffset info region with
  | zero => rfl
  | succ fuel ih =>
    simp only [regionObjects]
    split_ifs <;> simp only [ih]

/-- The objects of a region do not depend on where it is shown. -/
theorem regionObjects_ids {data_status data_status' : Bool} {enPageState enPageState' : Nat}
    (fuel : Nat) (p : List UInt8) (s32DataLen : Int) (off off' : Nat) {info info' : AllInfo}
    (region region' : RegionInfoInPage)
    (h : info.stObjectInfo.map ObjectInfo.u16ObjectId =
      info'.stObjectInfo.map ObjectInfo.u16ObjectId) :
    (regionObjects data_status enPageState fuel p s32DataLen off info
        region).1.stObjectInfo.map ObjectInfo.u16ObjectId =
      (regionObjects data_status' enPageState' fuel p s32DataLen off' info'
        region').1.stObjectInfo.map ObjectInfo.u16ObjectId := by
  induction fuel generalizing p s32DataLen off off' info info' region region' with
  | zero => exact h
  | succ fuel ih =>
    simp only [regionObjects]
    by_cases hlen : s32DataLen < 6
    · simp only [hlen, if_true, h]
    · simp only [hlen, if_false]
      split_ifs <;> apply ih <;> simp [h]

theorem parseRegionSegment_ids (seg : Segment) (info : AllInfo) (region : RegionInfoInPage)
    (data_status : Bool) (enPageState : Nat) :
    (parseRegionSegment seg info region data_status enPageState).1.stObjectInfo.map
      ObjectInfo.u16ObjectId = regionObjectIds seg :=
  regionObjects_ids _ _ _ 0 0 _ _ rfl

theorem parseRegionSegment_u8ClutId (seg : Segment) (info : AllInfo) (region : RegionInfoInPage)
    (data_status : Bool) (enPageState : Nat) :
    (parseRegionSegment seg info region data_status enPageState).1.u8ClutId =
      regionClutId seg :=
  regionObjects_u8ClutId _ _ _ _ _ _ _ _

theorem objectLoop_append (u32RegionBufferLen : Nat) (info : AllInfo) {own rest : List Segment}
    (hown : HasData own) (objects : List ObjectInfo) (d : Drawing)
    (h : ObjectsAnswered rest own (objects.map ObjectInfo.u16ObjectId)) :
    objectLoop u32RegionBufferLen info (own ++ rest) objects d =
      objectLoop u32RegionBufferLen info own objects d := by
  induction objects generalizing own d with
  | nil => simp only [objectLoop]
  | cons object objects ih =>
    obtain ⟨hans, hrest⟩ := h
    have happ := (findId_goesOn SUBT_OBJECT_SEGMENT object.u16ObjectId _ hown).append hans
    simp only [objectLoop]
    rw [show findObjectSegment object.u16ObjectId (own ++ rest) = _ from happ]
    cases hfind : findObjectSegment object.u16ObjectId own with
    | nil => simp [show findId _ _ _ own = [] from hfind]
    | cons seg segs =>
      have hsuffix : findObjectSegment object.u16ObjectId own <:+ own := findId_suffix _ _ _ own
      rw [hfind] at hrest hsuffix
      simp only [show findId _ _ _ own = seg :: segs from hfind, reduceCtorEq, if_false,
        List.cons_append]
      split
      · rfl
      · exact ih (hown.suffix hsuffix) _ (hrest (List.cons_ne_nil seg segs))

/-- A region is drawn from the packet's own descriptors when those behind answer no search. -/
theorem drawRegion_append (u32RegionBufferLen : Nat) {own found rest : List Segment}
    (hown : HasData own) (hfound : HasData found) (region : RegionInfoInPage) (w : Work)
    (hclut : Answered (findClutSegment w.info.u8ClutId) found rest)
    (hobjects : ObjectsAnswered rest own (w.info.stObjectInfo.map ObjectInfo.u16ObjectId)) :
    drawRegion u32RegionBufferLen (own ++ rest) (found ++ rest) region w =
      drawRegion u32RegionBufferLen own found region w := by
  have hcluts : updateClut w.info.u8ClutId (found ++ rest) w.astClut =
      updateClut w.info.u8ClutId found w.astClut := by
    have happ := (findId_goesOn SUBT_CLUT_SEGMENT w.info.u8ClutId _ hfound).append hclut
    simp only [updateClut]
    rw [show findClutSegment _ (found ++ rest) = _ from happ]
    cases hfind : findClutSegment w.info.u8ClutId found with
    | nil => simp only [show findId _ _ _ found = [] from hfind, if_true]
    | cons clut cluts =>
      simp only [show findId _ _ _ found = clut :: cluts from hfind, reduceCtorEq, if_false,
        List.cons_append]
  simp only [drawRegion, objectLoop_append _ _ hown _ _ hobjects, hcluts]

/-- A page is drawn from the packet's own descriptors when those behind answer no search. -/
theorem regionLoop_append (u32RegionBufferLen : Nat) (error_status : Bool) (enPageState : Nat)
    {own rest : List Segment} (hown : HasData own) (regions : List RegionInfoInPage) (w : Work)
    (h : ∀ region ∈ regions, RegionAnswered own rest region) :
    regionLoop u32RegionBufferLen error_status enPageState (own ++ rest) regions w =
      regionLoop u32RegionBufferLen error_status enPageState own regions w := by
  induction regions generalizing w with
  | nil => simp only [regionLoop]
  | cons region regions ih =>
    have ih := fun w => ih w fun r hr => h r (List.mem_cons_of_mem region hr)
    obtain ⟨hans, hseg⟩ := h region List.mem_cons_self
    -- a region found among the page's own segments is found there first
    have happ := (findId_goesOn SUBT_REGION_SEGMENT region.u8RegionId _ hown).append hans
    simp only [regionLoop]
    rw [show findRegionSegment region.u8RegionId (own ++ rest) = _ from happ]
    cases hfind : findRegionSegment region.u8RegionId own with
    | nil => simp only [show findId _ _ _ own = [] from hfind, if_true, ih]
    | cons seg segs =>
      have hsuffix : findRegionSegment region.u8RegionId own <:+ own := findId_suffix _ _ _ own
      rw [hfind] at hseg hsuffix
      simp only [show findId _ _ _ own = seg :: segs from hfind, reduceCtorEq, if_false,
        List.cons_append]
      by_cases hobjects :
        (parseRegionSegment seg w.info region error_status enPageState).1.stObjectInfo = []
      · simp only [hobjects, if_true, ih]
      · have hids := parseRegionSegment_ids seg w.info region error_status enPageState
        -- what it draws with is found among them too
        obtain ⟨hclut, hobj⟩ := hseg seg rfl fun hnil =>
          hobjects (List.map_eq_nil_iff.mp (hids.trans hnil))
        have hdraw := drawRegion_append u32RegionBufferLen hown (hown.suffix hsuffix)
          (parseRegionSegment seg w.info region error_status enPageState).2
          { w with info := (parseRegionSegment seg w.info region error_status enPageState).1 }
          (by rw [parseRegionSegment_u8ClutId]; exact hclut) (by rw [hids]; exact hobj)
        rw [List.cons_append] at hdraw
        simp only [hobjects, if_false, hdraw, ih]

end Tntsat.SubtParse
