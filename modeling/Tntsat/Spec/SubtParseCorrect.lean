import Tntsat.ForStd.Machine
import Tntsat.Spec.SubtMemory

/-!
# Packets of the DVB subtitle parser

The item for a packet is compared with that of a handle which has the same tables and the same
page version but has parsed nothing: no earlier packet is to contribute.  What earlier packets
leave behind are the bits that a reader still holds after an error, the descriptors behind those
of the packet, the object type in the header of the first region, and the buffer in which the
last page was laid out.

## Key results

- `packets_forgotten`: a packet's items are those of the handle that has parsed nothing, in every
  run whose packets find nothing of earlier ones
- `stale_page_shown`: a packet without a page shows the page of an earlier one
-/

namespace Tntsat.SubtParse

open Store

/-! ## What a page draws -/

/-- A region of a page names objects. -/
def NamesObjects (enter : List Segment) (region : RegionInfoInPage) : Prop :=
  ∃ seg ∈ (findRegionSegment region.u8RegionId enter).head?, regionObjectIds seg ≠ []

/-- The first object of a region is found. -/
def DrawsObject (enter : List Segment) (region : RegionInfoInPage) : Prop :=
  ∃ seg ∈ (findRegionSegment region.u8RegionId enter).head?,
    ∃ id ∈ (regionObjectIds seg).head?, findObjectSegment id enter ≠ []

instance (enter : List Segment) (region : RegionInfoInPage) :
    Decidable (NamesObjects enter region) :=
  inferInstanceAs (Decidable (∃ _ ∈ _, _))

instance (enter : List Segment) (region : RegionInfoInPage) :
    Decidable (DrawsObject enter region) :=
  inferInstanceAs (Decidable (∃ _ ∈ _, _))

variable (u32RegionBufferLen : Nat)

theorem objectLoop_nil (info : AllInfo) (objects : List ObjectInfo) (d : Drawing) :
    objectLoop u32RegionBufferLen info [] objects d = (MT_SUCCESS, d) := by
  induction objects with
  | nil => rfl
  | cons object objects ih => exact ih

theorem decodingPixels_enObjType (info : AllInfo) (object : ObjectInfo) (p : List UInt8)
    (d : Drawing) :
    (decodingPixels u32RegionBufferLen info object p d).2.enObjType = d.enObjType := by
  simp only [decodingPixels]
  split_ifs <;> rfl

theorem decodingCharacter_enObjType (p : List UInt8) (d : Drawing) :
    (decodingCharacter u32RegionBufferLen p d).2.enObjType = d.enObjType := by
  simp only [decodingCharacter]
  split_ifs <;> rfl

theorem parseObjectSegment_enObjType (info : AllInfo) (seg : Segment) (object : ObjectInfo)
    (d : Drawing) :
    (parseObjectSegment u32RegionBufferLen info seg object d).2.enObjType =
      some (objectCoding seg) := by
  simp only [parseObjectSegment]
  split_ifs
  · exact decodingPixels_enObjType _ _ _ _ _
  · exact decodingCharacter_enObjType _ _ _
  · rfl

/-- The object type stays set. -/
theorem objectLoop_isSome (info : AllInfo) (own : List Segment) (objects : List ObjectInfo)
    {d : Drawing} (h : d.enObjType.isSome) :
    (objectLoop u32RegionBufferLen info own objects d).2.enObjType.isSome := by
  induction objects generalizing own d with
  | nil => exact h
  | cons object objects ih =>
    simp only [objectLoop]
    cases findObjectSegment object.u16ObjectId own with
    | nil => exact ih [] h
    | cons seg segs =>
      have hset : (parseObjectSegment u32RegionBufferLen info seg object d).2.enObjType.isSome := by
        rw [parseObjectSegment_enObjType]
        rfl
      dsimp only
      split_ifs
      · exact hset
      · exact ih _ hset

/-- The object type is set when the first object is found, and left alone otherwise. -/
theorem objectLoop_enObjType (info : AllInfo) (own : List Segment) (objects : List ObjectInfo)
    (d : Drawing) :
    if ∃ id ∈ (objects.map ObjectInfo.u16ObjectId).head?, findObjectSegment id own ≠ [] then
      (objectLoop u32RegionBufferLen info own objects d).2.enObjType.isSome
    else (objectLoop u32RegionBufferLen info own objects d).2 = d := by
  cases objects with
  | nil => simp [objectLoop]
  | cons object objects =>
    simp only [List.map_cons, List.head?_cons, Option.mem_some_iff, exists_eq_left', objectLoop]
    cases hfind : findObjectSegment object.u16ObjectId own with
    | nil => simp only [ne_eq, not_true_eq_false, if_false, objectLoop_nil]
    | cons seg segs =>
      have hset : (parseObjectSegment u32RegionBufferLen info seg object d).2.enObjType.isSome := by
        rw [parseObjectSegment_enObjType]
        rfl
      simp only [ne_eq, reduceCtorEq, not_false_eq_true, if_true]
      by_cases hret : (parseObjectSegment u32RegionBufferLen info seg object d).1 = MT_SUCCESS
      · simp only [hret, not_true_eq_false, if_false]
        exact objectLoop_isSome _ _ _ _ hset
      · simp only [hret, not_false_eq_true, if_true, hset]

/-- A region that is drawn is one region more, and the object type is that of its objects. -/
theorem drawRegion_cases (own found : List Segment) (region : RegionInfoInPage) (w : Work) :
    drawRegion u32RegionBufferLen own found region w = (MT_FAILURE, w) ∨
    ∃ o : Drawing, o.enObjType = w.enObjType ∧
      (drawRegion u32RegionBufferLen own found region w).2.enObjType =
        (objectLoop u32RegionBufferLen w.info own w.info.stObjectInfo o).2.enObjType ∧
      ((drawRegion u32RegionBufferLen own found region w).1 = MT_SUCCESS →
        ∃ r, (drawRegion u32RegionBufferLen own found region w).2.regions = w.regions ++ [r]) := by
  simp only [drawRegion]
  cases createShowRegion u32RegionBufferLen (lastAddr w.regions) region.u16RegionLeft
      region.u16RegionTop w.info with
  | none => exact .inl rfl
  | some created =>
    refine .inr ⟨{ region := created.1, statics := w.statics, enObjType := w.enObjType,
                   stores := w.stores ++ [created.2] }, rfl, ?_⟩
    dsimp only
    split_ifs with hret hlen
    · exact ⟨rfl, fun h => absurd h hret⟩
    · exact ⟨rfl, fun h => absurd h (by simp [MT_FAILURE, MT_SUCCESS])⟩
    · exact ⟨rfl, fun _ => ⟨_, rfl⟩⟩

theorem drawRegion_enObjType (own found : List Segment) (region : RegionInfoInPage) (w : Work) :
    let d := drawRegion u32RegionBufferLen own found region w
    ((¬ ∃ id ∈ (w.info.stObjectInfo.map ObjectInfo.u16ObjectId).head?,
      findObjectSegment id own ≠ []) → d.2.enObjType = w.enObjType) ∧
    (w.enObjType.isSome → d.2.enObjType.isSome) ∧
    (d.1 = MT_SUCCESS → (∃ id ∈ (w.info.stObjectInfo.map ObjectInfo.u16ObjectId).head?,
      findObjectSegment id own ≠ []) → d.2.enObjType.isSome) := by
  dsimp only
  rcases drawRegion_cases u32RegionBufferLen own found region w with hfail | ⟨o, ho, heq, -⟩
  · rw [hfail]
    exact ⟨fun _ => rfl, id, fun h => absurd h (by simp [MT_FAILURE, MT_SUCCESS])⟩
  · have hloop := objectLoop_enObjType u32RegionBufferLen w.info own w.info.stObjectInfo o
    rw [heq, ← ho]
    refine ⟨fun hnot => ?_, objectLoop_isSome _ _ _ _, fun _ hfinds => ?_⟩
    · rw [if_neg hnot] at hloop
      rw [hloop]
    · rwa [if_pos hfinds] at hloop

/-- A page is shown with regions only if one of them names objects; without regions, none does
    and the last one has been found. -/
theorem regionLoop_regions (error_status : Bool) (enPageState : Nat) (enter : List Segment)
    (regions : List RegionInfoInPage) (w : Work)
    (h : (regionLoop u32RegionBufferLen error_status enPageState enter regions w).1 = none) :
    let shown := (regionLoop u32RegionBufferLen error_status enPageState enter regions w).2.regions
    ((∃ region ∈ regions, NamesObjects enter region) ∨ shown = w.regions) ∧
      (shown = [] → w.regions = [] ∧ (∀ region ∈ regions, ¬ NamesObjects enter region) ∧
        ∀ region ∈ regions.getLast?, findRegionSegment region.u8RegionId enter ≠ []) := by
  induction regions generalizing w with
  | nil => exact ⟨.inr rfl, fun hnil => ⟨hnil, by simp, by simp⟩⟩
  | cons region regions ih =>
    have hlast : ∀ {r}, r ∈ (region :: regions).getLast? → regions ≠ [] → r ∈ regions.getLast? := by
      intro r hr hne
      rwa [List.getLast?_cons_of_ne_nil hne] at hr
    simp only [regionLoop] at h ⊢
    cases hfind : findRegionSegment region.u8RegionId enter with
    | nil =>
      have hnot : ¬ NamesObjects enter region := by simp [NamesObjects, hfind]
      simp only [hfind] at h ⊢
      split_ifs at h ⊢ with hne
      obtain ⟨hsome, hnone⟩ := ih w h
      refine ⟨hsome.imp_left (Exists.imp fun r hr => ⟨List.mem_cons_of_mem _ hr.1, hr.2⟩),
        fun hnil => ?_⟩
      obtain ⟨hw, hnames, hfound⟩ := hnone hnil
      exact ⟨hw, List.forall_mem_cons.mpr ⟨hnot, hnames⟩, fun r hr => hfound r (hlast hr hne)⟩
    | cons seg segs =>
      have hids := parseRegionSegment_ids seg w.info region error_status enPageState
      simp only [hfind] at h ⊢
      by_cases hobjects :
        (parseRegionSegment seg w.info region error_status enPageState).1.stObjectInfo = []
      · have hnot : ¬ NamesObjects enter region := by
          rw [hobjects] at hids
          simp [NamesObjects, hfind, ← hids]
        simp only [hobjects, if_true] at h ⊢
        obtain ⟨hsome, hnone⟩ := ih _ h
        refine ⟨hsome.imp_left (Exists.imp fun r hr => ⟨List.mem_cons_of_mem _ hr.1, hr.2⟩),
          fun hnil => ?_⟩
        obtain ⟨hw, hnames, hfound⟩ := hnone hnil
        refine ⟨hw, List.forall_mem_cons.mpr ⟨hnot, hnames⟩, fun r hr => ?_⟩
        by_cases hne : regions = []
        · subst hne
          obtain rfl : region = r := by simpa using hr
          rw [hfind]
          exact List.cons_ne_nil seg segs
        · exact hfound r (hlast hr hne)
      · have hnames : NamesObjects enter region := by
          refine ⟨seg, by rw [hfind]; rfl, ?_⟩
          rw [← hids]
          exact fun hnil => hobjects (List.map_eq_nil_iff.mp hnil)
        simp only [hobjects, if_false] at h ⊢
        split_ifs at h ⊢ with hret
        obtain ⟨-, hnone⟩ := ih _ h
        refine ⟨.inl ⟨region, List.mem_cons_self, hnames⟩, fun hnil => ?_⟩
        -- The region that has been drawn is among those shown.
        have hregions := (hnone hnil).1
        rcases drawRegion_cases u32RegionBufferLen enter (seg :: segs) _ _ with
          hfail | ⟨o, -, -, happend⟩
        · rw [hfail] at hret
          exact absurd (by decide : MT_FAILURE ≠ MT_SUCCESS) hret
        · obtain ⟨r, hr⟩ := happend (not_not.mp hret)
          rw [hr] at hregions
          exact absurd hregions (by simp)

/-- The object type of a page is that of an earlier page only if no object is found. -/
theorem regionLoop_enObjType (error_status : Bool) (enPageState : Nat) (enter : List Segment)
    (regions : List RegionInfoInPage) (w : Work) :
    let r := regionLoop u32RegionBufferLen error_status enPageState enter regions w
    ((¬ ∃ region ∈ regions, DrawsObject enter region) → r.2.enObjType = w.enObjType) ∧
      (w.enObjType.isSome → r.2.enObjType.isSome) ∧
      (r.1 = none → (∃ region ∈ regions, DrawsObject enter region) → r.2.enObjType.isSome) := by
  induction regions generalizing w with
  | nil => exact ⟨fun _ => rfl, id, fun _ ⟨r, hr, _⟩ => absurd hr List.not_mem_nil⟩
  | cons region regions ih =>
    have htail : (∃ r ∈ region :: regions, DrawsObject enter r) ↔
        DrawsObject enter region ∨ ∃ r ∈ regions, DrawsObject enter r := by simp
    simp only [regionLoop, htail]
    cases hfind : findRegionSegment region.u8RegionId enter with
    | nil =>
      -- the region is not in the page's segments
      have hnot : ¬ DrawsObject enter region := by simp [DrawsObject, hfind]
      simp only [hnot, false_or]
      split_ifs
      · exact ih w
      · exact ⟨fun _ => rfl, id, fun hnone => absurd hnone (by simp)⟩
    | cons seg segs =>
      -- what the region draws is decided by its first object
      have hids := parseRegionSegment_ids seg w.info region error_status enPageState
      have hdraws : DrawsObject enter region ↔
          ∃ id ∈ ((parseRegionSegment seg w.info region error_status
            enPageState).1.stObjectInfo.map ObjectInfo.u16ObjectId).head?,
            findObjectSegment id enter ≠ [] := by
        simp [DrawsObject, hfind, hids]
      by_cases hobjects :
        (parseRegionSegment seg w.info region error_status enPageState).1.stObjectInfo = []
      -- a region without objects
      · simp only [hobjects, if_true, hdraws, List.map_nil, List.head?_nil]
        simpa using ih { w with
          info := (parseRegionSegment seg w.info region error_status enPageState).1 }
      -- a type once set is kept by the later regions
      · have hdraw := drawRegion_enObjType u32RegionBufferLen enter (seg :: segs)
          (parseRegionSegment seg w.info region error_status enPageState).2
          { w with info := (parseRegionSegment seg w.info region error_status enPageState).1 }
        rw [← hdraws] at hdraw
        obtain ⟨hsame, hkeep, hset⟩ := hdraw
        simp only [hobjects, if_false]
        split_ifs with hret
        · exact ⟨fun hnot => hsame fun hd => hnot (.inl hd), hkeep, fun hnone => by simp at hnone⟩
        · obtain ⟨ihsame, ihkeep, ihset⟩ := ih (drawRegion u32RegionBufferLen enter (seg :: segs)
            (parseRegionSegment seg w.info region error_status enPageState).2
            { w with info := (parseRegionSegment seg w.info region error_status enPageState).1 }).2
          refine ⟨fun hnot => ?_, fun hw => ihkeep (hkeep hw), fun hnone hd => ?_⟩
          · rw [ihsame fun hd => hnot (.inr hd), hsame fun hd => hnot (.inl hd)]
          · rcases hd with hd | hd
            · exact ihkeep (hset (not_not.mp hret) hd)
            · exact ihset hnone hd

/-! ## Two handles -/

/-- A page is that which is shown already. -/
def Unchanged (u8PageVersion : Nat) (page : PageInfo) : Prop :=
  page.enPageState = SUBTITLE_PAGE_NORMAL_CASE ∧ page.u8InPageVer = u8PageVersion

instance (u8PageVersion : Nat) (page : PageInfo) : Decidable (Unchanged u8PageVersion page) :=
  inferInstanceAs (Decidable (_ ∧ _))

/-- A page that shows no region clears the screen. -/
def ClearsScreen (enter : List Segment) (page : PageInfo) : Prop :=
  Clears page.enPageState ∧ (∀ region ∈ page.regions, ¬ NamesObjects enter region) ∧
    ∀ region ∈ page.regions.getLast?, findRegionSegment region.u8RegionId enter ≠ []

instance (enter : List Segment) (page : PageInfo) : Decidable (ClearsScreen enter page) :=
  inferInstanceAs (Decidable (_ ∧ _))

/-- What a page shows is found in its own packet: the segments, and the cells of its regions. -/
structure PageSearches (own enter rest : List Segment) (page : PageInfo) : Prop where
  definition : Answered findDisplayDefinitionSegment own rest
  regions : ∀ region ∈ page.regions, RegionAnswered enter rest region
  characters : ∀ region ∈ page.regions,
    ∀ seg ∈ (findRegionSegment region.u8RegionId enter).head?,
      characterObjects enter (regionObjectIds seg) ≤ 1

/-- No object type of an earlier page is shown: no region names objects, one of them is found, or
    the header holds none or is replaced. -/
def TypeClean (own enter : List Segment) (page : PageInfo) (h : Handle) : Prop :=
  (∃ region ∈ page.regions, NamesObjects enter region) →
    (∃ region ∈ page.regions, DrawsObject enter region) ∨
      ∀ definition ∈ pageDefinition own, h.u32RegionBufferLen = definition.2 →
        h.enObjType = SUBT_OBJ_TYPE_BITMAP

/-- Nothing of an earlier packet contributes to a page: no bits, no descriptor, no object type,
    and no bytes to an item that clears the screen. -/
structure PageClean (h : Handle) (own enter rest : List Segment) (page : PageInfo) : Prop where
  pending : h.statics = {}
  searches : PageSearches own enter rest page
  type : TypeClean own enter page h
  clear : ClearsScreen enter page → h.u32RegionShowBufLen = 0

instance (own enter rest : List Segment) (page : PageInfo) :
    Decidable (PageSearches own enter rest page) :=
  decidable_of_iff
    (Answered findDisplayDefinitionSegment own rest ∧
      (∀ region ∈ page.regions, RegionAnswered enter rest region) ∧
      ∀ region ∈ page.regions, ∀ seg ∈ (findRegionSegment region.u8RegionId enter).head?,
        characterObjects enter (regionObjectIds seg) ≤ 1)
    ⟨fun ⟨definition, regions, characters⟩ => ⟨definition, regions, characters⟩,
      fun h => ⟨h.definition, h.regions, h.characters⟩⟩

instance (own enter : List Segment) (page : PageInfo) (h : Handle) :
    Decidable (TypeClean own enter page h) :=
  inferInstanceAs (Decidable (_ → _))

instance (h : Handle) (own enter rest : List Segment) (page : PageInfo) :
    Decidable (PageClean h own enter rest page) :=
  decidable_of_iff
    (h.statics = {} ∧ PageSearches own enter rest page ∧ TypeClean own enter page h ∧
      (ClearsScreen enter page → h.u32RegionShowBufLen = 0))
    ⟨fun ⟨pending, searches, type, clear⟩ => ⟨pending, searches, type, clear⟩,
      fun h => ⟨h.pending, h.searches, h.type, h.clear⟩⟩

/-- Two handles before the same segments are parsed, the one with descriptors of earlier packets
    behind them, the other one with clear ones. -/
structure Like (own enter rest rest' : List Segment) (page : PageInfo) (h h' : Handle) :
    Prop where
  segments : h.astSegment = own ++ rest
  segments' : h'.astSegment = own ++ rest'
  buffer : h.u32RegionBufferLen = SUBT_REGION_SHOW_SD_LEN ∨
    h.u32RegionBufferLen = SUBT_REGION_SHOW_HD_LEN
  buffer' : h'.u32RegionBufferLen = SUBT_REGION_SHOW_SD_LEN ∨
    h'.u32RegionBufferLen = SUBT_REGION_SHOW_HD_LEN
  pts : h.u32PTS = h'.u32PTS
  version : h.u8PageVersion = h'.u8PageVersion
  stDefaultClut : h.stDefaultClut = h'.stDefaultClut
  astClut : h.astClut = h'.astClut
  error_status : h.error_status = h'.error_status
  statics : h.statics = h'.statics
  type : TypeClean own enter page h
  type' : TypeClean own enter page h'
  clear : ClearsScreen enter page → h.u32RegionShowBufLen = 0 ∧ h'.u32RegionShowBufLen = 0

/-- The region buffer and the header in it are all that changes with a new buffer. -/
theorem regionBufferReAlloc_eq (u32Len : Nat) (h : Handle) :
    regionBufferReAlloc u32Len h =
      { h with
        u32RegionBufferLen := (regionBufferReAlloc u32Len h).u32RegionBufferLen
        pu8RegionBuffer := (regionBufferReAlloc u32Len h).pu8RegionBuffer
        enObjType := (regionBufferReAlloc u32Len h).enObjType } := by
  simp only [regionBufferReAlloc]
  split_ifs <;> rfl

/-- The buffer has the length that is asked for, and a new one has a clear header. -/
theorem regionBufferReAlloc_len {u32Len : Nat} {h : Handle}
    (hlen : u32Len = SUBT_REGION_SHOW_SD_LEN ∨ u32Len = SUBT_REGION_SHOW_HD_LEN)
    (hbuffer : h.u32RegionBufferLen = SUBT_REGION_SHOW_SD_LEN ∨
      h.u32RegionBufferLen = SUBT_REGION_SHOW_HD_LEN) :
    (regionBufferReAlloc u32Len h).u32RegionBufferLen = u32Len ∧
      (regionBufferReAlloc u32Len h).enObjType =
        if h.u32RegionBufferLen = u32Len then h.enObjType else SUBT_OBJ_TYPE_BITMAP := by
  have horder : SUBT_REGION_SHOW_SD_LEN < SUBT_REGION_SHOW_HD_LEN := by decide
  simp only [regionBufferReAlloc]
  split_ifs with hsame hless
  · exact ⟨hsame, rfl⟩
  · exact ⟨by dsimp only; omega, rfl⟩
  · exact ⟨by dsimp only; omega, rfl⟩

theorem pageDefinition_len {segs : List Segment} {definition : DisplayDefinition × Nat}
    (h : pageDefinition segs = some definition) :
    definition.2 = SUBT_REGION_SHOW_SD_LEN ∨ definition.2 = SUBT_REGION_SHOW_HD_LEN := by
  simp only [pageDefinition] at h
  split at h
  · cases h
    exact .inr rfl
  · simp only [parseDisplayDefinition] at h
    split_ifs at h <;> cases h
    · exact .inr rfl
    · exact .inl rfl

/-- The display definition is that of the packet. -/
theorem pageDefinition_append {own rest : List Segment}
    (h : Answered findDisplayDefinitionSegment own rest) :
    pageDefinition (own ++ rest) = pageDefinition own := by
  have happ := (findType_goesOn SUBT_DISPLAY_DEFINITION_SEGMENT own).append h
  simp only [pageDefinition]
  rw [show findDisplayDefinitionSegment (own ++ rest) = _ from happ]
  cases hfind : findDisplayDefinitionSegment own with
  | nil => simp only [show findType _ own = [] from hfind, if_true]
  | cons seg segs =>
    simp only [show findType _ own = seg :: segs from hfind, reduceCtorEq, if_false,
      List.cons_append]

/-- Two handles draw and show the same page: with the same result, the same items and the same
    changes. -/
theorem showPage_like (h h' : Handle) {enter : List Segment} (rest rest' : List Segment)
    (page : PageInfo) (henter : HasData enter) (hstate : h.enPageState = page.enPageState)
    (hpage : SamePage h h')
    (hlen : h.u32RegionBufferLen = h'.u32RegionBufferLen)
    (herror : h.error_status = h'.error_status) (hstatics : h.statics = h'.statics)
    (hrest : ∀ region ∈ page.regions, RegionAnswered enter rest region)
    (hrest' : ∀ region ∈ page.regions, RegionAnswered enter rest' region)
    (hcharacters : ∀ region ∈ page.regions,
      ∀ seg ∈ (findRegionSegment region.u8RegionId enter).head?,
        characterObjects enter (regionObjectIds seg) ≤ 1)
    (htype : (∃ region ∈ page.regions, NamesObjects enter region) →
      (∃ region ∈ page.regions, DrawsObject enter region) ∨
        h.enObjType = SUBT_OBJ_TYPE_BITMAP ∧ h'.enObjType = SUBT_OBJ_TYPE_BITMAP)
    (hclear : ClearsScreen enter page →
      h.u32RegionShowBufLen = 0 ∧ h'.u32RegionShowBufLen = 0) :
    (showPage (enter ++ rest) page h).1 = (showPage (enter ++ rest') page h').1 ∧
    (showPage (enter ++ rest) page h).2.2 = (showPage (enter ++ rest') page h').2.2 ∧
    ((showPage (enter ++ rest) page h).1 = ERR_OUT_OF_WIDTH →
      ∃ w : Work, ((¬ ∃ region ∈ page.regions, DrawsObject enter region) → w.enObjType = none) ∧
        (showPage (enter ++ rest) page h).2.1 = h.drawn w ∧
        (showPage (enter ++ rest') page h').2.1 = h'.drawn w) := by
  have hfilled := regionLoop_filled h.u32RegionBufferLen h.error_status h.enPageState enter
    page.regions (w := { statics := h.statics, astClut := h.astClut }) ⟨trivial, by simp⟩
    hcharacters
  have hregions := regionLoop_regions h.u32RegionBufferLen h.error_status h.enPageState enter
    page.regions { statics := h.statics, astClut := h.astClut }
  obtain ⟨hsame, -, hset⟩ := regionLoop_enObjType h.u32RegionBufferLen h.error_status
    h.enPageState enter page.regions { statics := h.statics, astClut := h.astClut }
  simp only [showPage, regionLoop_append _ _ _ henter _ _ hrest,
    regionLoop_append _ _ _ henter _ _ hrest', ← hlen, ← herror, ← hpage.state, ← hstatics,
    ← hpage.astClut]
  generalize regionLoop h.u32RegionBufferLen h.error_status h.enPageState enter page.regions
    { statics := h.statics, astClut := h.astClut } = r at *
  cases hret : r.1 with
  | some s32Ret => exact ⟨rfl, rfl, fun _ => ⟨r.2, hsame, rfl, rfl⟩⟩
  | none =>
    refine ⟨rfl, ?_, fun herr => absurd herr (by simp [MT_SUCCESS, ERR_OUT_OF_WIDTH])⟩
    obtain ⟨hnames, hnone⟩ := hregions hret
    have hagree : Agree (fillAll ∅ r.2.stores) (runAll h.pu8RegionBuffer r.2.stores)
        (runAll h'.pu8RegionBuffer r.2.stores) :=
      runAll_agree (fun _ hi => absurd hi (Set.notMem_empty _)) hfilled.stores
    have hdrawn : SamePage (h.drawn r.2) (h'.drawn r.2) :=
      { pts := hpage.pts, time := hpage.time, state := hpage.state
        stDefaultClut := hpage.stDefaultClut, astClut := rfl, stDisplayDef := hpage.stDisplayDef }
    refine display_items hdrawn hagree (fun s hs => (hfilled.shown s hs).2) (fun hne => ?_)
      fun hnil hc => ?_
    · -- The object type is that of this page, or none of an earlier page is kept.
      rcases htype (hnames.resolve_right hne) with hdraws | ⟨hbitmap, hbitmap'⟩
      · obtain ⟨enObjType, htype⟩ := Option.isSome_iff_exists.mp (hset hret hdraws)
        simp only [Handle.drawn, htype, Option.getD_some]
      · simp only [Handle.drawn, hbitmap, hbitmap']
    · obtain ⟨-, hno, hlast⟩ := hnone hnil
      obtain ⟨hzero, hzero'⟩ := hclear ⟨hstate ▸ hc, hno, hlast⟩
      simp only [Handle.drawn, hzero, hzero', Nat.min_zero, List.take_zero, and_self]

/-- An attempt that shows nothing is not made twice. -/
theorem parseSegment_quiet {h : Handle}
    (hquiet : (h.astSegment.headD {}).u16DataLength = 0 ∨ findPageSegment h.astSegment = [] ∨
      ∃ seg segs, findPageSegment h.astSegment = seg :: segs ∧
        Unchanged h.u8PageVersion (parsePageSegment seg)) :
    (parseSegment h).1 ≠ ERR_OUT_OF_WIDTH ∧ (parseSegment h).2.2 = [] := by
  simp only [parseSegment]
  by_cases hhead : (h.astSegment.headD {}).u16DataLength = 0
  · rw [if_pos hhead]
    exact ⟨by simp [MT_SUCCESS, ERR_OUT_OF_WIDTH], rfl⟩
  · rw [if_neg hhead]
    cases pageDefinition h.astSegment with
    | none => exact ⟨by simp [MT_FAILURE, ERR_OUT_OF_WIDTH], rfl⟩
    | some definition =>
      have hframe := regionBufferReAlloc_eq definition.2 { h with stDisplayDef := definition.1 }
      dsimp only
      rw [hframe]
      dsimp only
      rcases hquiet.resolve_left hhead with hpage | ⟨seg, segs, hpage, hsame⟩
      · rw [hpage]
        exact ⟨by simp [MT_SUCCESS, ERR_OUT_OF_WIDTH], rfl⟩
      · unfold Unchanged at hsame
        rw [hpage]
        dsimp only
        rw [if_pos hsame]
        exact ⟨by simp [MT_SUCCESS, ERR_OUT_OF_WIDTH], rfl⟩

/-- An attempt that shows a page. -/
theorem parseSegment_shown {h : Handle} {seg : Segment} {segs : List Segment}
    {definition : DisplayDefinition × Nat}
    (hhead : (h.astSegment.headD {}).u16DataLength ≠ 0)
    (hdefinition : pageDefinition h.astSegment = some definition)
    (hpage : findPageSegment h.astSegment = seg :: segs)
    (hchanged : ¬ Unchanged h.u8PageVersion (parsePageSegment seg)) :
    parseSegment h = showPage (seg :: segs) (parsePageSegment seg)
      { regionBufferReAlloc definition.2 { h with stDisplayDef := definition.1 } with
        u8ShowTime := (parsePageSegment seg).u8ShowTime
        enPageState := (parsePageSegment seg).enPageState
        u8PageVersion := (parsePageSegment seg).u8InPageVer } := by
  have hframe := regionBufferReAlloc_eq definition.2 { h with stDisplayDef := definition.1 }
  unfold Unchanged at hchanged
  simp only [parseSegment, if_neg hhead, hdefinition]
  rw [hframe]
  dsimp only
  rw [hpage]
  dsimp only
  rw [if_neg hchanged]

theorem parseSegment_failed {h : Handle} (hhead : (h.astSegment.headD {}).u16DataLength ≠ 0)
    (hdefinition : pageDefinition h.astSegment = none) :
    (parseSegment h).1 = MT_FAILURE ∧ (parseSegment h).2.2 = [] := by
  simp only [parseSegment, if_neg hhead, hdefinition, and_self]

/-- Two handles that are alike show the same, and are alike before a second attempt. -/
theorem parseSegment_like {own rest rest' : List Segment} {seg : Segment} {segs : List Segment}
    (hown : HasData own) (hhead : (own.headD {}).u16DataLength ≠ 0)
    (hfind : findPageSegment own = seg :: segs) (hclear : Cleared rest')
    (hsearches : PageSearches own (seg :: segs) rest (parsePageSegment seg)) {h h' : Handle}
    (hlike : Like own (seg :: segs) rest rest' (parsePageSegment seg) h h')
    (hchanged : ¬ Unchanged h.u8PageVersion (parsePageSegment seg)) :
    (parseSegment h).1 = (parseSegment h').1 ∧ (parseSegment h).2.2 = (parseSegment h').2.2 ∧
    ((parseSegment h).1 = ERR_OUT_OF_WIDTH →
      Like own (seg :: segs) rest rest' (parsePageSegment seg)
        { (parseSegment h).2.1 with error_status := true }
        { (parseSegment h').2.1 with error_status := true }) := by
  have hne : own ≠ [] := by
    rintro rfl
    exact hhead rfl
  obtain ⟨first, others, rfl⟩ := List.exists_cons_of_ne_nil hne
  have hpages : ∀ behind, findPageSegment (first :: others ++ behind) = seg :: segs ++ behind := by
    intro behind
    have happ := findType_goesOn SUBT_PAGE_SEGMENT (first :: others) behind
    rw [show findType SUBT_PAGE_SEGMENT (first :: others) = seg :: segs from hfind,
      if_neg (List.cons_ne_nil seg segs)] at happ
    exact happ
  have hdef := pageDefinition_append hsearches.definition
  have hdef' := pageDefinition_append
    (show Answered findDisplayDefinitionSegment (first :: others) rest' from
      .inr (findType_cleared _ hclear))
  have hhead₁ : (h.astSegment.headD {}).u16DataLength ≠ 0 := by rw [hlike.segments]; exact hhead
  have hhead₂ : (h'.astSegment.headD {}).u16DataLength ≠ 0 := by rw [hlike.segments']; exact hhead
  cases hdefinition : pageDefinition (first :: others) with
  | none =>
    obtain ⟨hret, hitems⟩ := parseSegment_failed hhead₁
      (by rw [hlike.segments, hdef, hdefinition])
    obtain ⟨hret', hitems'⟩ := parseSegment_failed hhead₂
      (by rw [hlike.segments', hdef', hdefinition])
    refine ⟨hret.trans hret'.symm, hitems.trans hitems'.symm, fun herr => ?_⟩
    rw [hret] at herr
    exact absurd herr (by simp [MT_FAILURE, ERR_OUT_OF_WIDTH])
  | some definition =>
    have henter : HasData (seg :: segs) := hown.suffix (hfind ▸ findType_suffix _ _)
    have hlen := pageDefinition_len hdefinition
    rw [parseSegment_shown hhead₁ (by rw [hlike.segments, hdef, hdefinition])
        (by rw [hlike.segments]; exact hpages rest) hchanged,
      parseSegment_shown hhead₂ (by rw [hlike.segments', hdef', hdefinition])
        (by rw [hlike.segments']; exact hpages rest') (hlike.version ▸ hchanged)]
    have hframe := regionBufferReAlloc_eq definition.2 { h with stDisplayDef := definition.1 }
    have hframe' := regionBufferReAlloc_eq definition.2 { h' with stDisplayDef := definition.1 }
    obtain ⟨hbuffer, htype⟩ := regionBufferReAlloc_len
      (h := { h with stDisplayDef := definition.1 }) hlen hlike.buffer
    obtain ⟨hbuffer', htype'⟩ := regionBufferReAlloc_len
      (h := { h' with stDisplayDef := definition.1 }) hlen hlike.buffer'
    rw [hbuffer, htype] at hframe
    rw [hbuffer', htype'] at hframe'
    rw [hframe, hframe']
    -- Before the page is drawn the headers hold no type, unless one is drawn.
    have hbitmap : ∀ {g : Handle}, TypeClean (first :: others) (seg :: segs)
        (parsePageSegment seg) g →
        (∃ region ∈ (parsePageSegment seg).regions, NamesObjects (seg :: segs) region) →
        (∃ region ∈ (parsePageSegment seg).regions, DrawsObject (seg :: segs) region) ∨
        (if g.u32RegionBufferLen = definition.2 then g.enObjType else SUBT_OBJ_TYPE_BITMAP) =
          SUBT_OBJ_TYPE_BITMAP := by
      intro g hg hnames
      refine (hg hnames).imp_right fun hbit => ?_
      split_ifs with hsame
      · exact hbit definition hdefinition hsame
      · rfl
    obtain ⟨hret, hitems, hchanges⟩ := showPage_like
      { h with
        u8ShowTime := (parsePageSegment seg).u8ShowTime
        enPageState := (parsePageSegment seg).enPageState
        u8PageVersion := (parsePageSegment seg).u8InPageVer
        stDisplayDef := definition.1
        u32RegionBufferLen := definition.2
        pu8RegionBuffer :=
          (regionBufferReAlloc definition.2 { h with stDisplayDef := definition.1 }).pu8RegionBuffer
        enObjType :=
          if h.u32RegionBufferLen = definition.2 then h.enObjType else SUBT_OBJ_TYPE_BITMAP }
      { h' with
        u8ShowTime := (parsePageSegment seg).u8ShowTime
        enPageState := (parsePageSegment seg).enPageState
        u8PageVersion := (parsePageSegment seg).u8InPageVer
        stDisplayDef := definition.1
        u32RegionBufferLen := definition.2
        pu8RegionBuffer :=
          (regionBufferReAlloc definition.2 { h' with stDisplayDef := definition.1 }).pu8RegionBuffer
        enObjType :=
          if h'.u32RegionBufferLen = definition.2 then h'.enObjType else SUBT_OBJ_TYPE_BITMAP }
      rest rest' (parsePageSegment seg) henter rfl
      { pts := hlike.pts, time := rfl, state := rfl, stDefaultClut := hlike.stDefaultClut
        astClut := hlike.astClut, stDisplayDef := rfl }
      rfl hlike.error_status hlike.statics hsearches.regions
      (fun region _ => regionAnswered_cleared hclear _ region) hsearches.characters
      (fun hnames => by
        rcases hbitmap hlike.type hnames with hdraws | hbit
        · exact .inl hdraws
        · exact (hbitmap hlike.type' hnames).imp_right fun hbit' => ⟨hbit, hbit'⟩)
      hlike.clear
    refine ⟨hret, hitems, fun herr => ?_⟩
    obtain ⟨w, hundrawn, hdrawn, hdrawn'⟩ := hchanges herr
    have htypes : ∀ {g g₁ : Handle}, TypeClean (first :: others) (seg :: segs)
        (parsePageSegment seg) g →
        g₁.enObjType = w.enObjType.getD
          (if g.u32RegionBufferLen = definition.2 then g.enObjType else SUBT_OBJ_TYPE_BITMAP) →
        TypeClean (first :: others) (seg :: segs) (parsePageSegment seg) g₁ := by
      intro g g₁ hg hg₁ hnames
      by_cases hdraws : ∃ region ∈ (parsePageSegment seg).regions, DrawsObject (seg :: segs) region
      · exact .inl hdraws
      · refine .inr fun _ _ _ => ?_
        rw [hg₁, hundrawn hdraws]
        exact (hbitmap hg hnames).resolve_left hdraws
    have hafter := congrArg (fun g : Handle => { g with error_status := true }) hdrawn
    have hafter' := congrArg (fun g : Handle => { g with error_status := true }) hdrawn'
    exact Eq.mpr (congrArg₂ (Like _ _ _ _ _) hafter hafter')
      { segments := hlike.segments
        segments' := hlike.segments'
        buffer := hlen
        buffer' := hlen
        pts := hlike.pts
        version := rfl
        stDefaultClut := hlike.stDefaultClut
        astClut := rfl
        error_status := rfl
        statics := rfl
        type := htypes hlike.type rfl
        type' := htypes hlike.type' rfl
        clear := hlike.clear }

/-- The attempts at a packet show the same on two handles that are alike. -/
theorem parseAttempts_like (ids : PageIds) (p : List UInt8) (u32DataLen n : Nat)
    {own rest rest' : List Segment} {seg : Segment} {segs : List Segment}
    (hown : HasData own) (hhead : (own.headD {}).u16DataLength ≠ 0)
    (hfind : findPageSegment own = seg :: segs) (hclear : Cleared rest')
    (hagain : createSegment ids p u32DataLen (own ++ rest) = own ++ rest)
    (hagain' : createSegment ids p u32DataLen (own ++ rest') = own ++ rest') {h h' : Handle}
    (hsearches : PageSearches own (seg :: segs) rest (parsePageSegment seg))
    (hlike : Like own (seg :: segs) rest rest' (parsePageSegment seg)
      { h with astSegment := createSegment ids p u32DataLen h.astSegment }
      { h' with astSegment := createSegment ids p u32DataLen h'.astSegment }) :
    (parseAttempts ids p u32DataLen n h).2 = (parseAttempts ids p u32DataLen n h').2 := by
  induction n generalizing h h' with
  | zero => rfl
  | succ n ih =>
    simp only [parseAttempts]
    by_cases hchanged : Unchanged h.u8PageVersion (parsePageSegment seg)
    -- the page has been shown before: neither handle draws anything
    · have hpages : ∀ behind, findPageSegment (own ++ behind) = seg :: (segs ++ behind) := by
        intro behind
        have happ := findType_goesOn SUBT_PAGE_SEGMENT own behind
        rw [show findType SUBT_PAGE_SEGMENT own = seg :: segs from hfind,
          if_neg (List.cons_ne_nil seg segs)] at happ
        exact happ
      obtain ⟨hret, hitems⟩ := parseSegment_quiet
        (h := { h with astSegment := createSegment ids p u32DataLen h.astSegment })
        (.inr (.inr ⟨seg, _, by rw [hlike.segments]; exact hpages rest, hchanged⟩))
      obtain ⟨hret', hitems'⟩ := parseSegment_quiet
        (h := { h' with astSegment := createSegment ids p u32DataLen h'.astSegment })
        (.inr (.inr ⟨seg, _, by rw [hlike.segments']; exact hpages rest',
          hlike.version ▸ hchanged⟩))
      rw [if_neg hret, if_neg hret', hitems, hitems']
    · obtain ⟨hret, hitems, hnext⟩ :=
        parseSegment_like hown hhead hfind hclear hsearches hlike hchanged
      -- a page that does not fit is tried again, with all segments read anew
      by_cases herr : (parseSegment { h with
          astSegment := createSegment ids p u32DataLen h.astSegment }).1 = ERR_OUT_OF_WIDTH
      · have hlike' := hnext herr
        -- reading them anew finds the same descriptors
        have hkeep : ∀ g : Handle, createSegment ids p u32DataLen g.astSegment = g.astSegment →
            { g with astSegment := createSegment ids p u32DataLen g.astSegment } = g := by
          intro g hg
          rw [hg]
        have hsegs := hkeep _ (hlike'.segments.symm ▸ hagain)
        have hsegs' := hkeep _ (hlike'.segments'.symm ▸ hagain')
        rw [if_pos herr, if_pos (hret ▸ herr)]
        dsimp only
        rw [hitems, ih
          (Eq.mpr (congrArg₂ (Like own (seg :: segs) rest rest' _) hsegs hsegs') hlike')]
      · rw [if_neg herr, if_neg (hret ▸ herr), hitems]

/-- Attempts that show nothing. -/
theorem parseAttempts_quiet (ids : PageIds) (p : List UInt8) (u32DataLen n : Nat) {h : Handle}
    (hquiet : (parseSegment
        { h with astSegment := createSegment ids p u32DataLen h.astSegment }).1 ≠
          ERR_OUT_OF_WIDTH ∧
      (parseSegment
        { h with astSegment := createSegment ids p u32DataLen h.astSegment }).2.2 = []) :
    (parseAttempts ids p u32DataLen n h).2 = [] := by
  cases n with
  | zero => rfl
  | succ n =>
    simp only [parseAttempts]
    rw [if_neg hquiet.1, hquiet.2]

/-! ## Packets -/

/-- The buffers of a handle have the lengths they are made with. -/
structure Handle.Sized (h : Handle) : Prop where
  segments : h.astSegment.length = SUBT_SEGMENT_IN_PES_MAX
  buffer : h.u32RegionBufferLen = SUBT_REGION_SHOW_SD_LEN ∨
    h.u32RegionBufferLen = SUBT_REGION_SHOW_HD_LEN

/-- The handle that has the same tables, with their versions, and the same page version, and has
    parsed nothing. -/
def Handle.forget (h : Handle) : Handle :=
  { u8PageVersion := h.u8PageVersion, stDefaultClut := h.stDefaultClut, astClut := h.astClut }

theorem Handle.forget_sized (h : Handle) : h.forget.Sized := ⟨List.length_replicate, .inl rfl⟩

/-- The segments of a packet are parsed. -/
def PesPacket.Accepted (packet : PesPacket) : Prop :=
  get8 packet.pu8DataSrc 7 &&& 0x80 ≠ 0 ∧ packet.u8PesHeadLength ≤ packet.u32Len ∧
    (get8 packet.pu8DataSrc (9 + packet.u8PesStuffingLength) = 0x20 ∧
      get8 packet.pu8DataSrc (9 + packet.u8PesStuffingLength + 1) = 0x00) ∧
    9 + packet.u8PesStuffingLength + 2 = packet.u8PesHeadLength

instance (packet : PesPacket) : Decidable packet.Accepted := inferInstanceAs (Decidable (_ ∧ _))

/-- The descriptors that a packet fills. -/
def PesPacket.own (packet : PesPacket) : List Segment :=
  ownSegments packet.ids packet.segmentData packet.segmentLen

/-- The descriptors of a handle behind those that a packet fills. -/
def PesPacket.behind (packet : PesPacket) (h : Handle) : List Segment :=
  segmentsBehind packet.ids packet.segmentData packet.segmentLen h.astSegment

/-- Nothing of an earlier packet contributes to a packet. -/
def Clean (h : Handle) (packet : PesPacket) : Prop :=
  packet.Accepted → (packet.own.headD {}).u16DataLength ≠ 0 →
    Answered findPageSegment packet.own (packet.behind h) ∧
    ∀ seg ∈ (findPageSegment packet.own).head?,
      ¬ Unchanged h.u8PageVersion (parsePageSegment seg) →
        PageClean h packet.own (findPageSegment packet.own) (packet.behind h)
          (parsePageSegment seg)

instance (h : Handle) (packet : PesPacket) : Decidable (Clean h packet) :=
  inferInstanceAs (Decidable (_ → _))

/-- The parser as a machine. -/
def parser : Machine Handle PesPacket (List DisplayItem) where
  step h packet := parsePESPacket packet h

/-- The item for a packet is that of the handle that has parsed nothing. -/
def Forgets (h : Handle) (packet : PesPacket) : Prop :=
  (parsePESPacket packet h).2 = (parsePESPacket packet h.forget).2

theorem parsePESPacket_refused {packet : PesPacket} (hrefused : ¬ packet.Accepted) (h : Handle) :
    (parsePESPacket packet h).2 = [] ∧
      ∃ u32PTS, (parsePESPacket packet h).1 = { h with u32PTS } := by
  simp only [parsePESPacket]
  split_ifs with hpts hlen hid hhead
  · exact ⟨rfl, _, rfl⟩
  · exact ⟨rfl, _, rfl⟩
  · exact ⟨rfl, _, rfl⟩
  · exact ⟨rfl, _, rfl⟩
  · exact absurd ⟨hpts, not_lt.mp hlen, by simpa [not_or] using hid, not_not.mp hhead⟩ hrefused

theorem parsePESPacket_accepted {packet : PesPacket} (haccepted : packet.Accepted) (h : Handle) :
    parsePESPacket packet h =
      parseAttempts packet.ids packet.segmentData packet.segmentLen 2
        { h with u32PTS := packetPts (packet.pu8DataSrc.drop 9), error_status := false } := by
  obtain ⟨hpts, hlen, hid, hhead⟩ := haccepted
  simp only [parsePESPacket, if_neg hpts, if_neg (not_lt.mpr hlen), hid, hhead, ne_eq,
    not_true_eq_false, or_self, if_false]

/-- A packet to which nothing of an earlier one contributes. -/
theorem parsePESPacket_forgets {h : Handle} (hsized : h.Sized) {packet : PesPacket}
    (hclean : Clean h packet) : Forgets h packet := by
  by_cases haccepted : packet.Accepted
  · obtain ⟨hown, hsplit⟩ :=
      createSegment_split packet.ids packet.segmentData packet.segmentLen
    obtain ⟨hsegs, -, hempty⟩ := hsplit h.astSegment hsized.segments
    obtain ⟨hsegs', hcleared, hempty'⟩ := hsplit h.forget.astSegment h.forget_sized.segments
    have hclear := hcleared fun seg hseg => by
      rw [List.eq_of_mem_replicate hseg]
      exact ⟨rfl, rfl⟩
    rw [Forgets, parsePESPacket_accepted haccepted, parsePESPacket_accepted haccepted]
    -- If the packet is not to be shown, neither handle shows anything.
    have hquiet : ∀ g : Handle, ((createSegment packet.ids packet.segmentData packet.segmentLen
          g.astSegment).headD {}).u16DataLength = 0 ∨
        findPageSegment (createSegment packet.ids packet.segmentData packet.segmentLen
          g.astSegment) = [] ∨ (∃ seg segs, findPageSegment (createSegment packet.ids
          packet.segmentData packet.segmentLen g.astSegment) = seg :: segs ∧
          Unchanged g.u8PageVersion (parsePageSegment seg)) →
        (parseAttempts packet.ids packet.segmentData packet.segmentLen 2
          { g with u32PTS := packetPts (packet.pu8DataSrc.drop 9), error_status := false }).2 =
            [] := fun g hg => parseAttempts_quiet _ _ _ _ (parseSegment_quiet hg)
    by_cases hhead : (packet.own.headD {}).u16DataLength = 0
    · have hheads : ∀ behind : List Segment,
          (packet.own = [] → (behind.headD {}).u16DataLength = 0) →
          ((packet.own ++ behind).headD {}).u16DataLength = 0 := by
        intro behind hbehind
        cases hnil : packet.own with
        | nil => exact hbehind hnil
        | cons seg segs =>
          rw [hnil] at hhead
          exact hhead
      rw [hquiet h (.inl (by rw [hsegs]; exact hheads _ hempty)),
        hquiet h.forget (.inl (by rw [hsegs']; exact hheads _ hempty'))]
    · obtain ⟨hanswered, hpage⟩ := hclean haccepted hhead
      have happ := (findType_goesOn SUBT_PAGE_SEGMENT packet.own).append hanswered
      have happ' := (findType_goesOn SUBT_PAGE_SEGMENT packet.own).append
        (.inr (findType_cleared SUBT_PAGE_SEGMENT hclear))
      cases hfind : findPageSegment packet.own with
      | nil =>
        rw [show findType _ packet.own = [] from hfind, if_pos rfl] at happ happ'
        rw [hquiet h (.inr (.inl (by rw [hsegs]; exact happ))),
          hquiet h.forget (.inr (.inl (by rw [hsegs']; exact happ')))]
      | cons seg segs =>
        rw [show findType _ packet.own = seg :: segs from hfind,
          if_neg (List.cons_ne_nil seg segs)] at happ happ'
        by_cases hchanged : Unchanged h.u8PageVersion (parsePageSegment seg)
        · rw [hquiet h (.inr (.inr ⟨seg, _, by rw [hsegs]; exact happ, hchanged⟩)),
            hquiet h.forget (.inr (.inr ⟨seg, _, by rw [hsegs']; exact happ', hchanged⟩))]
        · have hpageClean := hpage seg (by rw [hfind]; rfl) hchanged
          rw [hfind] at hpageClean
          refine parseAttempts_like _ _ _ _ hown hhead hfind hclear ?_ ?_ hpageClean.searches
            { segments := hsegs, segments' := hsegs', buffer := hsized.buffer, buffer' := .inl rfl
              pts := rfl, version := rfl, stDefaultClut := rfl, astClut := rfl
              error_status := rfl, statics := hpageClean.pending
              type := hpageClean.type
              type' := fun _ => .inr fun _ _ _ => rfl
              clear := fun hc => ⟨hpageClean.clear hc, rfl⟩ }
          · have hagain := createSegment_again packet.ids packet.segmentData packet.segmentLen
              h.astSegment
            rw [hsegs] at hagain
            exact hagain
          · have hagain := createSegment_again packet.ids packet.segmentData packet.segmentLen
              h.forget.astSegment
            rw [hsegs'] at hagain
            exact hagain
  · rw [Forgets, (parsePESPacket_refused haccepted h).1,
      (parsePESPacket_refused haccepted h.forget).1]

theorem Handle.Sized.of_eq {h h' : Handle} (hsized : h.Sized)
    (hsegments : h'.astSegment = h.astSegment)
    (hbuffer : h'.u32RegionBufferLen = h.u32RegionBufferLen) : h'.Sized :=
  ⟨hsegments ▸ hsized.segments, hbuffer ▸ hsized.buffer⟩

theorem display_sized {h : Handle} (hsized : h.Sized) (regions : List ShowRegion) :
    (display h regions).1.Sized := by
  simp only [display]
  split
  · split_ifs <;> exact hsized
  · split
    · exact hsized.of_eq rfl rfl
    · split_ifs
      · exact hsized.of_eq rfl rfl
      all_goals
        split
        · exact hsized.of_eq rfl rfl
        · split_ifs <;> exact hsized.of_eq rfl rfl

theorem parseSegment_sized {h : Handle} (hsized : h.Sized) : (parseSegment h).2.1.Sized := by
  simp only [parseSegment]
  split_ifs
  · exact hsized
  · cases hdefinition : pageDefinition h.astSegment with
    | none => exact hsized.of_eq rfl rfl
    | some definition =>
      have hlen := pageDefinition_len hdefinition
      obtain ⟨hbuffer, -⟩ := regionBufferReAlloc_len
        (h := { h with stDisplayDef := definition.1 }) hlen hsized.buffer
      have hframe := regionBufferReAlloc_eq definition.2 { h with stDisplayDef := definition.1 }
      rw [hbuffer] at hframe
      dsimp only
      rw [hframe]
      split
      · exact ⟨hsized.segments, hlen⟩
      · dsimp only
        split_ifs
        · exact ⟨hsized.segments, hlen⟩
        · simp only [showPage]
          split
          · exact ⟨hsized.segments, hlen⟩
          · apply display_sized
            exact ⟨hsized.segments, hlen⟩

theorem parseAttempts_sized (ids : PageIds) (p : List UInt8) (u32DataLen n : Nat) {h : Handle}
    (hsized : h.Sized) : (parseAttempts ids p u32DataLen n h).1.Sized := by
  induction n generalizing h with
  | zero => exact hsized
  | succ n ih =>
    have hparsed := parseSegment_sized
      (h := { h with astSegment := createSegment ids p u32DataLen h.astSegment })
      ⟨(length_createSegment ids p u32DataLen h.astSegment).trans hsized.segments, hsized.buffer⟩
    simp only [parseAttempts]
    split_ifs
    · exact ih (hparsed.of_eq rfl rfl)
    · exact hparsed

theorem parsePESPacket_sized {h : Handle} (hsized : h.Sized) (packet : PesPacket) :
    (parsePESPacket packet h).1.Sized := by
  by_cases haccepted : packet.Accepted
  · rw [parsePESPacket_accepted haccepted]
    exact parseAttempts_sized _ _ _ _ (hsized.of_eq rfl rfl)
  · obtain ⟨-, u32PTS, heq⟩ := parsePESPacket_refused haccepted h
    rw [heq]
    exact hsized.of_eq rfl rfl

/-- The items for the packets of a run are those of handles that have parsed nothing, as long as
    nothing of an earlier packet contributes to the next one. -/
theorem packets_forgotten {h : Handle} (hsized : h.Sized) (packets : List PesPacket)
    (hclean : parser.Always Clean h packets) : parser.Always Forgets h packets :=
  (Machine.always_of_invariant (I := Handle.Sized)
    (fun _ packet hsized hclean =>
      ⟨parsePESPacket_forgets hsized hclean, parsePESPacket_sized hsized packet⟩)
    hsized hclean).1

/-- A packet with segments, for the page 1. -/
def packetOf (segments : List UInt8) : PesPacket where
  pu8DataSrc := [0, 0, 1, 0xbd, 0, 0, 0x80, 0x80, 5, 0x21, 0, 1, 0, 1, 0x20, 0] ++ segments
  u32Len := segments.length + 10
  ids := { u16PageID := 1, u16AncillaryID := 1 }

/-- A packet that shows a region with an object of two pixels. -/
def regionPacket : PesPacket :=
  packetOf
    ([0x0f, 0x10, 0, 1, 0, 8, 5, 0x04, 1, 0, 0, 0, 0, 0] ++
      [0x0f, 0x11, 0, 1, 0, 16, 1, 0, 0, 4, 0, 2, 0x08, 1, 0, 0, 0, 5, 0, 0, 0, 0] ++
      [0x0f, 0x13, 0, 1, 0, 10, 0, 5, 0, 0, 3, 0, 0, 0x11, 0x12, 0x00])

theorem packets_forgotten_two :
    parser.Always Clean {} [regionPacket, regionPacket] ∧
      parser.Always Forgets {} [regionPacket, regionPacket] :=
  have hclean : parser.Always Clean {} [regionPacket, regionPacket] := by decide +kernel
  ⟨hclean, packets_forgotten ⟨rfl, .inl rfl⟩ _ hclean⟩

/-- A display definition for a packet. -/
def definitionSegment : List UInt8 := [0x0f, 0x14, 0, 1, 0, 5, 0, 2, 0xcf, 2, 0x3f]

/-- The page of an earlier packet is shown by a packet that has none. -/
theorem stale_page_shown : ¬ ∀ packets, parser.Always Forgets {} packets := by
  intro hall
  have hsecond := (hall [packetOf (definitionSegment ++ [0x0f, 0x10, 0, 1, 0, 2, 5, 0x04]),
    packetOf definitionSegment]).2.1
  have hlength := congrArg List.length hsecond
  revert hlength
  decide +kernel

end Tntsat.SubtParse
