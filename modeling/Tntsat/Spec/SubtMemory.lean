import Tntsat.Spec.SubtSearch

/-!
# The region buffer of the DVB subtitle parser

The regions of a page are drawn into a buffer that still holds what earlier packets have drawn.
A region is cleared before its objects are drawn, and lines are copied within it only, so that
nothing of an earlier packet is left in what is shown: as long as no second character-coded
object moves what is shown behind the cells that were cleared.

## Key results

- `regionLoop_filled`: the cells of the shown regions are filled, and only filled cells are
  copied
- `display_items`: the items do not depend on other cells
-/

namespace Tntsat.SubtParse

open Store

/-! ## Pixels -/

theorem isSet_append_memset {ss : List (Store UInt8)} (h : ∀ s ∈ ss, IsSet s) (addr n : Nat)
    (c : UInt8) : ∀ s ∈ ss ++ [memset addr c n], IsSet s :=
  List.forall_mem_append.mpr ⟨h, List.forall_mem_singleton.mpr trivial⟩

theorem codeStringLoop_isSet (k : CodeString) (region : ReferingRegion) (u16BlockLen fuel : Nat)
    {b : PixelBlock} (h : ∀ s ∈ b.stores, IsSet s) :
    ∀ s ∈ (codeStringLoop k region u16BlockLen fuel b).2.stores, IsSet s := by
  induction fuel generalizing b with
  | zero => exact h
  | succ fuel ih =>
    have hset := isSet_append_memset h
    simp only [codeStringLoop]
    split_ifs
    · exact hset _ _ _
    · exact h
    · exact hset _ _ _
    · exact h
    · exact ih (hset _ _ _)
    · exact isSet_append_memset (hset _ _ _) _ _ _

theorem pixelBlockLoop_isSet (region : ReferingRegion) (u16BlockLen fuel : Nat) {b : PixelBlock}
    (h : ∀ s ∈ b.stores, IsSet s) :
    ∀ s ∈ (pixelBlockLoop region u16BlockLen fuel b).2.stores, IsSet s := by
  induction fuel generalizing b with
  | zero => exact h
  | succ fuel ih =>
    have hstring := fun k => codeStringLoop_isSet k region u16BlockLen (4 * u16BlockLen + 8)
      (b := { b with cursor := b.cursor.byte.2 }) h
    simp only [pixelBlockLoop]
    split_ifs
    · exact h
    · exact hstring codeString2
    · exact ih (hstring codeString2)
    · exact hstring codeString4
    · exact ih (hstring codeString4)
    · exact hstring codeString8
    · exact ih (hstring codeString8)
    -- Map tables and the ends of lines store nothing.
    · exact ih h
    · exact ih h
    · exact ih h
    · exact ih h
    · exact ih h

theorem pixelBlockDecode_isSet (p : List UInt8) (region : ReferingRegion)
    (pu8ObjPixelWrite u16BlockLen : Nat) (statics : Statics) :
    ∀ s ∈ (pixelBlockDecode p region pu8ObjPixelWrite u16BlockLen statics).2.stores, IsSet s :=
  pixelBlockLoop_isSet region u16BlockLen _ (by simp)

/-! ## Objects -/

/-- The cells that are shown of a region. -/
def ShowRegion.cells (r : ShowRegion) : Set Nat :=
  Store.cells r.pu8ShowData (r.u16Width * r.u16Heigth)

/-- A region is drawn from cells that are filled, and what is shown of it is filled, as are the
    cells `S` that were before. -/
structure Drawing.Filled (S : Set Nat) (info : AllInfo) (d : Drawing) : Prop where
  width : d.region.u16Width = info.u16RegionWidth
  height : d.region.u16Heigth = info.u16RegionHeight
  aligned : d.region.addr % 4 = 0
  data : d.region.pu8ShowData = d.region.addr + SHOW_REGION_SIZE
  stores : AllFilled ∅ d.stores
  shown : d.region.cells ⊆ fillAll ∅ d.stores
  before : S ⊆ fillAll ∅ d.stores

/-- More stores keep what is shown. -/
theorem Drawing.Filled.of_append {S : Set Nat} {info : AllInfo} {d d' : Drawing}
    (h : d.Filled S info)
    {ss : List (Store UInt8)} (hregion : d'.region = d.region)
    (hstores : d'.stores = d.stores ++ ss) (hss : AllFilled (fillAll ∅ d.stores) ss) :
    d'.Filled S info where
  width := hregion ▸ h.width
  height := hregion ▸ h.height
  aligned := hregion ▸ h.aligned
  data := hregion ▸ h.data
  stores := hstores ▸ allFilled_append.mpr ⟨h.stores, hss⟩
  shown := by
    rw [hregion, hstores, fillAll_append]
    exact h.shown.trans (subset_fillAll _ ss)
  before := by
    rw [hstores, fillAll_append]
    exact h.before.trans (subset_fillAll _ ss)

/-- Lines are copied within the region. -/
theorem copyLines_filled {S : Set Nat} (pixels width height n i : Nat)
    (hcells : Store.cells pixels (width * height) ⊆ S) (hn : i + 2 * n ≤ height) :
    AllFilled S (copyLines pixels width n i) := by
  induction n generalizing i with
  | zero => trivial
  | succ n ih =>
    refine ⟨fun a ha => hcells ⟨?_, ?_⟩, ih (i + 2) (by omega)⟩
    · exact (Nat.le_add_right _ _).trans ha.1
    · have hline : (i + 1) * width ≤ height * width := Nat.mul_le_mul_right width (by omega)
      have hlt := ha.2
      rw [Nat.add_mul, Nat.one_mul] at hline
      rw [Nat.mul_comm width height]
      omega

/-- A block of pixels keeps what is shown. -/
theorem Drawing.Filled.block {S : Set Nat} {info : AllInfo} {d : Drawing} (h : d.Filled S info)
    (p : List UInt8)    (region : ReferingRegion) (write len : Nat) (statics statics' : Statics) :
    ({ d with
       statics := statics'
       stores := d.stores ++ (pixelBlockDecode p region write len statics).2.stores } :
      Drawing).Filled S info :=
  h.of_append rfl rfl (allFilled_of_isSet _ (pixelBlockDecode_isSet p region write len statics))

theorem decodingPixels_filled (u32RegionBufferLen : Nat) {S : Set Nat} {info : AllInfo}
    (object : ObjectInfo)
    (p : List UInt8) {d : Drawing} (h : d.Filled S info) :
    (decodingPixels u32RegionBufferLen info object p d).2.Filled S info := by
  have hpixels : align4 (d.region.addr + SHOW_REGION_SIZE) = d.region.pu8ShowData := by
    have haligned := h.aligned
    rw [h.data]
    simp only [align4, SHOW_REGION_SIZE]
    omega
  simp only [decodingPixels, hpixels]
  split_ifs
  · exact h
  · exact h.block _ _ _ _ _ _
  · exact (h.block _ _ _ _ _ d.statics).block _ _ _ _ _ _
  · have hcells := h.shown
    rw [ShowRegion.cells, h.width, h.height] at hcells
    refine (h.block _ _ _ _ _ d.statics).of_append rfl rfl ?_
    apply copyLines_filled _ _ info.u16RegionHeight
    · rw [fillAll_append]
      exact hcells.trans (subset_fillAll _ _)
    · omega

theorem decodingCharacter_filled (u32RegionBufferLen : Nat) {S : Set Nat} {info : AllInfo}
    (p : List UInt8)
    {d : Drawing} (h : d.Filled S info) (hnum : d.region.u16CharacterNum = 0) :
    (decodingCharacter u32RegionBufferLen p d).2.Filled S info := by
  -- The first character-coded object is put where the region begins.
  have hdata : align4 (d.region.addr + SHOW_REGION_SIZE + d.region.u16CharacterNum) =
      d.region.pu8ShowData := by
    have haligned := h.aligned
    rw [h.data, hnum]
    simp only [align4, SHOW_REGION_SIZE]
    omega
  simp only [decodingCharacter, hdata]
  split_ifs
  · exact h
  · exact
      { width := h.width
        height := h.height
        aligned := h.aligned
        data := h.data
        stores := allFilled_append.mpr ⟨h.stores, trivial, trivial⟩
        shown := by
          rw [fillAll_append]
          exact h.shown.trans (subset_fillAll _ _)
        before := by
          rw [fillAll_append]
          exact h.before.trans (subset_fillAll _ _) }

/-- What the header of an object segment says about its coding. -/
def objectCoding (seg : Segment) : Nat :=
  ((get8 (seg.pu8SegmentData.getD []) 2 &&& 0x0c) >>> 2).toNat

/-- The number of character-coded objects among those that a region names and that are found. -/
def characterObjects : List Segment → List Nat → Nat
  | _, [] => 0
  | own, id :: ids =>
    match findObjectSegment id own with
    | [] => 0
    | seg :: segs =>
      (if objectCoding seg = SUBT_OBJ_TYPE_CHARACTER then 1 else 0) +
        characterObjects (seg :: segs) ids

theorem characterObjects_nil (ids : List Nat) : characterObjects [] ids = 0 := by
  cases ids <;> rfl

theorem parseObjectSegment_filled (u32RegionBufferLen : Nat) {S : Set Nat} {info : AllInfo}
    (seg : Segment)
    (object : ObjectInfo) {d : Drawing} (h : d.Filled S info)
    (hnum : objectCoding seg = SUBT_OBJ_TYPE_CHARACTER → d.region.u16CharacterNum = 0) :
    (parseObjectSegment u32RegionBufferLen info seg object d).2.Filled S info := by
  have hset : ({ d with enObjType := some (objectCoding seg) } : Drawing).Filled S info :=
    h.of_append rfl (List.append_nil _).symm trivial
  simp only [parseObjectSegment]
  split_ifs with hbitmap hcharacter
  · exact decodingPixels_filled _ _ _ hset
  · exact decodingCharacter_filled _ _ hset (hnum hcharacter)
  · exact hset

/-- Only character-coded objects count characters. -/
theorem parseObjectSegment_u16CharacterNum (u32RegionBufferLen : Nat) (info : AllInfo)
    (seg : Segment) (object : ObjectInfo) (d : Drawing)
    (h : objectCoding seg ≠ SUBT_OBJ_TYPE_CHARACTER) :
    (parseObjectSegment u32RegionBufferLen info seg object d).2.region.u16CharacterNum =
      d.region.u16CharacterNum := by
  simp only [parseObjectSegment]
  split_ifs with hbitmap hcharacter
  · simp only [decodingPixels]
    split_ifs <;> rfl
  · exact absurd hcharacter h
  · rfl

theorem objectLoop_filled (u32RegionBufferLen : Nat) {S : Set Nat} {info : AllInfo}
    (own : List Segment)
    (objects : List ObjectInfo) {d : Drawing} (h : d.Filled S info)
    (hone : characterObjects own (objects.map ObjectInfo.u16ObjectId) ≤ 1)
    (hnum : d.region.u16CharacterNum = 0 ∨
      characterObjects own (objects.map ObjectInfo.u16ObjectId) = 0) :
    (objectLoop u32RegionBufferLen info own objects d).2.Filled S info := by
  induction objects generalizing own d with
  | nil => exact h
  | cons object objects ih =>
    simp only [List.map_cons, characterObjects] at hone hnum
    simp only [objectLoop]
    cases hfind : findObjectSegment object.u16ObjectId own with
    | nil =>
      have hnil := characterObjects_nil (objects.map ObjectInfo.u16ObjectId)
      exact ih [] h (by omega) (.inr hnil)
    | cons seg segs =>
      simp only [hfind] at hone hnum
      have hparse := parseObjectSegment_filled u32RegionBufferLen seg object h fun hc => by
        rw [if_pos hc] at hnum
        omega
      dsimp only
      split_ifs with herr
      · exact hparse
      · -- After a character-coded object there is none left.
        by_cases hc : objectCoding seg = SUBT_OBJ_TYPE_CHARACTER
        · rw [if_pos hc] at hone
          exact ih _ hparse (by omega) (.inr (by omega))
        · rw [if_neg hc] at hone hnum
          rw [← parseObjectSegment_u16CharacterNum u32RegionBufferLen info seg object d hc] at hnum
          exact ih _ hparse (by omega) (by omega)

/-! ## Regions -/

/-- Only filled cells are copied, and what is shown of the regions is filled. -/
structure Work.Filled (w : Work) : Prop where
  stores : AllFilled ∅ w.stores
  shown : ∀ r ∈ w.regions, r.pu8ShowData % 4 = 0 ∧ r.cells ⊆ fillAll ∅ w.stores

theorem lastAddr_aligned {w : Work} (h : w.Filled) : lastAddr w.regions % 4 = 0 := by
  unfold lastAddr
  split
  · rfl
  · rename_i r hlast
    have haligned := (h.shown r (List.mem_of_getLast? hlast)).1
    simp only [ShowRegion.clearedLen, align4]
    omega

/-- A region that has just been created is clear. -/
theorem createShowRegion_filled {u32RegionBufferLen u16Left u16Top : Nat} {w : Work}
    (h : w.Filled) {shown : ShowRegion} {clear : Store UInt8}
    (hcreate : createShowRegion u32RegionBufferLen (lastAddr w.regions) u16Left u16Top w.info =
      some (shown, clear)) (statics : Statics) (enObjType : Option Nat) :
    ({ region := shown, statics, enObjType, stores := w.stores ++ [clear] } : Drawing).Filled
      (fillAll ∅ w.stores) w.info ∧ shown.u16CharacterNum = 0 := by
  obtain ⟨-, hsome⟩ := Option.ite_none_right_eq_some.mp hcreate
  obtain ⟨rfl, rfl⟩ := Prod.mk.inj (Option.some.inj hsome)
  refine ⟨{ width := rfl, height := rfl, aligned := lastAddr_aligned h, data := rfl,
            stores := allFilled_append.mpr ⟨h.stores, trivial, trivial⟩,
            shown := ?_, before := ?_ }, rfl⟩
  · rw [fillAll_append]
    refine Set.Subset.trans ?_ Set.subset_union_right
    intro a ha
    refine ⟨ha.1, ha.2.trans_le ?_⟩
    simp only [ShowRegion.clearedLen, align4, List.length_replicate]
    omega
  · rw [fillAll_append]
    exact subset_fillAll _ _

theorem drawRegion_filled (u32RegionBufferLen : Nat) (own found : List Segment)
    (region : RegionInfoInPage) {w : Work} (h : w.Filled)
    (hone : characterObjects own (w.info.stObjectInfo.map ObjectInfo.u16ObjectId) ≤ 1) :
    (drawRegion u32RegionBufferLen own found region w).2.Filled := by
  simp only [drawRegion]
  cases hcreate : createShowRegion u32RegionBufferLen (lastAddr w.regions) region.u16RegionLeft
      region.u16RegionTop w.info with
  | none => exact h
  | some created =>
    obtain ⟨shown, clear⟩ := created
    obtain ⟨hclear, hnum⟩ := createShowRegion_filled h hcreate w.statics w.enObjType
    have hloop := objectLoop_filled u32RegionBufferLen own w.info.stObjectInfo hclear hone
      (.inl hnum)
    have hbefore : ∀ r ∈ w.regions, r.pu8ShowData % 4 = 0 ∧ r.cells ⊆ _ :=
      fun r hr => ⟨(h.shown r hr).1, (h.shown r hr).2.trans hloop.before⟩
    dsimp only
    split_ifs
    · exact ⟨hloop.stores, hbefore⟩
    · exact ⟨hloop.stores, hbefore⟩
    · refine ⟨hloop.stores, List.forall_mem_append.mpr ⟨hbefore, ?_⟩⟩
      have haligned := hloop.aligned
      have hdata := hloop.data
      refine List.forall_mem_singleton.mpr ⟨?_, hloop.shown⟩
      rw [hdata, SHOW_REGION_SIZE]
      omega

/-- What is shown of a page's regions is filled, if no region names two character-coded
    objects. -/
theorem regionLoop_filled (u32RegionBufferLen : Nat) (error_status : Bool) (enPageState : Nat)
    (own : List Segment) (regions : List RegionInfoInPage) {w : Work} (hw : w.Filled)
    (hone : ∀ region ∈ regions, ∀ seg ∈ (findRegionSegment region.u8RegionId own).head?,
      characterObjects own (regionObjectIds seg) ≤ 1) :
    (regionLoop u32RegionBufferLen error_status enPageState own regions w).2.Filled := by
  induction regions generalizing w with
  | nil => exact hw
  | cons region regions ih =>
    have ih := fun {w} hw => ih (w := w) hw fun r hr => hone r (List.mem_cons_of_mem region hr)
    have hseg := hone region List.mem_cons_self
    simp only [regionLoop]
    cases hfind : findRegionSegment region.u8RegionId own with
    | nil =>
      dsimp only
      split_ifs
      · exact ih hw
      · exact hw
    | cons seg segs =>
      rw [hfind] at hseg
      dsimp only
      split_ifs with hnone herr
      · exact ih ⟨hw.stores, hw.shown⟩
      all_goals
        -- a region draws at most one object of characters
        have hdraw := drawRegion_filled u32RegionBufferLen own (seg :: segs)
          (parseRegionSegment seg w.info region error_status enPageState).2
          (w := { w with
            info := (parseRegionSegment seg w.info region error_status enPageState).1 })
          ⟨hw.stores, hw.shown⟩ (by rw [parseRegionSegment_ids]; exact hseg seg rfl)
      · exact hdraw
      · exact ih hdraw

/-! ## The display item -/

theorem adjustFirst_cells {astClut : List Clut} {regions regions' : List ShowRegion} {i : Nat}
    (h : adjustFirst astClut regions = some (i, regions')) {S : Set Nat}
    (hcells : ∀ r ∈ regions, r.cells ⊆ S) : regions' ≠ [] ∧ ∀ r ∈ regions', r.cells ⊆ S := by
  induction regions generalizing regions' i with
  | nil => simp [adjustFirst] at h
  | cons r regions ih =>
    obtain ⟨hr, hregions⟩ := List.forall_mem_cons.mp hcells
    simp only [adjustFirst] at h
    cases hfind : findClutId astClut r.u8ClutId with
    | some j =>
      simp only [hfind, Option.some.injEq, Prod.mk.injEq] at h
      obtain ⟨-, rfl⟩ := h
      exact ⟨List.cons_ne_nil _ _, List.forall_mem_cons.mpr ⟨hr, hregions⟩⟩
    | none =>
      simp only [hfind, Option.map_eq_some_iff, Prod.mk.injEq] at h
      obtain ⟨⟨j, found⟩, hfound, -, rfl⟩ := h
      exact ⟨List.cons_ne_nil _ _, List.forall_mem_cons.mpr ⟨hr, (ih hfound hregions).2⟩⟩

theorem adjustOthers_isMap (astClut : List Clut) (pstDefaultClut : Clut)
    (regions : List ShowRegion) {a : Adjusted} (h : ∀ s ∈ a.stores, IsMap s) :
    (∀ s ∈ (adjustOthers astClut pstDefaultClut regions a).stores, IsMap s) ∧
      (adjustOthers astClut pstDefaultClut regions a).regions = a.regions := by
  induction regions generalizing a with
  | nil => exact ⟨h, rfl⟩
  | cons r regions ih =>
    simp only [adjustOthers]
    cases findClutId astClut r.u8ClutId with
    | none => exact ih h
    | some i =>
      dsimp only
      split_ifs
      · exact ih (List.forall_mem_append.mpr ⟨h, List.forall_mem_singleton.mpr trivial⟩)
      · exact ih (List.forall_mem_append.mpr ⟨h, List.forall_mem_singleton.mpr trivial⟩)
      · exact ih h
      · exact ih h

/-- Tables are adjusted by mapping the cells that are shown. -/
theorem adjustClut_cells (astClut : List Clut) (stDefaultClut : Clut) {regions : List ShowRegion}
    {S : Set Nat} (h : ∀ r ∈ regions, r.cells ⊆ S) :
    (∀ s ∈ (adjustClut astClut stDefaultClut regions).stores, IsMap s) ∧
      (∀ r ∈ (adjustClut astClut stDefaultClut regions).regions, r.cells ⊆ S) ∧
      ((adjustClut astClut stDefaultClut regions).regions = [] ↔ regions = []) := by
  simp only [adjustClut]
  cases hfirst : adjustFirst astClut regions with
  | none => exact ⟨by simp, h, Iff.rfl⟩
  | some first =>
    obtain ⟨i, regions'⟩ := first
    obtain ⟨hne, hcells⟩ := adjustFirst_cells hfirst h
    obtain ⟨hmap, hsame⟩ := adjustOthers_isMap astClut (astClut.getD i {})
      (regions'.dropWhile fun r => r.pvRegionClut = none)
      (a := { regions := regions', stDefaultClut }) (by simp)
    refine ⟨hmap, by rw [hsame]; exact hcells, ?_⟩
    rw [hsame]
    refine ⟨fun hnil => absurd hnil hne, fun hnil => ?_⟩
    rw [hnil] at hfirst
    simp [adjustFirst] at hfirst

theorem layoutLines_congr {S : Set Nat} {m m' : Memory UInt8} (hm : Agree S m m')
    {r : ShowRegion} (hr : r.cells ⊆ S) (u16OffsetX u16AllRegionW : Nat) :
    layoutLines m r u16OffsetX u16AllRegionW = layoutLines m' r u16OffsetX u16AllRegionW := by
  simp only [layoutLines]
  refine List.flatMap_congr fun i hi => ?_
  have hline : (i + 1) * r.u16Width ≤ r.u16Heigth * r.u16Width :=
    Nat.mul_le_mul_right _ (List.mem_range.mp hi)
  rw [hm.read (a := r.pu8ShowData + i * r.u16Width)]
  intro a ha
  refine hr ⟨(Nat.le_add_right _ _).trans ha.1, ?_⟩
  have hlt := ha.2
  rw [Nat.add_mul, Nat.one_mul] at hline
  rw [Nat.mul_comm r.u16Width]
  omega

theorem layout_congr {S : Set Nat} {m m' : Memory UInt8} (hm : Agree S m m')
    (u16XPos u16AllRegionW : Nat) {regions : List ShowRegion} (h : ∀ r ∈ regions, r.cells ⊆ S)
    (u16NextRegionY : Nat) (out : List UInt8) :
    layout m u16XPos u16AllRegionW regions u16NextRegionY out =
      layout m' u16XPos u16AllRegionW regions u16NextRegionY out := by
  induction regions generalizing u16NextRegionY out with
  | nil => rfl
  | cons r regions ih =>
    obtain ⟨hr, hregions⟩ := List.forall_mem_cons.mp h
    simp only [layout, hm.read hr, layoutLines_congr hm hr, ih hregions]

/-- What a display item is made from, apart from the regions. -/
structure SamePage (h h' : Handle) : Prop where
  pts : h.u32PTS = h'.u32PTS
  time : h.u8ShowTime = h'.u8ShowTime
  state : h.enPageState = h'.enPageState
  stDefaultClut : h.stDefaultClut = h'.stDefaultClut
  astClut : h.astClut = h'.astClut
  stDisplayDef : h.stDisplayDef = h'.stDisplayDef

/-- The page asks to clear the screen when it shows nothing. -/
def Clears (enPageState : Nat) : Prop :=
  enPageState = SUBTITLE_PAGE_MODE_CHANGE ∨ enPageState = SUBTITLE_PAGE_ACQUISITION_POINT

instance (enPageState : Nat) : Decidable (Clears enPageState) :=
  inferInstanceAs (Decidable (_ ∨ _))

/-- The items do not depend on other cells than those that are shown. -/
theorem display_items {h h' : Handle} (hpage : SamePage h h') {S : Set Nat}
    (hm : Agree S h.pu8RegionBuffer h'.pu8RegionBuffer) {regions : List ShowRegion}
    (hregions : ∀ r ∈ regions, r.cells ⊆ S) (htype : regions ≠ [] → h.enObjType = h'.enObjType)
    (hclear : regions = [] → Clears h.enPageState →
      h.pu8RegionShowBuf.take (min 8 h.u32RegionShowBufLen) =
        h'.pu8RegionShowBuf.take (min 8 h'.u32RegionShowBufLen) ∧
      min 8 h.u32RegionShowBufLen = min 8 h'.u32RegionShowBufLen) :
    (display h regions).2 = (display h' regions).2 := by
  obtain ⟨hmap, hcells, hnil⟩ := adjustClut_cells h.astClut h.stDefaultClut hregions
  obtain ⟨hfilled, hfill⟩ := allFilled_of_isMap S hmap
  have hagree := runAll_agree hm hfilled
  rw [hfill] at hagree
  have hsame : adjustClut h'.astClut h'.stDefaultClut regions =
      adjustClut h.astClut h.stDefaultClut regions := by
    rw [hpage.astClut, hpage.stDefaultClut]
  simp only [display, hsame]
  cases hregs : (adjustClut h.astClut h.stDefaultClut regions).regions with
  | nil =>
    dsimp only
    rw [← hpage.state]
    split_ifs with hc
    · obtain ⟨htake, hmin⟩ := hclear (hnil.mp hregs) hc
      rw [hmin] at htake
      simp only [clearItem, hpage.stDefaultClut, hpage.pts, hpage.time, hmin, htake]
    · rfl
  | cons first others =>
    have hobj := htype fun hr => by
      rw [hnil.mpr hr] at hregs
      exact absurd hregs (List.cons_ne_nil first others).symm
    rw [hregs] at hcells
    have hlayout := fun x w y out => layout_congr hagree x w hcells y out
    have hpalette : palette h' (adjustClut h.astClut h.stDefaultClut regions) first =
        palette h (adjustClut h.astClut h.stDefaultClut regions) first := by
      simp only [palette, hpage.astClut]
    dsimp only
    cases countRegionSize first others with
    | none => rfl
    | some size =>
      obtain ⟨u16XPos, u16AllRegionW, u16AllRegionH⟩ := size
      dsimp only
      by_cases hmax : MAX_DATA_LENGTH < u16AllRegionW * u16AllRegionH
      · rw [if_pos hmax, if_pos hmax]
      · -- The buffer that is laid out is written before it is read.
        simp only [if_neg hmax, apply_ite Handle.pu8RegionBuffer, ite_self, hlayout, hpalette]
        split
        · rfl
        · simp only [apply_ite Handle.u32PTS, apply_ite Handle.u8ShowTime,
            apply_ite Handle.enObjType, apply_ite Handle.enPageState,
            apply_ite Handle.stDisplayDef, ite_self, hpage.pts, hpage.time, hpage.state,
            hpage.stDisplayDef, hobj]
          split <;> rfl

end Tntsat.SubtParse
