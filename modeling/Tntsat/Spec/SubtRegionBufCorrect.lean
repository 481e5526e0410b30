import Tntsat.Spec.SubtParseCorrect

/-!
# The region buffer

The writes of the parser into `pu8RegionBuffer`.  The headers of the regions stand in it as well,
each behind the pixels of the region before.  `SUBT_Parse_SetNextRegionAddr` clears a header whose
address is in the buffer, the limit that is given to the pixel decoder is counted from the start
of the region's pixels, and the lines of an object are bounded without its vertical position.

## Key results

- `pixelBlockDecode_within`: a field of an object whose lines have room in the buffer
- `regionBuffer_inside`: the runs in which all regions and objects have room
-/

namespace Tntsat.SubtParse

open Store

variable {n : Nat}

/-! ## Fields of objects -/

/-- The last line that a field of an object can reach in a region. -/
def ReferingRegion.lastLine (region : ReferingRegion) : Nat :=
  region.u16ObjVerPos + region.u16RegionHeight / 2 * 2

/-- The first byte of the object in a line. -/
def ReferingRegion.lineStart (region : ReferingRegion) (line : Nat) : Nat :=
  region.pu8RegionPixel + region.u16RegionWidth * line + region.u16ObjHorPos

/-- The last line of a field begins two bytes before the end of the buffer at least, and it ends
    within, unless the decoder refuses it. -/
def FieldRoomy (n : Nat) (region : ReferingRegion) : Prop :=
  region.lineStart region.lastLine + SUBT_REGION_LINE_PIXEL_ADJUST_NUM ≤ n ∧
    (region.u16RegionWidth * (region.lastLine + 1) ≤ region.u32RegionLen →
      region.pu8RegionPixel + region.u16RegionWidth * (region.lastLine + 1) ≤ n)

instance (n : Nat) (region : ReferingRegion) : Decidable (FieldRoomy n region) :=
  inferInstanceAs (Decidable (_ ∧ _))

/-- A block is written within the buffer, the next pixel included. -/
structure PixelBlock.Inside (n : Nat) (region : ReferingRegion) (b : PixelBlock) : Prop where
  stores : ∀ s ∈ b.stores, s.Within n
  line : b.wNumLine % 2 = 0 ∧ b.wNumLine ≤ region.u16RegionHeight / 2 * 2
  write : (∃ line, b.nEndAddLine = some line ∧ b.pu8ObjPixelWrite ≤ line ∧ line ≤ n) ∨
    b.pu8ObjPixelWrite + SUBT_REGION_LINE_PIXEL_ADJUST_NUM ≤ n

theorem within_memset_iff {addr k : Nat} {c : UInt8} :
    (memset addr c k).Within n ↔ k = 0 ∨ addr + k ≤ n := by
  rw [memset, within_set_iff, List.length_replicate]

theorem within_append {ss ts : List (Store UInt8)} (hss : ∀ s ∈ ss, s.Within n)
    (hts : ∀ s ∈ ts, s.Within n) : ∀ s ∈ ss ++ ts, s.Within n :=
  List.forall_mem_append.mpr ⟨hss, hts⟩

/-- What other lines than the last one need is there as well. -/
theorem FieldRoomy.line {region : ReferingRegion} (h : FieldRoomy n region) {k : Nat}
    (heven : k % 2 = 0) (hk : k ≤ region.u16RegionHeight / 2 * 2) :
    region.lineStart (region.u16ObjVerPos + k) + SUBT_REGION_LINE_PIXEL_ADJUST_NUM ≤ n ∧
      (region.u16RegionWidth * (region.u16ObjVerPos + k + 1) ≤ region.u32RegionLen →
        region.pu8RegionPixel + region.u16RegionWidth * (region.u16ObjVerPos + k + 1) ≤ n) := by
  obtain ⟨hstart, hstop⟩ := h
  simp only [ReferingRegion.lineStart, ReferingRegion.lastLine] at hstart hstop ⊢
  have hle : region.u16RegionWidth * (region.u16ObjVerPos + k) ≤
      region.u16RegionWidth * (region.u16ObjVerPos + region.u16RegionHeight / 2 * 2) :=
    Nat.mul_le_mul_left _ (by omega)
  refine ⟨by omega, fun hlimit => ?_⟩
  rcases Nat.eq_or_lt_of_le hk with heq | hlt
  · rw [heq] at hlimit ⊢
    exact hstop hlimit
  · have hnext : region.u16RegionWidth * (region.u16ObjVerPos + k + 1) ≤
        region.u16RegionWidth * (region.u16ObjVerPos + region.u16RegionHeight / 2 * 2) :=
      Nat.mul_le_mul_left _ (by omega)
    omega

theorem adjustNum_le (nEndAddLine : Option Nat) (write : Nat) :
    adjustNum nEndAddLine write ≤ SUBT_REGION_LINE_PIXEL_ADJUST_NUM := by
  unfold adjustNum
  split
  · exact Nat.le_refl _
  · split
    · exact Nat.le_refl _
    · omega

theorem adjustNum_line {line write : Nat} (h : write ≤ line) :
    write + adjustNum (some line) write ≤ line := by
  simp only [adjustNum]
  split <;> omega

/-- The pixels behind a string. -/
theorem PixelBlock.Inside.adjust {region : ReferingRegion} {b : PixelBlock}
    (h : b.Inside n region) : b.adjust.Inside n region where
  stores := by
    refine within_append h.stores (List.forall_mem_singleton.mpr (within_memset_iff.mpr (.inr ?_)))
    rcases h.write with ⟨line, hline, hle, hn⟩ | hroom
    · rw [hline]
      exact (adjustNum_line hle).trans hn
    · have := adjustNum_le b.nEndAddLine b.pu8ObjPixelWrite
      omega
  line := h.line
  write := h.write

/-- The strings of a line. -/
theorem codeStringLoop_inside (k : CodeString) {region : ReferingRegion}
    (hregion : FieldRoomy n region) (u16BlockLen fuel : Nat) {b : PixelBlock}
    (h : b.Inside n region) :
    (codeStringLoop k region u16BlockLen fuel b).2.Inside n region := by
  induction fuel generalizing b with
  | zero => exact h
  | succ fuel ih =>
    -- decoding a code moves only the cursor
    have hcursor : ({ b with cursor := (k.decode b.cursor).2 } : PixelBlock).Inside n region :=
      ⟨h.stores, h.line, h.write⟩
    obtain ⟨-, hstop⟩ := hregion.line h.line.1 h.line.2
    simp only [codeStringLoop]
    by_cases hrun : (k.decode b.cursor).1.u16NumPixel = 0
    -- the end of the string
    · rw [if_pos hrun]
      exact hcursor.adjust
    · rw [if_neg hrun]
      by_cases hlimit : region.pu8RegionPixel + region.u32RegionLen <
          region.pu8RegionPixel +
            region.u16RegionWidth * (region.u16ObjVerPos + b.wNumLine + 1)
      -- the line ends behind the region: the string is given up
      · rw [if_pos hlimit]
        exact hcursor
      · rw [if_neg hlimit]
        have hline := hstop (by omega)
        have hwidth : region.u16RegionWidth ≤
            region.u16RegionWidth * (region.u16ObjVerPos + b.wNumLine + 1) :=
          Nat.le_mul_of_pos_right _ (Nat.succ_pos _)
        by_cases hover : region.pu8RegionPixel +
            region.u16RegionWidth * (region.u16ObjVerPos + b.wNumLine + 1) <
              b.pu8ObjPixelWrite + (k.decode b.cursor).1.u16NumPixel
        · rw [if_pos hover]
          dsimp only
          split
          -- the run is too long for the line: at most the line is cleared, which lies inside too
          · refine ⟨within_append h.stores (List.forall_mem_singleton.mpr
              (within_memset_iff.mpr (.inr ?_))), h.line, h.write⟩
            omega
          · exact hcursor
        · rw [if_neg hover]
          -- the run ends inside the line, and the line inside the region
          have hnext : ({ b with
              cursor := (k.decode b.cursor).2
              stores := b.stores ++ [memset b.pu8ObjPixelWrite
                (k.color { b with cursor := (k.decode b.cursor).2 } region.u8RegionDepth
                  (k.decode b.cursor).1.colorEntry) (k.decode b.cursor).1.u16NumPixel]
              pu8ObjPixelWrite := b.pu8ObjPixelWrite + (k.decode b.cursor).1.u16NumPixel
              u8LastColorEntry := k.color { b with cursor := (k.decode b.cursor).2 }
                region.u8RegionDepth (k.decode b.cursor).1.colorEntry
              nEndAddLine := some (region.pu8RegionPixel + region.u16RegionWidth *
                (region.u16ObjVerPos + b.wNumLine + 1)) } : PixelBlock).Inside n region :=
            { stores := within_append h.stores (List.forall_mem_singleton.mpr
                (within_memset_iff.mpr (.inr (by omega))))
              line := h.line
              write := .inl ⟨_, rfl, Nat.le_of_not_lt hover, hline⟩ }
          split
          · exact ih hnext
          · exact hnext.adjust

/-- The end of an object line. -/
theorem PixelBlock.Inside.endLine {region : ReferingRegion} (hregion : FieldRoomy n region)
    {b : PixelBlock} (h : b.Inside n region) : (b.endLine region).Inside n region := by
  obtain ⟨heven, hle⟩ := h.line
  have hline : (b.endLine region).wNumLine % 2 = 0 ∧
      (b.endLine region).wNumLine ≤ region.u16RegionHeight / 2 * 2 := by
    simp only [PixelBlock.endLine]
    split <;> omega
  exact ⟨h.stores, hline, .inr (hregion.line hline.1 hline.2).1⟩

theorem pixelBlockLoop_inside {region : ReferingRegion} (hregion : FieldRoomy n region)
    (u16BlockLen fuel : Nat) {b : PixelBlock} (h : b.Inside n region) :
    (pixelBlockLoop region u16BlockLen fuel b).2.Inside n region := by
  induction fuel generalizing b with
  | zero => exact h
  | succ fuel ih =>
    -- reading moves only the cursor
    have hcursor : ∀ {b : PixelBlock} (c : Cursor), b.Inside n region →
        ({ b with cursor := c } : PixelBlock).Inside n region :=
      fun _ h => ⟨h.stores, h.line, h.write⟩
    -- so a string of codes stores inside, whichever depth it has
    have hstring := fun k => codeStringLoop_inside k hregion u16BlockLen (4 * u16BlockLen + 8)
      (hcursor b.cursor.byte.2 h)
    have hnext := hcursor b.cursor.byte.2 h
    simp only [pixelBlockLoop]
    by_cases hdone : u16BlockLen ≤ b.cursor.processed
    · rw [if_pos hdone]
      exact h
    · rw [if_neg hdone]
      split_ifs
      · exact hstring _
      · exact ih (hcursor _ (hstring _))
      · exact hstring _
      · exact ih (hcursor _ (hstring _))
      · exact hstring _
      · exact ih (hstring _)
      · exact ih ⟨h.stores, h.line, h.write⟩
      · exact ih ⟨h.stores, h.line, h.write⟩
      · exact ih ⟨h.stores, h.line, h.write⟩
      · exact ih (hnext.endLine hregion)
      · exact ih hnext

/-- A field of an object whose lines have room is written within the buffer. -/
theorem pixelBlockDecode_within {region : ReferingRegion} {u16BlockLen : Nat}
    (hregion : u16BlockLen ≠ 0 → FieldRoomy n region) (p : List UInt8) (statics : Statics) :
    ∀ s ∈ (pixelBlockDecode p region (region.lineStart region.u16ObjVerPos) u16BlockLen
      statics).2.stores, s.Within n := by
  by_cases hempty : u16BlockLen = 0
  · rw [hempty]
    simp [pixelBlockDecode, pixelBlockLoop]
  · have hroom := hregion hempty
    exact (pixelBlockLoop_inside hroom u16BlockLen _
      ⟨by simp, ⟨rfl, Nat.zero_le _⟩, .inr (hroom.line (k := 0) rfl (Nat.zero_le _)).1⟩).stores

/-! ## Objects -/

/-- A field of an object in a region whose header is at `addr`. -/
def objectField (u32RegionBufferLen addr : Nat) (info : AllInfo) (object : ObjectInfo)
    (u16ObjVerPos : Nat) : ReferingRegion where
  u8RegionDepth := info.u8RegionDepth
  u16RegionWidth := info.u16RegionWidth
  u16RegionHeight := info.u16RegionHeight
  pu8RegionPixel := align4 (addr + SHOW_REGION_SIZE)
  u16ObjVerPos
  u16ObjHorPos := object.u16ObjectLeft
  u32RegionLen :=
    u32RegionBufferLen - (info.u16RegionWidth * u16ObjVerPos + object.u16ObjectLeft)

/-- The fields of an object that have data have room, unless the object is refused. -/
def ObjectRoomy (u32RegionBufferLen addr : Nat) (info : AllInfo) (object : ObjectInfo)
    (p : List UInt8) : Prop :=
  let top := objectField u32RegionBufferLen addr info object object.u16ObjectTop
  let bottom := objectField u32RegionBufferLen addr info object (u16 (object.u16ObjectTop + 1))
  top.lineStart top.u16ObjVerPos ≤ u32RegionBufferLen ∧
      bottom.lineStart bottom.u16ObjVerPos ≤ u32RegionBufferLen →
    (get16 p 0 ≠ 0 → FieldRoomy u32RegionBufferLen top) ∧
      (get16 p 2 ≠ 0 → FieldRoomy u32RegionBufferLen bottom)

instance (u32RegionBufferLen addr : Nat) (info : AllInfo) (object : ObjectInfo)
    (p : List UInt8) : Decidable (ObjectRoomy u32RegionBufferLen addr info object p) :=
  inferInstanceAs (Decidable (_ → _))

/-- A region is drawn within the buffer, and its pixels are. -/
structure Drawing.Inside (n : Nat) (info : AllInfo) (d : Drawing) : Prop where
  stores : ∀ s ∈ d.stores, s.Within n
  aligned : d.region.addr % 4 = 0 ∧ d.region.pu8ShowData % 4 = 0
  size : d.region.u16Width = info.u16RegionWidth ∧ d.region.u16Heigth = info.u16RegionHeight
  pixels : d.region.addr + SHOW_REGION_SIZE + info.u16RegionWidth * info.u16RegionHeight ≤ n

/-- Lines are copied within the region. -/
theorem copyLines_within {pixels width height : Nat} (hn : pixels + width * height ≤ n)
    (k i : Nat) (hk : i + 2 * k ≤ height) : ∀ s ∈ copyLines pixels width k i, s.Within n := by
  induction k generalizing i with
  | zero => simp [copyLines]
  | succ k ih =>
    refine List.forall_mem_cons.mpr ⟨within_copy_iff.mpr (.inr ?_), ih (i + 2) (by omega)⟩
    have hline : (i + 1 + 1) * width ≤ height * width := Nat.mul_le_mul_right width (by omega)
    rw [Nat.add_mul (i + 1), Nat.one_mul, Nat.mul_comm height] at hline
    omega

theorem align4_of_aligned {a : Nat} (ha : a % 4 = 0) :
    align4 (a + SHOW_REGION_SIZE) = a + SHOW_REGION_SIZE := by
  simp only [align4, SHOW_REGION_SIZE]
  omega

theorem align4_mod (a : Nat) : align4 a % 4 = 0 := Nat.mul_mod_left _ _

theorem decodingPixels_inside {info : AllInfo} {object : ObjectInfo} {p : List UInt8}
    {d : Drawing} (hroom : ObjectRoomy n d.region.addr info object p) (h : d.Inside n info) :
    (decodingPixels n info object p d).2.Inside n info := by
  -- before the fields are drawn only the address of the pixels is set
  have hregion : ({ d with region := { d.region with
      pu8ShowData := align4 (d.region.addr + SHOW_REGION_SIZE) } } : Drawing).Inside n info :=
    ⟨h.stores, ⟨h.aligned.1, align4_mod _⟩, h.size, h.pixels⟩
  have hstores : ∀ (statics : Statics) {ss : List (Store UInt8)}, (∀ s ∈ ss, s.Within n) →
      ({ d with
         statics
         region := { d.region with pu8ShowData := align4 (d.region.addr + SHOW_REGION_SIZE) }
         stores := d.stores ++ ss } : Drawing).Inside n info :=
    fun _ _ hss => ⟨within_append h.stores hss, hregion.aligned, h.size, h.pixels⟩
  simp only [decodingPixels]
  by_cases hrefused : n < align4 (d.region.addr + SHOW_REGION_SIZE) +
        (info.u16RegionWidth * object.u16ObjectTop + object.u16ObjectLeft) ∨
      n < align4 (d.region.addr + SHOW_REGION_SIZE) +
        (info.u16RegionWidth * u16 (object.u16ObjectTop + 1) + object.u16ObjectLeft)
  · rw [if_pos hrefused]
    exact hregion
  · rw [if_neg hrefused]
    -- both fields start inside, so the room asked for is there
    obtain ⟨htop, hbottom⟩ := hroom (by
      simp only [objectField, ReferingRegion.lineStart, Nat.add_assoc]
      exact ⟨Nat.le_of_not_lt fun hlt => hrefused (.inl hlt),
        Nat.le_of_not_lt fun hlt => hrefused (.inr hlt)⟩)
    have htop := pixelBlockDecode_within htop (p.drop 4) d.statics
    have hbottom := pixelBlockDecode_within hbottom (p.drop (4 + get16 p 0))
    simp only [objectField, ReferingRegion.lineStart, Nat.add_assoc] at htop hbottom
    split_ifs with hwide hlen
    · exact hstores _ htop
    · rw [List.append_assoc]
      exact hstores _ (within_append htop (hbottom _))
    · rw [List.append_assoc]
      -- without a bottom field the lines of the top field are copied
      refine hstores _ (within_append htop ?_)
      rw [align4_of_aligned h.aligned.1]
      exact copyLines_within h.pixels _ _ (by omega)

theorem decodingCharacter_inside {info : AllInfo} (p : List UInt8) {d : Drawing}
    (h : d.Inside n info) : (decodingCharacter n p d).2.Inside n info := by
  simp only [decodingCharacter]
  split_ifs with hfull
  · exact ⟨h.stores, ⟨h.aligned.1, align4_mod _⟩, h.size, h.pixels⟩
  · refine ⟨within_append h.stores (List.forall_mem_singleton.mpr (within_set_iff.mpr (.inr ?_))),
      ⟨h.aligned.1, align4_mod _⟩, h.size, h.pixels⟩
    rw [List.length_map, List.length_range]
    exact Nat.le_of_not_lt hfull

/-- An object is drawn where its region is. -/
theorem parseObjectSegment_addr (info : AllInfo) (seg : Segment) (object : ObjectInfo)
    (d : Drawing) :
    (parseObjectSegment n info seg object d).2.region.addr = d.region.addr := by
  simp only [parseObjectSegment, decodingPixels, decodingCharacter]
  split_ifs <;> rfl

theorem parseObjectSegment_inside {info : AllInfo} {seg : Segment} {object : ObjectInfo}
    {d : Drawing} (hroom : objectCoding seg = SUBT_OBJ_TYPE_BITMAP →
      ObjectRoomy n d.region.addr info object ((seg.pu8SegmentData.getD []).drop 3))
    (h : d.Inside n info) :
    (parseObjectSegment n info seg object d).2.Inside n info := by
  let t : Drawing := { d with enObjType := some (objectCoding seg) }
  have hset : t.Inside n info := ⟨h.stores, h.aligned, h.size, h.pixels⟩
  simp only [parseObjectSegment]
  split_ifs with hbitmap
  · exact decodingPixels_inside (d := t) (hroom hbitmap) hset
  · exact decodingCharacter_inside _ hset
  · exact hset

/-- The bitmap-coded ones of the objects that are found have room. -/
def ObjectsRoomy (u32RegionBufferLen addr : Nat) (info : AllInfo) :
    List Segment → List ObjectInfo → Prop
  | _, [] => True
  | segs, object :: objects =>
    match findObjectSegment object.u16ObjectId segs with
    | [] => True
    | seg :: segs =>
      (objectCoding seg = SUBT_OBJ_TYPE_BITMAP →
        ObjectRoomy u32RegionBufferLen addr info object
          ((seg.pu8SegmentData.getD []).drop 3)) ∧
      ObjectsRoomy u32RegionBufferLen addr info (seg :: segs) objects

instance decidableObjectsRoomy (u32RegionBufferLen addr : Nat) (info : AllInfo) :
    ∀ (segs : List Segment) (objects : List ObjectInfo),
      Decidable (ObjectsRoomy u32RegionBufferLen addr info segs objects)
  | _, [] => .isTrue trivial
  | segs, object :: objects => by
    unfold ObjectsRoomy
    exact match findObjectSegment object.u16ObjectId segs with
      | [] => .isTrue trivial
      | seg :: segs =>
        have := decidableObjectsRoomy u32RegionBufferLen addr info (seg :: segs) objects
        inferInstanceAs (Decidable (_ ∧ _))

theorem objectLoop_inside {info : AllInfo} {segs : List Segment} {objects : List ObjectInfo}
    {d : Drawing} (hroom : ObjectsRoomy n d.region.addr info segs objects)
    (h : d.Inside n info) : (objectLoop n info segs objects d).2.Inside n info := by
  induction objects generalizing segs d with
  | nil => exact h
  | cons object objects ih =>
    rw [ObjectsRoomy] at hroom
    simp only [objectLoop]
    cases hfind : findObjectSegment object.u16ObjectId segs with
    | nil =>
      dsimp only
      rw [objectLoop_nil]
      exact h
    | cons seg segs' =>
      simp only [hfind] at hroom
      obtain ⟨hobject, hobjects⟩ := hroom
      have hparse := parseObjectSegment_inside hobject h
      dsimp only
      split
      · exact hparse
      · refine ih ?_ hparse
        rw [parseObjectSegment_addr]
        exact hobjects

/-! ## Regions -/

/-- The header behind a region, as `SUBT_Parse_SetNextRegionAddr` clears it. -/
def ShowRegion.nextHeader (r : ShowRegion) : Store UInt8 :=
  memset (r.pu8ShowData + r.clearedLen) 0 SHOW_REGION_SIZE

/-- The header behind a region is refused, or there is room for it. -/
def NextRoomy (u32RegionBufferLen : Nat) (r : ShowRegion) : Prop :=
  u32RegionBufferLen < r.pu8ShowData + r.clearedLen ∨
    r.pu8ShowData + r.clearedLen + SHOW_REGION_SIZE ≤ u32RegionBufferLen

instance (u32RegionBufferLen : Nat) (r : ShowRegion) :
    Decidable (NextRoomy u32RegionBufferLen r) :=
  inferInstanceAs (Decidable (_ ∨ _))

/-- The region before its objects are drawn. -/
def Work.drawing (w : Work) (created : ShowRegion × Store UInt8) : Drawing where
  region := created.1
  statics := w.statics
  enObjType := w.enObjType
  stores := w.stores ++ [created.2]

/-- The objects of a region have room, and the header behind it has when they are drawn. -/
def RegionRoomy (u32RegionBufferLen : Nat) (pstSegmentEnter : List Segment)
    (region : RegionInfoInPage) (w : Work) : Prop :=
  match createShowRegion u32RegionBufferLen (lastAddr w.regions) region.u16RegionLeft
      region.u16RegionTop w.info with
  | none => True
  | some created =>
    let o := objectLoop u32RegionBufferLen w.info pstSegmentEnter w.info.stObjectInfo
      (w.drawing created)
    ObjectsRoomy u32RegionBufferLen created.1.addr w.info pstSegmentEnter w.info.stObjectInfo ∧
      (o.1 = MT_SUCCESS → NextRoomy u32RegionBufferLen o.2.region)

instance (u32RegionBufferLen : Nat) (pstSegmentEnter : List Segment) (region : RegionInfoInPage)
    (w : Work) : Decidable (RegionRoomy u32RegionBufferLen pstSegmentEnter region w) := by
  unfold RegionRoomy
  split <;> infer_instance

/-- The regions of a page that are drawn have room. -/
def RegionsRoomy (u32RegionBufferLen : Nat) (error_status : Bool) (enPageState : Nat)
    (pstSegmentEnter : List Segment) : List RegionInfoInPage → Work → Prop
  | [], _ => True
  | region :: regions, w =>
    match findRegionSegment region.u8RegionId pstSegmentEnter with
    | [] => RegionsRoomy u32RegionBufferLen error_status enPageState pstSegmentEnter regions w
    | seg :: segs =>
      let r := parseRegionSegment seg w.info region error_status enPageState
      let w := { w with info := r.1 }
      if r.1.stObjectInfo = [] then
        RegionsRoomy u32RegionBufferLen error_status enPageState pstSegmentEnter regions w
      else
        RegionRoomy u32RegionBufferLen pstSegmentEnter r.2 w ∧
          RegionsRoomy u32RegionBufferLen error_status enPageState pstSegmentEnter regions
            (drawRegion u32RegionBufferLen pstSegmentEnter (seg :: segs) r.2 w).2

instance decidableRegionsRoomy (u32RegionBufferLen : Nat) (error_status : Bool)
    (enPageState : Nat) (pstSegmentEnter : List Segment) :
    ∀ (regions : List RegionInfoInPage) (w : Work), Decidable
      (RegionsRoomy u32RegionBufferLen error_status enPageState pstSegmentEnter regions w)
  | [], _ => .isTrue trivial
  | region :: regions, w => by
    have := decidableRegionsRoomy u32RegionBufferLen error_status enPageState pstSegmentEnter
      regions
    unfold RegionsRoomy
    split
    · infer_instance
    · exact inferInstanceAs (Decidable (ite _ _ _))

/-- The regions of a page are drawn within the buffer, and so are the headers behind them. -/
structure Work.Inside (n : Nat) (w : Work) : Prop where
  stores : ∀ s ∈ w.stores, s.Within n
  headers : ∀ r ∈ w.regions, r.nextHeader.Within n
  aligned : lastAddr w.regions % 4 = 0

theorem lastAddr_append (regions : List ShowRegion) (r : ShowRegion) :
    lastAddr (regions ++ [r]) = r.pu8ShowData + r.clearedLen := by
  simp [lastAddr]

theorem clearedLen_mod (r : ShowRegion) : r.clearedLen % 4 = 0 := align4_mod _

/-- A region is created with its pixels in the buffer. -/
theorem createShowRegion_inside {addr u16Left u16Top : Nat} {info : AllInfo}
    {created : ShowRegion × Store UInt8} {w : Work} (hw : ∀ s ∈ w.stores, s.Within n)
    (haddr : addr % 4 = 0)
    (hcreated : createShowRegion n addr u16Left u16Top info = some created) :
    (w.drawing created).Inside n info := by
  simp only [createShowRegion] at hcreated
  split at hcreated
  · rename_i hfits
    cases hcreated
    have hsize : align4 SHOW_REGION_SIZE = SHOW_REGION_SIZE := rfl
    have hle : info.u16RegionWidth * info.u16RegionHeight ≤
        align4 (info.u16RegionWidth * info.u16RegionHeight) := by
      simp only [align4]
      omega
    simp only [ShowRegion.clearedLen, hsize] at hfits
    refine ⟨within_append hw (List.forall_mem_singleton.mpr (within_memset_iff.mpr (.inr ?_))),
      ⟨haddr, ?_⟩, ⟨rfl, rfl⟩, ?_⟩
    · exact hfits
    · have hpixels : addr + SHOW_REGION_SIZE = addr + 14 * 4 := rfl
      simp only [Work.drawing, hsize, hpixels]
      omega
    · exact (Nat.add_le_add_left hle _).trans hfits
  · cases hcreated

theorem drawRegion_inside {enter found : List Segment} {region : RegionInfoInPage} {w : Work}
    (hroom : RegionRoomy n enter region w) (h : w.Inside n) :
    (drawRegion n enter found region w).2.Inside n := by
  simp only [RegionRoomy] at hroom
  simp only [drawRegion]
  cases hcreated : createShowRegion n (lastAddr w.regions) region.u16RegionLeft
      region.u16RegionTop w.info with
  | none => exact h
  | some created =>
    simp only [hcreated] at hroom
    obtain ⟨hobjects, hnext⟩ := hroom
    have hdrawn := objectLoop_inside (d := w.drawing created) hobjects
      (createShowRegion_inside h.stores h.aligned hcreated)
    dsimp only
    split_ifs with hret hlen
    · exact ⟨hdrawn.stores, h.headers, h.aligned⟩
    · exact ⟨hdrawn.stores, h.headers, h.aligned⟩
    -- The header behind the region is cleared.
    · refine ⟨hdrawn.stores, ?_, ?_⟩
      · refine List.forall_mem_append.mpr ⟨h.headers, List.forall_mem_singleton.mpr ?_⟩
        exact within_memset_iff.mpr (.inr ((hnext (not_not.mp hret)).resolve_left hlen))
      · rw [lastAddr_append]
        have hpixels := hdrawn.aligned.2
        have hcleared := clearedLen_mod (objectLoop n w.info enter w.info.stObjectInfo
          (w.drawing created)).2.region
        simp only [Work.drawing] at hpixels hcleared
        omega

theorem regionLoop_inside {error_status : Bool} {enPageState : Nat} {enter : List Segment}
    {regions : List RegionInfoInPage} {w : Work}
    (hroom : RegionsRoomy n error_status enPageState enter regions w) (h : w.Inside n) :
    (regionLoop n error_status enPageState enter regions w).2.Inside n := by
  induction regions generalizing w with
  | nil => exact h
  | cons region regions ih =>
    rw [RegionsRoomy] at hroom
    simp only [regionLoop]
    cases hfind : findRegionSegment region.u8RegionId enter with
    | nil =>
      simp only [hfind] at hroom
      dsimp only
      split
      · exact ih hroom h
      · exact h
    | cons seg segs =>
      simp only [hfind] at hroom
      -- parsing a region segment draws nothing
      have hinfo : ({ w with
          info := (parseRegionSegment seg w.info region error_status enPageState).1 } :
          Work).Inside n :=
        ⟨h.stores, h.headers, h.aligned⟩
      dsimp only
      by_cases hobjects : (parseRegionSegment seg w.info region error_status
          enPageState).1.stObjectInfo = []
      · rw [if_pos hobjects] at hroom ⊢
        exact ih hroom hinfo
      · rw [if_neg hobjects] at hroom ⊢
        have hdrawn := @drawRegion_inside n enter (seg :: segs) _ _ hroom.1 hinfo
        split
        · exact hdrawn
        · exact ih hroom.2 hdrawn

/-! ## Pages -/

/-- A page that is drawn: the segments from its own on, and the handle then. -/
structure ShownPage where
  enter : List Segment
  page : PageInfo
  handle : Handle

/-- The page that `SUBT_Parse_ParseSegment` draws. -/
def shownPage (h : Handle) : Option ShownPage :=
  if (h.astSegment.headD {}).u16DataLength = 0 then none
  else
    match pageDefinition h.astSegment with
    | none => none
    | some (stDisplayDef, u32Len) =>
      let h := regionBufferReAlloc u32Len { h with stDisplayDef }
      match findPageSegment h.astSegment with
      | [] => none
      | seg :: segs =>
        let page := parsePageSegment seg
        let h := { h with u8ShowTime := page.u8ShowTime, enPageState := page.enPageState }
        if page.enPageState = SUBTITLE_PAGE_NORMAL_CASE ∧ page.u8InPageVer = h.u8PageVersion then
          none
        else some ⟨seg :: segs, page, { h with u8PageVersion := page.u8InPageVer }⟩

/-- What `SUBT_Parse_ParseSegment` does beside drawing its page. -/
theorem parseSegment_shownPage (h : Handle) :
    (∀ s ∈ shownPage h, parseSegment h = showPage s.enter s.page s.handle) ∧
      (shownPage h = none → (parseSegment h).2.2 = []) := by
  simp only [shownPage, parseSegment]
  split_ifs
  · simp
  · cases pageDefinition h.astSegment with
    | none => simp
    | some definition =>
      dsimp only
      cases findPageSegment (regionBufferReAlloc definition.2
          { h with stDisplayDef := definition.1 }).astSegment with
      | nil => simp
      | cons seg segs =>
        dsimp only
        split_ifs <;> simp

namespace ShownPage

/-- The regions of the page as they are drawn. -/
def work (s : ShownPage) : Work :=
  (regionLoop s.handle.u32RegionBufferLen s.handle.error_status s.handle.enPageState s.enter
    s.page.regions { statics := s.handle.statics, astClut := s.handle.astClut }).2

/-- The writes for the page: the header of the first region, the pixels and characters, and the
    headers behind the regions.  The fields of a header are written where it is cleared. -/
def writes (s : ShownPage) : List (Store UInt8) :=
  memset 0 0 SHOW_REGION_SIZE :: s.work.stores ++ s.work.regions.map ShowRegion.nextHeader

/-- The regions of the page have room. -/
def Roomy (s : ShownPage) : Prop :=
  RegionsRoomy s.handle.u32RegionBufferLen s.handle.error_status s.handle.enPageState s.enter
    s.page.regions { statics := s.handle.statics, astClut := s.handle.astClut }

instance (s : ShownPage) : Decidable s.Roomy := decidableRegionsRoomy ..

/-- Every write for the page is in the buffer. -/
def Inside (s : ShownPage) : Prop :=
  ∀ w ∈ s.writes, w.Within s.handle.u32RegionBufferLen

theorem inside_of_roomy {s : ShownPage} (hroom : s.Roomy)
    (hlen : SHOW_REGION_SIZE ≤ s.handle.u32RegionBufferLen) : s.Inside := by
  have hwork := regionLoop_inside hroom ⟨by simp, by simp, rfl⟩
  refine within_append (List.forall_mem_cons.mpr ⟨?_, hwork.stores⟩)
    (List.forall_mem_map.mpr hwork.headers)
  exact within_memset_iff.mpr (.inr (by omega))

end ShownPage

/-! ## Packets -/

/-- The pages that the segments of a packet draw. -/
def attemptPages (ids : PageIds) (p : List UInt8) (u32DataLen : Nat) : Nat → Handle → List ShownPage
  | 0, _ => []
  | i + 1, h =>
    let h := { h with astSegment := createSegment ids p u32DataLen h.astSegment }
    let r := parseSegment h
    (shownPage h).toList ++
      if r.1 = ERR_OUT_OF_WIDTH then
        attemptPages ids p u32DataLen i { r.2.1 with error_status := true }
      else []

/-- The pages that a packet draws. -/
def packetPages (h : Handle) (packet : PesPacket) : List ShownPage :=
  if packet.Accepted then
    attemptPages packet.ids packet.segmentData packet.segmentLen 2
      { h with u32PTS := packetPts (packet.pu8DataSrc.drop 9), error_status := false }
  else []

/-- The pages of a packet have room in the buffer. -/
def PacketRoomy (h : Handle) (packet : PesPacket) : Prop := ∀ s ∈ packetPages h packet, s.Roomy

instance (h : Handle) (packet : PesPacket) : Decidable (PacketRoomy h packet) :=
  inferInstanceAs (Decidable (∀ _ ∈ _, _))

/-- The pages of a packet are written into the buffer. -/
def PacketInside (h : Handle) (packet : PesPacket) : Prop :=
  ∀ s ∈ packetPages h packet, s.Inside

theorem shownPage_len {h : Handle} (hsized : h.Sized) {s : ShownPage} (hs : s ∈ shownPage h) :
    SHOW_REGION_SIZE ≤ s.handle.u32RegionBufferLen := by
  simp only [shownPage, Option.mem_def] at hs
  split at hs
  · cases hs
  · cases hdefinition : pageDefinition h.astSegment with
    | none =>
      rw [hdefinition] at hs
      cases hs
    | some definition =>
      have hlen := pageDefinition_len hdefinition
      obtain ⟨hbuffer, -⟩ := regionBufferReAlloc_len
        (h := { h with stDisplayDef := definition.1 }) hlen hsized.buffer
      simp only [hdefinition] at hs
      split at hs
      · cases hs
      · split at hs
        · cases hs
        · cases hs
          simp only [hbuffer]
          rcases hlen with hlen | hlen <;> rw [hlen] <;> decide

theorem attemptPages_len (ids : PageIds) (p : List UInt8) (u32DataLen n : Nat) {h : Handle}
    (hsized : h.Sized) : ∀ s ∈ attemptPages ids p u32DataLen n h,
      SHOW_REGION_SIZE ≤ s.handle.u32RegionBufferLen := by
  induction n generalizing h with
  | zero => simp [attemptPages]
  | succ n ih =>
    have hsegments : ({ h with
        astSegment := createSegment ids p u32DataLen h.astSegment } : Handle).Sized :=
      ⟨(length_createSegment ids p u32DataLen h.astSegment).trans hsized.segments, hsized.buffer⟩
    have hparsed := parseSegment_sized hsegments
    refine List.forall_mem_append.mpr ⟨fun s hs => ?_, ?_⟩
    · exact shownPage_len hsegments (Option.mem_toList.mp hs)
    · split
      · exact ih (hparsed.of_eq rfl rfl)
      · simp

theorem packetPages_inside {h : Handle} (hsized : h.Sized) {packet : PesPacket}
    (hroom : PacketRoomy h packet) : PacketInside h packet := by
  intro s hs
  refine ShownPage.inside_of_roomy (hroom s hs) ?_
  unfold packetPages at hs
  split at hs
  · refine attemptPages_len _ _ _ _ ?_ s hs
    exact hsized.of_eq rfl rfl
  · cases hs

/-- Every write of a run is in the region buffer, as long as the regions and objects of its
    packets have room. -/
theorem regionBuffer_inside (packets : List PesPacket)
    (hroom : parser.Always PacketRoomy {} packets) : parser.Always PacketInside {} packets :=
  (Machine.always_of_invariant (I := Handle.Sized)
    (fun _ packet hsized hroom =>
      ⟨packetPages_inside hsized hroom, parsePESPacket_sized hsized packet⟩)
    ⟨rfl, .inl rfl⟩ hroom).1

theorem regionBuffer_inside_two :
    parser.Always PacketRoomy {} [regionPacket, regionPacket] ∧
      parser.Always PacketInside {} [regionPacket, regionPacket] :=
  have hroom : parser.Always PacketRoomy {} [regionPacket, regionPacket] := by decide +kernel
  ⟨hroom, regionBuffer_inside _ hroom⟩

/-- A packet with one region of 1716 by 358 pixels, whose object is missing. -/
def edgePacket : PesPacket :=
  packetOf
    ([0x0f, 0x10, 0, 1, 0, 8, 5, 0x04, 1, 0, 0, 0, 0, 0] ++
      [0x0f, 0x11, 0, 1, 0, 16, 1, 0, 0x06, 0xb4, 0x01, 0x66, 0x08, 1, 0, 0, 0, 5, 0, 0, 0, 0])

/-- The header behind a region begins sixteen bytes before the end of the buffer. -/
theorem header_past_end : ¬ ∀ packets, parser.Always PacketInside {} packets := by
  intro hall
  obtain ⟨s, hs, r, hr, hpast⟩ : ∃ s ∈ packetPages {} edgePacket, ∃ r ∈ s.work.regions,
      s.handle.u32RegionBufferLen < r.pu8ShowData + r.clearedLen + SHOW_REGION_SIZE := by
    decide +kernel
  have hinside := (hall [edgePacket]).1 s hs r.nextHeader
    (List.mem_append_right _ (List.mem_map_of_mem hr))
  rcases within_memset_iff.mp hinside with hzero | hle
  · cases hzero
  · omega

end Tntsat.SubtParse
