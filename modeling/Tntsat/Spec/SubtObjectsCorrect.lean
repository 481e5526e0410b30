import Mathlib.Algebra.Group.Nat.Defs
import Mathlib.Data.List.TakeWhile
import Tntsat.ForStd.ForwardSearch
import Tntsat.Spec.SubtSearch

/-!
# The objects of a region

`SUBT_Parse_ParseSegment` looks for the objects of a region one after another and lets each search
begin where the one before has ended, while the search for a region begins at the page each time.

## Key results

- `objectLoop_walk`: the loop over the objects is one walk through the descriptors, and decodes what
  the walk finds until a decoding fails
- `decodedOnce_iff`: when each object whose segment is recorded is decoded exactly once
-/

namespace Tntsat.SubtParse

/-! ## The searches of a region -/

/-- The descriptor holds the object. -/
def holdsObject (object : ObjectInfo) (seg : Segment) : Bool :=
  seg.u8SegmentType = SUBT_OBJECT_SEGMENT ∧
    get16 (seg.pu8SegmentData.getD []) 0 = object.u16ObjectId ∧ seg.u16DataLength ≠ 0

/-- The descriptors that a search can reach. -/
def readable (segs : List Segment) : List Segment :=
  segs.takeWhile fun seg => seg.pu8SegmentData.isSome

/-- The descriptors behind them. -/
def unreadable (segs : List Segment) : List Segment :=
  segs.dropWhile fun seg => seg.pu8SegmentData.isSome

theorem readable_append (segs : List Segment) : readable segs ++ unreadable segs = segs :=
  List.takeWhile_append_dropWhile

theorem readable_hasData (segs : List Segment) : HasData (readable segs) :=
  fun _ hseg => List.mem_takeWhile_imp (p := fun seg : Segment => seg.pu8SegmentData.isSome) hseg

theorem findObjectSegment_unreadable (u16ObjectId : Nat) (segs : List Segment) :
    findObjectSegment u16ObjectId (unreadable segs) = [] := by
  cases h : unreadable segs with
  | nil => rfl
  | cons seg rest =>
    have hnone := List.head?_dropWhile_not (fun seg : Segment => seg.pu8SegmentData.isSome) segs
    rw [show segs.dropWhile (fun seg => seg.pu8SegmentData.isSome) = seg :: rest from h] at hnone
    have hseg : seg.pu8SegmentData = none := by simpa using hnone
    simp only [findObjectSegment, findId, hseg]

/-- A search stops at the first descriptor that holds the object. -/
theorem findObjectSegment_hasData (object : ObjectInfo) {own : List Segment} (h : HasData own) :
    findObjectSegment object.u16ObjectId own = own.dropWhile fun seg => !holdsObject object seg := by
  induction own with
  | nil => rfl
  | cons seg segs ih =>
    obtain ⟨data, hdata⟩ := Option.isSome_iff_exists.mp (h seg List.mem_cons_self)
    have hholds : holdsObject object seg = decide (seg.u8SegmentType = SUBT_OBJECT_SEGMENT ∧
        get16 data 0 = object.u16ObjectId ∧ seg.u16DataLength ≠ 0) := by
      rw [holdsObject, hdata, Option.getD_some]
    have ih := ih fun s hs => h s (List.mem_cons_of_mem seg hs)
    rw [findObjectSegment] at ih ⊢
    simp only [findId, hdata, List.dropWhile_cons, hholds]
    split
    · simp [*]
    · simp [*]

/-! ## The loop -/

variable (u32RegionBufferLen : Nat) (info : AllInfo)

/-- The calls of `SUBT_Parse_ParseObjectSegment` that `objectLoop` makes: the object of the region
    and the segment that is decoded for it. -/
def objectCalls : List Segment → List ObjectInfo → Drawing → List (ObjectInfo × Segment)
  | _, [], _ => []
  | pstSegment, object :: objects, d =>
    match findObjectSegment object.u16ObjectId pstSegment with
    | [] => objectCalls [] objects d
    | seg :: segs =>
      let r := parseObjectSegment u32RegionBufferLen info seg object d
      (object, seg) ::
        if r.1 ≠ MT_SUCCESS then [] else objectCalls (seg :: segs) objects r.2

/-- Objects are decoded until that fails for one. -/
def drawObjects : List (ObjectInfo × Segment) → Drawing → Int × Drawing
  | [], d => (MT_SUCCESS, d)
  | (object, seg) :: rest, d =>
    let r := parseObjectSegment u32RegionBufferLen info seg object d
    if r.1 ≠ MT_SUCCESS then r else drawObjects rest r.2

/-- The objects up to the first one for which decoding fails. -/
def drawnObjects : List (ObjectInfo × Segment) → Drawing → List (ObjectInfo × Segment)
  | [], _ => []
  | (object, seg) :: rest, d =>
    let r := parseObjectSegment u32RegionBufferLen info seg object d
    (object, seg) :: if r.1 ≠ MT_SUCCESS then [] else drawnObjects rest r.2

/-- The loop over the objects is a walk through the descriptors. -/
theorem objectLoop_walk {own rest : List Segment} (hown : HasData own)
    (hrest : ∀ id, findObjectSegment id rest = []) (objects : List ObjectInfo) (d : Drawing) :
    objectLoop u32RegionBufferLen info (own ++ rest) objects d =
        drawObjects u32RegionBufferLen info (walk holdsObject own objects) d ∧
      objectCalls u32RegionBufferLen info (own ++ rest) objects d =
        drawnObjects u32RegionBufferLen info (walk holdsObject own objects) d := by
  induction objects generalizing own rest d with
  | nil => exact ⟨rfl, rfl⟩
  | cons object objects ih =>
    have hfind : findObjectSegment object.u16ObjectId (own ++ rest) =
        if findObjectSegment object.u16ObjectId own = [] then []
        else findObjectSegment object.u16ObjectId own ++ rest :=
      (findId_goesOn SUBT_OBJECT_SEGMENT object.u16ObjectId _ hown).append (.inr (hrest _))
    rw [findObjectSegment_hasData object hown] at hfind
    have hsuffix : own.dropWhile (fun seg => !holdsObject object seg) <:+ own :=
      List.dropWhile_suffix _
    rw [objectLoop, objectCalls, walk, hfind]
    cases hwalk : own.dropWhile fun seg => !holdsObject object seg with
    | nil =>
      -- the cursor is behind the last descriptor
      exact @ih [] [] (fun _ h => absurd h List.not_mem_nil) (fun _ => rfl) d
    | cons seg segs =>
      rw [hwalk] at hsuffix
      have ih := ih (hown.suffix hsuffix) hrest
      rw [if_neg (List.cons_ne_nil seg segs), List.cons_append]
      simp only [drawObjects, drawnObjects]
      split_ifs with hret
      · exact ⟨rfl, rfl⟩
      · exact ⟨(ih _).1, by rw [← List.cons_append, (ih _).2]⟩

theorem drawnObjects_prefix (found : List (ObjectInfo × Segment)) (d : Drawing) :
    drawnObjects u32RegionBufferLen info found d <+: found := by
  induction found generalizing d with
  | nil => exact List.prefix_rfl
  | cons f found ih =>
    simp only [drawnObjects]
    split_ifs
    · exact (List.prefix_cons_inj f).mpr List.nil_prefix
    · exact (List.prefix_cons_inj f).mpr (ih _)

/-- All objects are decoded iff that fails for none but the last. -/
theorem drawnObjects_eq_iff (found : List (ObjectInfo × Segment)) (d : Drawing) :
    drawnObjects u32RegionBufferLen info found d = found ↔
      (drawObjects u32RegionBufferLen info found.dropLast d).1 = MT_SUCCESS := by
  induction found generalizing d with
  | nil => exact iff_of_true rfl rfl
  | cons f found ih =>
    cases found with
    | nil =>
      refine iff_of_true ?_ rfl
      simp only [drawnObjects, ite_self]
    | cons f' found =>
      rw [drawnObjects, List.cons_inj_right, List.dropLast_cons_cons, drawObjects]
      split_ifs with hret
      · exact iff_of_false id hret
      · exact ih _

/-! ## Objects in any order -/

/-- Each object of the region whose segment is among the descriptors is decoded once.  The search
    begins at the page; `before` are the descriptors in front of it. -/
def DecodedOnce (before enter : List Segment) (objects : List ObjectInfo) (d : Drawing) : Prop :=
  (objectCalls u32RegionBufferLen info enter objects d).map Prod.fst =
    objects.filter fun object => decide (Occurs holdsObject (before ++ readable enter) object)

/-- None of the objects that are found fails to be decoded, the last one apart. -/
def NoneFails (enter : List Segment) (objects : List ObjectInfo) (d : Drawing) : Prop :=
  (drawObjects u32RegionBufferLen info
    (walk holdsObject (readable enter) objects).dropLast d).1 = MT_SUCCESS

/-- Each object is decoded once iff the segments of the objects stand behind the page, the objects
    come in the order of their segments, those without one last, and none fails in front of
    another. -/
theorem decodedOnce_iff (before enter : List Segment) (objects : List ObjectInfo) (d : Drawing) :
    DecodedOnce u32RegionBufferLen info before enter objects d ↔
      (∀ object ∈ objects, Occurs holdsObject before object →
        Occurs holdsObject (readable enter) object) ∧
      InOrder holdsObject (readable enter) objects ∧
      NoneFails u32RegionBufferLen info enter objects d := by
  have hcalls := (objectLoop_walk u32RegionBufferLen info (readable_hasData enter)
    (fun id => findObjectSegment_unreadable id enter) objects d).2
  rw [readable_append] at hcalls
  have hall : ∀ object, Occurs holdsObject (before ++ readable enter) object ↔
      Occurs holdsObject before object ∨ Occurs holdsObject (readable enter) object := by
    intro object
    simp only [Occurs, List.mem_append, or_and_right, exists_or]
  have hwalk := walk_sublist (p := holdsObject) (readable enter) 0 objects
  rw [List.drop_zero] at hwalk
  have hprefix := drawnObjects_prefix u32RegionBufferLen info
    (walk holdsObject (readable enter) objects) d
  have hreach : (objects.filter fun object =>
        decide (Occurs holdsObject (readable enter) object)).Sublist
      (objects.filter fun object =>
        decide (Occurs holdsObject (before ++ readable enter) object)) :=
    List.monotone_filter_right _ fun object h => by
      simpa using (hall object).mpr (.inr (by simpa using h))
  rw [DecodedOnce, hcalls, NoneFails, ← drawnObjects_eq_iff, ← walk_eq_filter_iff]
  constructor
  · intro h
    -- what is decoded is the longest that it can be, and so are the lists in between
    have hlen := congrArg List.length h
    rw [List.length_map] at hlen
    have h₁ := hprefix.length_le
    have h₂ := hwalk.length_le
    have h₃ := hreach.length_le
    rw [List.length_map] at h₂
    have hdrawn := hprefix.eq_of_length (by omega)
    have hfound := hwalk.eq_of_length (by rw [List.length_map]; omega)
    have hsame := hreach.eq_of_length (by omega)
    refine ⟨fun object hmem hbefore => ?_, hfound, hdrawn⟩
    have hin : object ∈ objects.filter fun object =>
        decide (Occurs holdsObject (before ++ readable enter) object) :=
      List.mem_filter.mpr ⟨hmem, by simpa using (hall object).mpr (.inl hbefore)⟩
    rw [← hsame] at hin
    simpa using (List.mem_filter.mp hin).2
  · rintro ⟨hbehind, hfound, hdrawn⟩
    rw [hdrawn, hfound]
    refine List.filter_congr fun object hmem => ?_
    rw [decide_eq_decide, hall]
    exact ⟨.inr, fun h => h.elim (hbehind object hmem) id⟩

/-- The descriptor of a character-coded object with one character. -/
def characterObject (id : UInt8) : Segment where
  u8SegmentType := SUBT_OBJECT_SEGMENT
  u16DataLength := 5
  pu8SegmentData := some [0, id, 0x04, 1, 0x41]

/-- Of two objects that are named in the other order than their segments come in, the second one
    is not found. -/
theorem object_missed :
    ¬ DecodedOnce SUBT_REGION_SHOW_SD_LEN { u16RegionWidth := 16, u16RegionHeight := 2 } []
      [characterObject 1, characterObject 2] [⟨2, 0, 0⟩, ⟨1, 0, 0⟩]
      { region :=
          { addr := 0, u16XPos := 0, u16YPos := 0, u16Width := 16, u16Heigth := 2
            u8RegionDepth := 8, u8ClutId := 0, pu8ShowData := 56 }
        statics := {}, enObjType := none, stores := [] } := by
  intro h
  exact absurd (congrArg List.length h) (by decide)

end Tntsat.SubtParse
