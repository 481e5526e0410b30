import Tntsat.ForStd.Raster
import Tntsat.Spec.SubtMemory

/-!
# The layout of a page

`SUBT_DataParse_Display` on shown regions that stand one under another.
`SUBT_DataParse_CountRegionSize` counts the right edge of a region from the left edge of the
regions so far, and the lines between two regions are laid out under the lower one instead of
above it.

## Key results

- `countLoop_eq`: what is counted, for regions from top to bottom
- `laid_eq_iff`: the lines that are laid out are those of the page when the regions under a gap
  are blank
- `shows_iff`: when the page is shown as it is
-/

namespace Tntsat.SubtParse

/-! ## Regions of a page -/

/-- The line under a region. -/
def ShowRegion.bottom (r : ShowRegion) : Nat := r.u16YPos + r.u16Heigth

/-- The column behind a region. -/
def ShowRegion.right (r : ShowRegion) : Nat := r.u16XPos + r.u16Width

/-- A region as it can be: its fields are 16 bits wide, and it has a line. -/
structure ShowRegion.Valid (r : ShowRegion) : Prop where
  xPos : r.u16XPos < 0x10000
  yPos : r.u16YPos < 0x10000
  width : r.u16Width < 0x10000
  height : r.u16Heigth < 0x10000
  lines : 0 < r.u16Heigth

/-- Each region begins under the one before. -/
def Ascending (regions : List ShowRegion) : Prop :=
  regions.IsChain fun r s => r.bottom ≤ s.u16YPos

instance (regions : List ShowRegion) : Decidable (Ascending regions) :=
  inferInstanceAs (Decidable (List.IsChain _ _))

/-- The line under the last region. -/
def lastBottom : ShowRegion → List ShowRegion → Nat
  | prev, [] => prev.bottom
  | _, r :: regions => lastBottom r regions

theorem bottom_le_lastBottom {prev : ShowRegion} {regions : List ShowRegion}
    (hasc : Ascending (prev :: regions)) : prev.bottom ≤ lastBottom prev regions := by
  induction regions generalizing prev with
  | nil => exact Nat.le_refl _
  | cons r regions ih =>
    obtain ⟨hle, htail⟩ := List.isChain_cons_cons.mp hasc
    exact hle.trans ((Nat.le_add_right _ _).trans (ih htail))

/-- All regions of a page lie between its first and its last line. -/
theorem page_range {first : ShowRegion} {others : List ShowRegion}
    (hasc : Ascending (first :: others)) :
    ∀ r ∈ first :: others, first.u16YPos ≤ r.u16YPos ∧ r.bottom ≤ lastBottom first others := by
  induction others generalizing first with
  | nil => exact List.forall_mem_singleton.mpr ⟨Nat.le_refl _, Nat.le_refl _⟩
  | cons r others ih =>
    obtain ⟨hle, htail⟩ := List.isChain_cons_cons.mp hasc
    refine List.forall_mem_cons.mpr ⟨⟨Nat.le_refl _, bottom_le_lastBottom hasc⟩, fun s hs => ?_⟩
    obtain ⟨htop, hbottom⟩ := ih htail s hs
    exact ⟨(Nat.le_add_right _ _).trans (hle.trans htop), hbottom⟩

/-! ## Counting -/

/-- One round of `SUBT_DataParse_CountRegionSize`, as far as it is about columns. -/
def boxStep (b : Nat × Nat) (r : ShowRegion) : Nat × Nat :=
  if r.u16XPos < b.1 then (r.u16XPos, max (u16 (b.2 + b.1 - r.u16XPos)) r.u16Width)
  else (b.1, max b.2 r.u16Width)

/-- The position and the width that are counted. -/
def box (first : ShowRegion) (regions : List ShowRegion) : Nat × Nat :=
  regions.foldl boxStep (first.u16XPos, first.u16Width)

theorem u16_u16_add (m n : Nat) : u16 (u16 m + n) = u16 (m + n) := by
  simp [u16]

/-- Where a region stands, from top to bottom. -/
structure Lines where
  u16YPos : Nat
  u16Heigth : Nat
deriving DecidableEq

/-- The line under them. -/
def Lines.bottom (l : Lines) : Nat := l.u16YPos + l.u16Heigth

/-- The lines of a region. -/
def ShowRegion.lines (r : ShowRegion) : Lines := ⟨r.u16YPos, r.u16Heigth⟩

/-- The lines of regions and of the gaps above them. -/
def rowsUnder : Lines → List Lines → Nat
  | _, [] => 0
  | prev, l :: lines => l.u16YPos - prev.bottom + l.u16Heigth + rowsUnder l lines

/-- The regions come from top to bottom; they may overlap. -/
def TopDown (lines : List Lines) : Prop := lines.IsChain fun l k => l.u16YPos ≤ k.u16YPos

instance (lines : List Lines) : Decidable (TopDown lines) :=
  inferInstanceAs (Decidable (List.IsChain _ _))

theorem Ascending.topDown {regions : List ShowRegion} (hasc : Ascending regions) :
    TopDown (regions.map ShowRegion.lines) :=
  (List.isChain_map ShowRegion.lines).mpr
    (List.IsChain.imp (fun _ _ hle => (Nat.le_add_right _ _).trans hle) hasc)

theorem rowsUnder_eq {prev : ShowRegion} {regions : List ShowRegion}
    (hasc : Ascending (prev :: regions)) :
    rowsUnder prev.lines (regions.map ShowRegion.lines) =
      lastBottom prev regions - prev.bottom := by
  induction regions generalizing prev with
  | nil => exact (Nat.sub_self _).symm
  | cons r regions ih =>
    obtain ⟨hle, htail⟩ := List.isChain_cons_cons.mp hasc
    have hlast := bottom_le_lastBottom htail
    rw [List.map_cons, rowsUnder, ih htail, lastBottom]
    simp only [ShowRegion.bottom, ShowRegion.lines, Lines.bottom] at hlast hle ⊢
    omega

theorem countLoop_cons (prev r : ShowRegion) (regions : List ShowRegion) (x w h : Nat) :
    countLoop (r :: regions) prev (x, w, h) =
      if prev.u16YPos ≤ r.u16YPos then
        countLoop regions r ((boxStep (x, w) r).1, (boxStep (x, w) r).2,
          u16 (h + (r.u16YPos - prev.bottom + r.u16Heigth)))
      else none := by
  simp only [countLoop, boxStep]
  by_cases hy : prev.u16YPos ≤ r.u16YPos
  · have hrows : (if prev.u16YPos + prev.u16Heigth ≤ r.u16YPos then
        u16 (h + r.u16YPos + r.u16Heigth - (prev.u16YPos + prev.u16Heigth))
        else u16 (h + r.u16Heigth)) = u16 (h + (r.u16YPos - prev.bottom + r.u16Heigth)) := by
      rw [ShowRegion.bottom]
      split <;> exact congrArg u16 (by omega)
    rw [if_neg (Nat.not_lt.mpr hy), if_pos hy, hrows]
    by_cases hx : r.u16XPos < x
    · simp only [if_pos hx]
      rw [← max_def_lt]
    · simp only [if_neg hx]
      rw [← max_def_lt]
  · rw [if_pos (Nat.not_le.mp hy), if_neg hy]

/-- Regions are counted when they come from top to bottom. -/
theorem countLoop_eq (prev : ShowRegion) (regions : List ShowRegion) (x w : Nat) {h : Nat}
    (hh : h < 0x10000) :
    countLoop regions prev (x, w, h) =
      if TopDown (prev.lines :: regions.map ShowRegion.lines) then
        some ((regions.foldl boxStep (x, w)).1, (regions.foldl boxStep (x, w)).2,
          u16 (h + rowsUnder prev.lines (regions.map ShowRegion.lines)))
      else none := by
  induction regions generalizing prev x w h with
  | nil =>
    have hchain : TopDown [prev.lines] := List.isChain_singleton _
    rw [List.map_nil, if_pos hchain, rowsUnder, Nat.add_zero, u16, Nat.mod_eq_of_lt hh]
    rfl
  | cons r regions ih =>
    have hlt : u16 (h + (r.u16YPos - prev.bottom + r.u16Heigth)) < 0x10000 :=
      Nat.mod_lt _ (by decide)
    have hchain : TopDown (prev.lines :: r.lines :: regions.map ShowRegion.lines) ↔
        prev.u16YPos ≤ r.u16YPos ∧ TopDown (r.lines :: regions.map ShowRegion.lines) :=
      List.isChain_cons_cons
    rw [countLoop_cons, ih r _ _ hlt, u16_u16_add, Nat.add_assoc h, List.map_cons,
      ← List.foldl_cons, ← ite_and]
    simp only [hchain]
    rfl

/-! ## The box of a page -/

/-- The left edge of the page. -/
def pageLeft (first : ShowRegion) (regions : List ShowRegion) : Nat :=
  regions.foldl (fun x r => min x r.u16XPos) first.u16XPos

/-- The right edge of the page. -/
def pageRight (first : ShowRegion) (regions : List ShowRegion) : Nat :=
  regions.foldl (fun x r => max x r.right) first.right

/-- A region that reaches furthest right has none in front of it that begins further left. -/
def WidestLeads (regions : List ShowRegion) : Prop :=
  ∃ before r after, regions = before ++ r :: after ∧ (∀ s ∈ before, r.u16XPos ≤ s.u16XPos) ∧
    ∀ s ∈ regions, s.right ≤ r.right

theorem pageLeft_le (first : ShowRegion) (regions : List ShowRegion) :
    ∀ r ∈ first :: regions, pageLeft first regions ≤ r.u16XPos := by
  induction regions using List.reverseRecOn with
  | nil => exact List.forall_mem_singleton.mpr (Nat.le_refl _)
  | append_singleton regions s ih =>
    rw [pageLeft, List.foldl_append, ← List.cons_append, List.forall_mem_append]
    exact ⟨fun r hr => (Nat.min_le_left _ _).trans (ih r hr),
      List.forall_mem_singleton.mpr (Nat.min_le_right _ _)⟩

theorem pageLeft_mem (first : ShowRegion) (regions : List ShowRegion) :
    ∃ r ∈ first :: regions, pageLeft first regions = r.u16XPos := by
  induction regions using List.reverseRecOn with
  | nil => exact ⟨first, List.mem_cons_self, rfl⟩
  | append_singleton regions s ih =>
    obtain ⟨r, hr, heq⟩ := ih
    rw [pageLeft, List.foldl_append, ← List.cons_append]
    show ∃ t ∈ (first :: regions) ++ [s], min (pageLeft first regions) s.u16XPos = t.u16XPos
    rcases Nat.le_total (pageLeft first regions) s.u16XPos with h | h
    · exact ⟨r, List.mem_append_left _ hr, (Nat.min_eq_left h).trans heq⟩
    · exact ⟨s, by simp, Nat.min_eq_right h⟩

theorem le_pageRight (first : ShowRegion) (regions : List ShowRegion) :
    ∀ r ∈ first :: regions, r.right ≤ pageRight first regions := by
  induction regions using List.reverseRecOn with
  | nil => exact List.forall_mem_singleton.mpr (Nat.le_refl _)
  | append_singleton regions s ih =>
    rw [pageRight, List.foldl_append, ← List.cons_append, List.forall_mem_append]
    exact ⟨fun r hr => (ih r hr).trans (Nat.le_max_left _ _),
      List.forall_mem_singleton.mpr (Nat.le_max_right _ _)⟩

theorem pageRight_mem (first : ShowRegion) (regions : List ShowRegion) :
    ∃ r ∈ first :: regions, pageRight first regions = r.right := by
  induction regions using List.reverseRecOn with
  | nil => exact ⟨first, List.mem_cons_self, rfl⟩
  | append_singleton regions s ih =>
    obtain ⟨r, hr, heq⟩ := ih
    rw [pageRight, List.foldl_append, ← List.cons_append]
    show ∃ t ∈ (first :: regions) ++ [s], max (pageRight first regions) s.right = t.right
    rcases Nat.le_total (pageRight first regions) s.right with h | h
    · exact ⟨s, by simp, Nat.max_eq_right h⟩
    · exact ⟨r, List.mem_append_left _ hr, (Nat.max_eq_left h).trans heq⟩

theorem pageRight_eq {first r : ShowRegion} {regions : List ShowRegion}
    (hr : r ∈ first :: regions) (hmax : ∀ s ∈ first :: regions, s.right ≤ r.right) :
    pageRight first regions = r.right := by
  obtain ⟨s, hs, heq⟩ := pageRight_mem first regions
  exact Nat.le_antisymm (heq ▸ hmax s hs) (le_pageRight first regions r hr)

theorem box_append (first : ShowRegion) (regions : List ShowRegion) (r : ShowRegion) :
    box first (regions ++ [r]) = boxStep (box first regions) r := by
  simp [box]

theorem boxStep_fst (b : Nat × Nat) (r : ShowRegion) : (boxStep b r).1 = min b.1 r.u16XPos := by
  rw [boxStep]
  split
  · exact (Nat.min_eq_right (Nat.le_of_lt ‹_›)).symm
  · exact (Nat.min_eq_left (Nat.le_of_not_lt ‹_›)).symm

/-- The left edge is counted as it is. -/
theorem box_fst (first : ShowRegion) (regions : List ShowRegion) :
    (box first regions).1 = pageLeft first regions := by
  induction regions using List.reverseRecOn with
  | nil => rfl
  | append_singleton regions r ih =>
    rw [box_append, boxStep_fst, ih, pageLeft, pageLeft, List.foldl_append]
    rfl

/-- The width fits 16 bits. -/
theorem box_snd_lt {first : ShowRegion} {regions : List ShowRegion}
    (hwidth : ∀ r ∈ first :: regions, r.u16Width < 0x10000) : (box first regions).2 < 0x10000 := by
  induction regions using List.reverseRecOn with
  | nil => exact hwidth first List.mem_cons_self
  | append_singleton regions r ih =>
    rw [← List.cons_append, List.forall_mem_append] at hwidth
    have hr := hwidth.2 r List.mem_cons_self
    rw [box_append, boxStep]
    split
    · exact Nat.max_lt.mpr ⟨Nat.mod_lt _ (by decide), hr⟩
    · exact Nat.max_lt.mpr ⟨ih hwidth.1, hr⟩

/-- Some region reaches as far right as is counted; it reaches further when one in front of it
    begins further left. -/
theorem box_reached (first : ShowRegion) (regions : List ShowRegion) :
    ∃ before r after, first :: regions = before ++ r :: after ∧
      ((∀ s ∈ before, r.u16XPos ≤ s.u16XPos) ∧
          (box first regions).1 + (box first regions).2 ≤ r.right ∨
        (box first regions).1 + (box first regions).2 < r.right) := by
  induction regions using List.reverseRecOn with
  | nil => exact ⟨[], first, [], rfl, .inl ⟨by simp, Nat.le_refl _⟩⟩
  | append_singleton regions r ih =>
    obtain ⟨before, s, after, hsplit, hs⟩ := ih
    have hsplit' : first :: (regions ++ [r]) = before ++ s :: (after ++ [r]) := by
      rw [← List.cons_append, hsplit, List.append_assoc, List.cons_append]
    have hleft := pageLeft_le first regions
    rw [← box_fst] at hleft
    rw [box_append]
    generalize box first regions = b at hs hleft
    by_cases hx : r.u16XPos < b.1
    · have hwrap : u16 (b.2 + b.1 - r.u16XPos) ≤ b.2 + b.1 - r.u16XPos := Nat.mod_le _ _
      rw [boxStep, if_pos hx]
      by_cases hw : u16 (b.2 + b.1 - r.u16XPos) ≤ r.u16Width
      · -- the new region is the widest one, and it begins left of all others
        refine ⟨first :: regions, r, [], rfl, .inl ⟨fun t ht => ?_, ?_⟩⟩
        · exact (Nat.le_of_lt hx).trans (hleft t ht)
        · exact Nat.le_of_eq (by rw [Nat.max_eq_right hw, ShowRegion.right])
      · refine ⟨before, s, after ++ [r], hsplit', hs.imp (And.imp_right fun hle => ?_)
          fun hlt => ?_⟩ <;> dsimp only <;> omega
    · rw [boxStep, if_neg hx]
      by_cases hw : b.2 ≤ r.u16Width
      · refine ⟨first :: regions, r, [], rfl, ?_⟩
        rw [Nat.max_eq_right hw, ShowRegion.right]
        rcases Nat.eq_or_lt_of_le (Nat.le_of_not_lt hx) with heq | hlt
        · exact .inl ⟨fun t ht => heq ▸ hleft t ht, by omega⟩
        · exact .inr (by dsimp only; omega)
      · refine ⟨before, s, after ++ [r], hsplit', ?_⟩
        rw [Nat.max_eq_left (by omega)]
        exact hs

/-- When all regions end inside of what is counted, the counted width is that of the page. -/
theorem widestLeads_of_inside {first : ShowRegion} {regions : List ShowRegion}
    (hinside : ∀ r ∈ first :: regions,
      r.right ≤ (box first regions).1 + (box first regions).2) :
    WidestLeads (first :: regions) ∧
      (box first regions).1 + (box first regions).2 = pageRight first regions := by
  obtain ⟨before, r, after, hsplit, hr⟩ := box_reached first regions
  have hmem : r ∈ first :: regions := by simp [hsplit]
  have hle := hinside r hmem
  obtain ⟨hfront, hreach⟩ : (∀ s ∈ before, r.u16XPos ≤ s.u16XPos) ∧
      (box first regions).1 + (box first regions).2 ≤ r.right :=
    hr.resolve_right (by omega)
  have hmax : ∀ s ∈ first :: regions, s.right ≤ r.right :=
    fun s hs => (hinside s hs).trans hreach
  exact ⟨⟨before, r, after, hsplit, hfront, hmax⟩,
    (Nat.le_antisymm hreach hle).trans (pageRight_eq hmem hmax).symm⟩

/-- Right edges are counted without a wrap when the page is not too wide. -/
theorem box_right_le {left right : Nat} (hwide : right - left < 0x10000) {first : ShowRegion}
    {regions : List ShowRegion}
    (hbox : ∀ r ∈ first :: regions, left ≤ r.u16XPos ∧ r.right ≤ right) :
    (box first regions).1 + (box first regions).2 ≤ right ∧
      ∀ before r after, first :: regions = before ++ r :: after →
        (∀ s ∈ before, r.u16XPos ≤ s.u16XPos) →
        r.right ≤ (box first regions).1 + (box first regions).2 := by
  induction regions using List.reverseRecOn with
  | nil =>
    refine ⟨(hbox first List.mem_cons_self).2, fun before r after hsplit _ => ?_⟩
    cases before with
    | nil =>
      obtain ⟨rfl, -⟩ := List.cons.inj hsplit
      exact Nat.le_refl _
    | cons s before => simp at hsplit
  | append_singleton regions t ih =>
    rw [← List.cons_append] at hbox ⊢
    obtain ⟨hbefore, ht⟩ := List.forall_mem_append.mp hbox
    obtain ⟨hle, hlead⟩ := ih hbefore
    have htbox := ht t List.mem_cons_self
    -- one more region only moves the right edge outwards, but not beyond `right`
    have hfar : (box first regions).1 + (box first regions).2 ≤
        (box first (regions ++ [t])).1 + (box first (regions ++ [t])).2 ∧
        (box first (regions ++ [t])).1 + (box first (regions ++ [t])).2 ≤ right ∧
        (t.u16XPos ≤ (box first regions).1 →
          t.right ≤ (box first (regions ++ [t])).1 + (box first (regions ++ [t])).2) := by
      rw [box_append]
      generalize box first regions = b at hle
      simp only [ShowRegion.right] at htbox ⊢
      rw [boxStep]
      split
      · rw [u16, Nat.mod_eq_of_lt (by omega)]
        refine ⟨?_, ?_, fun _ => ?_⟩ <;> dsimp only <;> omega
      · refine ⟨?_, ?_, fun hx => ?_⟩ <;> dsimp only <;> omega
    obtain ⟨hgrow, hright, hlast⟩ := hfar
    refine ⟨hright, fun before r after hsplit hfront => ?_⟩
    -- the region asked about is the last one, or it was there before
    induction after using List.reverseRecOn with
    | nil =>
      obtain ⟨rfl, hrt⟩ := List.append_inj' hsplit rfl
      obtain rfl : t = r := (List.cons.inj hrt).1
      refine hlast ?_
      obtain ⟨s, hs, heq⟩ := pageLeft_mem first regions
      rw [box_fst, heq]
      exact hfront s hs
    | append_singleton after u _ =>
      rw [← List.cons_append, ← List.append_assoc] at hsplit
      obtain ⟨hsplit, -⟩ := List.append_inj' hsplit rfl
      exact (hlead before r after hsplit hfront).trans hgrow

/-! ## Pixels -/

/-- Column `i` of line `j` of a region. -/
def ShowRegion.pixel (m : Memory UInt8) (r : ShowRegion) (i j : Nat) : UInt8 :=
  m (r.pu8ShowData + j * r.u16Width + i)

/-- The region covers a point of the screen. -/
def ShowRegion.Covers (r : ShowRegion) (x y : Nat) : Prop :=
  (r.u16XPos ≤ x ∧ x < r.right) ∧ r.u16YPos ≤ y ∧ y < r.bottom

instance (r : ShowRegion) (x y : Nat) : Decidable (r.Covers x y) :=
  inferInstanceAs (Decidable (_ ∧ _))

/-- The pixel at a point of the screen. -/
def pagePixel (m : Memory UInt8) : List ShowRegion → Nat → Nat → UInt8
  | [], _, _ => 0
  | r :: regions, x, y =>
    if r.Covers x y then r.pixel m (x - r.u16XPos) (y - r.u16YPos) else pagePixel m regions x y

theorem pagePixel_of_not_covers (m : Memory UInt8) {regions : List ShowRegion} {x y : Nat}
    (h : ∀ r ∈ regions, ¬ r.Covers x y) : pagePixel m regions x y = 0 := by
  induction regions with
  | nil => rfl
  | cons r regions ih =>
    obtain ⟨hr, hregions⟩ := List.forall_mem_cons.mp h
    rw [pagePixel, if_neg hr, ih hregions]

/-- All regions behind a region are under it. -/
theorem ascending_below {r : ShowRegion} {regions : List ShowRegion}
    (hasc : Ascending (r :: regions)) : ∀ s ∈ regions, r.bottom ≤ s.u16YPos := by
  induction regions generalizing r with
  | nil => simp
  | cons t regions ih =>
    obtain ⟨hle, htail⟩ := List.isChain_cons_cons.mp hasc
    refine List.forall_mem_cons.mpr ⟨hle, fun s hs => ?_⟩
    exact hle.trans ((Nat.le_add_right _ _).trans (ih htail s hs))

theorem pagePixel_of_covers (m : Memory UInt8) {regions : List ShowRegion}
    (hasc : Ascending regions) {r : ShowRegion} (hr : r ∈ regions) {x y : Nat}
    (hcovers : r.Covers x y) :
    pagePixel m regions x y = r.pixel m (x - r.u16XPos) (y - r.u16YPos) := by
  induction regions with
  | nil => simp at hr
  | cons s regions ih =>
    rw [pagePixel]
    by_cases hs : s.Covers x y
    · rw [if_pos hs]
      rcases List.mem_cons.mp hr with rfl | hr
      · rfl
      · -- both cover the line, but one is under the other
        have hbelow := ascending_below hasc r hr
        have hin := hs.2.2
        have hrin := hcovers.2.1
        omega
    · rw [if_neg hs]
      rcases List.mem_cons.mp hr with rfl | hr
      · exact absurd hcovers hs
      · exact ih hasc.tail hr

/-! ## Laying out -/

/-- The region is laid out in a page of this left edge and width. -/
def Fits (x w : Nat) (r : ShowRegion) : Prop :=
  w = r.u16Width ∨ r.u16Width + (r.u16XPos - x) ≤ w

instance (x w : Nat) (r : ShowRegion) : Decidable (Fits x w r) :=
  inferInstanceAs (Decidable (_ ∨ _))

/-- The lines of a region as they are laid out. -/
def regionLines (m : Memory UInt8) (x w : Nat) (r : ShowRegion) : List UInt8 :=
  if w = r.u16Width then m.read r.pu8ShowData (r.u16Width * r.u16Heigth)
  else layoutLines m r (r.u16XPos - x) w

/-- The lines that are laid out for the regions under line `next`: the blank lines above a region
    come behind its own. -/
def laid (m : Memory UInt8) (x w : Nat) : List ShowRegion → Nat → List UInt8
  | [], _ => []
  | r :: regions, next =>
    regionLines m x w r ++ List.replicate (w * (r.u16YPos - next)) 0 ++
      laid m x w regions (u16 r.bottom)

theorem u16sub_of_le {a b : Nat} (hle : b ≤ a) (ha : a < 0x10000) : u16sub a b = a - b := by
  simp only [u16sub, u16]
  omega

theorem layout_eq (m : Memory UInt8) {x : Nat} (w : Nat) {regions : List ShowRegion}
    (hx : ∀ r ∈ regions, x ≤ r.u16XPos ∧ r.u16XPos < 0x10000) (next : Nat) (out : List UInt8) :
    layout m x w regions next out =
      if ∀ r ∈ regions, Fits x w r then some (out ++ laid m x w regions next) else none := by
  induction regions generalizing next out with
  | nil => simp [layout, laid]
  | cons r regions ih =>
    obtain ⟨⟨hle, hlt⟩, hregions⟩ := List.forall_mem_cons.mp hx
    -- the gap above the region; none is added where there is none
    have hgap : ∀ lines : List UInt8,
        (if next < r.u16YPos then lines ++ List.replicate (w * (r.u16YPos - next)) 0 else lines) =
          lines ++ List.replicate (w * (r.u16YPos - next)) 0 := by
      intro lines
      split
      · rfl
      · rw [Nat.sub_eq_zero_of_le (by omega), Nat.mul_zero, List.replicate_zero, List.append_nil]
    -- the lines of a region that fits, in either of the two ways
    have hlines : (if w = r.u16Width then some (m.read r.pu8ShowData (r.u16Width * r.u16Heigth))
        else if r.u16Width + (r.u16XPos - x) ≤ w then some (layoutLines m r (r.u16XPos - x) w)
        else none) = if Fits x w r then some (regionLines m x w r) else none := by
      by_cases hw : w = r.u16Width
      · have hfits : Fits x w r := .inl hw
        rw [if_pos hw, if_pos hfits, regionLines, if_pos hw]
      · by_cases hroom : r.u16Width + (r.u16XPos - x) ≤ w
        · have hfits : Fits x w r := .inr hroom
          rw [if_neg hw, if_pos hroom, if_pos hfits, regionLines, if_neg hw]
        · have hfits : ¬ Fits x w r := not_or.mpr ⟨hw, hroom⟩
          rw [if_neg hw, if_neg hroom, if_neg hfits]
    simp only [layout, u16sub_of_le hle hlt, hlines]
    by_cases hfits : Fits x w r
    · rw [if_pos hfits]
      dsimp only
      rw [hgap, ih hregions]
      simp only [List.forall_mem_cons, hfits, true_and, laid, ShowRegion.bottom,
        List.append_assoc]
    · rw [if_neg hfits]
      simp only [List.forall_mem_cons, hfits, false_and, if_false]

theorem length_regionLines (m : Memory UInt8) {x w : Nat} {r : ShowRegion} (hfits : Fits x w r) :
    (regionLines m x w r).length = w * r.u16Heigth := by
  rw [regionLines]
  split
  · rw [Memory.length_read, ‹w = r.u16Width›]
  · have hroom := hfits.resolve_left ‹_›
    have hline : r.u16XPos - x + (r.u16Width + (w - r.u16Width - (r.u16XPos - x))) = w := by
      omega
    simp [layoutLines, List.length_flatMap, hline, Nat.mul_comm w]

/-- The line under a region is kept when another region follows. -/
theorem laid_bottom (m : Memory UInt8) (x w : Nat) {r : ShowRegion} {regions : List ShowRegion}
    (hasc : Ascending (r :: regions)) (hy : ∀ s ∈ regions, s.u16YPos < 0x10000) :
    laid m x w regions (u16 r.bottom) = laid m x w regions r.bottom := by
  cases regions with
  | nil => rfl
  | cons s regions =>
    have hle := ascending_below hasc s List.mem_cons_self
    rw [u16, Nat.mod_eq_of_lt (hle.trans_lt (hy s List.mem_cons_self))]

theorem length_laid (m : Memory UInt8) {x w : Nat} {prev : ShowRegion}
    {regions : List ShowRegion} (hasc : Ascending (prev :: regions))
    (hy : ∀ s ∈ regions, s.u16YPos < 0x10000) (hfits : ∀ r ∈ regions, Fits x w r) :
    (laid m x w regions prev.bottom).length =
      w * (lastBottom prev regions - prev.bottom) := by
  induction regions generalizing prev with
  | nil => simp [laid, lastBottom]
  | cons r regions ih =>
    obtain ⟨hle, htail⟩ := List.isChain_cons_cons.mp hasc
    obtain ⟨hr, hregions⟩ := List.forall_mem_cons.mp hfits
    obtain ⟨-, hy⟩ := List.forall_mem_cons.mp hy
    have hlast := bottom_le_lastBottom htail
    rw [laid, laid_bottom m x w htail hy, List.length_append, List.length_append,
      length_regionLines m hr, List.length_replicate, ih htail hy hregions, ← Nat.mul_add,
      ← Nat.mul_add, lastBottom]
    congr 1
    simp only [ShowRegion.bottom] at hlast hle ⊢
    omega

/-! ## The lines of a page -/

/-- The region lies between the edges of the page. -/
def Inside (x w : Nat) (r : ShowRegion) : Prop := x ≤ r.u16XPos ∧ r.right ≤ x + w

theorem Inside.fits {x w : Nat} {r : ShowRegion} (h : Inside x w r) : Fits x w r := by
  obtain ⟨hleft, hright⟩ := h
  rw [ShowRegion.right] at hright
  exact .inr (by omega)

/-- Column `col` of line `row` of a region, in a page with left edge `x`. -/
def regionCell (m : Memory UInt8) (x : Nat) (r : ShowRegion) (col row : Nat) : UInt8 :=
  if r.u16XPos ≤ x + col ∧ x + col < r.right then r.pixel m (x + col - r.u16XPos) row else 0

/-- A line of a region, moved to the right. -/
theorem layoutLine_eq (m : Memory UInt8) {x w : Nat} {r : ShowRegion} (hin : Inside x w r)
    (row : Nat) :
    List.replicate (r.u16XPos - x) 0 ++ m.read (r.pu8ShowData + row * r.u16Width) r.u16Width ++
        List.replicate (w - r.u16Width - (r.u16XPos - x)) 0 =
      (List.range w).map fun col => regionCell m x r col row := by
  obtain ⟨hleft, hright⟩ := hin
  rw [ShowRegion.right] at hright
  refine List.ext_getElem (by simp; omega) fun col hcol hcol' => ?_
  rw [List.getElem_map, List.getElem_range, regionCell, ShowRegion.right]
  have hw : col < w := by simpa using hcol'
  -- in front of the region, inside it, behind it
  rw [List.getElem_append]
  split
  · rename_i hbody
    rw [List.getElem_append]
    split
    · rename_i hfront
      rw [List.length_replicate] at hfront
      rw [List.getElem_replicate, if_neg (by omega)]
    · rename_i hfront
      rw [List.length_append, List.length_replicate, Memory.length_read] at hbody
      rw [List.length_replicate] at hfront
      have hcell : x + col - r.u16XPos = col - (r.u16XPos - x) := by omega
      rw [if_pos (by omega), hcell]
      simp [Memory.read, ShowRegion.pixel]
  · rename_i hbody
    rw [List.length_append, List.length_replicate, Memory.length_read] at hbody
    rw [List.getElem_replicate, if_neg (by omega)]

/-- A region that lies in the page is laid out as it is. -/
theorem regionLines_eq (m : Memory UInt8) {x w : Nat} {r : ShowRegion} (hin : Inside x w r) :
    regionLines m x w r = Raster.rows w r.u16Heigth (regionCell m x r) := by
  rw [regionLines]
  split
  · rename_i hw
    obtain ⟨hleft, hright⟩ := hin
    rw [ShowRegion.right] at hright
    have hx : x = r.u16XPos := by omega
    rw [hw, Raster.eq_rows_iff (by rw [Memory.length_read, Nat.mul_comm])]
    intro row hrow col hcol
    have hindex := Raster.index_lt hcol hrow
    have hcell : r.u16XPos + col - r.u16XPos = col := Nat.add_sub_cancel_left _ _
    rw [Memory.getElem?_read, if_pos (by rw [Nat.mul_comm r.u16Width]; exact hindex), regionCell,
      hx, if_pos ⟨by omega, by rw [ShowRegion.right]; omega⟩, hcell, ShowRegion.pixel,
      Nat.add_assoc]
  · exact List.flatMap_congr fun row _ => layoutLine_eq m hin row

/-- All pixels of a region are zero. -/
def ShowRegion.Blank (m : Memory UInt8) (r : ShowRegion) : Prop :=
  ∀ j < r.u16Heigth, ∀ i < r.u16Width, r.pixel m i j = 0

instance (m : Memory UInt8) (r : ShowRegion) : Decidable (r.Blank m) :=
  inferInstanceAs (Decidable (∀ j < r.u16Heigth, ∀ i < r.u16Width, _))

theorem regionLines_blank_iff (m : Memory UInt8) {x w : Nat} {r : ShowRegion}
    (hin : Inside x w r) :
    regionLines m x w r = List.replicate (r.u16Heigth * w) 0 ↔ r.Blank m := by
  rw [regionLines_eq m hin, ← Raster.rows_const, Raster.rows_eq_rows_iff]
  obtain ⟨hleft, hright⟩ := hin
  rw [ShowRegion.right] at hright
  constructor
  · intro hcells j hj i hi
    have hcell := hcells j hj (r.u16XPos - x + i) (by omega)
    have hcol : x + (r.u16XPos - x + i) = r.u16XPos + i := by omega
    rw [regionCell, hcol, ShowRegion.right, if_pos (by omega), Nat.add_sub_cancel_left] at hcell
    exact hcell
  · intro hblank row hrow col hcol
    rw [regionCell, ShowRegion.right]
    split
    · exact hblank row hrow _ (by omega)
    · rfl

/-- The lines of the regions under line `next` as they stand on the screen. -/
def pageLines (m : Memory UInt8) (x w : Nat) : List ShowRegion → Nat → List UInt8
  | [], _ => []
  | r :: regions, next =>
    List.replicate (w * (r.u16YPos - next)) 0 ++ regionLines m x w r ++
      pageLines m x w regions r.bottom

/-- The lines of the page from a region on. -/
theorem rows_region (m : Memory UInt8) {x w : Nat} {r : ShowRegion} {regions : List ShowRegion}
    (hasc : Ascending (r :: regions)) (hin : Inside x w r) :
    (Raster.rows w r.u16Heigth fun col row =>
      pagePixel m (r :: regions) (x + col) (r.u16YPos + row)) = regionLines m x w r := by
  rw [regionLines_eq m hin]
  refine Raster.rows_congr fun row hrow col hcol => ?_
  have hbelow := ascending_below hasc
  simp only [ShowRegion.bottom] at hbelow
  rw [regionCell]
  split
  · rename_i hcol
    rw [pagePixel, if_pos ⟨hcol, by omega, by rw [ShowRegion.bottom]; omega⟩,
      Nat.add_sub_cancel_left]
  · rename_i hcol
    refine pagePixel_of_not_covers m (List.forall_mem_cons.mpr ⟨fun h => hcol h.1, ?_⟩)
    intro s hs hcovers
    have := hbelow s hs
    have := hcovers.2.1
    omega

/-- The lines of the page under a region. -/
theorem rows_page (m : Memory UInt8) {x w : Nat} {prev : ShowRegion} {regions : List ShowRegion}
    (hasc : Ascending (prev :: regions)) (hin : ∀ r ∈ regions, Inside x w r) :
    (Raster.rows w (lastBottom prev regions - prev.bottom) fun col row =>
      pagePixel m regions (x + col) (prev.bottom + row)) = pageLines m x w regions prev.bottom := by
  induction regions generalizing prev with
  | nil => simp [lastBottom, pageLines]
  | cons r regions ih =>
    obtain ⟨hle, htail⟩ := List.isChain_cons_cons.mp hasc
    obtain ⟨hr, hregions⟩ := List.forall_mem_cons.mp hin
    have hlast := bottom_le_lastBottom htail
    have hbelow := ascending_below htail
    have hheight : lastBottom prev (r :: regions) - prev.bottom =
        (r.u16YPos - prev.bottom) + (r.u16Heigth + (lastBottom r regions - r.bottom)) := by
      simp only [lastBottom, ShowRegion.bottom] at hlast hle ⊢
      omega
    -- the gap, the region, and what is under it
    have hgap : (Raster.rows w (r.u16YPos - prev.bottom) fun col row =>
        pagePixel m (r :: regions) (x + col) (prev.bottom + row)) =
          List.replicate (w * (r.u16YPos - prev.bottom)) 0 := by
      rw [Nat.mul_comm, ← Raster.rows_const]
      refine Raster.rows_congr fun row hrow col _ => pagePixel_of_not_covers m fun s hs hcovers => ?_
      have hy := hcovers.2.1
      rcases List.mem_cons.mp hs with rfl | hs
      · omega
      · have := hbelow s hs
        simp only [ShowRegion.bottom] at this hrow hy hle
        omega
    have hunder : (Raster.rows w (lastBottom r regions - r.bottom) fun col row =>
        pagePixel m (r :: regions) (x + col) (r.bottom + row)) =
          pageLines m x w regions r.bottom := by
      rw [← ih htail hregions]
      refine Raster.rows_congr fun row _ col _ => ?_
      rw [pagePixel, if_neg fun hcovers => ?_]
      have := hcovers.2.2
      omega
    have htop : prev.bottom + (r.u16YPos - prev.bottom) = r.u16YPos := by omega
    rw [hheight, Raster.rows_add, hgap, Raster.rows_add]
    simp only [← Nat.add_assoc, htop]
    rw [rows_region m htail hr, pageLines, List.append_assoc]
    exact congrArg _ (congrArg _ hunder)

/-- The lines that are laid out are those of the page when the regions under a gap are blank. -/
theorem laid_eq_iff (m : Memory UInt8) {x w : Nat} (hw : 0 < w) {prev : ShowRegion}
    {regions : List ShowRegion} (hasc : Ascending (prev :: regions))
    (hy : ∀ r ∈ regions, r.u16YPos < 0x10000) (hin : ∀ r ∈ regions, Inside x w r) :
    laid m x w regions prev.bottom = pageLines m x w regions prev.bottom ↔
      (prev :: regions).IsChain fun r s => r.bottom < s.u16YPos → s.Blank m := by
  induction regions generalizing prev with
  | nil => simp [laid, pageLines]
  | cons r regions ih =>
    obtain ⟨hle, htail⟩ := List.isChain_cons_cons.mp hasc
    obtain ⟨hr, hregions⟩ := List.forall_mem_cons.mp hin
    obtain ⟨-, hy⟩ := List.forall_mem_cons.mp hy
    have hlen := length_regionLines m hr.fits
    have hblank := regionLines_blank_iff m hr
    rw [laid, pageLines, laid_bottom m x w htail hy, List.isChain_cons_cons, ← ih htail hy hregions]
    -- the code puts the gap below the region; the two orders agree only where one is empty or the
    -- region is blank
    have hswap : regionLines m x w r ++ List.replicate (w * (r.u16YPos - prev.bottom)) 0 =
        List.replicate (w * (r.u16YPos - prev.bottom)) 0 ++ regionLines m x w r ↔
          (prev.bottom < r.u16YPos → r.Blank m) := by
      rw [Raster.append_replicate_comm_iff, hlen, Nat.mul_comm w r.u16Heigth, hblank,
        Nat.mul_eq_zero, or_iff_not_imp_left]
      refine imp_congr ?_ Iff.rfl
      omega
    rw [← hswap]
    constructor
    · intro h
      exact List.append_inj h (by rw [List.length_append, List.length_append, Nat.add_comm])
    · rintro ⟨hfirst, hrest⟩
      rw [hfirst, hrest]

/-! ## The bitmap of an item -/

/-- The byte at column `col` of row `row`. -/
def DisplayItem.cell (item : DisplayItem) (col row : Nat) : UInt8 :=
  item.pu8ShowData.getD (row * item.u16Width + col) 0

/-- The bitmap of an item shows the regions, each pixel at its place, and zero elsewhere. -/
structure DisplayItem.Shows (m : Memory UInt8) (regions : List ShowRegion) (item : DisplayItem) :
    Prop where
  size : item.pu8ShowData.length = item.u16Width * item.u16Heigth
  shown : ∀ r ∈ regions, ∀ i < r.u16Width, ∀ j < r.u16Heigth,
    (item.u16XPos ≤ r.u16XPos ∧ r.u16XPos - item.u16XPos + i < item.u16Width) ∧
      (item.u16YPos ≤ r.u16YPos ∧ r.u16YPos - item.u16YPos + j < item.u16Heigth) ∧
      item.cell (r.u16XPos - item.u16XPos + i) (r.u16YPos - item.u16YPos + j) = r.pixel m i j
  blank : ∀ col < item.u16Width, ∀ row < item.u16Heigth,
    (∀ r ∈ regions, ¬ r.Covers (item.u16XPos + col) (item.u16YPos + row)) → item.cell col row = 0

/-- The regions with a column lie in a box. -/
def Boxed (x y w h : Nat) (regions : List ShowRegion) : Prop :=
  ∀ r ∈ regions, 0 < r.u16Width → Inside x w r ∧ y ≤ r.u16YPos ∧ r.bottom ≤ y + h

theorem DisplayItem.cell_eq {item : DisplayItem} {col row : Nat} {c : UInt8}
    (h : item.pu8ShowData[row * item.u16Width + col]? = some c) : item.cell col row = c := by
  rw [DisplayItem.cell, List.getD_eq_getElem?_getD, h, Option.getD_some]

/-- An item shows the regions when they lie in its box and its rows are those of the page. -/
theorem shows_iff_rows (m : Memory UInt8) {regions : List ShowRegion} (hasc : Ascending regions)
    (hlines : ∀ r ∈ regions, 0 < r.u16Heigth) (item : DisplayItem) :
    item.Shows m regions ↔
      Boxed item.u16XPos item.u16YPos item.u16Width item.u16Heigth regions ∧
        item.pu8ShowData = Raster.rows item.u16Width item.u16Heigth fun col row =>
          pagePixel m regions (item.u16XPos + col) (item.u16YPos + row) := by
  constructor
  · intro hshows
    refine ⟨fun r hr hw => ?_, ?_⟩
    · -- the first and the last pixel of the region are shown
      have hh := hlines r hr
      obtain ⟨⟨hx, hxlt⟩, ⟨hy, hylt⟩, -⟩ := hshows.shown r hr (r.u16Width - 1) (by omega)
        (r.u16Heigth - 1) (by omega)
      refine ⟨⟨hx, ?_⟩, hy, ?_⟩
      · rw [ShowRegion.right]
        omega
      · rw [ShowRegion.bottom]
        omega
    · rw [Raster.eq_rows_iff (by rw [hshows.size, Nat.mul_comm])]
      intro row hrow col hcol
      have hindex : row * item.u16Width + col < item.pu8ShowData.length := by
        rw [hshows.size, Nat.mul_comm item.u16Width]
        exact Raster.index_lt hcol hrow
      rw [List.getElem?_eq_getElem hindex]
      have hcell := DisplayItem.cell_eq (List.getElem?_eq_getElem hindex)
      rw [← hcell]
      by_cases hcovered : ∃ r ∈ regions, r.Covers (item.u16XPos + col) (item.u16YPos + row)
      · obtain ⟨r, hr, hcovers⟩ := hcovered
        obtain ⟨⟨hleft, hright⟩, htop, hbottom⟩ := id hcovers
        rw [ShowRegion.right] at hright
        rw [ShowRegion.bottom] at hbottom
        obtain ⟨⟨hx, -⟩, ⟨hy, -⟩, hpixel⟩ :=
          hshows.shown r hr (item.u16XPos + col - r.u16XPos) (by omega)
            (item.u16YPos + row - r.u16YPos) (by omega)
        have hcol' : r.u16XPos - item.u16XPos + (item.u16XPos + col - r.u16XPos) = col := by
          omega
        have hrow' : r.u16YPos - item.u16YPos + (item.u16YPos + row - r.u16YPos) = row := by
          omega
        rw [hcol', hrow'] at hpixel
        rw [hpixel, pagePixel_of_covers m hasc hr hcovers]
      · have hfree : ∀ r ∈ regions, ¬ r.Covers (item.u16XPos + col) (item.u16YPos + row) :=
          fun r hr hcovers => hcovered ⟨r, hr, hcovers⟩
        rw [hshows.blank col hcol row hrow hfree, pagePixel_of_not_covers m hfree]
  · rintro ⟨hbox, hrows⟩
    have hcells := (Raster.eq_rows_iff (by rw [hrows, Raster.length_rows]) _).mp hrows
    refine ⟨by rw [hrows, Raster.length_rows, Nat.mul_comm], fun r hr i hi j hj => ?_,
      fun col hcol row hrow hfree => ?_⟩
    · obtain ⟨⟨hx, hright⟩, hy, hbottom⟩ := hbox r hr (by omega)
      rw [ShowRegion.right] at hright
      rw [ShowRegion.bottom] at hbottom
      have hcol : r.u16XPos - item.u16XPos + i < item.u16Width := by omega
      have hrow : r.u16YPos - item.u16YPos + j < item.u16Heigth := by omega
      refine ⟨⟨hx, hcol⟩, ⟨hy, hrow⟩, ?_⟩
      have hcol' : item.u16XPos + (r.u16XPos - item.u16XPos + i) = r.u16XPos + i := by omega
      have hrow' : item.u16YPos + (r.u16YPos - item.u16YPos + j) = r.u16YPos + j := by omega
      rw [DisplayItem.cell_eq (hcells _ hrow _ hcol), hcol', hrow',
        pagePixel_of_covers m hasc hr ⟨⟨by omega, by rw [ShowRegion.right]; omega⟩, by omega,
          by rw [ShowRegion.bottom]; omega⟩, Nat.add_sub_cancel_left, Nat.add_sub_cancel_left]
    · rw [DisplayItem.cell_eq (hcells row hrow col hcol), pagePixel_of_not_covers m hfree]

/-! ## What is passed on -/

/-- A region without the table it shows. -/
def ShowRegion.bare (r : ShowRegion) : ShowRegion := { r with pvRegionClut := none }

theorem adjustFirst_bare {astClut : List Clut} {regions regions' : List ShowRegion} {i : Nat}
    (h : adjustFirst astClut regions = some (i, regions')) :
    regions'.map ShowRegion.bare = regions.map ShowRegion.bare := by
  induction regions generalizing regions' i with
  | nil => simp [adjustFirst] at h
  | cons r regions ih =>
    simp only [adjustFirst] at h
    cases hfind : findClutId astClut r.u8ClutId with
    | some j =>
      simp only [hfind, Option.some.injEq, Prod.mk.injEq] at h
      obtain ⟨-, rfl⟩ := h
      rfl
    | none =>
      simp only [hfind, Option.map_eq_some_iff, Prod.mk.injEq] at h
      obtain ⟨⟨j, found⟩, hfound, -, rfl⟩ := h
      exact congrArg (r.bare :: ·) (ih hfound)

/-- The regions keep everything but their tables. -/
theorem adjustClut_bare (astClut : List Clut) (stDefaultClut : Clut) (regions : List ShowRegion) :
    (adjustClut astClut stDefaultClut regions).regions.map ShowRegion.bare =
      regions.map ShowRegion.bare := by
  simp only [adjustClut]
  cases hfirst : adjustFirst astClut regions with
  | none => rfl
  | some found =>
    dsimp only
    rw [(adjustOthers_isMap astClut _ _ (by simp)).2]
    exact adjustFirst_bare hfirst

theorem countLoop_bare (regions : List ShowRegion) (prev : ShowRegion) (s : Nat × Nat × Nat) :
    countLoop (regions.map ShowRegion.bare) prev.bare s = countLoop regions prev s := by
  induction regions generalizing prev s with
  | nil => rfl
  | cons r regions ih =>
    obtain ⟨x, w, h⟩ := s
    rw [List.map_cons, countLoop, countLoop]
    simp only [ih]
    rfl

theorem layout_bare (m : Memory UInt8) (x w : Nat) (regions : List ShowRegion) (next : Nat)
    (out : List UInt8) :
    layout m x w (regions.map ShowRegion.bare) next out = layout m x w regions next out := by
  induction regions generalizing next out with
  | nil => rfl
  | cons r regions ih =>
    rw [List.map_cons, layout, layout]
    simp only [ih]
    rfl

/-- The page that is counted and laid out differs in its tables only. -/
theorem adjustClut_cons (astClut : List Clut) (stDefaultClut : Clut) (first : ShowRegion)
    (others : List ShowRegion) :
    ∃ first' others',
      (adjustClut astClut stDefaultClut (first :: others)).regions = first' :: others' ∧
        first'.bare = first.bare ∧ others'.map ShowRegion.bare = others.map ShowRegion.bare := by
  have hbare := adjustClut_bare astClut stDefaultClut (first :: others)
  match hregs : (adjustClut astClut stDefaultClut (first :: others)).regions with
  | [] => simp [hregs] at hbare
  | first' :: others' =>
    rw [hregs, List.map_cons, List.map_cons, List.cons.injEq] at hbare
    exact ⟨first', others', rfl, hbare⟩

theorem bare_lines {r r' : ShowRegion} (h : r'.bare = r.bare) :
    r'.u16YPos = r.u16YPos ∧ r'.u16Heigth = r.u16Heigth := by
  have hy : r'.bare.u16YPos = r.bare.u16YPos := congrArg _ h
  have hh : r'.bare.u16Heigth = r.bare.u16Heigth := congrArg _ h
  exact ⟨hy, hh⟩

theorem countRegionSize_bare {first first' : ShowRegion} {others others' : List ShowRegion}
    (hfirst : first'.bare = first.bare)
    (hothers : others'.map ShowRegion.bare = others.map ShowRegion.bare) :
    countRegionSize first' others' = countRegionSize first others := by
  have hsize : (first'.bare.u16XPos, first'.bare.u16Width, first'.bare.u16Heigth) =
      (first.bare.u16XPos, first.bare.u16Width, first.bare.u16Heigth) := by rw [hfirst]
  rw [countRegionSize, countRegionSize, ← countLoop_bare, hothers, hfirst, countLoop_bare]
  exact congrArg _ hsize

/-- The region buffer once the tables are merged. -/
def mergedMemory (h : Handle) (regions : List ShowRegion) : Memory UInt8 :=
  Store.runAll h.pu8RegionBuffer (adjustClut h.astClut h.stDefaultClut regions).stores

/-- The item that is passed on, for a page of the counted size. -/
theorem display_iff (h : Handle) {first : ShowRegion} {others : List ShowRegion} {x w height : Nat}
    (hcount : countRegionSize first others = some (x, w, height))
    (P : Nat → Nat → Nat → Nat → List UInt8 → Prop) :
    (∃ item, (display h (first :: others)).2 = [item] ∧
        P item.u16XPos item.u16YPos item.u16Width item.u16Heigth item.pu8ShowData) ↔
      w * height ≤ MAX_DATA_LENGTH ∧
        ∃ out, layout (mergedMemory h (first :: others)) x w (first :: others) (u16 first.bottom) [] =
            some out ∧ w * height = out.length ∧ P x first.u16YPos w height out := by
  -- merging the palettes changes only depths and pixels, not where the regions are
  obtain ⟨first', others', hregs, hfirst, hothers⟩ :=
    adjustClut_cons h.astClut h.stDefaultClut first others
  obtain ⟨hy, hh⟩ := bare_lines hfirst
  have hsize := (countRegionSize_bare hfirst hothers).trans hcount
  have hlayout : ∀ m next out, layout m x w (first' :: others') next out =
      layout m x w (first :: others) next out := by
    intro m next out
    rw [← layout_bare, List.map_cons, hfirst, hothers, ← List.map_cons, layout_bare]
  rw [mergedMemory]
  simp only [display]
  rw [hregs]
  simp only [hsize, apply_ite Handle.pu8RegionBuffer, ite_self, hlayout, hy, hh,
    ShowRegion.bottom]
  generalize adjustClut h.astClut h.stDefaultClut (first :: others) = a
  -- the three places where the code gives up
  by_cases hmax : w * height ≤ MAX_DATA_LENGTH
  · simp only [if_neg (Nat.not_lt.mpr hmax), hmax, true_and]
    cases layout (Store.runAll h.pu8RegionBuffer a.stores) x w (first :: others)
        (u16 (first.u16YPos + first.u16Heigth)) [] with
    | none => simp
    | some out =>
      by_cases hlen : w * height = out.length
      · simp [hlen]
      · simp [hlen]
  · simp [Nat.not_le.mp hmax, hmax]

/-- The region buffer is left with the tables merged. -/
theorem display_memory (h : Handle) (regions : List ShowRegion) :
    (display h regions).1.pu8RegionBuffer = mergedMemory h regions := by
  have hbare := adjustClut_bare h.astClut h.stDefaultClut regions
  rw [mergedMemory]
  simp only [display]
  cases hregs : (adjustClut h.astClut h.stDefaultClut regions).regions with
  | nil =>
    rw [hregs, List.map_nil, eq_comm, List.map_eq_nil_iff] at hbare
    subst hbare
    show Handle.pu8RegionBuffer (ite _ (h, [clearItem h]) (h, [])).1 = h.pu8RegionBuffer
    split <;> rfl
  | cons first others =>
    dsimp only
    cases countRegionSize first others with
    | none => rfl
    | some size =>
      obtain ⟨x, w, height⟩ := size
      dsimp only
      split
      · rfl
      · split
        · split <;> rfl
        · split <;> split <;> rfl

/-! ## When the page is shown -/

/-- The page is passed on, and it shows its regions. -/
def ShowsPage (h : Handle) (regions : List ShowRegion) : Prop :=
  ∃ item, (display h regions).2 = [item] ∧
    item.Shows (display h regions).1.pu8RegionBuffer regions

/-- No region has a column, and the first one is furthest left. -/
def NoColumns (first : ShowRegion) (others : List ShowRegion) : Prop :=
  ∀ r ∈ first :: others, r.u16Width = 0 ∧ first.u16XPos ≤ r.u16XPos

/-- The page is laid out as it stands on the screen. -/
structure Layable (m : Memory UInt8) (first : ShowRegion) (others : List ShowRegion) : Prop where
  widest : WidestLeads (first :: others)
  blank : (first :: others).IsChain fun r s => r.bottom < s.u16YPos → s.Blank m
  width : pageRight first others - pageLeft first others < 0x10000
  top : first.bottom < 0x10000
  height : lastBottom first others - first.u16YPos < 0x10000
  size : (pageRight first others - pageLeft first others) *
    (lastBottom first others - first.u16YPos) ≤ MAX_DATA_LENGTH

variable {first : ShowRegion} {others : List ShowRegion}

/-- What is counted for regions one under another. -/
theorem countRegionSize_eq (hvalid : ∀ r ∈ first :: others, r.Valid)
    (hasc : Ascending (first :: others)) :
    countRegionSize first others =
      some (pageLeft first others, (box first others).2,
        u16 (lastBottom first others - first.u16YPos)) := by
  have hlast := bottom_le_lastBottom hasc
  have hheight : first.u16Heigth + rowsUnder first.lines (others.map ShowRegion.lines) =
      lastBottom first others - first.u16YPos := by
    rw [rowsUnder_eq hasc]
    simp only [ShowRegion.bottom] at hlast ⊢
    omega
  have hdown := hasc.topDown
  rw [List.map_cons] at hdown
  rw [countRegionSize, countLoop_eq first others _ _ (hvalid first List.mem_cons_self).height,
    if_pos hdown, hheight, ← box_fst]
  rfl

/-- The lines of the page that is laid out. -/
theorem laid_page (m : Memory UInt8) (x w : Nat) (hvalid : ∀ r ∈ first :: others, r.Valid)
    (hasc : Ascending (first :: others)) :
    laid m x w (first :: others) (u16 first.bottom) =
      regionLines m x w first ++
        List.replicate (w * (first.u16YPos - u16 first.bottom)) 0 ++
        laid m x w others first.bottom := by
  rw [laid, laid_bottom m x w hasc fun s hs => (hvalid s (List.mem_cons_of_mem _ hs)).yPos]

theorem length_laid_page (m : Memory UInt8) {x w : Nat} (hvalid : ∀ r ∈ first :: others, r.Valid)
    (hasc : Ascending (first :: others)) (hfits : ∀ r ∈ first :: others, Fits x w r) :
    (laid m x w (first :: others) (u16 first.bottom)).length =
      w * (lastBottom first others - first.u16YPos + (first.u16YPos - u16 first.bottom)) := by
  obtain ⟨hfirst, hothers⟩ := List.forall_mem_cons.mp hfits
  have hlast := bottom_le_lastBottom hasc
  rw [laid_page m x w hvalid hasc, List.length_append, List.length_append,
    length_regionLines m hfirst, List.length_replicate, length_laid m hasc
      (fun s hs => (hvalid s (List.mem_cons_of_mem _ hs)).yPos) hothers, ← Nat.mul_add,
    ← Nat.mul_add]
  congr 1
  simp only [ShowRegion.bottom] at hlast ⊢
  omega

/-- The lines of the page as it stands on the screen. -/
theorem rows_screen (m : Memory UInt8) {x w : Nat} (hasc : Ascending (first :: others))
    (hin : ∀ r ∈ first :: others, Inside x w r) :
    (Raster.rows w (lastBottom first others - first.u16YPos) fun col row =>
        pagePixel m (first :: others) (x + col) (first.u16YPos + row)) =
      regionLines m x w first ++ pageLines m x w others first.bottom := by
  obtain ⟨hfirst, hothers⟩ := List.forall_mem_cons.mp hin
  have hlast := bottom_le_lastBottom hasc
  have hheight : lastBottom first others - first.u16YPos =
      first.u16Heigth + (lastBottom first others - first.bottom) := by
    simp only [ShowRegion.bottom] at hlast ⊢
    omega
  rw [hheight, Raster.rows_add, rows_region m hasc hfirst, ← rows_page m hasc hothers]
  refine congrArg _ (Raster.rows_congr fun row _ col _ => ?_)
  rw [← Nat.add_assoc, ← ShowRegion.bottom, pagePixel, if_neg fun hcovers => ?_]
  have := hcovers.2.2
  omega

/-- Without columns nothing is counted. -/
theorem box_noColumns (h : NoColumns first others) : (box first others).2 = 0 := by
  have hfst : (box first others).1 = first.u16XPos ∧ (box first others).2 = 0 := by
    induction others using List.reverseRecOn with
    | nil => exact ⟨rfl, (h first List.mem_cons_self).1⟩
    | append_singleton others r ih =>
      rw [NoColumns, ← List.cons_append, List.forall_mem_append] at h
      obtain ⟨hx, hw⟩ := ih h.1
      obtain ⟨hzero, hle⟩ := h.2 r List.mem_cons_self
      rw [box_append, boxStep, hx, hw, hzero, if_neg (Nat.not_lt.mpr hle)]
      exact ⟨rfl, rfl⟩
  exact hfst.2

/-- A page that is counted without a column, though it has room for its regions, has none. -/
theorem noColumns_of_box (hvalid : ∀ r ∈ first :: others, r.Valid)
    (hbox : (box first others).2 = 0) (hzero : ∀ r ∈ first :: others, r.u16Width = 0) :
    NoColumns first others := by
  intro r hr
  refine ⟨hzero r hr, ?_⟩
  have hwide : 0xffff - 0 < 0x10000 := by decide
  have hlead := (@box_right_le _ _ hwide first others fun s hs =>
    ⟨Nat.zero_le _, by
      have := (hvalid s hs).xPos
      rw [ShowRegion.right, hzero s hs]
      omega⟩).2 [] first others rfl (by simp)
  rw [hbox, box_fst, ShowRegion.right] at hlead
  have := pageLeft_le first others r hr
  omega

/-- The page is laid out at `x`, with this width and height, as it stands on the screen. -/
structure LaidOut (m : Memory UInt8) (first : ShowRegion) (others : List ShowRegion)
    (x w height : Nat) : Prop where
  fits : ∀ r ∈ first :: others, Fits x w r
  length : w * height = (laid m x w (first :: others) (u16 first.bottom)).length
  boxed : Boxed x first.u16YPos w height (first :: others)
  rows : laid m x w (first :: others) (u16 first.bottom) =
    Raster.rows w height fun col row =>
      pagePixel m (first :: others) (x + col) (first.u16YPos + row)

theorem showsPage_iff (h : Handle) (hvalid : ∀ r ∈ first :: others, r.Valid)
    (hasc : Ascending (first :: others)) :
    ShowsPage h (first :: others) ↔
      (box first others).2 * u16 (lastBottom first others - first.u16YPos) ≤ MAX_DATA_LENGTH ∧
        LaidOut (mergedMemory h (first :: others)) first others (pageLeft first others)
          (box first others).2 (u16 (lastBottom first others - first.u16YPos)) := by
  have hleft : ∀ r ∈ first :: others, pageLeft first others ≤ r.u16XPos ∧ r.u16XPos < 0x10000 :=
    fun r hr => ⟨pageLeft_le first others r hr, (hvalid r hr).xPos⟩
  rw [ShowsPage, display_memory]
  simp only [shows_iff_rows _ hasc fun r hr => (hvalid r hr).lines]
  rw [display_iff h (countRegionSize_eq hvalid hasc) fun x y w height out =>
    Boxed x y w height (first :: others) ∧ out = Raster.rows w height fun col row =>
      pagePixel (mergedMemory h (first :: others)) (first :: others) (x + col) (y + row),
    layout_eq _ _ hleft]
  refine and_congr_right fun _ => ?_
  constructor
  · rintro ⟨out, hout, hlen, hboxed, hrows⟩
    split at hout
    · rename_i hfits
      obtain rfl := Option.some.inj hout
      exact ⟨hfits, hlen, hboxed, hrows⟩
    · simp at hout
  · intro hlaid
    exact ⟨_, if_pos hlaid.fits, hlaid.length, hlaid.boxed, hlaid.rows⟩

/-- A page without a column is laid out when no region has one. -/
theorem laidOut_zero_iff (m : Memory UInt8) (x height : Nat)
    (hvalid : ∀ r ∈ first :: others, r.Valid) (hasc : Ascending (first :: others)) :
    LaidOut m first others x 0 height ↔ ∀ r ∈ first :: others, r.u16Width = 0 := by
  constructor
  · intro hlaid r hr
    by_contra hw
    obtain ⟨⟨hleft, hright⟩, -⟩ := hlaid.boxed r hr (Nat.pos_of_ne_zero hw)
    rw [ShowRegion.right] at hright
    omega
  · intro hzero
    have hfits : ∀ r ∈ first :: others, Fits x 0 r := fun r hr => .inl (hzero r hr).symm
    have hlen : (laid m x 0 (first :: others) (u16 first.bottom)).length = 0 := by
      rw [length_laid_page m hvalid hasc hfits, Nat.zero_mul]
    refine ⟨hfits, by rw [hlen, Nat.zero_mul], fun r hr hw => ?_, ?_⟩
    · rw [hzero r hr] at hw
      exact absurd hw (Nat.lt_irrefl 0)
    · rw [List.length_eq_zero_iff.mp hlen, eq_comm, ← List.length_eq_zero_iff,
        Raster.length_rows, Nat.mul_zero]

/-- The page is laid out as it stands on the screen when the regions under a gap are blank. -/
theorem laid_screen_iff (m : Memory UInt8) {x w : Nat} (hw : 0 < w)
    (hvalid : ∀ r ∈ first :: others, r.Valid) (hasc : Ascending (first :: others))
    (hin : ∀ r ∈ first :: others, Inside x w r) (htop : first.bottom < 0x10000) :
    (laid m x w (first :: others) (u16 first.bottom) =
        Raster.rows w (lastBottom first others - first.u16YPos) fun col row =>
          pagePixel m (first :: others) (x + col) (first.u16YPos + row)) ↔
      (first :: others).IsChain fun r s => r.bottom < s.u16YPos → s.Blank m := by
  have hnone : w * (first.u16YPos - u16 first.bottom) = 0 := by
    rw [u16, Nat.mod_eq_of_lt htop, ShowRegion.bottom, Nat.sub_eq_zero_of_le (by omega),
      Nat.mul_zero]
  rw [laid_page m x w hvalid hasc, rows_screen m hasc hin, hnone, List.replicate_zero,
    List.append_nil, List.append_cancel_left_eq]
  exact laid_eq_iff m hw hasc (fun r hr => (hvalid r (List.mem_cons_of_mem _ hr)).yPos)
    fun r hr => hin r (List.mem_cons_of_mem _ hr)

/-- A page with a column is laid out when the regions lie in it, its height is counted without a
    wrap, and the regions under a gap are blank. -/
theorem laidOut_iff (m : Memory UInt8) {x w height : Nat} (hw : 0 < w) (hheight : height < 0x10000)
    (hx : ∀ r ∈ first :: others, x ≤ r.u16XPos) (hvalid : ∀ r ∈ first :: others, r.Valid)
    (hasc : Ascending (first :: others)) :
    LaidOut m first others x w height ↔
      (∀ r ∈ first :: others, Inside x w r) ∧ first.bottom < 0x10000 ∧
        height = lastBottom first others - first.u16YPos ∧
        (first :: others).IsChain fun r s => r.bottom < s.u16YPos → s.Blank m := by
  have hfirst := hvalid first List.mem_cons_self
  have hbottom := hfirst.height
  have hy := hfirst.yPos
  have hlast := bottom_le_lastBottom hasc
  constructor
  · intro hlaid
    have hin : ∀ r ∈ first :: others, Inside x w r := by
      intro r hr
      by_cases hcols : 0 < r.u16Width
      · exact (hlaid.boxed r hr hcols).1
      · -- a region without columns has to fit as well
        have hroom := (hlaid.fits r hr).resolve_left (by omega)
        have hle := hx r hr
        refine ⟨hle, ?_⟩
        rw [ShowRegion.right]
        omega
    have hlen := hlaid.length
    rw [length_laid_page m hvalid hasc hlaid.fits] at hlen
    have hsum := Nat.eq_of_mul_eq_mul_left hw hlen
    have htop : first.bottom < 0x10000 := by
      by_contra hge
      rw [u16] at hsum
      simp only [ShowRegion.bottom] at hge hsum hlast
      omega
    have heq : height = lastBottom first others - first.u16YPos := by
      rw [u16, Nat.mod_eq_of_lt htop, ShowRegion.bottom] at hsum
      omega
    refine ⟨hin, htop, heq, (laid_screen_iff m hw hvalid hasc hin htop).mp ?_⟩
    rw [← heq]
    exact hlaid.rows
  · rintro ⟨hin, htop, rfl, hchain⟩
    have hfits : ∀ r ∈ first :: others, Fits x w r := fun r hr => (hin r hr).fits
    refine ⟨hfits, ?_, fun r hr _ => ⟨hin r hr, ?_⟩,
      (laid_screen_iff m hw hvalid hasc hin htop).mpr hchain⟩
    · rw [length_laid_page m hvalid hasc hfits, u16, Nat.mod_eq_of_lt htop, ShowRegion.bottom,
        Nat.sub_eq_zero_of_le (by omega : first.u16YPos ≤ first.u16YPos + first.u16Heigth),
        Nat.add_zero]
    · have hrange := page_range hasc r hr
      omega

/-- A page is shown, each pixel at its place, when it has no column at all, or when a region that
    reaches furthest right begins no further right than those in front of it, the regions under a
    gap are blank, and the size of the page can be counted and is allowed. -/
theorem shows_iff {h : Handle} (hvalid : ∀ r ∈ first :: others, r.Valid)
    (hasc : Ascending (first :: others)) :
    ShowsPage h (first :: others) ↔
      NoColumns first others ∨ Layable (mergedMemory h (first :: others)) first others := by
  rw [showsPage_iff h hvalid hasc]
  have hleft := pageLeft_le first others
  have hright := le_pageRight first others
  have hwidth := box_snd_lt fun r hr => (hvalid r hr).width
  have hheight : u16 (lastBottom first others - first.u16YPos) < 0x10000 :=
    Nat.mod_lt _ (by decide)
  -- in a layable page the width that the code counts is the page's own
  have hcounted : Layable (mergedMemory h (first :: others)) first others →
      pageLeft first others + (box first others).2 = pageRight first others := by
    intro hlayable
    obtain ⟨before, r, after, hsplit, hfront, hmax⟩ := hlayable.widest
    obtain ⟨hle, hlead⟩ := box_right_le hlayable.width fun s hs => ⟨hleft s hs, hright s hs⟩
    have hmem : r ∈ first :: others := by simp [hsplit]
    have hreach := hlead before r after hsplit hfront
    rw [← pageRight_eq hmem hmax] at hreach
    rw [← box_fst]
    exact Nat.le_antisymm hle hreach
  -- the code shows nothing of a page whose width it counts as zero
  rcases Nat.eq_zero_or_pos (box first others).2 with hbox | hbox
  · rw [hbox, laidOut_zero_iff _ _ _ hvalid hasc, Nat.zero_mul]
    -- such a page is shown just when it has no columns
    constructor
    · rintro ⟨-, hzero⟩
      exact .inl (noColumns_of_box hvalid hbox hzero)
    · rintro (hnone | hlayable)
      · exact ⟨Nat.zero_le _, fun r hr => (hnone r hr).1⟩
      · refine ⟨Nat.zero_le _, fun r hr => ?_⟩
        have hedge := hcounted hlayable
        have hr' := hright r hr
        have hl' := hleft r hr
        rw [ShowRegion.right] at hr'
        omega
  · rw [laidOut_iff _ hbox hheight hleft hvalid hasc]
    -- otherwise the page must lie inside its box, below the first region and free of gaps
    constructor
    · rintro ⟨hsize, hin, htop, heq, hchain⟩
      have hinside : ∀ r ∈ first :: others,
          r.right ≤ (box first others).1 + (box first others).2 := by
        rw [box_fst]
        exact fun r hr => (hin r hr).2
      obtain ⟨hwidest, hedge⟩ := widestLeads_of_inside hinside
      have hw : pageRight first others - pageLeft first others = (box first others).2 := by
        rw [← hedge, box_fst, Nat.add_sub_cancel_left]
      rw [heq] at hheight hsize
      exact .inr ⟨hwidest, hchain, hw ▸ hwidth, htop, hheight, hw ▸ hsize⟩
    · rintro (hnone | hlayable)
      · exact absurd (box_noColumns hnone) (Nat.ne_of_gt hbox)
      · have hedge := hcounted hlayable
        have hw : pageRight first others - pageLeft first others = (box first others).2 := by
          rw [← hedge, Nat.add_sub_cancel_left]
        have hh : u16 (lastBottom first others - first.u16YPos) =
            lastBottom first others - first.u16YPos := Nat.mod_eq_of_lt hlayable.height
        refine ⟨?_, fun r hr => ⟨hleft r hr, hedge ▸ hright r hr⟩, hlayable.top, hh,
          hlayable.blank⟩
        rw [hh, ← hw]
        exact hlayable.size

/-- A region of a single pixel. -/
def dot (x y addr : Nat) : ShowRegion where
  addr := 0
  u16XPos := x
  u16YPos := y
  u16Width := 1
  u16Heigth := 1
  u8RegionDepth := 2
  u8ClutId := 1
  pu8ShowData := addr

theorem shows_iff_two :
    ShowsPage { pu8RegionBuffer := fun _ => 1 } [dot 5 7 0, dot 5 8 1] ↔
      NoColumns (dot 5 7 0) [dot 5 8 1] ∨
        Layable (mergedMemory { pu8RegionBuffer := fun _ => 1 } [dot 5 7 0, dot 5 8 1])
          (dot 5 7 0) [dot 5 8 1] :=
  shows_iff
    (fun r hr => by
      simp only [List.mem_cons, List.not_mem_nil, or_false] at hr
      obtain rfl | rfl := hr <;>
        exact ⟨by decide, by decide, by decide, by decide, by decide⟩)
    (by decide)

/-- A pixel with a blank line above it is shown in that line. -/
theorem gap_below : ¬ ShowsPage { pu8RegionBuffer := fun _ => 1 } [dot 5 7 0, dot 5 9 1] := by
  rintro ⟨item, hitem, hshows⟩
  obtain ⟨-, -, hcell⟩ := hshows.shown (dot 5 9 1) (by simp) 0 (by decide) 0 (by decide)
  have hdata : (display { pu8RegionBuffer := fun _ => 1 } [dot 5 7 0, dot 5 9 1]).2.map
      (fun item => (item.u16XPos, item.u16YPos, item.u16Width, item.pu8ShowData)) =
        [(5, 7, 1, [1, 1, 0])] := by
    decide
  rw [hitem, List.map_singleton, List.singleton_inj, Prod.mk.injEq, Prod.mk.injEq,
    Prod.mk.injEq] at hdata
  obtain ⟨hx, hy, hw, hdata⟩ := hdata
  rw [DisplayItem.cell, hx, hy, hw, hdata, display_memory] at hcell
  exact absurd hcell (by decide)

end Tntsat.SubtParse
