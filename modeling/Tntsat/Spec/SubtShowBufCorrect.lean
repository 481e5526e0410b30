import Tntsat.Native.SubtShowBuf
import Tntsat.Spec.SubtLayoutCorrect

/-!
# The show buffer

The writes of `SUBT_DataParse_Display` into `pu8RegionShowBuf`, against the size that
`SUBT_DataParse_CountRegionSize` counts for it.  The count is 16 bits wide and takes the line
under a region as it is, while the copy keeps that line in 16 bits and counts its bytes in 32.

## Key results

- `layoutStores_within`: the copy writes no more lines than it counts on its way
- `layoutRows_eq_iff`: both count the same lines when no line under a region wraps
- `showBuf_iff`: the vertical layouts for which no page writes past the buffer
-/

namespace Tntsat.SubtParse

open Store

/-! ## Rows -/

/-- The lines the copy makes for regions, `next` being the line under the one before. -/
def layoutRows : List Lines → Nat → Nat
  | [], _ => 0
  | l :: lines, next => l.u16Heigth + (l.u16YPos - next) + layoutRows lines (u16 l.bottom)

/-- The stores of the copy end where its count of lines does. -/
theorem layoutStores_within (m : Memory UInt8) {x : Nat} (w : Nat) {regions : List ShowRegion}
    (hx : ∀ r ∈ regions, x ≤ r.u16XPos ∧ r.u16XPos < 0x10000) (next len : Nat) :
    ∀ s ∈ layoutStores m x w regions next len,
      s.Within (len + w * layoutRows (regions.map ShowRegion.lines) next) := by
  induction regions generalizing next len with
  | nil => simp [layoutStores]
  | cons r regions ih =>
    obtain ⟨⟨hle, hlt⟩, hregions⟩ := List.forall_mem_cons.mp hx
    have ih := ih hregions (u16 r.bottom)
    have hrows : len + w * layoutRows ((r :: regions).map ShowRegion.lines) next =
        len + w * r.u16Heigth + w * (r.u16YPos - next) +
          w * layoutRows (regions.map ShowRegion.lines) (u16 r.bottom) := by
      rw [List.map_cons, layoutRows, Nat.mul_add, Nat.mul_add, ← Nat.add_assoc, ← Nat.add_assoc]
      rfl
    -- the gap and the regions behind the lines of the region
    have hbehind : ∀ s ∈ (if next < r.u16YPos then
          [memset (len + w * r.u16Heigth) 0 (w * (r.u16YPos - next))] else []) ++
        layoutStores m x w regions (u16 r.bottom)
          (if next < r.u16YPos then len + w * r.u16Heigth + w * (r.u16YPos - next)
            else len + w * r.u16Heigth),
        s.Within (len + w * layoutRows ((r :: regions).map ShowRegion.lines) next) := by
      rw [hrows]
      refine List.forall_mem_append.mpr ⟨?_, ?_⟩
      · split
        · refine List.forall_mem_singleton.mpr (within_set_iff.mpr (.inr ?_))
          rw [List.length_replicate]
          exact Nat.le_add_right _ _
        · simp
      · split
        · exact ih _
        · rename_i hgap
          have hzero : r.u16YPos - next = 0 := by omega
          rw [hzero, Nat.mul_zero, Nat.add_zero]
          exact ih _
    have hregion : len + w * r.u16Heigth ≤
        len + w * layoutRows ((r :: regions).map ShowRegion.lines) next := by
      rw [hrows]
      omega
    simp only [layoutStores, u16sub_of_le hle hlt]
    split
    · rename_i hw
      rw [← hw]
      refine List.forall_mem_cons.mpr ⟨within_set_iff.mpr (.inr ?_), hbehind⟩
      rw [Memory.length_read]
      exact hregion
    · split
      · rename_i hroom
        rw [Nat.mul_comm r.u16Heigth w]
        refine List.forall_mem_append.mpr ⟨List.forall_mem_cons.mpr ⟨within_set_iff.mpr (.inr ?_),
          ?_⟩, hbehind⟩
        · rw [List.length_replicate]
          exact hregion
        · intro s hs
          obtain ⟨i, hi, rfl⟩ := List.mem_map.mp hs
          have hline : i * w + w ≤ w * r.u16Heigth := by
            rw [Nat.mul_comm w, ← Nat.succ_mul]
            exact Nat.mul_le_mul_right w (List.mem_range.mp hi)
          refine within_set_iff.mpr (.inr ?_)
          rw [Memory.length_read]
          omega
      · simp

/-- Regions as wide as the page are copied to the last line. -/
theorem layoutRows_le (m : Memory UInt8) (x : Nat) {w n : Nat} {regions : List ShowRegion}
    (hw : ∀ r ∈ regions, r.u16Width = w) (next len : Nat)
    (hin : ∀ s ∈ layoutStores m x w regions next len, s.Within n) :
    w * layoutRows (regions.map ShowRegion.lines) next = 0 ∨
      len + w * layoutRows (regions.map ShowRegion.lines) next ≤ n := by
  induction regions generalizing next len with
  | nil => exact .inl rfl
  | cons r regions ih =>
    obtain ⟨hr, hregions⟩ := List.forall_mem_cons.mp hw
    simp only [layoutStores, hr, if_true] at hin
    obtain ⟨hlines, hbehind⟩ := List.forall_mem_cons.mp hin
    obtain ⟨hgap, hrest⟩ := List.forall_mem_append.mp hbehind
    have ih := ih hregions (u16 r.bottom) _ hrest
    -- the rows of a region are its own and those of the gap above it
    have hrows : w * layoutRows ((r :: regions).map ShowRegion.lines) next =
        w * r.u16Heigth + w * (r.u16YPos - next) +
          w * layoutRows (regions.map ShowRegion.lines) (u16 r.bottom) := by
      rw [List.map_cons, layoutRows, Nat.mul_add, Nat.mul_add]
      rfl
    have hlines := within_set_iff.mp hlines
    rw [Memory.length_read] at hlines
    rw [hrows]
    by_cases hnext : next < r.u16YPos
    · rw [if_pos hnext] at hgap ih
      have hgap := within_set_iff.mp (List.forall_mem_singleton.mp hgap)
      rw [List.length_replicate] at hgap
      omega
    · have hzero : r.u16YPos - next = 0 := by omega
      rw [if_neg hnext] at ih
      rw [hzero, Nat.mul_zero]
      omega

/-- The line under a region is kept as it is. -/
def Lines.Short (l : Lines) : Prop := l.bottom < 0x10000

instance (l : Lines) : Decidable l.Short := inferInstanceAs (Decidable (_ < _))

/-- The copy makes the lines that are counted when no line that it keeps wraps, and more
    otherwise. -/
theorem layoutRows_eq_iff {prev : Lines} {lines : List Lines}
    (hrange : ∀ l ∈ prev :: lines, l.u16YPos < 0x10000 ∧ l.u16Heigth < 0x10000)
    (hdown : TopDown (prev :: lines)) :
    rowsUnder prev lines ≤ layoutRows lines (u16 prev.bottom) ∧
      (layoutRows lines (u16 prev.bottom) = rowsUnder prev lines ↔
        ∀ l ∈ (prev :: lines).dropLast, l.Short) := by
  induction lines generalizing prev with
  | nil => exact ⟨Nat.le_refl _, fun _ => by simp, fun _ => rfl⟩
  | cons l lines ih =>
    obtain ⟨⟨hy, hh⟩, hlines⟩ := List.forall_mem_cons.mp hrange
    obtain ⟨hle, htail⟩ := List.isChain_cons_cons.mp hdown
    obtain ⟨hrows, hiff⟩ := ih hlines htail
    have hl := (hlines l List.mem_cons_self).1
    rw [layoutRows, rowsUnder, List.dropLast_cons_cons, List.forall_mem_cons, ← hiff]
    by_cases hshort : prev.Short
    · have hkept : u16 prev.bottom = prev.bottom := Nat.mod_eq_of_lt hshort
      rw [hkept]
      refine ⟨by omega, fun heq => ⟨hshort, by omega⟩, fun heq => by omega⟩
    · -- the gap is counted from a line that is 65536 too high up
      have hwrap : u16 prev.bottom + 0x10000 = prev.bottom := by
        simp only [Lines.Short, Lines.bottom, u16] at hshort ⊢
        omega
      have hbottom : prev.bottom = prev.u16YPos + prev.u16Heigth := rfl
      refine ⟨by omega, fun heq => absurd heq (by omega), fun h => absurd h.1 hshort⟩

/-- The same from the first region on. -/
theorem layoutRows_page {l : Lines} {lines : List Lines}
    (hrange : ∀ k ∈ l :: lines, k.u16YPos < 0x10000 ∧ k.u16Heigth < 0x10000)
    (hdown : TopDown (l :: lines)) :
    l.u16Heigth + rowsUnder l lines ≤ layoutRows (l :: lines) (u16 l.bottom) ∧
      (layoutRows (l :: lines) (u16 l.bottom) = l.u16Heigth + rowsUnder l lines ↔
        ∀ k ∈ l :: (l :: lines).dropLast, k.Short) := by
  obtain ⟨hle, hiff⟩ := layoutRows_eq_iff hrange hdown
  obtain ⟨hy, hh⟩ := hrange l List.mem_cons_self
  rw [layoutRows, List.forall_mem_cons, ← hiff]
  by_cases hshort : l.Short
  · have hkept : u16 l.bottom = l.bottom := Nat.mod_eq_of_lt hshort
    have hgap : l.u16YPos - l.bottom = 0 := Nat.sub_eq_zero_of_le (Nat.le_add_right _ _)
    rw [hkept] at hle ⊢
    rw [hgap]
    exact ⟨by omega, fun heq => ⟨hshort, by omega⟩, fun heq => by omega⟩
  · have hwrap : u16 l.bottom + 0x10000 = l.bottom := by
      simp only [Lines.Short, Lines.bottom, u16] at hshort ⊢
      omega
    have hbottom : l.bottom = l.u16YPos + l.u16Heigth := rfl
    exact ⟨by omega, fun heq => absurd heq (by omega), fun h => absurd h.1 hshort⟩

/-! ## The buffer -/

/-- The writes into the show buffer stay inside of it. -/
def WritesInside (h : Handle) (regions : List ShowRegion) : Prop :=
  ∀ s ∈ displayStores h regions, s.Within (display h regions).1.u32RegionShowBufLen

/-- The vertical layouts that are counted as they are copied: the line under the first region and
    under each one but the last fits 16 bits, and so does the number of all lines. -/
def NoWrap : List Lines → Prop
  | [] => True
  | l :: lines => (∀ k ∈ l :: (l :: lines).dropLast, k.Short) ∧
      l.u16Heigth + rowsUnder l lines < 0x10000

instance : (lines : List Lines) → Decidable (NoWrap lines)
  | [] => .isTrue trivial
  | _ :: _ => inferInstanceAs (Decidable (_ ∧ _))

theorem layoutStores_bare (m : Memory UInt8) (x w : Nat) (regions : List ShowRegion)
    (next len : Nat) :
    layoutStores m x w (regions.map ShowRegion.bare) next len =
      layoutStores m x w regions next len := by
  induction regions generalizing next len with
  | nil => rfl
  | cons r regions ih =>
    rw [List.map_cons, layoutStores, layoutStores]
    simp only [ih]
    rfl

variable {first : ShowRegion} {others : List ShowRegion}

/-- A page that is not counted is not copied. -/
theorem displayStores_none (h : Handle) (hcount : countRegionSize first others = none) :
    displayStores h (first :: others) = [] := by
  obtain ⟨first', others', hregs, hfirst, hothers⟩ :=
    adjustClut_cons h.astClut h.stDefaultClut first others
  have hsize := (countRegionSize_bare hfirst hothers).trans hcount
  simp only [displayStores, hregs, hsize]

theorem displayStores_some (h : Handle) {x w height : Nat}
    (hcount : countRegionSize first others = some (x, w, height)) :
    displayStores h (first :: others) =
      if MAX_DATA_LENGTH < w * height then []
      else (if h.u32RegionShowBufLen < w * height then [memset 0 0 (w * height)] else []) ++
        layoutStores (mergedMemory h (first :: others)) x w (first :: others) (u16 first.bottom)
          0 := by
  obtain ⟨first', others', hregs, hfirst, hothers⟩ :=
    adjustClut_cons h.astClut h.stDefaultClut first others
  obtain ⟨hy, hh⟩ := bare_lines hfirst
  have hsize := (countRegionSize_bare hfirst hothers).trans hcount
  have hstores : ∀ m next len, layoutStores m x w (first' :: others') next len =
      layoutStores m x w (first :: others) next len := by
    intro m next len
    rw [← layoutStores_bare, List.map_cons, hfirst, hothers, ← List.map_cons, layoutStores_bare]
  simp only [displayStores, hregs, hsize, hstores, hy, hh]
  rfl

/-- The buffer grows to the counted size. -/
theorem display_bufLen (h : Handle) {x w height : Nat}
    (hcount : countRegionSize first others = some (x, w, height))
    (hmax : w * height ≤ MAX_DATA_LENGTH) :
    (display h (first :: others)).1.u32RegionShowBufLen =
      max h.u32RegionShowBufLen (w * height) := by
  obtain ⟨first', others', hregs, hfirst, hothers⟩ :=
    adjustClut_cons h.astClut h.stDefaultClut first others
  have hsize := (countRegionSize_bare hfirst hothers).trans hcount
  simp only [display, hregs, hsize]
  rw [if_neg (Nat.not_lt.mpr hmax)]
  by_cases hlen : h.u32RegionShowBufLen < w * height
  · simp only [if_pos hlen, Nat.max_eq_right (Nat.le_of_lt hlen)]
    split
    · rfl
    · split <;> rfl
  · simp only [if_neg hlen, Nat.max_eq_left (Nat.le_of_not_lt hlen)]
    split
    · rfl
    · split <;> rfl

theorem countRegionSize_lines (hh : first.u16Heigth < 0x10000) :
    countRegionSize first others =
      if TopDown ((first :: others).map ShowRegion.lines) then
        some ((box first others).1, (box first others).2,
          u16 (first.lines.u16Heigth + rowsUnder first.lines (others.map ShowRegion.lines)))
      else none :=
  countLoop_eq first others first.u16XPos first.u16Width hh

/-- A page without a wrap is copied into the buffer that is counted for it. -/
theorem writesInside_of_noWrap (h : Handle) {regions : List ShowRegion}
    (hx : ∀ r ∈ regions, r.u16XPos < 0x10000)
    (hrange : ∀ l ∈ regions.map ShowRegion.lines, l.u16YPos < 0x10000 ∧ l.u16Heigth < 0x10000)
    (hlines : TopDown (regions.map ShowRegion.lines) → NoWrap (regions.map ShowRegion.lines)) :
    WritesInside h regions := by
  cases regions with
  | nil => simp [WritesInside, displayStores, adjustClut, adjustFirst]
  | cons first others =>
    have hcount := @countRegionSize_lines first others
      (hrange first.lines List.mem_cons_self).2
    by_cases hdown : TopDown ((first :: others).map ShowRegion.lines)
    -- the code counts as many rows as it copies
    · rw [if_pos hdown] at hcount
      obtain ⟨hshort, hrows⟩ := hlines hdown
      have hcopied := (layoutRows_page hrange hdown).2.mpr hshort
      rw [u16, Nat.mod_eq_of_lt hrows, ← hcopied] at hcount
      have hleft : ∀ r ∈ first :: others, (box first others).1 ≤ r.u16XPos ∧
          r.u16XPos < 0x10000 := by
        rw [box_fst]
        exact fun r hr => ⟨pageLeft_le first others r hr, hx r hr⟩
      rw [WritesInside, displayStores_some h hcount]
      split
      · simp
      · rename_i hmax
        rw [display_bufLen h hcount (Nat.le_of_not_lt hmax)]
        refine List.forall_mem_append.mpr ⟨?_, fun s hs => ?_⟩
        · split
          -- the buffer is cleared over its own size
          · refine List.forall_mem_singleton.mpr (within_set_iff.mpr (.inr ?_))
            rw [List.length_replicate, Nat.zero_add]
            exact Nat.le_max_right _ _
          · simp
        · have hwithin := layoutStores_within _ (box first others).2 hleft _ _ s hs
          rw [Nat.zero_add] at hwithin
          exact hwithin.mono (Nat.le_max_right _ _)
    -- regions that are not in order are not shown
    · rw [if_neg hdown] at hcount
      rw [WritesInside, displayStores_none h hcount]
      simp

/-- The lines as a region of one column. -/
def Lines.column (l : Lines) : ShowRegion where
  addr := 0
  u16XPos := 0
  u16YPos := l.u16YPos
  u16Width := 1
  u16Heigth := l.u16Heigth
  u8RegionDepth := 8
  u8ClutId := 0
  pu8ShowData := 0

theorem map_column_lines (lines : List Lines) :
    (lines.map Lines.column).map ShowRegion.lines = lines := by
  rw [List.map_map]
  exact List.map_id lines

theorem box_column (l : Lines) (lines : List Lines) :
    box l.column (lines.map Lines.column) = (0, 1) := by
  induction lines using List.reverseRecOn with
  | nil => rfl
  | append_singleton lines k ih =>
    rw [List.map_append, List.map_singleton, box_append, ih]
    rfl

/-- Regions of one column are copied into a new buffer only without a wrap. -/
theorem noWrap_of_column {lines : List Lines}
    (hrange : ∀ l ∈ lines, l.u16YPos < 0x10000 ∧ l.u16Heigth < 0x10000) (hdown : TopDown lines)
    (hin : WritesInside {} (lines.map Lines.column)) : NoWrap lines := by
  cases lines with
  | nil => trivial
  | cons l lines =>
    have hcount := @countRegionSize_lines l.column (lines.map Lines.column)
      (hrange l List.mem_cons_self).2
    have hdown' : TopDown ((l.column :: lines.map Lines.column).map ShowRegion.lines) := by
      rw [← List.map_cons, map_column_lines]
      exact hdown
    rw [if_pos hdown', box_column, map_column_lines] at hcount
    change countRegionSize _ _ = some (0, 1, u16 (l.u16Heigth + rowsUnder l lines)) at hcount
    have hsmall : u16 (l.u16Heigth + rowsUnder l lines) < 0x10000 := Nat.mod_lt _ (by decide)
    have hmax : 1 * u16 (l.u16Heigth + rowsUnder l lines) ≤ MAX_DATA_LENGTH := by
      rw [MAX_DATA_LENGTH]
      omega
    rw [List.map_cons, WritesInside, displayStores_some {} hcount, if_neg (Nat.not_lt.mpr hmax),
      display_bufLen {} hcount hmax] at hin
    -- what is copied fits what is counted, so nothing wraps
    have hreach := layoutRows_le _ 0 (w := 1) (by simp [Lines.column]) _ _
      (List.forall_mem_append.mp hin).2
    rw [← List.map_cons, map_column_lines] at hreach
    change 1 * layoutRows (l :: lines) (u16 l.bottom) = 0 ∨
      0 + 1 * layoutRows (l :: lines) (u16 l.bottom) ≤ max 0 _ at hreach
    have hle : u16 (l.u16Heigth + rowsUnder l lines) ≤ l.u16Heigth + rowsUnder l lines :=
      Nat.mod_le _ _
    obtain ⟨hrows, hiff⟩ := layoutRows_page hrange hdown
    exact ⟨hiff.mp (by omega), by omega⟩

/-- No page with a vertical layout writes past the show buffer, whatever the horizontal positions,
    the widths and the state, when the layout is refused because a region begins above the one in
    front of it, or when no line wraps. -/
theorem showBuf_iff {lines : List Lines}
    (hrange : ∀ l ∈ lines, l.u16YPos < 0x10000 ∧ l.u16Heigth ≤ MAX_REGION_HEIGTH) :
    (∀ h regions, regions.map ShowRegion.lines = lines →
        (∀ r ∈ regions, r.u16XPos < 0x10000 ∧ r.u16Width < 0x10000) → WritesInside h regions) ↔
      ¬ TopDown lines ∨ NoWrap lines := by
  have hrange' : ∀ l ∈ lines, l.u16YPos < 0x10000 ∧ l.u16Heigth < 0x10000 := fun l hl =>
    ⟨(hrange l hl).1, (hrange l hl).2.trans_lt (by decide)⟩
  constructor
  · intro hall
    by_cases hdown : TopDown lines
    · refine .inr (noWrap_of_column hrange' hdown (hall {} _ (map_column_lines lines) ?_))
      intro r hr
      obtain ⟨l, -, rfl⟩ := List.mem_map.mp hr
      show 0 < 0x10000 ∧ 1 < 0x10000
      decide
    · exact .inl hdown
  · rintro hlines h regions rfl hregions
    exact writesInside_of_noWrap h (fun r hr => (hregions r hr).1) hrange'
      fun hdown => hlines.resolve_left (not_not.mpr hdown)

theorem showBuf_iff_two :
    (∀ h regions, regions.map ShowRegion.lines = [⟨400, 40⟩, ⟨500, 40⟩] →
        (∀ r ∈ regions, r.u16XPos < 0x10000 ∧ r.u16Width < 0x10000) → WritesInside h regions) ↔
      ¬ TopDown [⟨400, 40⟩, ⟨500, 40⟩] ∨ NoWrap [⟨400, 40⟩, ⟨500, 40⟩] :=
  showBuf_iff (by decide)

/-- A region at the lower end of the range: 65537 lines are copied into a buffer of one. -/
theorem line_wrapped : ¬ WritesInside {} [Lines.column ⟨0, 1⟩, Lines.column ⟨65535, 2⟩] := by
  intro hin
  have hwrap : NoWrap [⟨0, 1⟩, ⟨65535, 2⟩] :=
    noWrap_of_column (by decide) (by decide) hin
  exact absurd hwrap (by decide)

end Tntsat.SubtParse
