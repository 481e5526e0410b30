import Tntsat.Spec.SubtLayoutCorrect

/-!
# The palette of a page

`SUBT_DataParse_AdjustClut` puts the tables of the regions of a page into one palette and moves
the pixels of the regions to their table's place in it.  It compares tables of one depth only, and
a region that has no table of its own is left as it is.

## Key results

- `adjustOthers_merged`: regions of one depth with tables of their own keep their colours
- `colors_of_painted`: pages whose tables have one colour each
- `keepsColors_iff`: the depths and CLUT ids for which every page keeps its colours
-/

namespace Tntsat.SubtParse

open Store

/-! ## Tables -/

/-- What a table is looked for by. -/
structure ClutIdent where
  u8ClutId : Nat
  u8ClutVersion : Nat
deriving DecidableEq

/-- What a table is looked for by. -/
def Clut.ident (c : Clut) : ClutIdent := ⟨c.u8ClutId, c.u8ClutVersion⟩

/-- `SUBT_Parse_FindClutId`, which does not look at the colours. -/
def findIdent (idents : List ClutIdent) (u8ClutId : Nat) : Option Nat :=
  (idents.findIdx? fun c => c.u8ClutId = u8ClutId).or
    (idents.findIdx? fun c => c.u8ClutVersion = 0xff)

theorem findClutId_eq (astClut : List Clut) (u8ClutId : Nat) :
    findClutId astClut u8ClutId = findIdent (astClut.map Clut.ident) u8ClutId := by
  simp only [findClutId, findIdent, List.findIdx?_map]
  rfl

theorem findIdent_lt {idents : List ClutIdent} {u8ClutId i : Nat}
    (h : findIdent idents u8ClutId = some i) : i < idents.length := by
  simp only [findIdent, Option.or_eq_some_iff] at h
  rcases h with h | ⟨-, h⟩ <;> exact (List.findIdx?_eq_some_iff_findIdx_eq.mp h).1

/-- The tables have all their entries. -/
structure Clut.Sized (c : Clut) : Prop where
  two : c._2BitCLUT.length = 4
  four : c._4BitCLUT.length = 16
  eight : c._8BitCLUT.length = 256

theorem Clut.Sized.table {c : Clut} (h : c.Sized) (u8RegionDepth : Nat) :
    (c.table u8RegionDepth).length = clutLen u8RegionDepth := by
  rw [Clut.table, clutLen]
  split_ifs
  · exact h.two
  · exact h.four
  · exact h.eight

/-- Depths with as many entries have the same table. -/
theorem table_congr (c : Clut) {d e : Nat} (h : clutLen d = clutLen e) : c.table d = c.table e := by
  simp only [clutLen] at h
  simp only [Clut.table]
  split_ifs at h ⊢ <;> first | rfl | omega

/-- Entries that are put into a table, and the others. -/
theorem getElem?_putEntries {table : List Color} {i : Nat} {entries : List Color}
    (h : i + entries.length ≤ table.length) (k : Nat) :
    (putEntries table i entries)[k]? =
      if i ≤ k ∧ k < i + entries.length then entries[k - i]? else table[k]? := by
  have htake : (table.take i).length = i := by
    rw [List.length_take]
    omega
  rw [putEntries, List.getElem?_append, List.getElem?_append, List.length_append, htake]
  split_ifs with h₁ h₂ h₃ h₃ h₃
  · omega
  · exact List.getElem?_take_of_lt h₂
  · rfl
  · omega
  · omega
  · rw [List.getElem?_drop]
    congr 1
    omega

theorem length_putEntries {table : List Color} {i : Nat} {entries : List Color}
    (h : i + entries.length ≤ table.length) :
    (putEntries table i entries).length = table.length := by
  simp only [putEntries, List.length_append, List.length_take, List.length_drop]
  omega

/-! ## The property -/

/-- The table of a region: the one with its CLUT id, or the default one. -/
def ownTable (h : Handle) (r : ShowRegion) : List Color :=
  match findClutId h.astClut r.u8ClutId with
  | none => h.stDefaultClut.table r.u8RegionDepth
  | some i => (h.astClut.getD i {}).table r.u8RegionDepth

/-- The palette that is passed on for a page. -/
def shownPalette (h : Handle) (regions : List ShowRegion) : List Color :=
  let a := adjustClut h.astClut h.stDefaultClut regions
  match a.regions with
  | [] => []
  | first :: _ => (palette h a first).1

/-- Each pixel is shown in the colour it has in its region's own table. -/
def KeepsColors (h : Handle) (regions : List ShowRegion) : Prop :=
  ∀ r ∈ regions, ∀ x ∈ r.cells,
    (shownPalette h regions)[(mergedMemory h regions x).toNat]? =
      (ownTable h r)[(h.pu8RegionBuffer x).toNat]?

/-- The item that is passed on has this palette. -/
theorem display_palette (h : Handle) {first : ShowRegion} {others : List ShowRegion} :
    ∀ item ∈ (display h (first :: others)).2,
      item.pvRegionClut = shownPalette h (first :: others) := by
  obtain ⟨first', others', hregs, -, -⟩ :=
    adjustClut_cons h.astClut h.stDefaultClut first others
  simp only [display, shownPalette, hregs]
  cases countRegionSize first' others' with
  | none => simp
  | some size =>
    obtain ⟨x, w, height⟩ := size
    dsimp only
    by_cases hmax : MAX_DATA_LENGTH < w * height
    · simp [hmax]
    · rw [if_neg hmax]
      split
      · simp
      · split
        · simp
        · simp

/-! ## Merging -/

/-- The table of a region that has one, at a depth. -/
def foundTable (astClut : List Clut) (u8RegionDepth : Nat) (r : ShowRegion) : List Color :=
  (astClut.getD ((findClutId astClut r.u8ClutId).getD 0) {}).table u8RegionDepth

/-- Regions whose tables are the same are left alone. -/
theorem adjustOthers_same {astClut : List Clut} {pstDefaultClut : Clut} {regions : List ShowRegion}
    (hsame : ∀ r ∈ regions, ∀ i, findClutId astClut r.u8ClutId = some i →
      r.u8RegionDepth = 2 ∨ r.u8RegionDepth = 4 →
      pstDefaultClut.table r.u8RegionDepth = (astClut.getD i {}).table r.u8RegionDepth)
    (a : Adjusted) : adjustOthers astClut pstDefaultClut regions a = a := by
  induction regions with
  | nil => rfl
  | cons r regions ih =>
    obtain ⟨hr, hregions⟩ := List.forall_mem_cons.mp hsame
    rw [adjustOthers]
    cases hfind : findClutId astClut r.u8ClutId with
    | none => exact ih hregions
    | some i =>
      dsimp only
      by_cases hdepth : r.u8RegionDepth = 2 ∨ r.u8RegionDepth = 4
      · rw [if_pos hdepth, if_neg (not_not.mpr (hr i hfind hdepth))]
        exact ih hregions
      · rw [if_neg hdepth]
        exact ih hregions

/-- A region is moved to the place of its own table in the palette; `first` is at the first one. -/
def ShownBy (astClut : List Clut) (first : List Color) (d : Nat) (a : Adjusted)
    (new : List (Store UInt8)) (r : ShowRegion) : Prop :=
  ∃ j ≤ a.count,
    (∀ m, ∀ x ∈ r.cells, runAll m new x = m x + .ofNat (clutLen d * j)) ∧
    (j = 0 → foundTable astClut d r = first) ∧
    (j ≠ 0 → ∀ k < clutLen d,
      a.stDefaultClut._8BitCLUT[clutLen d * j + k]? = (foundTable astClut d r)[k]?)

/-- What merging the tables of regions of a depth comes to: of `a` it makes `a'` by the stores
    `new`, and every region is shown from its own table. -/
structure Merged (astClut : List Clut) (first : List Color) (d : Nat) (regions : List ShowRegion)
    (a a' : Adjusted) (new : List (Store UInt8)) : Prop where
  stores : a'.stores = a.stores ++ new
  same : a'.regions = a.regions
  count : a.count ≤ a'.count ∧ a'.count ≤ a.count + regions.length
  kept : a.count ≠ 0 → ∀ k < clutLen d * (a.count + 1),
    a'.stDefaultClut._8BitCLUT[k]? = a.stDefaultClut._8BitCLUT[k]?
  base : a'.count ≠ 0 → ∀ k < clutLen d, a'.stDefaultClut._8BitCLUT[k]? = first[k]?
  frame : ∀ m x, (∀ r ∈ regions, x ∉ r.cells) → runAll m new x = m x
  shown : ∀ r ∈ regions, ShownBy astClut first d a' new r

/-- The state after a region that is moved behind the tables so far. -/
def moveRegion (first : List Color) (d : Nat) (entries : List Color) (r : ShowRegion)
    (a : Adjusted) : Adjusted :=
  let n := clutLen d * (a.count + 1)
  let mixed := a.stDefaultClut._8BitCLUT
  let mixed := if a.count = 0 then putEntries mixed 0 first else mixed
  { a with
    stDefaultClut := { a.stDefaultClut with _8BitCLUT := putEntries mixed n entries }
    count := a.count + 1
    stores := a.stores ++ [.map r.pu8ShowData (r.u16Width * r.u16Heigth) fun c => c + .ofNat n] }

theorem adjustOthers_cons {astClut : List Clut} {pstDefaultClut : Clut} {d : Nat}
    (hd : d = 2 ∨ d = 4) {r : ShowRegion} (hdepth : r.u8RegionDepth = d)
    (hfound : (findClutId astClut r.u8ClutId).isSome) (regions : List ShowRegion) (a : Adjusted) :
    adjustOthers astClut pstDefaultClut (r :: regions) a =
      if pstDefaultClut.table d = foundTable astClut d r then
        adjustOthers astClut pstDefaultClut regions a
      else adjustOthers astClut pstDefaultClut regions
        (moveRegion (pstDefaultClut.table d) d (foundTable astClut d r) r a) := by
  obtain ⟨i, hfind⟩ := Option.isSome_iff_exists.mp hfound
  rw [adjustOthers]
  simp only [hfind, hdepth, if_pos hd, foundTable, Option.getD_some, ne_eq, ite_not]
  rfl

/-- The palette behind a region that is moved. -/
theorem moveRegion_table {first entries : List Color} {d : Nat} (r : ShowRegion) {a : Adjusted}
    (hlen : a.stDefaultClut._8BitCLUT.length = 256) (hfirst : first.length = clutLen d)
    (hentries : entries.length = clutLen d) (hroom : clutLen d * (a.count + 2) ≤ 256) (k : Nat) :
    (moveRegion first d entries r a).stDefaultClut._8BitCLUT.length = 256 ∧
      (moveRegion first d entries r a).stDefaultClut._8BitCLUT[k]? =
        if clutLen d * (a.count + 1) ≤ k ∧ k < clutLen d * (a.count + 2) then
          entries[k - clutLen d * (a.count + 1)]?
        else if a.count = 0 ∧ k < clutLen d then first[k]?
        else a.stDefaultClut._8BitCLUT[k]? := by
  have hsucc : clutLen d * (a.count + 2) = clutLen d * (a.count + 1) + clutLen d := Nat.mul_succ _ _
  have hle : clutLen d ≤ 256 := by
    rw [clutLen]
    split_ifs <;> decide
  -- the first palette is put in front the first time; the length stays 256
  have hmixed : (if a.count = 0 then putEntries a.stDefaultClut._8BitCLUT 0 first
      else a.stDefaultClut._8BitCLUT).length = 256 := by
    split
    · rw [length_putEntries (by omega), hlen]
    · exact hlen
  -- the region's own entries fit behind those already there
  have hfit : clutLen d * (a.count + 1) + entries.length ≤
      (if a.count = 0 then putEntries a.stDefaultClut._8BitCLUT 0 first
        else a.stDefaultClut._8BitCLUT).length := by
    rw [hmixed, hentries, ← hsucc]
    exact hroom
  refine ⟨(length_putEntries hfit).trans hmixed, ?_⟩
  rw [hsucc]
  refine (getElem?_putEntries hfit k).trans ?_
  rw [hentries]
  refine if_congr Iff.rfl rfl ?_
  by_cases hcount : a.count = 0
  · rw [if_pos hcount, getElem?_putEntries (by omega), hfirst]
    simp only [Nat.zero_le, Nat.zero_add, true_and, Nat.sub_zero, hcount]
  · rw [if_neg hcount, if_neg fun h => hcount h.1]

/-- Regions of one depth, each with a table, are shown from their own tables. -/
theorem adjustOthers_merged {astClut : List Clut} {pstDefaultClut : Clut} {d : Nat}
    (hd : d = 2 ∨ d = 4) (hfirst : (pstDefaultClut.table d).length = clutLen d)
    {regions : List ShowRegion}
    (hregions : ∀ r ∈ regions, r.u8RegionDepth = d ∧ (findClutId astClut r.u8ClutId).isSome ∧
      (foundTable astClut d r).length = clutLen d)
    (hapart : regions.Pairwise fun r s => ∀ x ∈ r.cells, x ∉ s.cells) {a : Adjusted}
    (hlen : a.stDefaultClut._8BitCLUT.length = 256)
    (hbase : a.count ≠ 0 → ∀ k < clutLen d,
      a.stDefaultClut._8BitCLUT[k]? = (pstDefaultClut.table d)[k]?)
    (hroom : clutLen d * (a.count + regions.length + 1) ≤ 256) :
    ∃ new, Merged astClut (pstDefaultClut.table d) d regions a
      (adjustOthers astClut pstDefaultClut regions a) new := by
  induction regions generalizing a with
  | nil =>
    exact ⟨[], (List.append_nil _).symm, rfl, ⟨Nat.le_refl _, Nat.le_refl _⟩, fun _ _ _ => rfl,
      hbase, fun _ _ _ => rfl, by simp⟩
  | cons r regions ih =>
    obtain ⟨⟨hdepth, hfound, hlength⟩, hregions⟩ := List.forall_mem_cons.mp hregions
    obtain ⟨hr, hapart⟩ := List.pairwise_cons.mp hapart
    have hout : ∀ x ∈ r.cells, ∀ s ∈ regions, x ∉ s.cells := fun x hx s hs => hr s hs x hx
    rw [List.length_cons] at hroom
    rw [adjustOthers_cons hd hdepth hfound]
    by_cases hsame : pstDefaultClut.table d = foundTable astClut d r
    -- a region with the palette of the first keeps its pixels and takes no room
    · rw [if_pos hsame]
      obtain ⟨new, h⟩ := ih hregions hapart hlen hbase
        ((Nat.mul_le_mul_left _ (by omega)).trans hroom)
      refine ⟨new, h.stores, h.same, ⟨h.count.1, h.count.2.trans (by simp)⟩, h.kept, h.base,
        fun m x hx => h.frame m x (List.forall_mem_cons.mp hx).2,
        List.forall_mem_cons.mpr ⟨⟨0, Nat.zero_le _, fun m x hx => ?_, fun _ => hsame.symm,
          fun h => absurd rfl h⟩, h.shown⟩⟩
      rw [h.frame m x (hout x hx), Nat.mul_zero]
      exact (UInt8.add_zero _).symm
    -- another palette is put behind those already there
    · rw [if_neg hsame]
      have hroom' : clutLen d * (a.count + 2) ≤ 256 :=
        (Nat.mul_le_mul_left _ (by omega)).trans hroom
      have htable := moveRegion_table r hlen hfirst hlength hroom'
      -- the first palette stays at the front
      have hbase' : (moveRegion (pstDefaultClut.table d) d (foundTable astClut d r) r a).count ≠ 0 →
          ∀ k < clutLen d, (moveRegion (pstDefaultClut.table d) d (foundTable astClut d r) r
            a).stDefaultClut._8BitCLUT[k]? = (pstDefaultClut.table d)[k]? := by
        intro _ k hk
        have hfront : k < clutLen d * (a.count + 1) :=
          hk.trans_le (Nat.le_mul_of_pos_right _ (Nat.succ_pos _))
        rw [(htable k).2, if_neg fun h => absurd h.1 (Nat.not_le.mpr hfront)]
        split
        · rfl
        · rename_i hcount
          exact hbase (fun hzero => hcount ⟨hzero, hk⟩) k hk
      have hcount : (moveRegion (pstDefaultClut.table d) d (foundTable astClut d r) r a).count =
          a.count + 1 := rfl
      -- the rest of the regions, over what this one leaves
      obtain ⟨new, h⟩ := ih hregions hapart (htable 0).1 hbase'
        ((Nat.mul_le_mul_left _ (by rw [hcount]; omega)).trans hroom)
      obtain ⟨hlow, hhigh⟩ := h.count
      rw [hcount] at hlow hhigh
      -- they keep what is below their own palettes, so this region's
      have hkept := h.kept (Nat.succ_ne_zero a.count)
      rw [hcount] at hkept
      refine ⟨.map r.pu8ShowData (r.u16Width * r.u16Heigth)
          (fun c => c + .ofNat (clutLen d * (a.count + 1))) :: new,
        by rw [h.stores]; simp [moveRegion], h.same,
        ⟨by omega, by rw [List.length_cons]; omega⟩, fun hne k hk => ?_, h.base,
        fun m x hx => ?_, List.forall_mem_cons.mpr
          ⟨⟨a.count + 1, hlow, fun m x hx => ?_, fun h => absurd h (by omega),
            fun _ k hk => ?_⟩, fun s hs => ?_⟩⟩
      · have hback : k < clutLen d * (a.count + 2) :=
          hk.trans_le (Nat.mul_le_mul_left _ (by omega))
        rw [hkept k hback, (htable k).2, if_neg fun h => absurd h.1 (Nat.not_le.mpr hk),
          if_neg fun h => hne h.1]
      · obtain ⟨hxr, hxs⟩ := List.forall_mem_cons.mp hx
        exact (h.frame _ x hxs).trans (if_neg hxr)
      · exact (h.frame _ x (hout x hx)).trans (if_pos hx)
      · have hback : clutLen d * (a.count + 1) + k < clutLen d * (a.count + 2) := by
          rw [Nat.mul_succ _ (a.count + 1)]
          omega
        rw [hkept _ hback, (htable _).2, if_pos ⟨Nat.le_add_right _ _, hback⟩,
          Nat.add_sub_cancel_left]
      -- the later regions' pixels lie apart from this one's
      · obtain ⟨j, hj, hmove, hzero, hpos⟩ := h.shown s hs
        refine ⟨j, hj, fun m x hx => ?_, hzero, hpos⟩
        have hxr : x ∉ r.cells := fun hxr => hr s hs x hxr hx
        rw [runAll, hmove _ x hx]
        exact congrArg (· + _) (if_neg hxr)

/-! ## Pages -/

/-- What decides about the table of a region. -/
structure Kind where
  u8RegionDepth : Nat
  u8ClutId : Nat
deriving DecidableEq

/-- The depth and the CLUT id of a region. -/
def ShowRegion.kind (r : ShowRegion) : Kind := ⟨r.u8RegionDepth, r.u8ClutId⟩

/-- A page with regions of these kinds, for tables that are found in this way: the tables have all
    their entries, the regions are as they were created, with their pixels apart, and each pixel
    is one of its depth. -/
structure PageFor (idents : List ClutIdent) (kinds : List Kind) (h : Handle)
    (regions : List ShowRegion) : Prop where
  idents : h.astClut.map Clut.ident = idents
  kinds : regions.map ShowRegion.kind = kinds
  tables : ∀ c ∈ h.astClut, c.Sized
  default : h.stDefaultClut.Sized
  fresh : ∀ r ∈ regions, r.pvRegionClut = none
  apart : regions.Pairwise fun r s => ∀ x ∈ r.cells, x ∉ s.cells
  pixels : ∀ r ∈ regions, ∀ x ∈ r.cells,
    (h.pu8RegionBuffer x).toNat < clutLen r.u8RegionDepth

/-- All regions have tables of one size, and they have the same one, or all have one and their
    depths are 2 or 4. -/
def Mergeable (idents : List ClutIdent) (kinds : List Kind) : Prop :=
  (∀ k ∈ kinds, ∀ l ∈ kinds, clutLen k.u8RegionDepth = clutLen l.u8RegionDepth) ∧
    ((∀ k ∈ kinds, ∀ l ∈ kinds, findIdent idents k.u8ClutId = findIdent idents l.u8ClutId) ∨
      ∀ k ∈ kinds, (k.u8RegionDepth = 2 ∨ k.u8RegionDepth = 4) ∧
        (findIdent idents k.u8ClutId).isSome)

instance (idents : List ClutIdent) (kinds : List Kind) : Decidable (Mergeable idents kinds) :=
  inferInstanceAs (Decidable (_ ∧ _))

variable {h : Handle} {idents : List ClutIdent} {kinds : List Kind} {regions : List ShowRegion}

/-- The table that is found has all its entries. -/
theorem PageFor.found_sized (hpage : PageFor idents kinds h regions) {u8ClutId i : Nat}
    (hfind : findClutId h.astClut u8ClutId = some i) : (h.astClut.getD i {}).Sized := by
  rw [findClutId_eq] at hfind
  have hlt := findIdent_lt hfind
  rw [List.length_map] at hlt
  rw [List.getD_eq_getElem?_getD, List.getElem?_eq_getElem hlt, Option.getD_some]
  exact hpage.tables _ (List.getElem_mem hlt)

theorem adjustFirst_cons {astClut : List Clut} {first : ShowRegion} {i : Nat}
    (hfind : findClutId astClut first.u8ClutId = some i) (others : List ShowRegion) :
    adjustFirst astClut (first :: others) =
      some (i, { first with pvRegionClut := some i } :: others) := by
  rw [adjustFirst, hfind]

theorem adjustFirst_none {astClut : List Clut} {regions : List ShowRegion}
    (hnone : ∀ r ∈ regions, findClutId astClut r.u8ClutId = none) :
    adjustFirst astClut regions = none := by
  induction regions with
  | nil => rfl
  | cons r regions ih =>
    obtain ⟨hr, hregions⟩ := List.forall_mem_cons.mp hnone
    rw [adjustFirst, hr, ih hregions]
    rfl

/-- A page whose first region has a table: the others are merged with it. -/
theorem adjustClut_first {astClut : List Clut} {first : ShowRegion} {i : Nat}
    (hfind : findClutId astClut first.u8ClutId = some i) (stDefaultClut : Clut)
    (others : List ShowRegion) :
    adjustClut astClut stDefaultClut (first :: others) =
      adjustOthers astClut (astClut.getD i {})
        ({ first with pvRegionClut := some i } :: others)
        { regions := { first with pvRegionClut := some i } :: others, stDefaultClut } := by
  rw [adjustClut, adjustFirst_cons hfind]
  rfl

/-- Without tables the default one is shown. -/
theorem keeps_none (hnone : ∀ r ∈ regions, findClutId h.astClut r.u8ClutId = none)
    (hlen : ∀ r ∈ regions, ∀ s ∈ regions, clutLen r.u8RegionDepth = clutLen s.u8RegionDepth)
    (hfresh : ∀ r ∈ regions, r.pvRegionClut = none) : KeepsColors h regions := by
  intro r hr x _
  match regions with
  | [] => simp at hr
  | first :: others =>
    have hadjust : adjustClut h.astClut h.stDefaultClut (first :: others) =
        { regions := first :: others, stDefaultClut := h.stDefaultClut } := by
      rw [adjustClut, adjustFirst_none hnone]
    have hpalette : shownPalette h (first :: others) =
        h.stDefaultClut.table first.u8RegionDepth := by
      rw [shownPalette, hadjust]
      simp only [palette, hfresh first List.mem_cons_self]
      rfl
    rw [hpalette, mergedMemory, hadjust, ownTable, hnone r hr,
      table_congr _ (hlen first List.mem_cons_self r hr)]
    rfl

/-- With one table for all, this table is shown. -/
theorem keeps_one {i : Nat} (hone : ∀ r ∈ regions, findClutId h.astClut r.u8ClutId = some i)
    (hlen : ∀ r ∈ regions, ∀ s ∈ regions, clutLen r.u8RegionDepth = clutLen s.u8RegionDepth) :
    KeepsColors h regions := by
  intro r hr x _
  match regions with
  | [] => simp at hr
  | first :: others =>
    have hadjust := adjustClut_first (hone first List.mem_cons_self) h.stDefaultClut others
    rw [adjustOthers_same] at hadjust
    · have hpalette : shownPalette h (first :: others) =
          (h.astClut.getD i {}).table first.u8RegionDepth := by
        rw [shownPalette, hadjust]
        rfl
      rw [hpalette, mergedMemory, hadjust, ownTable, hone r hr,
        table_congr _ (hlen first List.mem_cons_self r hr)]
      rfl
    · intro s hs j hj _
      have hsome : findClutId h.astClut s.u8ClutId = some i := by
        rcases List.mem_cons.mp hs with rfl | hs
        · exact hone first List.mem_cons_self
        · exact hone s (List.mem_cons_of_mem _ hs)
      rw [hsome] at hj
      rw [Option.some.inj hj]

/-- Regions of depth 2 or of depth 4, each with a table, are shown from their own tables. -/
theorem keeps_merged (hpage : PageFor idents kinds h regions) (hten : kinds.length ≤ 10) {d : Nat}
    (hd : d = 2 ∨ d = 4)
    (hdepth : ∀ r ∈ regions, r.u8RegionDepth = d ∧ (findClutId h.astClut r.u8ClutId).isSome) :
    KeepsColors h regions := by
  match regions with
  | [] => exact fun r hr => absurd hr List.not_mem_nil
  | first :: others =>
    obtain ⟨i, hfind⟩ := Option.isSome_iff_exists.mp (hdepth first List.mem_cons_self).2
    have hlen : (first :: others).length ≤ 10 := by
      rw [← hpage.kinds, List.length_map] at hten
      exact hten
    have hroom : clutLen d * (0 + (first :: others).length + 1) ≤ 256 := by
      have hn : clutLen d ≤ 16 := by rcases hd with rfl | rfl <;> decide
      calc clutLen d * (0 + (first :: others).length + 1) ≤ 16 * 11 :=
            Nat.mul_le_mul hn (by omega)
        _ ≤ 256 := by decide
    have hsized : ∀ r ∈ first :: others, r.u8RegionDepth = d ∧
        (findClutId h.astClut r.u8ClutId).isSome ∧
          (foundTable h.astClut d r).length = clutLen d := by
      intro r hr
      obtain ⟨hrd, hrf⟩ := hdepth r hr
      obtain ⟨j, hj⟩ := Option.isSome_iff_exists.mp hrf
      refine ⟨hrd, hrf, ?_⟩
      rw [foundTable, hj]
      exact (hpage.found_sized hj).table d
    -- the first region is adjusted with its table
    obtain ⟨hfirst, hothers⟩ := List.forall_mem_cons.mp hsized
    have hpairs := List.pairwise_cons.mp hpage.apart
    obtain ⟨new, hmerged⟩ := @adjustOthers_merged _ _ _ hd ((hpage.found_sized hfind).table d)
      ({ first with pvRegionClut := some i } :: others)
      (List.forall_mem_cons.mpr ⟨hfirst, hothers⟩) (List.pairwise_cons.mpr hpairs)
      { regions := { first with pvRegionClut := some i } :: others,
        stDefaultClut := h.stDefaultClut }
      hpage.default.eight (fun hne => absurd rfl hne) hroom
    rw [← adjustClut_first hfind h.stDefaultClut others] at hmerged
    intro r hr x hx
    obtain ⟨hrd, hrf⟩ := hdepth r hr
    have hshown : ShownBy h.astClut ((h.astClut.getD i {}).table d) d
        (adjustClut h.astClut h.stDefaultClut (first :: others)) new r := by
      rcases List.mem_cons.mp hr with rfl | hr
      · exact hmerged.shown { r with pvRegionClut := some i } List.mem_cons_self
      · exact hmerged.shown r (List.mem_cons_of_mem _ hr)
    have hcount : (adjustClut h.astClut h.stDefaultClut (first :: others)).count ≤
        0 + (first :: others).length := hmerged.count.2
    obtain ⟨j, hj, hmove, hzero, hpos⟩ := hshown
    have hpixel : (h.pu8RegionBuffer x).toNat < clutLen d := hrd ▸ hpage.pixels r hr x hx
    have hown : ownTable h r = foundTable h.astClut d r := by
      obtain ⟨k, hk⟩ := Option.isSome_iff_exists.mp hrf
      rw [ownTable, foundTable, hk, hrd]
      rfl
    have hplace : clutLen d * j + clutLen d ≤ 256 := by
      rw [← Nat.mul_succ]
      exact (Nat.mul_le_mul_left _ (by omega)).trans hroom
    have hmem : (mergedMemory h (first :: others) x).toNat =
        clutLen d * j + (h.pu8RegionBuffer x).toNat := by
      rw [mergedMemory, hmerged.stores, List.nil_append, hmove _ x hx, UInt8.toNat_add,
        UInt8.toNat_ofNat']
      omega
    have hpalette : shownPalette h (first :: others) =
        if (adjustClut h.astClut h.stDefaultClut (first :: others)).count ≠ 0 then
          (adjustClut h.astClut h.stDefaultClut (first :: others)).stDefaultClut._8BitCLUT
        else (h.astClut.getD i {}).table d := by
      simp only [shownPalette, hmerged.same, palette]
      split
      · rfl
      · rw [(hdepth first List.mem_cons_self).1]
    rw [hown, hmem, hpalette]
    by_cases hj0 : j = 0
    · rw [hj0, Nat.mul_zero, Nat.zero_add, hzero hj0]
      split
      · exact hmerged.base ‹_› _ hpixel
      · rfl
    · rw [if_pos (by omega)]
      exact hpos hj0 _ hpixel

/-! ## Painted tables -/

/-- Tables of one colour each; `color` tells it by the size of the table. -/
def paintClut (ident : ClutIdent) (color : Nat → Color) : Clut where
  u8ClutId := ident.u8ClutId
  u8ClutVersion := ident.u8ClutVersion
  _2BitCLUT := List.replicate 4 (color 4)
  _4BitCLUT := List.replicate 16 (color 16)
  _8BitCLUT := List.replicate 256 (color 256)

theorem paintClut_table (ident : ClutIdent) (color : Nat → Color) (d : Nat) :
    (paintClut ident color).table d = List.replicate (clutLen d) (color (clutLen d)) := by
  rw [Clut.table, clutLen]
  split_ifs <;> rfl

/-- The tables in these colours: the ones that are found by their index, and the default one. -/
def paintHandle (idents : List ClutIdent) (color : Option Nat → Nat → Color) : Handle :=
  { astClut := idents.mapIdx fun i ident => paintClut ident (color (some i))
    stDefaultClut := paintClut ⟨0, 0⟩ (color none) }

/-- Regions of a single pixel, one behind another from `addr` on. -/
def dotsFrom : Nat → List Kind → List ShowRegion
  | _, [] => []
  | addr, k :: kinds =>
    { addr := 0
      u16XPos := 0
      u16YPos := addr
      u16Width := 1
      u16Heigth := 1
      u8RegionDepth := k.u8RegionDepth
      u8ClutId := k.u8ClutId
      pu8ShowData := addr } :: dotsFrom (addr + 1) kinds

theorem dotsFrom_spec (addr : Nat) (kinds : List Kind) :
    (dotsFrom addr kinds).map ShowRegion.kind = kinds ∧
      (∀ r ∈ dotsFrom addr kinds,
        r.pvRegionClut = none ∧ addr ≤ r.pu8ShowData ∧ r.cells = Store.cells r.pu8ShowData 1) ∧
      (dotsFrom addr kinds).Pairwise fun r s => ∀ x ∈ r.cells, x ∉ s.cells := by
  induction kinds generalizing addr with
  | nil => simp [dotsFrom]
  | cons k kinds ih =>
    obtain ⟨hkinds, hdots, hapart⟩ := ih (addr + 1)
    refine ⟨congrArg (k :: ·) hkinds, List.forall_mem_cons.mpr ⟨⟨rfl, Nat.le_refl _, rfl⟩,
      fun r hr => ?_⟩, List.pairwise_cons.mpr ⟨fun s hs x hx hxs => ?_, hapart⟩⟩
    · obtain ⟨hnone, hle, hcells⟩ := hdots r hr
      exact ⟨hnone, by omega, hcells⟩
    · obtain ⟨-, hle, hcells⟩ := hdots s hs
      rw [hcells] at hxs
      have hlow : addr + 1 ≤ x := hle.trans hxs.1
      have hhigh : x < addr + 1 := hx.2
      omega

theorem paintClut_sized (ident : ClutIdent) (color : Nat → Color) :
    (paintClut ident color).Sized :=
  ⟨List.length_replicate, List.length_replicate, List.length_replicate⟩

theorem paintHandle_getD {idents : List ClutIdent} (color : Option Nat → Nat → Color) {i : Nat}
    (hi : i < idents.length) (d : Nat) :
    ((paintHandle idents color).astClut.getD i {}).table d =
      List.replicate (clutLen d) (color (some i) (clutLen d)) := by
  rw [paintHandle, List.getD_eq_getElem?_getD, List.getElem?_mapIdx, List.getElem?_eq_getElem hi]
  exact paintClut_table _ _ d

theorem paintHandle_idents (idents : List ClutIdent) (color : Option Nat → Nat → Color) :
    (paintHandle idents color).astClut.map Clut.ident = idents := by
  refine List.ext_getElem? fun i => ?_
  rw [paintHandle, List.getElem?_map, List.getElem?_mapIdx, Option.map_map]
  exact Option.map_id'

theorem paint_pageFor (idents : List ClutIdent) (kinds : List Kind)
    (color : Option Nat → Nat → Color) :
    PageFor idents kinds (paintHandle idents color) (dotsFrom 0 kinds) := by
  obtain ⟨hkinds, hdots, hapart⟩ := dotsFrom_spec 0 kinds
  refine ⟨paintHandle_idents idents color, hkinds, fun c hc => ?_, paintClut_sized _ _,
    fun r hr => (hdots r hr).1, hapart, fun r _ x _ => ?_⟩
  · obtain ⟨i, hi, rfl⟩ := List.mem_mapIdx.mp hc
    exact paintClut_sized _ _
  · show 0 < clutLen r.u8RegionDepth
    rw [clutLen]
    split_ifs <;> decide

/-- The first table is that of some region. -/
theorem adjustFirst_found {astClut : List Clut} {regions regions' : List ShowRegion} {i : Nat}
    (h : adjustFirst astClut regions = some (i, regions')) :
    ∃ r ∈ regions, findClutId astClut r.u8ClutId = some i := by
  induction regions generalizing regions' i with
  | nil => simp [adjustFirst] at h
  | cons r regions ih =>
    simp only [adjustFirst] at h
    cases hfind : findClutId astClut r.u8ClutId with
    | some j =>
      simp only [hfind, Option.some.injEq, Prod.mk.injEq] at h
      exact ⟨r, List.mem_cons_self, hfind.trans (congrArg some h.1)⟩
    | none =>
      simp only [hfind, Option.map_eq_some_iff, Prod.mk.injEq] at h
      obtain ⟨⟨j, found⟩, hfound, rfl, -⟩ := h
      obtain ⟨s, hs, hsome⟩ := ih hfound
      exact ⟨s, List.mem_cons_of_mem _ hs, hsome⟩

/-- No pixel is moved when the tables that are found have one colour for each size. -/
theorem paint_stores {color : Option Nat → Nat → Color}
    (hsame : ∀ k ∈ kinds, k.u8RegionDepth = 2 ∨ k.u8RegionDepth = 4 →
      ∀ i j, color (some i) (clutLen k.u8RegionDepth) = color (some j) (clutLen k.u8RegionDepth)) :
    (adjustClut (paintHandle idents color).astClut (paintHandle idents color).stDefaultClut
      (dotsFrom 0 kinds)).stores = [] := by
  -- a palette that is found is one of those painted
  have hlt : ∀ {u8ClutId i : Nat},
      findClutId (paintHandle idents color).astClut u8ClutId = some i → i < idents.length := by
    intro u8ClutId i hfind
    rw [findClutId_eq, paintHandle_idents] at hfind
    exact findIdent_lt hfind
  rw [adjustClut]
  cases hfirst : adjustFirst (paintHandle idents color).astClut (dotsFrom 0 kinds) with
  | none => rfl
  | some found =>
    obtain ⟨i, regions'⟩ := found
    obtain ⟨r₀, -, hfind₀⟩ := adjustFirst_found hfirst
    dsimp only
    rw [adjustOthers_same]
    intro r hr j hj hdepth
    -- the regions behind the first one found are still those of the page
    have hkind : r.kind ∈ kinds := by
      have hbare := adjustFirst_bare hfirst
      have hmem : r.bare.kind ∈ ((dotsFrom 0 kinds).map ShowRegion.bare).map ShowRegion.kind := by
        rw [← hbare]
        exact List.mem_map_of_mem (List.mem_map_of_mem ((List.dropWhile_sublist _).mem hr))
      rw [List.map_map] at hmem
      have hkinds : (dotsFrom 0 kinds).map (ShowRegion.kind ∘ ShowRegion.bare) = kinds :=
        (dotsFrom_spec 0 kinds).1
      rw [hkinds] at hmem
      exact hmem
    have hcolor : color (some i) (clutLen r.u8RegionDepth) =
        color (some j) (clutLen r.u8RegionDepth) := hsame r.kind hkind hdepth i j
    rw [paintHandle_getD color (hlt hfind₀), paintHandle_getD color (hlt hj), hcolor]

/-- When every page keeps its colours, all regions have the colour that is shown. -/
theorem colors_of_painted (color : Option Nat → Nat → Color)
    (hsame : ∀ k ∈ kinds, k.u8RegionDepth = 2 ∨ k.u8RegionDepth = 4 →
      ∀ i j, color (some i) (clutLen k.u8RegionDepth) = color (some j) (clutLen k.u8RegionDepth))
    (hkeeps : ∀ h regions, PageFor idents kinds h regions → KeepsColors h regions) :
    ∀ k ∈ kinds, ∀ l ∈ kinds,
      color (findIdent idents k.u8ClutId) (clutLen k.u8RegionDepth) =
        color (findIdent idents l.u8ClutId) (clutLen l.u8RegionDepth) := by
  -- on the page with one dot for each kind, every palette painted in one colour
  have hkeeps := hkeeps _ _ (paint_pageFor idents kinds color)
  obtain ⟨hkinds, hdots, -⟩ := dotsFrom_spec 0 kinds
  have hshown : ∀ k ∈ kinds, (shownPalette (paintHandle idents color) (dotsFrom 0 kinds))[0]? =
      some (color (findIdent idents k.u8ClutId) (clutLen k.u8RegionDepth)) := by
    intro k hk
    rw [← hkinds] at hk
    obtain ⟨r, hr, rfl⟩ := List.mem_map.mp hk
    have hx : r.pu8ShowData ∈ r.cells := by
      rw [(hdots r hr).2.2]
      exact ⟨Nat.le_refl _, Nat.lt_succ_self _⟩
    -- the dot shows the first colour of its palette
    have hpixel := hkeeps r hr _ hx
    rw [mergedMemory, paint_stores hsame] at hpixel
    have hpos : 0 < clutLen r.u8RegionDepth := by
      rw [clutLen]
      split_ifs <;> decide
    refine hpixel.trans ?_
    show (ownTable _ r)[0]? = _
    rw [ownTable, findClutId_eq, paintHandle_idents]
    show _ = some (color (findIdent idents r.u8ClutId) (clutLen r.u8RegionDepth))
    cases hfind : findIdent idents r.u8ClutId with
    | none =>
      dsimp only
      rw [paintHandle, paintClut_table, List.getElem?_replicate, if_pos hpos]
    | some i =>
      dsimp only
      rw [paintHandle_getD color (findIdent_lt hfind), List.getElem?_replicate, if_pos hpos]
  intro k hk l hl
  exact Option.some.inj ((hshown k hk).symm.trans (hshown l hl))

/-! ## When the colours are kept -/

/-- Every page with regions of these depths and CLUT ids keeps its colours, whatever the tables
    and the pixels, when all depths have tables of one size, and all regions have the same table,
    or all have one of their own and their depths are 2 or 4. -/
theorem keepsColors_iff (idents : List ClutIdent) {kinds : List Kind} (hten : kinds.length ≤ 10) :
    (∀ h regions, PageFor idents kinds h regions → KeepsColors h regions) ↔
      Mergeable idents kinds := by
  constructor
  · intro hkeeps
    have hlen : ∀ k ∈ kinds, ∀ l ∈ kinds,
        clutLen k.u8RegionDepth = clutLen l.u8RegionDepth := by
      intro k hk l hl
      by_contra hne
      have heq := colors_of_painted (fun _ n =>
        if n = clutLen k.u8RegionDepth then { u8Red := 1 } else {}) (fun _ _ _ _ _ => rfl) hkeeps
        k hk l hl
      rw [if_pos rfl, if_neg (Ne.symm hne)] at heq
      exact absurd heq (by decide)
    refine ⟨hlen, or_iff_not_imp_right.mpr fun hown k hk l hl => ?_⟩
    by_contra hne
    by_cases hdepth : ∀ k ∈ kinds, ¬ (k.u8RegionDepth = 2 ∨ k.u8RegionDepth = 4)
    · -- nothing is merged: the table of `k` in one colour, all others in another one
      have heq := colors_of_painted (fun o _ =>
        if o = findIdent idents k.u8ClutId then { u8Red := 1 } else {})
        (fun k hk h => absurd h (hdepth k hk)) hkeeps k hk l hl
      rw [if_pos rfl, if_neg (Ne.symm hne)] at heq
      exact absurd heq (by decide)
    · -- the default table in one colour, all others in another one
      have hall : ∀ k ∈ kinds, k.u8RegionDepth = 2 ∨ k.u8RegionDepth = 4 := by
        simp only [not_forall, not_not] at hdepth
        obtain ⟨e, he, hdepth⟩ := hdepth
        intro k hk
        have hek := hlen e he k hk
        simp only [clutLen] at hek
        split_ifs at hek <;> omega
      have hnone : ∃ u ∈ kinds, findIdent idents u.u8ClutId = none := by
        by_contra hfound
        refine hown fun u hu => ⟨hall u hu, ?_⟩
        rw [Option.isSome_iff_ne_none]
        exact fun hu' => hfound ⟨u, hu, hu'⟩
      obtain ⟨u, hu, hfind⟩ := hnone
      have heq := colors_of_painted (fun o _ =>
        if o = none then { u8Red := 1 } else {}) (fun _ _ _ _ _ => rfl) hkeeps
      have hdefault : ∀ v ∈ kinds, findIdent idents v.u8ClutId = none := by
        intro v hv
        by_contra hsome
        have hvu := heq v hv u hu
        rw [hfind, if_pos rfl, if_neg hsome] at hvu
        exact absurd hvu (by decide)
      exact hne ((hdefault k hk).trans (hdefault l hl).symm)
  · rintro ⟨hlen, hcases⟩ h regions hpage
    have hkind : ∀ r ∈ regions, r.kind ∈ kinds := fun r hr => by
      rw [← hpage.kinds]
      exact List.mem_map_of_mem hr
    have hsize : ∀ r ∈ regions, ∀ s ∈ regions,
        clutLen r.u8RegionDepth = clutLen s.u8RegionDepth :=
      fun r hr s hs => hlen _ (hkind r hr) _ (hkind s hs)
    have hfind : ∀ r : ShowRegion,
        findClutId h.astClut r.u8ClutId = findIdent idents r.kind.u8ClutId := by
      intro r
      rw [findClutId_eq, hpage.idents]
      rfl
    match regions with
    | [] => exact fun r hr => absurd hr List.not_mem_nil
    | first :: others =>
      have hfirst := hkind first List.mem_cons_self
      rcases hcases with hsame | hown
      · have hall : ∀ r ∈ first :: others, findClutId h.astClut r.u8ClutId =
            findClutId h.astClut first.u8ClutId := by
          intro r hr
          rw [hfind, hfind]
          exact hsame _ (hkind r hr) _ hfirst
        cases hone : findClutId h.astClut first.u8ClutId with
        | none => exact keeps_none (fun r hr => (hall r hr).trans hone) hsize hpage.fresh
        | some i => exact keeps_one (fun r hr => (hall r hr).trans hone) hsize
      · refine keeps_merged hpage hten (hown _ hfirst).1 fun r hr => ⟨?_, ?_⟩
        · -- tables of 4 and of 16 entries are those of depths 2 and 4
          have hr₁ : r.u8RegionDepth = 2 ∨ r.u8RegionDepth = 4 := (hown _ (hkind r hr)).1
          have hr₂ : first.u8RegionDepth = 2 ∨ first.u8RegionDepth = 4 := (hown _ hfirst).1
          have heq := hsize r hr first List.mem_cons_self
          show r.u8RegionDepth = first.u8RegionDepth
          rcases hr₁ with h₁ | h₁ <;> rcases hr₂ with h₂ | h₂ <;> rw [h₁, h₂] at heq ⊢ <;>
            exact absurd heq (by decide)
        · rw [hfind]
          exact (hown _ (hkind r hr)).2

theorem keepsColors_iff_two :
    (∀ h regions, PageFor [⟨1, 0⟩, ⟨2, 0⟩] [⟨4, 1⟩, ⟨4, 2⟩] h regions → KeepsColors h regions) ↔
      Mergeable [⟨1, 0⟩, ⟨2, 0⟩] [⟨4, 1⟩, ⟨4, 2⟩] :=
  keepsColors_iff _ (by decide)

/-- A table that is red at 2 bits and blue at 4 bits. -/
def twoColors : Clut :=
  paintClut ⟨1, 0⟩ fun n => if n = 4 then { u8Red := 255 } else { u8Blue := 255 }

/-- A region of 4 bits is shown in the colours that its table has for 2 bits. -/
theorem depths_mixed :
    PageFor [⟨1, 0⟩] [⟨2, 1⟩, ⟨4, 1⟩] { astClut := [twoColors] } (dotsFrom 0 [⟨2, 1⟩, ⟨4, 1⟩]) ∧
      ¬ KeepsColors { astClut := [twoColors] } (dotsFrom 0 [⟨2, 1⟩, ⟨4, 1⟩]) := by
  obtain ⟨hkinds, hdots, hapart⟩ := dotsFrom_spec 0 [⟨2, 1⟩, ⟨4, 1⟩]
  constructor
  · refine ⟨by decide, hkinds, List.forall_mem_singleton.mpr (paintClut_sized _ _),
      ⟨List.length_replicate, List.length_replicate, List.length_replicate⟩,
      fun r hr => (hdots r hr).1, hapart, fun r _ x _ => ?_⟩
    show 0 < clutLen r.u8RegionDepth
    rw [clutLen]
    split_ifs <;> decide
  · intro hkeeps
    have hpixel := hkeeps _ (List.mem_cons_of_mem _ List.mem_cons_self) 1 ⟨by decide, by decide⟩
    exact absurd hpixel (by decide)

end Tntsat.SubtParse
