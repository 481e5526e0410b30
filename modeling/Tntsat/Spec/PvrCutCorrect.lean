import Mathlib.Algebra.Group.Nat.Defs
import Mathlib.Order.Bounds.Basic
import Mathlib.Order.Interval.Set.Defs
import Tntsat.Native.PvrIndexCut

/-!
# An event that is cut out of an index

The entries between two positions of the stream are those from the first one at or
behind the first position up to the last one at or before the second.  The loops of
`PVR_Index_CutEventPart` look for both below `u32EndFrame - 1`, and what they find at the
end of that range is not compared with the position.

## Key results

- `cutSearch_spec`: where the loops stop, whatever they are started with.
- `cutEventPart_iff`: when the function writes the entries it should.
-/

namespace Tntsat.PvrIndex

open PvrIdxCache (sizeofEntry)

/-! ## The two searches -/

section Search

variable {f : Nat → Nat} {K pos : Nat}

/-- What is known of the bounds between two rounds, and of what a search returns: the
    lower one lies before the position unless it is the first entry, the upper one
    behind it unless it is the last. -/
structure Brackets (f : Nat → Nat) (K pos s e : Nat) : Prop where
  upper_le : e ≤ K
  lower : s = 0 ∨ f s < pos
  upper : e = K ∨ pos < f e

/-- What a search returns: everything below the second position is before `pos`,
    everything above the first one, up to the last entry, is behind it. -/
structure Found (f : Nat → Nat) (K pos x y : Nat) : Prop where
  first_lt : x < K
  second_le : y ≤ K
  before_second : ∀ i, i < y → f i < pos
  second : y = K ∨ pos ≤ f y
  first : x = 0 ∨ f x ≤ pos
  behind_first : ∀ i, x < i → i < K → pos < f i

variable (hf : StrictMonoOn f (Set.Icc 0 K))

include hf

theorem lt_of_lt_of_le_last {i j : Nat} (hij : i < j) (hj : j ≤ K) : f i < f j :=
  hf ⟨Nat.zero_le i, by omega⟩ ⟨Nat.zero_le j, hj⟩ hij

/-- A search that hits the position. -/
theorem found_of_hit {m : Nat} (hm : m < K) (hhit : f m = pos) : Found f K pos m m where
  first_lt := hm
  second_le := Nat.le_of_lt hm
  before_second _ hi := hhit ▸ lt_of_lt_of_le_last hf hi (Nat.le_of_lt hm)
  second := .inr (Nat.le_of_eq hhit.symm)
  first := .inr (Nat.le_of_eq hhit)
  behind_first _ hi hK := hhit ▸ lt_of_lt_of_le_last hf hi (Nat.le_of_lt hK)

/-- A search that ends between two neighbours. -/
theorem found_of_neighbours {m : Nat} (hb : Brackets f K pos m (m + 1)) (hm : f m < pos) :
    Found f K pos m (m + 1) where
  first_lt := hb.upper_le
  second_le := hb.upper_le
  before_second i hi := by
    rcases Nat.eq_or_lt_of_le (Nat.le_of_lt_succ hi) with rfl | hlt
    · exact hm
    · exact Nat.lt_trans (lt_of_lt_of_le_last hf hlt (Nat.le_of_lt hb.upper_le)) hm
  second := hb.upper.imp_right Nat.le_of_lt
  first := .inr (Nat.le_of_lt hm)
  behind_first i hi hK := by
    rcases hb.upper with h | h
    · omega
    · rcases Nat.eq_or_lt_of_le (Nat.succ_le_of_lt hi) with rfl | hlt
      · exact h
      · exact Nat.lt_trans h (lt_of_lt_of_le_last hf hlt (Nat.le_of_lt hK))

/-- A search for a position before the first entry. -/
theorem found_of_first (hK : 0 < K) (h0 : pos < f 0) : Found f K pos 0 0 where
  first_lt := hK
  second_le := Nat.zero_le K
  before_second i hi := absurd hi (Nat.not_lt_zero i)
  second := .inr (Nat.le_of_lt h0)
  first := .inl rfl
  behind_first _ hi hK := Nat.lt_trans h0 (lt_of_lt_of_le_last hf hi (Nat.le_of_lt hK))

/-- A search stops within as many rounds as there are entries between its bounds, and
    finds the position. -/
theorem cutSearch_spec (hK : K < 2147483648) {fuel s e : Nat} (hse : s < e)
    (hfuel : e - s ≤ fuel) (hb : Brackets f K pos s e) :
    ∃ x y, cutSearch f pos fuel s e (u32 (s + e) / 2) = some (x, y) ∧ Found f K pos x y := by
  have hle := hb.upper_le
  induction fuel generalizing s e with
  | zero => omega
  | succ fuel ih =>
    rw [u32_of_lt (by omega)]
    generalize hm : (s + e) / 2 = m
    rw [cutSearch]
    dsimp only
    rcases Nat.lt_trichotomy (f m) pos with hlt | heq | hgt
    · -- behind the middle
      have hb' : Brackets f K pos m e := ⟨hle, .inr hlt, hb.upper⟩
      rw [if_pos hlt]
      split
      · rename_i hstop
        rw [u32_of_lt (by omega)] at hstop
        obtain rfl : e = m + 1 := by omega
        exact ⟨m, m + 1, rfl, found_of_neighbours hf hb' hlt⟩
      · rename_i hgo
        rw [u32_of_lt (by omega)] at hgo
        exact ih (by omega) (by omega) hb' hle
    · rw [if_neg (by omega), if_neg (by omega)]
      exact ⟨m, m, rfl, found_of_hit hf (by omega) heq⟩
    · -- before the middle
      rw [if_neg (by omega), if_pos hgt]
      split
      · rename_i hstop
        rw [u32_of_lt (by omega)] at hstop
        obtain rfl : s = m := by omega
        rcases hb.lower with rfl | hlow
        · exact ⟨0, 0, rfl, found_of_first hf (by omega) hgt⟩
        · omega
      · rename_i hgo
        rw [u32_of_lt (by omega)] at hgo
        exact ih (by omega) (by omega) ⟨by omega, hb.lower, .inr hgt⟩ (by omega)

end Search

/-! ## The index and the run of entries -/

/-- An index that does not loop: `u32EndFrame` of its header is its last entry, the
    offsets in the file and in the stream fit their types. -/
structure UnwrappedIndex (src : CutSource) (u32HeadInfoSize : Nat) : Prop where
  rises : StrictMonoOn (src.offset u32HeadInfoSize) (Set.Icc 0 src.header.u32EndFrame)
  fits : u32HeadInfoSize + (src.header.u32EndFrame + 1) * sizeofEntry ≤ 4294967296
  global_lt : ∀ m, m ≤ src.header.u32EndFrame →
    (src.read u32HeadInfoSize m).u64GlobalOffset < 18446744073709551616
  offset_lt : ∀ m, m ≤ src.header.u32EndFrame →
    (src.read u32HeadInfoSize m).u64Offset < 18446744073709551616

/-- The entries from `a` up to `b`, with their offsets counted from `startpos`. -/
def cutRun (src : CutSource) (u32HeadInfoSize startpos a b : Nat) : List IndexEntry :=
  (List.range (b - a)).map fun k =>
    let e := src.read u32HeadInfoSize (a + k)
    { e with
      u64GlobalOffset := e.u64GlobalOffset - startpos
      u64Offset := e.u64Offset - startpos }

/-- The entries written are those from the first one at or behind `startpos` up to the
    last one at or before `endpos`, none of them before `startpos`, and the header
    counts them. -/
structure CutsRun (src : CutSource) (u32HeadInfoSize startpos endpos : Nat) (out : CutOut)
    (a b : Nat) : Prop where
  first : IsLeast {i | i ≤ src.header.u32EndFrame ∧ startpos ≤ src.offset u32HeadInfoSize i} a
  last : IsGreatest {i | i ≤ src.header.u32EndFrame ∧ src.offset u32HeadInfoSize i ≤ endpos} b
  entries : out.entries = cutRun src u32HeadInfoSize startpos a b
  no_underflow : ∀ i, a ≤ i → i < b → startpos ≤ (src.read u32HeadInfoSize i).u64GlobalOffset ∧
    startpos ≤ (src.read u32HeadInfoSize i).u64Offset
  endFrame : out.header.u32EndFrame + 1 = out.entries.length
  lastFrame : out.header.u32LastFrame = out.header.u32EndFrame

/-- The part of an index that `PVR_Index_CutEventPart` cuts out right: at least two entries
    lie between the positions, the last two entries of the index lie behind them, and the
    offsets in the stream file are not before `startpos` either. -/
structure Cuttable (src : CutSource) (u32HeadInfoSize startpos endpos : Nat) : Prop where
  two : ∃ i j, i < j ∧ j ≤ src.header.u32EndFrame ∧ startpos ≤ src.offset u32HeadInfoSize i ∧
    src.offset u32HeadInfoSize j ≤ endpos
  before_last : endpos < src.offset u32HeadInfoSize (src.header.u32EndFrame - 1)
  offsets : ∀ i, i < src.header.u32EndFrame → startpos ≤ src.offset u32HeadInfoSize i →
    src.offset u32HeadInfoSize (i + 1) ≤ endpos → startpos ≤ (src.read u32HeadInfoSize i).u64Offset

theorem length_writeCut (src : CutSource)
    (shareFlagTsFile u32HeadInfoSize startpos findstart findend : Nat) :
    (writeCut src shareFlagTsFile u32HeadInfoSize startpos findstart findend).entries.length =
      findend - findstart := by
  simp only [writeCut, CutSource.readRun, List.length_map, List.length_range]

/-- What the searches found, when the run that was written is the right one. -/
theorem cuttable_of_cutsRun {src : CutSource}
    {u32HeadInfoSize startpos endpos x findstart findend y shareFlagTsFile a b : Nat}
    (hfs : Found (src.offset u32HeadInfoSize) (src.header.u32EndFrame - 1) startpos x findstart)
    (hfe : Found (src.offset u32HeadInfoSize) (src.header.u32EndFrame - 1) endpos findend y)
    (hcut : CutsRun src u32HeadInfoSize startpos endpos
      (writeCut src shareFlagTsFile u32HeadInfoSize startpos findstart findend) a b) :
    Cuttable src u32HeadInfoSize startpos endpos := by
  have hlen := length_writeCut src shareFlagTsFile u32HeadInfoSize startpos findstart findend
  have hab : findend - findstart = b - a := by
    rw [← hlen, hcut.entries]
    simp [cutRun]
  -- an empty run would be counted as 2 ^ 32 entries
  have hpos : 0 < b - a := by
    have hend := hcut.endFrame
    rw [hlen, hab] at hend
    omega
  obtain ⟨⟨ha, ha'⟩, hleast⟩ := hcut.first
  obtain ⟨⟨hb, hb'⟩, hgreatest⟩ := hcut.last
  have hx := hfe.first_lt
  have hfsa : findstart = a := by
    refine Nat.le_antisymm (Nat.le_of_not_lt fun h => ?_) (hleast ⟨by omega, ?_⟩)
    · exact absurd (hfs.before_second a h) (by omega)
    · exact hfs.second.resolve_left (by omega)
  have hfeb : findend = b := by omega
  have hlast : endpos < src.offset u32HeadInfoSize (src.header.u32EndFrame - 1) := by
    refine Nat.lt_of_not_le fun h => ?_
    have := hgreatest ⟨Nat.sub_le _ _, h⟩
    omega
  refine ⟨⟨a, b, by omega, hb, ha', hb'⟩, hlast, fun i hlt hi1 hi2 => ?_⟩
  exact (hcut.no_underflow i (hleast ⟨by omega, hi1⟩) (hgreatest ⟨hlt, hi2⟩)).2

section Index

variable {src : CutSource} {u32HeadInfoSize : Nat} (hi : UnwrappedIndex src u32HeadInfoSize)

include hi

theorem readRun_eq {a b : Nat} (hb : b ≤ src.header.u32EndFrame) :
    src.readRun u32HeadInfoSize a b =
      (List.range (b - a)).map fun k => src.read u32HeadInfoSize (a + k) := by
  have hfits := hi.fits
  apply List.map_congr_left
  intro k hk
  rw [List.mem_range] at hk
  unfold CutSource.read
  unfold sizeofEntry at hfits ⊢
  rw [u32_of_lt (by omega), u32_of_lt (by omega), Nat.add_mul, Nat.add_assoc]

/-- Without underflow the subtractions of the source are subtractions. -/
theorem map_rebase_eq {startpos a b : Nat} (hb : b ≤ src.header.u32EndFrame)
    (hle : ∀ i, a ≤ i → i < b → startpos ≤ (src.read u32HeadInfoSize i).u64GlobalOffset ∧
      startpos ≤ (src.read u32HeadInfoSize i).u64Offset) :
    (src.readRun u32HeadInfoSize a b).map (·.rebase startpos) =
      cutRun src u32HeadInfoSize startpos a b := by
  rw [readRun_eq hi hb, List.map_map]
  apply List.map_congr_left
  intro k hk
  rw [List.mem_range] at hk
  have h := hle (a + k) (by omega) (by omega)
  simp only [Function.comp, IndexEntry.rebase]
  rw [u64sub_of_le h.1 (hi.global_lt _ (by omega)), u64sub_of_le h.2 (hi.offset_lt _ (by omega))]

theorem offset_lt_offset {i j : Nat} (hij : i < j) (hj : j ≤ src.header.u32EndFrame) :
    src.offset u32HeadInfoSize i < src.offset u32HeadInfoSize j :=
  hi.rises ⟨Nat.zero_le i, by omega⟩ ⟨Nat.zero_le j, hj⟩ hij

theorem offset_le_offset {i j : Nat} (hij : i ≤ j) (hj : j ≤ src.header.u32EndFrame) :
    src.offset u32HeadInfoSize i ≤ src.offset u32HeadInfoSize j := by
  rcases Nat.eq_or_lt_of_le hij with rfl | hlt
  · exact Nat.le_refl _
  · exact Nat.le_of_lt (offset_lt_offset hi hlt hj)

theorem endFrame_lt : src.header.u32EndFrame < 2147483648 := by
  have := hi.fits
  unfold sizeofEntry at this
  omega

variable {startpos endpos : Nat}

/-- Both positions are found, and the entries between them are written. -/
theorem cutEventPart_eq (startpos endpos : Nat) (h5 : 5 ≤ src.header.u32EndFrame) {fuel : Nat}
    (hfuel : src.header.u32EndFrame ≤ fuel) :
    ∃ x findstart findend y,
      Found (src.offset u32HeadInfoSize) (src.header.u32EndFrame - 1) startpos x findstart ∧
      Found (src.offset u32HeadInfoSize) (src.header.u32EndFrame - 1) endpos findend y ∧
      ∀ shareFlagTsFile,
        cutEventPart src shareFlagTsFile u32HeadInfoSize startpos endpos fuel =
          some (writeCut src shareFlagTsFile u32HeadInfoSize startpos findstart findend) := by
  have hlt := endFrame_lt hi
  have hrise : StrictMonoOn (src.offset u32HeadInfoSize)
      (Set.Icc 0 (src.header.u32EndFrame - 1)) :=
    fun i h j h' hij => hi.rises ⟨h.1, Nat.le_trans h.2 (Nat.sub_le _ _)⟩
      ⟨h'.1, Nat.le_trans h'.2 (Nat.sub_le _ _)⟩ hij
  -- the offsets rise, so both searches end between two neighbours
  have hfind (pos : Nat) : ∃ x y, cutSearch (src.offset u32HeadInfoSize) pos fuel 0
      (src.header.u32EndFrame - 1) (u32 (0 + (src.header.u32EndFrame - 1)) / 2) = some (x, y) ∧
      Found (src.offset u32HeadInfoSize) (src.header.u32EndFrame - 1) pos x y :=
    cutSearch_spec hrise (by omega) (by omega) (by omega) ⟨Nat.le_refl _, .inl rfl, .inl rfl⟩
  obtain ⟨x, findstart, hstart, hfs⟩ := hfind startpos
  obtain ⟨findend, y, hend, hfe⟩ := hfind endpos
  have hy := hfs.second_le
  have hx := hfe.first_lt
  refine ⟨x, findstart, findend, y, hfs, hfe, fun shareFlagTsFile => ?_⟩
  rw [cutEventPart, if_neg (by omega)]
  dsimp only
  rw [hstart, hend]
  dsimp only
  rw [if_neg (by omega)]

/-- What the searches find in a part that can be cut out. -/
theorem cutsRun_of_cuttable {x findstart findend y : Nat}
    (hfs : Found (src.offset u32HeadInfoSize) (src.header.u32EndFrame - 1) startpos x findstart)
    (hfe : Found (src.offset u32HeadInfoSize) (src.header.u32EndFrame - 1) endpos findend y)
    (hcut : Cuttable src u32HeadInfoSize startpos endpos) (shareFlagTsFile : Nat) :
    CutsRun src u32HeadInfoSize startpos endpos
      (writeCut src shareFlagTsFile u32HeadInfoSize startpos findstart findend)
      findstart findend := by
  obtain ⟨i, j, hij, hj, hi1, hj1⟩ := hcut.two
  have hlt := endFrame_lt hi
  have hfe_lt := hfe.first_lt
  -- nothing from the last but one entry on is before the second position
  have hbelow : ∀ k, k ≤ src.header.u32EndFrame → src.offset u32HeadInfoSize k ≤ endpos →
      k < src.header.u32EndFrame - 1 := by
    intro k hk hle
    by_contra hge
    have := offset_le_offset hi (Nat.le_of_not_lt hge) hk
    have := hcut.before_last
    omega
  have hjK := hbelow j hj hj1
  have hfsi : findstart ≤ i := by
    by_contra h
    exact absurd (hfs.before_second i (by omega)) (by omega)
  have hjfe : j ≤ findend := by
    by_contra h
    exact absurd (hfe.behind_first j (by omega) hjK) (by omega)
  have hstart : startpos ≤ src.offset u32HeadInfoSize findstart :=
    hfs.second.resolve_left (by omega)
  have hend : src.offset u32HeadInfoSize findend ≤ endpos := hfe.first.resolve_left (by omega)
  have hno : ∀ k, findstart ≤ k → k < findend →
      startpos ≤ (src.read u32HeadInfoSize k).u64GlobalOffset ∧
        startpos ≤ (src.read u32HeadInfoSize k).u64Offset := by
    intro k hk1 hk2
    have hglobal := Nat.le_trans hstart (offset_le_offset hi hk1 (by omega))
    exact ⟨hglobal, hcut.offsets k (by omega) hglobal
      (Nat.le_trans (offset_le_offset hi hk2 (by omega)) hend)⟩
  refine ⟨⟨⟨by omega, hstart⟩, fun k hk => ?_⟩, ⟨⟨by omega, hend⟩, fun k hk => ?_⟩,
    map_rebase_eq hi (by omega) hno, hno, ?_, rfl⟩
  · by_contra h
    exact absurd (hfs.before_second k (by omega)) (Nat.not_lt_of_le hk.2)
  · by_contra h
    exact absurd (hfe.behind_first k (by omega) (hbelow k hk.1 hk.2)) (Nat.not_lt_of_le hk.2)
  · have hlen := length_writeCut src shareFlagTsFile u32HeadInfoSize startpos findstart findend
    have hheader : (writeCut src shareFlagTsFile u32HeadInfoSize startpos findstart
        findend).header.u32EndFrame = u32sub (findend - findstart) 1 := by
      rw [← hlen]
      rfl
    rw [hheader, hlen, u32sub_of_le (by omega) (by omega)]
    omega

/-- `PVR_Index_CutEventPart` returns, within as many rounds of its loops as the index has
    entries, and fails or writes the right entries exactly for a short index and for a
    part that can be cut out. -/
theorem cutEventPart_iff (shareFlagTsFile : Nat) {fuel : Nat}
    (hfuel : src.header.u32EndFrame ≤ fuel) :
    ∃ out, cutEventPart src shareFlagTsFile u32HeadInfoSize startpos endpos fuel = some out ∧
      ((out.ret = -1 ∨ ∃ a b, CutsRun src u32HeadInfoSize startpos endpos out a b) ↔
        src.header.u32EndFrame < 5 ∨ Cuttable src u32HeadInfoSize startpos endpos) := by
  rcases Nat.lt_or_ge src.header.u32EndFrame 5 with h5 | h5
  · exact ⟨_, if_pos h5, iff_of_true (.inl rfl) (.inl h5)⟩
  obtain ⟨x, findstart, findend, y, hfs, hfe, heq⟩ :=
    cutEventPart_eq hi startpos endpos h5 hfuel
  refine ⟨_, heq shareFlagTsFile, ⟨?_, ?_⟩⟩
  · rintro (hret | ⟨a, b, hcut⟩)
    · -- the value returned is an unsigned one
      have hnonneg : 0 ≤ (writeCut src shareFlagTsFile u32HeadInfoSize startpos findstart
        findend).ret := Int.natCast_nonneg _
      omega
    · exact .inr (cuttable_of_cutsRun hfs hfe hcut)
  · rintro (hlt | hcut)
    · omega
    · exact .inr ⟨findstart, findend, cutsRun_of_cuttable hi hfs hfe hcut shareFlagTsFile⟩

end Index

/-- Ten entries, one hundred bytes of stream each, behind a header-zone of 40 bytes. -/
def tenEntries : CutSource where
  header := { u32EndFrame := 9, u32LastFrame := 9 }
  entryAt off := { u64GlobalOffset := (off / 40 - 1) * 100, u64Offset := (off / 40 - 1) * 100 }

theorem unwrappedIndex_tenEntries : UnwrappedIndex tenEntries 40 where
  rises i hi j hj hij := by
    have hi9 : i ≤ 9 := hi.2
    have hj9 : j ≤ 9 := hj.2
    simp only [CutSource.offset, CutSource.read, tenEntries, sizeofEntry]
    rw [u32_of_lt (by omega), u32_of_lt (by omega)]
    omega
  fits := by decide
  global_lt := by decide
  offset_lt := by decide

/-- Three hundred bytes from the middle of ten entries. -/
theorem cutEventPart_iff_tenEntries :
    ∃ out, cutEventPart tenEntries 0 40 200 500 9 = some out ∧
      ((out.ret = -1 ∨ ∃ a b, CutsRun tenEntries 40 200 500 out a b) ↔
        tenEntries.header.u32EndFrame < 5 ∨ Cuttable tenEntries 40 200 500) :=
  cutEventPart_iff unwrappedIndex_tenEntries 0 (Nat.le_refl 9)

/-- Where there is no entry between the positions the header that is written counts
    `2 ^ 32 - 1` of them; and an event that goes up to the last entry loses its end. -/
theorem cutEventPart_miscounts :
    UnwrappedIndex tenEntries 40 ∧
      (∃ out, cutEventPart tenEntries 0 40 350 350 9 = some out ∧ out.ret ≠ -1 ∧
        out.header.u32EndFrame = 4294967295 ∧ ¬ ∃ a b, CutsRun tenEntries 40 350 350 out a b) ∧
      (cutEventPart tenEntries 0 40 100 900 9).map (·.entries.length) = some 6 := by
  refine ⟨unwrappedIndex_tenEntries, ⟨_, rfl, by decide, by decide, ?_⟩, by decide⟩
  rintro ⟨a, b, hcut⟩
  exact absurd hcut.endFrame (by decide)

end Tntsat.PvrIndex
