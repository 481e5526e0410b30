import Mathlib.Algebra.Group.Nat.Defs
import Mathlib.Data.List.Basic
import Mathlib.Data.List.Chain
import Tntsat.Native.PvrRecIndex

/-!
# Start codes and frames

Every start code that `Dmx_AcquireRecIndex` caches is an entry of the stream, and the
entries give the frames: a picture's frame goes from the sequence headers in front of it
up to the next entry, and has the PTS that was valid last.

The code takes only the last header in front of a picture, and takes for a PTS that is not
valid what the record holds, which a call starts with 0.

## Key results

- `acquireLoop_spec`: what a call reads, and the frame it returns
- `frames_spec`: the frames of a run are those of the stream, as long as no header stands
  directly behind another one at a different offset and the first PTS that a call reads is
  valid
- `pts_forgotten`, `header_dropped`: what happens otherwise
-/

namespace Tntsat.PvrRecIndex

open PvrShm (VcodecType)

/-! ## The frames of a stream -/

/-- A start code that is cached, with the PTS that was valid last. -/
structure Entry where
  type : IndexType
  offset : Nat
  pts : Nat
deriving DecidableEq

/-- Where a frame lies, and its PTS. -/
structure Frame where
  offset : Nat
  size : Nat
  pts : Nat
deriving DecidableEq

/-- The first of the headers that stand directly in front of a picture, or the picture. -/
def frameStart (before : List Entry) (picture : Entry) : Nat :=
  ((before.reverse.takeWhile fun e => e.type = .pts).getLast?.getD picture).offset

/-- What the code takes for it: the header that stands directly in front of the picture. -/
def lastStart (before : List Entry) (picture : Entry) : Nat :=
  ((before.getLast?.filter fun e => e.type = .pts).getD picture).offset

/-- The frame of entry `i`: it must be a picture, not the first entry, and not the last. -/
def frameAt (start : List Entry → Entry → Nat) (es : List Entry) (i : Nat) : Option Frame :=
  match es[i]?, es[i + 1]? with
  | some picture, some next =>
    if 0 < i ∧ picture.type = .stc then
      some
        { offset := start (es.take i) picture
          size := u32 (u64sub next.offset (start (es.take i) picture))
          pts := picture.pts }
    else none
  | _, _ => none

/-- The frames of a stream, in its order. -/
def framesOf (start : List Entry → Entry → Nat) (es : List Entry) : List Frame :=
  (List.range es.length).filterMap (frameAt start es)

section Frames

variable {start : List Entry → Entry → Nat} {es : List Entry}

theorem frameAt_append {i : Nat} (hi : i + 1 < es.length) (e : Entry) :
    frameAt start (es ++ [e]) i = frameAt start es i := by
  simp only [frameAt, List.getElem?_append_left hi,
    List.getElem?_append_left (Nat.lt_of_succ_lt hi),
    List.take_append_of_le_length (Nat.le_of_lt (Nat.lt_of_succ_lt hi))]

/-- Nothing comes of the last entry. -/
theorem frameAt_last (es : List Entry) (i : Nat) (hi : es.length ≤ i + 1) :
    frameAt start es i = none := by
  rw [frameAt, List.getElem?_eq_none hi]
  split
  · rename_i hnone
    cases hnone
  · rfl

/-- The frame that one more entry completes. -/
theorem framesOf_snoc (p e : Entry) :
    framesOf start (es ++ [p] ++ [e]) = framesOf start (es ++ [p]) ++
      if es ≠ [] ∧ p.type = .stc then
        [{ offset := start es p, size := u32 (u64sub e.offset (start es p)), pts := p.pts }]
      else [] := by
  -- an entry more changes none of the frames before
  have hold : (List.range es.length).filterMap (frameAt start (es ++ [p] ++ [e])) =
      (List.range es.length).filterMap (frameAt start (es ++ [p])) := by
    apply List.filterMap_congr
    intro i hi
    apply frameAt_append
    rw [List.length_append, List.length_singleton]
    have hlt := List.mem_range.mp hi
    omega
  -- but the one it ends, whose size is now known
  have hnew : frameAt start (es ++ [p] ++ [e]) es.length =
      if es ≠ [] ∧ p.type = .stc then
        some { offset := start es p, size := u32 (u64sub e.offset (start es p)), pts := p.pts }
      else none := by
    have hpos : 0 < es.length ↔ es ≠ [] := List.length_pos_iff
    simp [frameAt, hpos]
  rw [framesOf, framesOf, List.length_append, List.length_append, List.length_singleton,
    List.length_singleton, List.range_succ, List.range_succ, List.filterMap_append,
    List.filterMap_append, List.filterMap_append, hold]
  simp only [List.filterMap_cons, List.filterMap_nil, hnew]
  rw [frameAt_last (es ++ [p]) es.length (by simp),
    frameAt_last (es ++ [p] ++ [e]) (es.length + 1) (by simp)]
  by_cases hc : es ≠ [] ∧ p.type = .stc
  · rw [if_pos hc, if_pos hc]
    simp
  · rw [if_neg hc, if_neg hc]

/-- No entry completes a frame of the first one. -/
theorem framesOf_single (e : Entry) : framesOf start [e] = [] := by
  simp [framesOf, frameAt_last]

/-- Streams that start their frames at the same places. -/
theorem framesOf_congr {start' : List Entry → Entry → Nat}
    (h : ∀ pre p post, es = pre ++ p :: post → p.type = .stc → start pre p = start' pre p) :
    framesOf start es = framesOf start' es := by
  apply List.filterMap_congr
  intro i hi
  have hlt := List.mem_range.mp hi
  have hsplit : es = es.take i ++ es[i] :: es.drop (i + 1) := by
    rw [← List.drop_eq_getElem_cons hlt, List.take_append_drop]
  have hstart := h _ _ _ hsplit
  rw [frameAt, frameAt, List.getElem?_eq_getElem hlt]
  cases es[i + 1]? with
  | none => rfl
  | some next =>
    dsimp only
    by_cases hc : 0 < i ∧ es[i].type = .stc
    · rw [if_pos hc, if_pos hc, hstart hc.2]
    · rw [if_neg hc, if_neg hc]

end Frames

/-! ## Headers behind headers -/

/-- A header that stands directly behind another one lies at the same offset. -/
def HeadersOk (es : List Entry) : Prop :=
  es.IsChain fun a b => a.type = .pts → b.type = .pts → a.offset = b.offset

instance (es : List Entry) : Decidable (HeadersOk es) :=
  inferInstanceAs (Decidable (es.IsChain _))

/-- The first and the last header of a run. -/
theorem runStart_eq {l : List Entry} (picture : Entry)
    (h : l.IsChain fun a b => b.type = .pts → a.type = .pts → b.offset = a.offset) :
    ((l.takeWhile fun e => e.type = .pts).getLast?.getD picture).offset =
      ((l.head?.filter fun e => e.type = .pts).getD picture).offset := by
  induction l with
  | nil => rfl
  | cons a l ih =>
    by_cases ha : a.type = .pts
    · cases l with
      | nil => simp [ha, Option.filter]
      | cons b l =>
        obtain ⟨hab, hl⟩ := List.isChain_cons_cons.mp h
        have hrest := ih hl
        by_cases hb : b.type = .pts
        · simp only [List.takeWhile_cons, hb, decide_true, if_true, List.head?_cons,
            Option.filter_some, Option.getD_some] at hrest
          simp only [List.takeWhile_cons, ha, hb, decide_true, if_true, List.head?_cons,
            Option.filter_some, Option.getD_some, List.getLast?_cons_cons]
          rw [hrest]
          exact hab hb ha
        · simp [ha, hb, Option.filter]
    · simp [ha, Option.filter]

theorem frameStart_eq {pre : List Entry} (picture : Entry) (h : HeadersOk pre) :
    frameStart pre picture = lastStart pre picture := by
  rw [frameStart, lastStart, runStart_eq picture, List.head?_reverse]
  exact List.isChain_reverse.mpr h

theorem framesOf_eq {es : List Entry} (h : HeadersOk es) :
    framesOf frameStart es = framesOf lastStart es := by
  apply framesOf_congr
  rintro pre p post rfl -
  exact frameStart_eq p (List.IsChain.left_of_append h)

/-! ## The order of the frames -/

section Order

variable {es : List Entry}

/-- Where the frame of entry `i` starts. -/
theorem lastStart_take {i : Nat} (hi : 0 < i) (hlt : i < es.length) :
    lastStart (es.take i) es[i] =
      if es[i - 1].type = .pts then es[i - 1].offset else es[i].offset := by
  have hlast : (es.take i).getLast? = some es[i - 1] := by
    rw [List.getLast?_take, if_neg (by omega), List.getElem?_eq_getElem (by omega)]
    rfl
  rw [lastStart, hlast]
  by_cases hp : es[i - 1].type = .pts
  · simp [hp, Option.filter]
  · simp [hp, Option.filter]

theorem frameAt_eq_some {start : List Entry → Entry → Nat} {i : Nat} {f : Frame}
    (h : frameAt start es i = some f) :
    ∃ hlt : i + 1 < es.length, 0 < i ∧ es[i].type = .stc ∧ f.offset = start (es.take i) es[i] ∧
      f.size = u32 (u64sub es[i + 1].offset f.offset) := by
  have hlt : i + 1 < es.length := by
    by_contra hge
    rw [frameAt_last es i (Nat.le_of_not_lt hge)] at h
    cases h
  rw [frameAt, List.getElem?_eq_getElem hlt, List.getElem?_eq_getElem (Nat.lt_of_succ_lt hlt)] at h
  dsimp only at h
  split at h
  · rename_i hc
    cases h
    exact ⟨hlt, hc.1, hc.2, rfl, rfl⟩
  · cases h

/-- The frames of a stream whose offsets do not fall follow one another. -/
theorem framesOf_ordered (hsorted : es.Pairwise fun a b => a.offset ≤ b.offset)
    (hsmall : ∀ e ∈ es, e.offset < 2 ^ 64) :
    (framesOf lastStart es).Pairwise fun f g => f.offset + f.size ≤ g.offset := by
  rw [framesOf, List.pairwise_filterMap]
  apply List.Pairwise.imp _ List.pairwise_lt_range
  intro i j hij f hf g hg
  obtain ⟨hi, hi0, histc, hfo, hfs⟩ := frameAt_eq_some hf
  obtain ⟨hj, hj0, -, hgo, -⟩ := frameAt_eq_some hg
  have hle : ∀ a b (ha : a < es.length) (hb : b < es.length), a ≤ b →
      es[a].offset ≤ es[b].offset := by
    intro a b ha hb hab
    rcases Nat.eq_or_lt_of_le hab with rfl | hlt
    · exact Nat.le_refl _
    · exact List.pairwise_iff_getElem.mp hsorted a b ha hb hlt
  -- the frame ends with the next entry
  have hend : f.offset + f.size ≤ es[i + 1].offset := by
    have hstart : f.offset ≤ es[i + 1].offset := by
      rw [hfo, lastStart_take hi0 (by omega)]
      split
      · exact hle _ _ (by omega) hi (by omega)
      · exact hle _ _ (by omega) hi (by omega)
    have hsub := u64sub_of_le hstart (hsmall _ (List.getElem_mem hi))
    have hmod : f.size ≤ es[i + 1].offset - f.offset := by
      rw [hfs, hsub]
      exact Nat.mod_le _ _
    omega
  apply Nat.le_trans hend
  rw [hgo, lastStart_take hj0 (by omega)]
  split
  · -- a header in front of the later picture is not the earlier picture
    rename_i hheader
    have hne : j - 1 ≠ i := by
      rintro rfl
      rw [hheader] at histc
      cases histc
    exact hle _ _ hi (by omega) (by omega)
  · exact hle _ _ hi (by omega) (by omega)

end Order

/-! ## The entries of the index -/

/-- What a start code is cached as. -/
def startCodeType (vtype : VcodecType) (hdr : HdrData) : Option IndexType :=
  if softfilterStc vtype hdr.w0 then
    if isSequenceHeader vtype hdr.w0 then some .pts
    else if isFirstSlice vtype hdr.w1 then some .stc
    else none
  else none

/-- The PTS of a word, if it is valid. -/
def validPts : IdxData → Option Nat
  | .dts pts pts_vld => if pts_vld ∧ pts ≠ 0 then some (ptsMs pts) else none
  | _ => none

/-- What has been seen of the stream: the PTS that was valid last, and the entries. -/
structure Seen where
  latest : Nat := 0
  entries : List Entry := []

/-- One word more. -/
def see (vtype : VcodecType) (t : Seen) : IdxData → Seen
  | .es_sc rec_ch_num sc_offset hdr =>
    match startCodeType vtype hdr with
    | some type =>
      { t with entries := t.entries ++ [⟨type, scOffset vtype rec_ch_num sc_offset, t.latest⟩] }
    | none => t
  | w => { t with latest := (validPts w).getD t.latest }

/-- What a list of words shows. -/
def seen (vtype : VcodecType) (words : List IdxData) : Seen := words.foldl (see vtype) {}

/-- The words are PTS pairs and start codes; the second word of a pair may still be missing
    at the end. -/
def Paired : List IdxData → Bool
  | [] => true
  | [.pts _] => true
  | .pts _ :: .dts _ _ :: words => Paired words
  | .es_sc _ _ _ :: words => Paired words
  | _ => false

/-- The offsets of the start codes that are cached. -/
def offsets (vtype : VcodecType) (words : List IdxData) : List Nat :=
  (seen vtype words).entries.map Entry.offset

/-- The first PTS that a call reads is valid; `types` are those of the cached entries. -/
def FirstPtsValid (vtype : VcodecType) : List IndexType → List IdxData → Bool
  | _, .pts _ :: second :: _ => (validPts second).isSome
  | types, .es_sc _ _ hdr :: next :: words =>
    match startCodeType vtype hdr with
    | none => FirstPtsValid vtype types (next :: words)
    | some type =>
      -- with one more entry the frame of a picture is complete, and the call returns
      if types.length = 2 ∧ types.getLast? = some .stc then true
      else FirstPtsValid vtype ((types ++ [type]).drop (types.length - 1)) (next :: words)
  | _, _ => true

/-- The parts of a cached entry that its frame is made of. -/
def IndexInfor.entry (c : IndexInfor) : Entry := ⟨c.type, c.offset, c.pts⟩

/-- The frame that a call returns. -/
def RecIndexRaw.frame (r : RecIndexRaw) : Frame :=
  ⟨r.publicindex.u64GlobalOffset, r.publicindex.u32FrameSize, r.publicindex.u32PtsMs⟩

section Words

variable {vtype : VcodecType}

theorem ptsMs_lt (pts : Nat) : ptsMs pts < 0xffffffff := by
  have hlt : u32 (pts / 2) < 4294967296 := Nat.mod_lt _ (by decide)
  unfold ptsMs
  omega

theorem validPts_lt {w : IdxData} {ms : Nat} (h : validPts w = some ms) : ms < 0xffffffff := by
  cases w with
  | dts pts pts_vld =>
    simp only [validPts] at h
    split at h
    · cases h
      exact ptsMs_lt pts
    · cases h
  | es_sc rec_ch_num sc_offset hdr => cases h
  | pts rec_ch_num => cases h
  | ts_head => cases h

theorem scOffset_lt (rec_ch_num sc_offset : Nat) :
    scOffset vtype rec_ch_num sc_offset < 2 ^ 64 := by
  have hlt : u32 rec_ch_num < 4294967296 := Nat.mod_lt _ (by decide)
  have hmod : sc_offset % 256 < 256 := Nat.mod_lt _ (by decide)
  unfold scOffset
  split <;> omega

/-- The record behind a PTS pair: its PTS if that is valid. -/
theorem readPts_pts (r : RecIndexRaw) (rec_ch_num : Nat) (second : IdxData) :
    (r.readPts rec_ch_num second).publicindex.u32PtsMs =
      (validPts second).getD r.publicindex.u32PtsMs := by
  cases second with
  | dts pts pts_vld =>
    simp only [RecIndexRaw.readPts, validPts]
    split
    · rfl
    · rfl
  | es_sc rec_ch_num sc_offset hdr => rfl
  | pts rec_ch_num => rfl
  | ts_head => rfl

/-- A start code that is cached goes behind the others. -/
theorem cacheStartCode_spec (vtype : VcodecType) (im : IndexManage) (r : RecIndexRaw)
    (rec_ch_num sc_offset : Nat) (hdr : HdrData) :
    let im' := cacheStartCode vtype im (r.readSc vtype rec_ch_num sc_offset hdr)
    im'.nowpts = im.nowpts ∧ im'.cachedindex.map IndexInfor.entry =
      im.cachedindex.map IndexInfor.entry ++
        match startCodeType vtype hdr with
        | some type => [⟨type, scOffset vtype rec_ch_num sc_offset, im.nowpts⟩]
        | none => [] := by
  have h0 : (r.readSc vtype rec_ch_num sc_offset hdr).u32HdrData.w0 = hdr.w0 := by
    simp only [RecIndexRaw.readSc]
    split <;> rfl
  have h1 : (r.readSc vtype rec_ch_num sc_offset hdr).u32HdrData.w1 = hdr.w1 := by
    simp only [RecIndexRaw.readSc]
    split <;> rfl
  simp only [cacheStartCode, startCodeType, h0, h1]
  cases softfilterStc vtype hdr.w0 with
  | false => simp
  | true =>
    cases isSequenceHeader vtype hdr.w0 with
    | true => simp [IndexInfor.entry, RecIndexRaw.readSc]
    | false =>
      cases isFirstSlice vtype hdr.w1 with
      | true => simp [IndexInfor.entry, RecIndexRaw.readSc]
      | false => simp

end Words

/-! ## A call -/

section Call

variable {vtype : VcodecType}

/-- The state behind a part of the stream: the PTS, and the last two entries. -/
structure Tracks (t : Seen) (im : IndexManage) : Prop where
  nowpts : im.nowpts = t.latest
  window : im.cachedindex.map IndexInfor.entry = t.entries.drop (t.entries.length - 2)
  latest_lt : t.latest < 0xffffffff
  pts_lt : ∀ e ∈ t.entries, e.pts < 0xffffffff

theorem deal_short {im : IndexManage} (r : RecIndexRaw) (h : im.cachedindex.length ≤ 2) :
    deal vtype im r = (none, im) := by
  unfold deal
  split
  · rename_i c0 c1 c2 heq
    rw [heq] at h
    simp at h
  · rfl

/-- A full window gives the frame that the last entry completes, if it does complete one. -/
theorem deal_spec (vtype : VcodecType) {es : List Entry} {e : Entry} {im : IndexManage}
    (r : RecIndexRaw)
    (hw : im.cachedindex.map IndexInfor.entry = es.drop (es.length - 2) ++ [e])
    (hpts : ∀ e ∈ es, e.pts < 0xffffffff) :
    (deal vtype im r).2.nowpts = im.nowpts ∧
      (deal vtype im r).2.cachedindex.map IndexInfor.entry =
        (es ++ [e]).drop ((es ++ [e]).length - 2) ∧
      framesOf lastStart (es ++ [e]) =
        framesOf lastStart es ++ ((deal vtype im r).1.map RecIndexRaw.frame).toList ∧
      ((deal vtype im r).1 = none →
        ¬ (2 ≤ es.length ∧ es.getLast?.map Entry.type = some .stc)) := by
  have hlen := congrArg List.length hw
  rw [List.length_map] at hlen
  rcases es.eq_nil_or_concat' with rfl | ⟨pre, p, rfl⟩
  · -- the first entry
    rw [deal_short r (by simp at hlen; omega)]
    refine ⟨rfl, by simpa using hw, ?_, by simp⟩
    rw [List.nil_append, framesOf_single]
    rfl
  · rcases pre.eq_nil_or_concat' with rfl | ⟨pre, a, rfl⟩
    · -- the second one
      rw [deal_short r (by simp at hlen; omega)]
      refine ⟨rfl, by simpa using hw, ?_, by simp⟩
      rw [framesOf_snoc]
      simp
    · have hdrop : (pre ++ [a] ++ [p]).drop ((pre ++ [a] ++ [p]).length - 2) = [a, p] := by
        rw [List.append_assoc, List.length_append]
        exact List.drop_left
      have hdrop' : (pre ++ [a] ++ [p] ++ [e]).drop ((pre ++ [a] ++ [p] ++ [e]).length - 2) =
          [p, e] := by
        rw [List.append_assoc, List.length_append]
        exact List.drop_left
      rw [hdrop] at hw
      obtain ⟨c0, c1, c2, hc, h0, h1, h2⟩ : ∃ c0 c1 c2, im.cachedindex = [c0, c1, c2] ∧
          c0.entry = a ∧ c1.entry = p ∧ c2.entry = e := by
        obtain ⟨c0, l, rfl_0, h0, hl⟩ := List.map_eq_cons_iff.mp hw
        obtain ⟨c1, l', rfl, h1, hl'⟩ := List.map_eq_cons_iff.mp hl
        obtain ⟨c2, l'', rfl, h2, hl''⟩ := List.map_eq_cons_iff.mp hl'
        rw [List.map_eq_nil_iff] at hl''
        subst hl''
        exact ⟨c0, c1, c2, rfl_0, h0, h1, h2⟩
      have hp : c1.pts ≠ 0xffffffff := by
        have hlt := hpts p (by simp)
        rw [← h1] at hlt
        exact Nat.ne_of_lt hlt
      rw [hdrop', framesOf_snoc]
      simp only [deal, hc, hp, if_false]
      by_cases hstc : c1.type = .stc
      · -- the picture in the middle
        have hpstc : p.type = .stc := by
          rw [← h1]
          exact hstc
        rw [if_pos hstc]
        refine ⟨rfl, by simp [h1, h2], ?_, by simp⟩
        have hlast : lastStart (pre ++ [a]) p =
            if c0.type = .stc then c1.offset else c0.offset := by
          rw [lastStart, List.getLast?_concat, ← h0, ← h1]
          cases hty : c0.type <;> simp [Option.filter, IndexInfor.entry, hty]
        simp only [hpstc, hlast]
        simp [frameOf, RecIndexRaw.frame, ← h1, ← h2, IndexInfor.entry]
      · have hpstc : p.type ≠ .stc := by
          rw [← h1]
          exact hstc
        rw [if_neg hstc]
        refine ⟨rfl, by simp [h1, h2], ?_, by simp [hpstc]⟩
        simp [hpstc]

/-- What a call does behind a part of the stream: it reads some words more, and returns the
    frame that they complete, if they complete one. -/
def CallSpec (vtype : VcodecType) (t : Seen) (words : List IdxData) (a : Acquired) : Prop :=
  ∃ read, words = read ++ a.words ∧ Paired a.words = true ∧
    Tracks (read.foldl (see vtype) t) a.im ∧
    framesOf lastStart (read.foldl (see vtype) t).entries =
      framesOf lastStart t.entries ++ (a.frame.map RecIndexRaw.frame).toList

/-- One word in front of the rest of a call. -/
theorem CallSpec.cons {t t' : Seen} {w : IdxData} {words : List IdxData} {a : Acquired}
    (hsee : see vtype t w = t')
    (hframes : framesOf lastStart t'.entries = framesOf lastStart t.entries)
    (h : CallSpec vtype t' words a) : CallSpec vtype t (w :: words) a := by
  obtain ⟨read, hread, hpaired, htracks, hout⟩ := h
  refine ⟨w :: read, by rw [hread]; rfl, hpaired, ?_, ?_⟩
  · rw [List.foldl_cons, hsee]
    exact htracks
  · rw [List.foldl_cons, hsee, hout, hframes]

theorem types_eq (l : List IndexInfor) :
    l.map IndexInfor.type = (l.map IndexInfor.entry).map Entry.type := by
  rw [List.map_map]
  rfl

/-- The types of the window behind one more entry. -/
theorem window_types {es : List Entry} {im im' : IndexManage} (e : Entry)
    (hw : im.cachedindex.map IndexInfor.entry = es.drop (es.length - 2))
    (hw' : im'.cachedindex.map IndexInfor.entry = (es ++ [e]).drop ((es ++ [e]).length - 2)) :
    im'.cachedindex.map IndexInfor.type =
      (im.cachedindex.map IndexInfor.type ++ [e.type]).drop
        ((im.cachedindex.map IndexInfor.type).length - 1) := by
  rw [types_eq, types_eq, hw, hw']
  simp only [List.map_drop, List.map_append, List.map_cons, List.map_nil, List.length_append,
    List.length_singleton, List.length_drop, List.length_map]
  rw [← List.drop_append_of_le_length (by rw [List.length_map]; omega), List.drop_drop]
  congr 1
  omega

/-- A start code, and what is done with the window behind it. -/
theorem startCode_spec (vtype : VcodecType) {im : IndexManage} {t : Seen} (ht : Tracks t im)
    (r : RecIndexRaw) (rec_ch_num sc_offset : Nat) (hdr : HdrData) :
    let r' := r.readSc vtype rec_ch_num sc_offset hdr
    let d := deal vtype (cacheStartCode vtype im r') r'
    let t' := see vtype t (.es_sc rec_ch_num sc_offset hdr)
    Tracks t' d.2 ∧ t'.latest = t.latest ∧
      framesOf lastStart t'.entries =
        framesOf lastStart t.entries ++ (d.1.map RecIndexRaw.frame).toList ∧
      (d.1 = none → ∀ next words,
        FirstPtsValid vtype (im.cachedindex.map IndexInfor.type)
          (.es_sc rec_ch_num sc_offset hdr :: next :: words) = true →
        FirstPtsValid vtype (d.2.cachedindex.map IndexInfor.type) (next :: words) = true) := by
  dsimp only
  obtain ⟨hnow, hcached⟩ := cacheStartCode_spec vtype im r rec_ch_num sc_offset hdr
  generalize cacheStartCode vtype im (r.readSc vtype rec_ch_num sc_offset hdr) = im' at hnow hcached
  generalize r.readSc vtype rec_ch_num sc_offset hdr = r'
  rw [ht.window] at hcached
  cases hty : startCodeType vtype hdr with
  | none =>
    -- it is not cached, and the window is as before
    rw [hty, List.append_nil] at hcached
    have hlen := congrArg List.length hcached
    rw [List.length_map, List.length_drop] at hlen
    rw [deal_short r' (by omega)]
    have hsee : see vtype t (.es_sc rec_ch_num sc_offset hdr) = t := by simp [see, hty]
    rw [hsee]
    have htypes : im'.cachedindex.map IndexInfor.type = im.cachedindex.map IndexInfor.type := by
      rw [types_eq, types_eq, hcached, ht.window]
    apply And.intro
      { nowpts := hnow.trans ht.nowpts
        window := hcached
        latest_lt := ht.latest_lt
        pts_lt := ht.pts_lt }
    apply And.intro rfl
    apply And.intro (by simp)
    intro _ next words hvalid
    rw [htypes]
    simpa [FirstPtsValid, hty] using hvalid
  | some type =>
    rw [hty, ht.nowpts] at hcached
    dsimp only at hcached
    obtain ⟨hdnow, hdwindow, hdframes, hdnone⟩ := deal_spec vtype r' hcached ht.pts_lt
    have hsee : see vtype t (.es_sc rec_ch_num sc_offset hdr) =
        { t with entries := t.entries ++
            [⟨type, scOffset vtype rec_ch_num sc_offset, t.latest⟩] } := by
      simp [see, hty]
    rw [hsee]
    apply And.intro
      { nowpts := hdnow.trans (hnow.trans ht.nowpts)
        window := hdwindow
        latest_lt := ht.latest_lt
        pts_lt := by
          intro e he
          rcases List.mem_append.mp he with he | he
          · exact ht.pts_lt e he
          · rw [List.mem_singleton] at he
            rw [he]
            exact ht.latest_lt }
    apply And.intro rfl
    apply And.intro hdframes
    intro hnone next words hvalid
    rw [window_types _ ht.window hdwindow]
    simp only [FirstPtsValid, hty] at hvalid
    split at hvalid
    · -- the window would have given a frame
      rename_i hfull
      exfalso
      apply hdnone hnone
      rw [types_eq, ht.window, List.length_map, List.length_drop, List.getLast?_map,
        List.getLast?_drop] at hfull
      obtain ⟨hlen, hlast⟩ := hfull
      rw [if_neg (by omega)] at hlast
      exact ⟨by omega, hlast⟩
    · exact hvalid

/-- The loop of a call. -/
theorem acquireLoop_spec {words : List IdxData} {im : IndexManage} {r : RecIndexRaw} {t : Seen}
    (ht : Tracks t im) (hpaired : Paired words = true)
    (hfresh : r.publicindex.u32PtsMs = t.latest ∨
      FirstPtsValid vtype (im.cachedindex.map IndexInfor.type) words = true) :
    CallSpec vtype t words (acquireLoop vtype words im r) := by
  fun_induction acquireLoop vtype words im r generalizing t with
  | case1 rec_ch_num second words im r r' =>
    -- a PTS pair
    rename_i ih
    cases second with
    | dts pts pts_vld =>
      have hr : r'.publicindex.u32PtsMs = (validPts (.dts pts pts_vld)).getD t.latest := by
        rw [readPts_pts]
        rcases hfresh with hfresh | hvalid
        · rw [hfresh]
        · obtain ⟨ms, hms⟩ := Option.isSome_iff_exists.mp hvalid
          rw [hms]
          rfl
      apply CallSpec.cons rfl rfl
      apply CallSpec.cons rfl rfl
      apply ih _ hpaired (Or.inl hr)
      exact
        { nowpts := hr
          window := ht.window
          latest_lt := by
            dsimp only [see]
            cases hv : validPts (.dts pts pts_vld) with
            | none => exact ht.latest_lt
            | some ms => exact validPts_lt hv
          pts_lt := ht.pts_lt }
    | es_sc rec_ch_num sc_offset hdr => simp [Paired] at hpaired
    | pts rec_ch_num => simp [Paired] at hpaired
    | ts_head => simp [Paired] at hpaired
  | case2 rec_ch_num sc_offset hdr next words im r r' frame im' =>
    -- a start code that completes a frame
    rename_i hdeal
    obtain ⟨htracks, -, hframes, -⟩ := startCode_spec vtype ht r rec_ch_num sc_offset hdr
    rw [hdeal] at htracks hframes
    exact ⟨[.es_sc rec_ch_num sc_offset hdr], rfl, hpaired, htracks, hframes⟩
  | case3 rec_ch_num sc_offset hdr next words im r r' im' =>
    -- a start code that completes none
    rename_i hdeal ih
    obtain ⟨htracks, hlatest, hframes, hvalid⟩ :=
      startCode_spec vtype ht r rec_ch_num sc_offset hdr
    rw [hdeal] at htracks hframes hvalid
    apply CallSpec.cons rfl (by simpa using hframes)
    apply ih htracks hpaired
    rcases hfresh with hfresh | hfirst
    · left
      rw [hlatest, ← hfresh]
      rfl
    · right
      exact hvalid rfl next words hfirst
  | case4 head next words im r hpts hsc =>
    -- the words of a pair stand together
    cases head with
    | dts pts pts_vld => simp [Paired] at hpaired
    | es_sc rec_ch_num sc_offset hdr => exact (hsc _ _ _ rfl).elim
    | pts rec_ch_num => exact (hpts _ rfl).elim
    | ts_head => simp [Paired] at hpaired
  | case5 words im r =>
    exact ⟨[], rfl, hpaired, ht, by simp⟩

/-- `Dmx_AcquireRecIndex` on the words that are there. -/
theorem dmxAcquireRecIndex_spec {words : List IdxData} {im : IndexManage} {t : Seen}
    (ht : Tracks t im) (hpaired : Paired words = true)
    (hvalid : im.nowpts = 0 ∨
      FirstPtsValid vtype (im.cachedindex.map IndexInfor.type) words = true) :
    CallSpec vtype t words (dmxAcquireRecIndex vtype words im) := by
  have hlen := congrArg List.length ht.window
  rw [List.length_map, List.length_drop] at hlen
  rw [dmxAcquireRecIndex, deal_short {} (by omega)]
  apply acquireLoop_spec ht hpaired
  -- the record of a new call has PTS 0
  apply hvalid.imp_left
  intro hzero
  rw [← ht.nowpts, hzero]

/-- Words that are seen add entries behind those that are there. -/
theorem foldl_see (vtype : VcodecType) (words : List IdxData) (t : Seen) :
    ∃ es, (words.foldl (see vtype) t).entries = t.entries ++ es ∧ ∀ e ∈ es, e.offset < 2 ^ 64 := by
  induction words generalizing t with
  | nil => exact ⟨[], by simp, by simp⟩
  | cons w words ih =>
    obtain ⟨es, hes, hlt⟩ := ih (see vtype t w)
    rw [List.foldl_cons, hes]
    cases w with
    | es_sc rec_ch_num sc_offset hdr =>
      cases hty : startCodeType vtype hdr with
      | none => exact ⟨es, by simp [see, hty], hlt⟩
      | some type =>
        refine ⟨⟨type, scOffset vtype rec_ch_num sc_offset, t.latest⟩ :: es, ?_, ?_⟩
        · simp [see, hty]
        · intro e he
          rcases List.mem_cons.mp he with rfl | he
          · exact scOffset_lt rec_ch_num sc_offset
          · exact hlt e he
    | dts pts pts_vld => exact ⟨es, rfl, hlt⟩
    | pts rec_ch_num => exact ⟨es, rfl, hlt⟩
    | ts_head => exact ⟨es, rfl, hlt⟩

/-- What is seen of a longer stream. -/
theorem seen_append (vtype : VcodecType) (words words' : List IdxData) :
    ∃ es, (seen vtype (words ++ words')).entries = (seen vtype words).entries ++ es := by
  obtain ⟨es, hes, -⟩ := foldl_see vtype words' (seen vtype words)
  exact ⟨es, by rw [← hes, seen, seen, List.foldl_append]⟩

theorem seen_offset_lt (words : List IdxData) :
    ∀ e ∈ (seen vtype words).entries, e.offset < 2 ^ 64 := by
  obtain ⟨es, hes, hlt⟩ := foldl_see vtype words {}
  rw [seen, hes]
  exact hlt

end Call

/-! ## Runs -/

/-- The inputs and results so far. -/
abbrev History := List (Input × Option RecIndexRaw)

/-- The words of an input. -/
def Input.words : Input → List IdxData
  | .deliver words => words
  | .acquire => []

/-- The words that the hardware has written. -/
def delivered (h : History) : List IdxData := h.flatMap fun io => io.1.words

/-- Those that have been read. -/
def consumed (s : State × History) : List IdxData :=
  (delivered s.2).take ((delivered s.2).length - s.1.words.length)

/-- The frames that have been returned. -/
def returned (h : History) : List Frame := h.filterMap fun io => io.2.map RecIndexRaw.frame

/-- What the hardware writes: PTS pairs and start codes, whose offsets do not fall. -/
def WellFormed (vtype : VcodecType) (s : State × History) : Input → Prop
  | .deliver words =>
    Paired (s.1.words ++ words) = true ∧
      (offsets vtype (delivered s.2 ++ words)).Pairwise (· ≤ ·)
  | .acquire => True

/-- No header stands directly behind another one with a different offset, and the first PTS
    that a call reads is valid, unless none but 0 is known. -/
def HeadersAndPts (vtype : VcodecType) (s : State × History) : Input → Prop
  | .deliver words => HeadersOk (seen vtype (delivered s.2 ++ words)).entries
  | .acquire =>
    s.1.im.nowpts = 0 ∨
      FirstPtsValid vtype (s.1.im.cachedindex.map IndexInfor.type) s.1.words = true

instance (vtype : VcodecType) :
    ∀ (s : State × History) (i : Input), Decidable (WellFormed vtype s i)
  | _, .deliver _ => inferInstanceAs (Decidable (_ ∧ _))
  | _, .acquire => inferInstanceAs (Decidable True)

instance (vtype : VcodecType) :
    ∀ (s : State × History) (i : Input), Decidable (HeadersAndPts vtype s i)
  | _, .deliver _ => inferInstanceAs (Decidable (HeadersOk _))
  | _, .acquire => inferInstanceAs (Decidable (_ ∨ _))

/-- What a step promises. -/
structure StepOk (vtype : VcodecType) (s : State × History) (i : Input) : Prop where
  /-- the frames so far are those of the words that have been read -/
  frames : returned ((machine vtype).traced.step s i).1.2 =
    framesOf frameStart (seen vtype (consumed ((machine vtype).traced.step s i).1)).entries
  /-- each lies behind those before it -/
  ordered : (returned ((machine vtype).traced.step s i).1.2).Pairwise fun f g =>
    f.offset + f.size ≤ g.offset

/-- What holds behind every step. -/
structure Inv (vtype : VcodecType) (s : State) (h : History) : Prop where
  split : delivered h = consumed (s, h) ++ s.words
  paired : Paired s.words = true
  tracks : Tracks (seen vtype (consumed (s, h))) s.im
  frames : returned h = framesOf lastStart (seen vtype (consumed (s, h))).entries
  sorted : (offsets vtype (delivered h)).Pairwise (· ≤ ·)
  headers : HeadersOk (seen vtype (delivered h)).entries

section Runs

variable {vtype : VcodecType}

theorem consumed_eq {s : State} {h : History} {read : List IdxData}
    (hsplit : delivered h = read ++ s.words) : consumed (s, h) = read := by
  rw [consumed, hsplit, List.length_append, Nat.add_sub_cancel]
  exact List.take_left

theorem delivered_snoc (h : History) (i : Input) (o : Option RecIndexRaw) :
    delivered (h ++ [(i, o)]) = delivered h ++ i.words := by
  simp [delivered]

theorem returned_snoc (h : History) (i : Input) (o : Option RecIndexRaw) :
    returned (h ++ [(i, o)]) = returned h ++ (o.map RecIndexRaw.frame).toList := by
  cases o <;> simp [returned]

/-- The words that have been read are the first of those that were written. -/
theorem Inv.seen_prefix {s : State} {h : History} (hI : Inv vtype s h) :
    ∃ es, (seen vtype (delivered h)).entries = (seen vtype (consumed (s, h))).entries ++ es := by
  obtain ⟨es, hes⟩ := seen_append vtype (consumed (s, h)) s.words
  rw [← hI.split] at hes
  exact ⟨es, hes⟩

/-- What the invariant says of the frames. -/
theorem Inv.frames_ok {s : State} {h : History} (hI : Inv vtype s h) :
    returned h = framesOf frameStart (seen vtype (consumed (s, h))).entries ∧
      (returned h).Pairwise fun f g => f.offset + f.size ≤ g.offset := by
  obtain ⟨es, hes⟩ := hI.seen_prefix
  have hheaders := hI.headers
  have hsorted := hI.sorted
  rw [hes] at hheaders
  rw [offsets, hes, List.map_append] at hsorted
  constructor
  · rw [hI.frames, framesOf_eq (List.IsChain.left_of_append hheaders)]
  · rw [hI.frames]
    exact framesOf_ordered (List.pairwise_map.mp (List.pairwise_append.mp hsorted).1)
      (seen_offset_lt _)

theorem deliver_inv {s : State} {h : History} {words : List IdxData} (hI : Inv vtype s h)
    (hw : WellFormed vtype (s, h) (.deliver words))
    (hc : HeadersAndPts vtype (s, h) (.deliver words)) :
    Inv vtype { s with words := s.words ++ words } (h ++ [(.deliver words, none)]) := by
  have hdelivered : delivered (h ++ [(.deliver words, none)]) = delivered h ++ words :=
    delivered_snoc h _ _
  have hsplit : delivered (h ++ [(.deliver words, none)]) =
      consumed (s, h) ++ (s.words ++ words) := by
    rw [hdelivered, ← List.append_assoc, ← hI.split]
  have hread : consumed ({ s with words := s.words ++ words }, h ++ [(.deliver words, none)]) =
      consumed (s, h) := consumed_eq hsplit
  exact
    { split := by rw [hread]; exact hsplit
      paired := hw.1
      tracks := by rw [hread]; exact hI.tracks
      frames := by rw [hread, returned_snoc, hI.frames]; exact List.append_nil _
      sorted := by rw [hdelivered]; exact hw.2
      headers := by rw [hdelivered]; exact hc }

theorem acquire_inv {s : State} {h : History} (hI : Inv vtype s h)
    (hc : HeadersAndPts vtype (s, h) .acquire) :
    let a := dmxAcquireRecIndex vtype s.words s.im
    Inv vtype { words := a.words, im := a.im } (h ++ [(.acquire, a.frame)]) := by
  dsimp only
  obtain ⟨read, hwords, hpaired, htracks, hframes⟩ :=
    dmxAcquireRecIndex_spec hI.tracks hI.paired hc
  generalize dmxAcquireRecIndex vtype s.words s.im = a at hwords hpaired htracks hframes
  have hdelivered : delivered (h ++ [(.acquire, a.frame)]) = delivered h := by
    rw [delivered_snoc]
    exact List.append_nil _
  have hsplit : delivered (h ++ [(.acquire, a.frame)]) = consumed (s, h) ++ read ++ a.words := by
    rw [hdelivered, hI.split, hwords, List.append_assoc]
  have hread : consumed ({ words := a.words, im := a.im }, h ++ [(.acquire, a.frame)]) =
      consumed (s, h) ++ read := consumed_eq hsplit
  have hseen : seen vtype (consumed (s, h) ++ read) =
      read.foldl (see vtype) (seen vtype (consumed (s, h))) := List.foldl_append
  exact
    { split := by rw [hread]; exact hsplit
      paired := hpaired
      tracks := by rw [hread, hseen]; exact htracks
      frames := by rw [hread, hseen, returned_snoc, hI.frames, hframes]
      sorted := by rw [hdelivered]; exact hI.sorted
      headers := by rw [hdelivered]; exact hI.headers }

/-- One step under the condition. -/
theorem step_frames (s : State × History) (i : Input) (hI : Inv vtype s.1 s.2)
    (hc : WellFormed vtype s i ∧ HeadersAndPts vtype s i) :
    StepOk vtype s i ∧ Inv vtype ((machine vtype).traced.step s i).1.1
      ((machine vtype).traced.step s i).1.2 := by
  have hI' : Inv vtype ((machine vtype).traced.step s i).1.1
      ((machine vtype).traced.step s i).1.2 := by
    cases i with
    | deliver words => exact deliver_inv hI hc.1 hc.2
    | acquire => exact acquire_inv hI hc.2
  exact ⟨⟨hI'.frames_ok.1, hI'.frames_ok.2⟩, hI'⟩

theorem start_inv : Inv vtype {} [] where
  split := rfl
  paired := rfl
  tracks :=
    { nowpts := rfl
      window := rfl
      latest_lt := Nat.succ_pos _
      pts_lt := nofun }
  frames := rfl
  sorted := List.Pairwise.nil
  headers := List.IsChain.nil

/-- Every order of writes and calls, from a cleared `INDEXMANAGE` on. -/
theorem frames_spec (vtype : VcodecType) (inputs : List Input)
    (hw : (machine vtype).traced.Always (WellFormed vtype) ({}, []) inputs)
    (hc : (machine vtype).traced.Always (HeadersAndPts vtype) ({}, []) inputs) :
    (machine vtype).traced.Always (StepOk vtype) ({}, []) inputs :=
  (Machine.always_of_invariant (I := fun s => Inv vtype s.1 s.2) step_frames start_inv
    (Machine.Always.and _ hw hc)).1

/-- A picture's start code in packet `n`. -/
def pictureAt (n : Nat) : IdxData := .es_sc n 4 { w0 := 0x100, w1 := 0x00080000 }

/-- A sequence header in packet `n`. -/
def headerAt (n : Nat) : IdxData := .es_sc n 4 { w0 := 0x1b3, w1 := 0x2d024035 }

/-- Pictures with a header and PTS pairs between them, one of which is not valid. -/
theorem frames_spec_mpeg2 :
    (machine .mpeg2).traced.Always (StepOk .mpeg2) ({}, [])
      [.deliver [.pts 0, .dts 90000 true, headerAt 0, pictureAt 1], .acquire,
        .deliver [pictureAt 9], .acquire,
        .deliver [.pts 17, .dts 93600 true, .pts 17, .dts 0 false, pictureAt 18, headerAt 30,
          pictureAt 31, pictureAt 40], .acquire, .acquire, .acquire] :=
  frames_spec .mpeg2 _ (by decide +kernel) (by decide +kernel)

/-- Five pictures behind a PTS of a second; in front of the fourth is a PTS that is not
    valid. -/
def fivePictures : List Input :=
  [.deliver [.pts 0, .dts 90000 true, pictureAt 1, pictureAt 9, pictureAt 17, .pts 24,
      .dts 0 false, pictureAt 25, pictureAt 33, pictureAt 41],
    .acquire, .acquire, .acquire]

/-- The second call begins with the PTS that is not valid, and the picture gets 0. -/
theorem pts_forgotten :
    (machine .mpeg2).traced.Always (WellFormed .mpeg2) ({}, []) fivePictures ∧
      ¬ (machine .mpeg2).traced.Always (StepOk .mpeg2) ({}, []) fivePictures := by
  constructor
  · decide +kernel
  · rintro ⟨-, -, -, hlast, -⟩
    exact absurd hlast.frames (by decide +kernel)

end Runs

end Tntsat.PvrRecIndex
