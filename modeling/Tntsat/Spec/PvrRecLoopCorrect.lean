import Tntsat.ForStd.Ring
import Tntsat.Native.PvrRecWrite
import Tntsat.Spec.PvrIndexStep

/-!
# The data and the index of a recording that loops by size

The writer puts byte `g` of the stream at `g % M`.  The index finds the place of a
frame by subtracting the cycles it has counted, and starts the next cycle only
when the rest is above `M`: a frame at an exact multiple of `M` is placed at `M`
itself, behind the end of the file.

What a recording has written and stored so far is a ghost state beside the
channel (`Seen`).

## Key results

- `cycWriteStream_bySize`: a chunk goes to the data file as to a ring of `M` bytes
- `save_bySize`: the place of a frame that does not start at a multiple of `M`
- `data_and_index_agree`: every run without such a frame
- `index_behind_data`: a frame at `M`
-/

namespace Tntsat.PvrRec

open PvrIndex (Index IndexEntry IdxStore SaveCall SaveOut)

variable {σ : Type}

/-! ## What a recording has done so far -/

/-- The stream received, the data file, and the entries stored. -/
structure Seen where
  stream : List UInt8 := []
  file : Memory UInt8 := fun _ => 0
  stored : List IndexEntry := []

/-- What a step adds. -/
def Seen.add (v : Seen) : RecOut → Seen
  | .wrote o => { v with
      stream := v.stream ++ (o.writes.map Prod.snd).flatten
      file := o.writes.foldl (fun f w => f.write w.1 w.2) v.file }
  | .cut => v
  | .saved o => { v with stored := v.stored ++ ((o.bind SaveOut.stored).map Prod.snd).toList }

/-- The channel beside what it has done. -/
def observed (st : IdxStore σ) : Machine (RecChn σ × Seen) RecInput RecOut where
  step s i :=
    let r := (machine st).step s.1 i
    ((r.1, s.2.add r.2), r.2)

/-- The positions in the data file that the bytes of some writes go to. -/
def positions (writes : List (Nat × List UInt8)) : List Nat :=
  writes.flatMap fun w => (List.range w.2.length).map (w.1 + ·)

/-- The last `M` bytes of the stream are in the file. -/
def InFile (M : Nat) (f : Memory UInt8) (stream : List UInt8) : Prop :=
  ∀ g (hg : g < stream.length), stream.length ≤ g + M → f (g % M) = stream[g]

/-- The data and the index agree: what is not overwritten yet lies at its position
    modulo `M`, every entry points at its frame, and a frame read there is the one
    of the stream. -/
structure Agrees (M : Nat) (v : Seen) : Prop where
  written : InFile M v.file v.stream
  placed : ∀ e ∈ v.stored, e.u64Offset = e.u64GlobalOffset % M
  reads : ∀ e ∈ v.stored, v.stream.length ≤ e.u64GlobalOffset + M →
    v.file.readRing 0 M e.u64Offset e.u32FrameSize =
      (v.stream.drop e.u64GlobalOffset).take e.u32FrameSize

/-! ## Runs of a recording that loops by size -/

/-- The recording loops by size, with cycles of `M` bytes. -/
structure LoopsBySize (M : Nat) (ch : RecChn σ) (h : Index σ) : Prop where
  pos : 0 < M
  rewind : ch.stUserCfg.bRewind = true
  stream : ch.stUserCfg.enStreamType ≠ .allTs
  index : ch.IndexHandle = some h
  isRewind : h.stCycMgr.bIsRewind = true
  type : h.stCycMgr.enRewindType = .bySize
  pause : h.bTimeRewindTsPauseFlg = false
  size : h.stCycMgr.u64MaxCycSize = M

/-- A frame is not discarded. -/
def taken (ch : RecChn σ) (i : SaveCall) : Bool :=
  match ch.IndexHandle with
  | none => false
  | some h => PvrIndex.accepts h i.frame

/-- A call succeeds. -/
def RecOut.succeeds : RecOut → Bool
  | .wrote o => o.ret == none
  | .cut => true
  | .saved o => o.any fun o => o.ret == none

/-- The calls of the claim: they succeed, chunks are shorter than a cycle, frames
    come in order and less than a cycle apart, each after its bytes.  Lengths and
    positions are those of a `MT_U32` and a `MT_U64`. -/
def Proper (st : IdxStore σ) (M : Nat) (s : RecChn σ × Seen) (i : RecInput) : Prop :=
  ((machine st).step s.1 i).2.succeeds = true ∧
    match i with
    | .write c => c.data.length < M ∧ c.data.length < 4294967296 ∧
        s.2.stream.length + c.data.length < 18446744073709551616
    | .cut => True
    | .save i => taken s.1 i = true →
        i.frame.u64GlobalOffset.toNat + i.frame.u32FrameSize.toNat ≤ s.2.stream.length ∧
          ∀ e ∈ s.2.stored.getLast?, e.u64GlobalOffset < i.frame.u64GlobalOffset.toNat ∧
            i.frame.u64GlobalOffset.toNat < e.u64GlobalOffset + M

/-- No frame that is saved starts at a positive multiple of `M`, and the first one
    lies before `2 * M`. -/
def OffBoundary (M : Nat) (s : RecChn σ × Seen) : RecInput → Prop
  | .save i => taken s.1 i = true →
      (i.frame.u64GlobalOffset.toNat % M = 0 → i.frame.u64GlobalOffset.toNat = 0) ∧
        (s.2.stored = [] → i.frame.u64GlobalOffset.toNat < 2 * M)
  | _ => True

/-- A chunk is written as a whole, each byte at its position modulo `M`. -/
def WritesAt (M : Nat) (s : RecChn σ × Seen) : RecInput → Prop
  | .write c =>
    let writes := (cycWriteStream s.1 c).2.writes
    (writes.map Prod.snd).flatten = c.data ∧
      positions writes = (List.range c.data.length).map fun k => (s.2.stream.length + k) % M
  | _ => True

/-- A step writes its bytes where they belong, and the data and the index agree
    after it. -/
def Keeps (st : IdxStore σ) (M : Nat) (s : RecChn σ × Seen) (i : RecInput) : Prop :=
  WritesAt M s i ∧ Agrees M ((observed st).step s i).1.2

/-! ## Writing a chunk -/

/-- What the write of one part records. -/
def part (pos : Nat) (xs : List UInt8) : List (Nat × List UInt8) :=
  if xs = [] then [] else [(pos, xs)]

/-- A chunk written to a ring of `M` bytes, in one part or two. -/
def ringParts (M off : Nat) (xs : List UInt8) : List (Nat × List UInt8) :=
  if off + xs.length < M then part off xs
  else part off (xs.take (M - off)) ++ part 0 (xs.drop (M - off))

theorem writePart_ok {ch ch' : RecChn σ} {pos : Nat} {xs : List UInt8} {err : Option StreamErr}
    {ws : List (Nat × List UInt8)} (h : writePart ch pos xs err = .ok (ch', ws))
    (hfit : ch.u64CurFileSize + xs.length < 18446744073709551616) :
    ch' = { ch with u64CurFileSize := ch.u64CurFileSize + xs.length } ∧ ws = part pos xs := by
  unfold writePart at h
  unfold part
  split at h
  · rename_i hnil
    cases h
    rw [if_pos hnil, hnil]
    exact ⟨rfl, rfl⟩
  · rename_i hne
    rw [if_neg hne]
    split at h
    · cases h
    · cases h
      exact ⟨by rw [u64_of_lt hfit], rfl⟩

/-- A chunk that ends before the end of the cycle. -/
theorem placeBySize_fits {M len : Nat} (ch : RecChn σ) (h : Index σ)
    (hlt : u64 (ch.u64CurFileSize % M + len) < M) :
    placeBySize ch h len M =
      { chn := ch, before_pos := ch.u64CurFileSize % M, len1 := len, divisor := some M } :=
  if_neg (Nat.not_le.mpr hlt)

/-- A chunk that reaches the end of the cycle; the type of the loop stays. -/
theorem placeBySize_wraps {M len : Nat} (ch : RecChn σ) {h : Index σ}
    (htype : h.stCycMgr.enRewindType = .bySize) (hge : M ≤ u64 (ch.u64CurFileSize % M + len)) :
    placeBySize ch h len M =
      { chn := { ch with
          IndexHandle := some h
          s32OverFixTimes := ch.s32OverFixTimes + 1
          bEventFlg := true }
        before_pos := ch.u64CurFileSize % M
        len1 := u32 (u64sub M (ch.u64CurFileSize % M))
        divisor := some M } := by
  have heq : ({ h with stCycMgr := { h.stCycMgr with enRewindType := .bySize } } : Index σ) = h := by
    rw [← htype]
  exact (if_pos hge).trans (by rw [heq])

/-- The place of a chunk in a loop by size. -/
theorem placeChunk_bySize {M : Nat} {ch : RecChn σ} {h : Index σ} (hl : LoopsBySize M ch h)
    {len : Nat} (hlen : len < 4294967296) (hfit : ch.u64CurFileSize + len < 18446744073709551616) :
    ∃ p, placeChunk ch len = some p ∧ p.before_pos = ch.u64CurFileSize % M ∧
      p.len1 = (if ch.u64CurFileSize % M + len < M then len else M - ch.u64CurFileSize % M) ∧
      p.chn.u64CurFileSize = ch.u64CurFileSize ∧ p.chn.stUserCfg = ch.stUserCfg ∧
      p.chn.IndexHandle = some h := by
  have hmax : ch.maxSize = M := by
    simp [RecChn.maxSize, hl.stream, hl.index, hl.pause, hl.size]
  have hplace : placeChunk ch len = some (placeBySize ch h len M) := by
    simp [placeChunk, RecAttr.isFixsize, hl.rewind, hl.index, hl.type, hmax]
  have hpos : ch.u64CurFileSize % M < M := Nat.mod_lt _ hl.pos
  have hle : ch.u64CurFileSize % M ≤ ch.u64CurFileSize := Nat.mod_le _ _
  have hsum : u64 (ch.u64CurFileSize % M + len) = ch.u64CurFileSize % M + len := by
    apply u64_of_lt; omega
  refine ⟨_, hplace, ?_⟩
  by_cases hwrap : ch.u64CurFileSize % M + len < M
  · rw [placeBySize_fits ch h (by rw [hsum]; exact hwrap), if_pos hwrap]
    exact ⟨rfl, rfl, rfl, rfl, hl.index⟩
  · rw [placeBySize_wraps ch hl.type (by omega), if_neg hwrap]
    refine ⟨rfl, ?_, rfl, rfl, rfl⟩
    have hsub : u64sub M (ch.u64CurFileSize % M) = M - ch.u64CurFileSize % M :=
      u64sub_of_le (by omega) (by omega)
    simp only [hsub]
    apply u32_of_lt
    omega

/-- A call that succeeds writes both parts of its chunk. -/
theorem cycWriteStream_ok {ch : RecChn σ} {c : Chunk} {p : Placed σ}
    (hret : (cycWriteStream ch c).2.ret = none) (hp : placeChunk ch c.data.length = some p)
    (hfit : p.chn.u64CurFileSize + c.data.length < 18446744073709551616) :
    (cycWriteStream ch c).1 =
        { p.chn with u64CurFileSize := p.chn.u64CurFileSize + c.data.length } ∧
      (cycWriteStream ch c).2.writes =
        part p.before_pos (c.data.take p.len1) ++ part 0 (c.data.drop p.len1) := by
  have hsplit : (c.data.take p.len1).length + (c.data.drop p.len1).length = c.data.length := by
    rw [← List.length_append, List.take_append_drop]
  revert hret
  unfold cycWriteStream
  rw [hp]
  simp only
  split
  · exact nofun
  · rename_i ch₁ ws₁ hw₁
    obtain ⟨rfl, rfl⟩ := writePart_ok hw₁ (by omega)
    split
    · exact nofun
    · rename_i ch₂ ws₂ hw₂
      obtain ⟨rfl, rfl⟩ := writePart_ok hw₂ (by simp only; omega)
      intro _
      refine ⟨?_, rfl⟩
      simp only [Nat.add_assoc, hsplit]

/-- A chunk goes to the data file as to a ring of `M` bytes. -/
theorem cycWriteStream_bySize {M : Nat} {ch : RecChn σ} {h : Index σ} (hl : LoopsBySize M ch h)
    {c : Chunk} (hret : (cycWriteStream ch c).2.ret = none) (hlen : c.data.length < 4294967296)
    (hfit : ch.u64CurFileSize + c.data.length < 18446744073709551616) :
    LoopsBySize M (cycWriteStream ch c).1 h ∧
      (cycWriteStream ch c).1.u64CurFileSize = ch.u64CurFileSize + c.data.length ∧
      (cycWriteStream ch c).2.writes = ringParts M (ch.u64CurFileSize % M) c.data := by
  obtain ⟨p, hp, hpos, hlen1, hcur, hcfg, hidx⟩ := placeChunk_bySize hl hlen hfit
  obtain ⟨hch, hwrites⟩ := cycWriteStream_ok hret hp (hcur ▸ hfit)
  rw [hch, hwrites, hpos, hlen1, hcur]
  refine ⟨?_, rfl, ?_⟩
  · exact
      { hl with
        rewind := by simp only [hcfg]; exact hl.rewind
        stream := by simp only [hcfg]; exact hl.stream
        index := hidx }
  · rw [ringParts]
    split
    · simp [part]
    · rfl

/-! ## The data file as a ring -/

theorem part_bytes (pos : Nat) (xs : List UInt8) : ((part pos xs).map Prod.snd).flatten = xs := by
  rw [part]
  split
  · rename_i hnil; exact hnil.symm
  · simp

theorem part_positions (pos : Nat) (xs : List UInt8) :
    positions (part pos xs) = (List.range xs.length).map (pos + ·) := by
  rw [part]
  split
  · rename_i hnil; rw [hnil]; rfl
  · simp [positions]

theorem part_write (f : Memory UInt8) (pos : Nat) (xs : List UInt8) :
    (part pos xs).foldl (fun f w => f.write w.1 w.2) f = f.write pos xs := by
  rw [part]
  split
  · rename_i hnil
    rw [hnil]
    funext i
    simp [Memory.write]
  · rfl

theorem ringParts_bytes (M off : Nat) (xs : List UInt8) :
    ((ringParts M off xs).map Prod.snd).flatten = xs := by
  rw [ringParts]
  split
  · exact part_bytes off xs
  · rw [List.map_append, List.flatten_append, part_bytes, part_bytes, List.take_append_drop]

theorem ringParts_write {M off : Nat} (f : Memory UInt8) {xs : List UInt8} (hoff : off < M) :
    (ringParts M off xs).foldl (fun f w => f.write w.1 w.2) f = f.writeRing 0 M off xs := by
  rw [ringParts, Memory.writeRing]
  split
  · rw [part_write, if_pos (by omega), Nat.zero_add]
  · rw [List.foldl_append, part_write, part_write, Nat.zero_add]
    split
    · -- the chunk ends with the cycle
      rw [List.take_of_length_le (by omega), List.drop_of_length_le (by omega)]
      funext i
      simp [Memory.write]
    · rfl

theorem ringParts_positions {M off : Nat} {xs : List UInt8} (hoff : off < M)
    (hlen : xs.length < M) :
    positions (ringParts M off xs) = (List.range xs.length).map fun k => (off + k) % M := by
  rw [ringParts]
  split
  · rw [part_positions]
    apply List.map_congr_left
    intro k hk
    have hk := List.mem_range.mp hk
    exact (Nat.mod_eq_of_lt (by omega)).symm
  · have happ : ∀ ws ws' : List (Nat × List UInt8), positions (ws ++ ws') =
        positions ws ++ positions ws' := fun _ _ => List.flatMap_append
    have hsplit : xs.length = (M - off) + (xs.length - (M - off)) := by omega
    rw [happ, part_positions, part_positions, List.length_take, List.length_drop]
    conv_rhs => rw [hsplit, List.range_add, List.map_append, List.map_map]
    rw [Nat.min_eq_left (by omega)]
    congr 1
    · apply List.map_congr_left
      intro k hk
      have hk := List.mem_range.mp hk
      exact (Nat.mod_eq_of_lt (by omega)).symm
    · -- behind the wrap
      apply List.map_congr_left
      intro k hk
      have hk := List.mem_range.mp hk
      show 0 + k = (off + (M - off + k)) % M
      rw [show off + (M - off + k) = M + k by omega, Nat.add_mod_left, Nat.zero_add]
      exact (Nat.mod_eq_of_lt (by omega)).symm

/-- A chunk behind the stream replaces what is older than a cycle. -/
theorem InFile.append {M : Nat} {f : Memory UInt8} {stream : List UInt8} (hf : InFile M f stream)
    {xs : List UInt8} (hM : 0 < M) (hlen : xs.length < M) :
    InFile M (f.writeRing 0 M (stream.length % M) xs) (stream ++ xs) := by
  intro g hg hlast
  rw [List.length_append] at hg hlast
  have hoff : stream.length % M < M := Nat.mod_lt _ hM
  by_cases hold : g < stream.length
  · rw [List.getElem_append_left hold, ← hf g hold (by omega), ← Nat.zero_add (g % M)]
    apply Memory.writeRing_apply_of_notMem f xs hoff (by omega) (Nat.mod_lt _ hM)
    intro k hk
    rw [Nat.mod_add_mod, ← Nat.zero_add g, ← Nat.zero_add (stream.length + k)]
    exact wrap_ne (by omega) (by omega)
  · rw [List.getElem_append_right (by omega)]
    have hcell : g % M = 0 + (stream.length % M + (g - stream.length)) % M := by
      rw [Nat.zero_add, Nat.mod_add_mod, Nat.add_sub_cancel' (by omega)]
    rw [hcell]
    exact Memory.writeRing_apply_mem f xs hoff (by omega) (by omega)

/-- What is read from the file where a frame lies is the frame. -/
theorem InFile.readRing {M : Nat} {f : Memory UInt8} {stream : List UInt8} (hf : InFile M f stream)
    {g n : Nat} (hin : g + n ≤ stream.length) (hlast : stream.length ≤ g + M) :
    f.readRing 0 M (g % M) n = (stream.drop g).take n := by
  rw [Memory.readRing_mod]
  apply List.ext_getElem (by simp; omega)
  intro k hk1 hk2
  rw [Memory.length_readRing] at hk1
  simp only [Memory.readRing, List.getElem_map, List.getElem_range, List.getElem_take,
    List.getElem_drop, Nat.zero_add]
  exact hf (g + k) (by omega) (by omega)

/-! ## Saving a frame -/

/-- Less than a cycle further on, the cycle is the same or the next. -/
theorem cycle_next {M g g' : Nat} (hlt : g < g') (hgap : g' < g + M) :
    g' / M = g / M ∨ g' / M = g / M + 1 := by
  have hM : 0 < M := by omega
  have hle : g / M ≤ g' / M := Nat.div_le_div_right (by omega)
  have hge : g' / M ≤ (g + M) / M := Nat.div_le_div_right (by omega)
  rw [Nat.add_div_right _ hM] at hge
  omega

/-- The place of a frame that does not start at a multiple of `M`, once `c` cycles
    are counted. -/
theorem place_eq {M g c : Nat} (hM : 0 < M) (hoff : g % M = 0 → g = 0)
    (hc : g / M = c ∨ g / M = c + 1) :
    (if g - M * c > M then (g - M * c - M, c + 1) else (g - M * c, c)) = (g % M, g / M) := by
  have hdiv := Nat.div_add_mod g M
  have hlt := Nat.mod_lt g hM
  cases hc with
  | inl hc =>
    rw [hc] at hdiv
    rw [if_neg (by omega), hc]
    congr 1
    omega
  | inr hc =>
    rw [hc, Nat.mul_succ] at hdiv
    have hpos : g % M ≠ 0 := by
      intro hzero
      have := hoff hzero
      omega
    rw [if_pos (by omega), hc]
    congr 1
    omega

/-- Saving a frame in a loop by size: the place of its entry, and the cycles counted
    afterwards. -/
theorem save_bySize (st : IdxStore σ) {M : Nat} {ch : RecChn σ} {h : Index σ}
    (hl : LoopsBySize M ch h) {i : SaveCall} {out : SaveOut}
    (hout : ((PvrIndex.machine st).step h i).2 = some out) (hret : out.ret = none)
    (hacc : PvrIndex.accepts h i.frame = true) {c : Nat} (hc : h.stCycMgr.s32CycTimes = c)
    (hle : M * c ≤ i.frame.u64GlobalOffset.toNat) :
    LoopsBySize M { ch with IndexHandle := some ((PvrIndex.machine st).step h i).1 }
        ((PvrIndex.machine st).step h i).1 ∧
      ∃ pos e, out.stored = some (pos, e) ∧
        e.u64GlobalOffset = i.frame.u64GlobalOffset.toNat ∧
        e.u32FrameSize = i.frame.u32FrameSize.toNat ∧
        (e.u64Offset, ((PvrIndex.machine st).step h i).1.stCycMgr.s32CycTimes) =
          if i.frame.u64GlobalOffset.toNat - M * c > M
          then (i.frame.u64GlobalOffset.toNat - M * c - M, c + 1)
          else (i.frame.u64GlobalOffset.toNat - M * c, c) := by
  obtain ⟨hno, -⟩ | ⟨-, s₁, offset, rewinds, record, hplace, -, hstored, hstep⟩ :=
    PvrIndex.step_success st hout hret
  · rw [hacc] at hno; cases hno
  -- the place is that of a loop by size
  obtain ⟨store, lastI, pts, hprep⟩ := PvrIndex.prepared_bySize st hl.type i
  have hM : (i.prepared st h).stCycMgr.u64MaxCycSize = M := by rw [hprep]; exact hl.size
  have hC : (i.prepared st h).stCycMgr.s32CycTimes = c := by rw [hprep]; exact hc
  rw [PvrIndex.place_bySize st hl.isRewind hl.type,
    PvrIndex.placeBySize_eq_ite _ _ (by rw [hM, hC]; exact hle), hM, hC] at hplace
  simp only [Option.some.injEq, Prod.mk.injEq] at hplace
  obtain ⟨rfl, hplace⟩ := hplace
  -- what the end of the call leaves of the loop
  obtain ⟨store', start, count, header, t, hfin, -, -⟩ := PvrIndex.finishFrame_eq st
    (PvrIndex.advance (PvrIndex.afterWrite st (i.prepared st h)
      { i.entry h with u64Offset := offset } rewinds i.u32DirectFlag) i.env rewinds)
    { i.entry h with u64Offset := offset } i.env record
  obtain ⟨hrew', htype', hsize', hpause', htimes'⟩ := PvrIndex.advance_loop
    (PvrIndex.afterWrite st (i.prepared st h)
      { i.entry h with u64Offset := offset } rewinds i.u32DirectFlag) i.env rewinds
  rw [hstep, hfin]
  refine ⟨?_, _, _, hstored, rfl, rfl, ?_⟩
  · exact
      { hl with
        index := rfl
        isRewind := hrew'.trans (by rw [hprep]; exact hl.isRewind)
        type := htype'.trans (by rw [hprep]; exact hl.type)
        pause := hpause'.trans (by rw [hprep]; exact hl.pause)
        size := hsize'.trans hM }
  · have htimes := htimes' (by rw [PvrIndex.afterWrite, hprep]; exact hl.isRewind)
    have hcount : (PvrIndex.afterWrite st (i.prepared st h)
        { i.entry h with u64Offset := offset } rewinds i.u32DirectFlag).stCycMgr.s32CycTimes = c :=
      hC
    rw [hcount] at htimes
    simp only [htimes]
    split at hplace
    · rename_i hgt
      obtain ⟨rfl, rfl⟩ := hplace
      rw [if_pos hgt]
      rfl
    · rename_i hgt
      obtain ⟨rfl, rfl⟩ := hplace
      rw [if_neg hgt]
      rfl

/-! ## One step -/

/-- What a run without frames at a multiple of `M` maintains: every byte of the
    stream is written, every entry points at its frame, and the cycles counted are
    those before the last frame. -/
structure Inv (M : Nat) (s : RecChn σ × Seen) (h : Index σ) : Prop where
  loop : LoopsBySize M s.1 h
  cur : s.1.u64CurFileSize = s.2.stream.length
  file : InFile M s.2.file s.2.stream
  entries : ∀ e ∈ s.2.stored, e.u64Offset = e.u64GlobalOffset % M ∧
    e.u64GlobalOffset + e.u32FrameSize ≤ s.2.stream.length
  first : s.2.stored = [] → h.stCycMgr.s32CycTimes = 0
  times : ∀ e ∈ s.2.stored.getLast?, h.stCycMgr.s32CycTimes = e.u64GlobalOffset / M

theorem Inv.agrees {M : Nat} {s : RecChn σ × Seen} {h : Index σ} (hI : Inv M s h) :
    Agrees M s.2 where
  written := hI.file
  placed e he := (hI.entries e he).1
  reads e he hlast := by
    rw [(hI.entries e he).1]
    exact hI.file.readRing (hI.entries e he).2 hlast

/-- What a chunk adds to the stream and the file. -/
theorem write_seen (st : IdxStore σ) {M : Nat} {s : RecChn σ × Seen} {h : Index σ}
    (hI : Inv M s h) {c : Chunk} (hP : Proper st M s (.write c)) :
    LoopsBySize M ((observed st).step s (.write c)).1.1 h ∧
      ((observed st).step s (.write c)).1.1.u64CurFileSize = s.2.stream.length + c.data.length ∧
      (cycWriteStream s.1 c).2.writes = ringParts M (s.2.stream.length % M) c.data ∧
      ((observed st).step s (.write c)).1.2 =
        { s.2 with
          stream := s.2.stream ++ c.data
          file := s.2.file.writeRing 0 M (s.2.stream.length % M) c.data } := by
  obtain ⟨hret, hlen, h32, h64⟩ := hP
  have hret : (cycWriteStream s.1 c).2.ret = none := by
    simpa [machine, RecOut.succeeds] using hret
  obtain ⟨hl, hcur, hwrites⟩ := cycWriteStream_bySize hI.loop hret h32 (by rw [hI.cur]; exact h64)
  rw [hI.cur] at hcur hwrites
  refine ⟨hl, hcur, hwrites, ?_⟩
  show s.2.add (.wrote (cycWriteStream s.1 c).2) = _
  rw [Seen.add, hwrites, ringParts_bytes, ringParts_write _ (Nat.mod_lt _ hI.loop.pos)]

/-- Writing a chunk. -/
theorem write_inv (st : IdxStore σ) {M : Nat} {s : RecChn σ × Seen} {h : Index σ}
    (hI : Inv M s h) {c : Chunk} (hP : Proper st M s (.write c)) :
    WritesAt M s (.write c) ∧ Inv M ((observed st).step s (.write c)).1 h := by
  obtain ⟨hl, hcur, hwrites, hseen⟩ := write_seen st hI hP
  have hlen := hP.2.1
  have hoff : s.2.stream.length % M < M := Nat.mod_lt _ hI.loop.pos
  constructor
  · rw [WritesAt, hwrites]
    refine ⟨ringParts_bytes _ _ _, (ringParts_positions hoff hlen).trans ?_⟩
    exact List.map_congr_left fun k _ => Nat.mod_add_mod _ _ _
  · exact
      { loop := hl
        cur := by rw [hcur, hseen, List.length_append]
        file := by rw [hseen]; exact hI.file.append hI.loop.pos hlen
        entries := fun e he => by
          rw [hseen] at he ⊢
          obtain ⟨hoffset, hin⟩ := hI.entries e he
          exact ⟨hoffset, by rw [List.length_append]; omega⟩
        first := by rw [hseen]; exact hI.first
        times := by rw [hseen]; exact hI.times }

/-- Saving a frame. -/
theorem save_inv (st : IdxStore σ) {M : Nat} {s : RecChn σ × Seen} {h : Index σ}
    (hI : Inv M s h) {i : SaveCall} (hP : Proper st M s (.save i)) (hoff : OffBoundary M s (.save i)) :
    ∃ h', Inv M ((observed st).step s (.save i)).1 h' := by
  obtain ⟨hret, hP⟩ := hP
  have hstep : (machine st).step s.1 (.save i) =
      ({ s.1 with IndexHandle := some ((PvrIndex.machine st).step h i).1 },
        .saved ((PvrIndex.machine st).step h i).2) := by
    simp only [machine, hI.loop.index]
  have htaken : taken s.1 i = PvrIndex.accepts h i.frame := by
    simp only [taken, hI.loop.index]
  rw [hstep] at hret
  obtain ⟨out, hout, hret⟩ : ∃ out, ((PvrIndex.machine st).step h i).2 = some out ∧
      out.ret = none := by
    simpa [RecOut.succeeds, Option.any_eq_true] using hret
  refine ⟨((PvrIndex.machine st).step h i).1, ?_⟩
  show Inv M (((machine st).step s.1 (.save i)).1, s.2.add ((machine st).step s.1 (.save i)).2) _
  rw [hstep, hout]
  cases hacc : PvrIndex.accepts h i.frame with
  | false =>
    -- the frame is discarded
    obtain ⟨-, hstored, store, lastI, hh⟩ | ⟨hyes, -⟩ := PvrIndex.step_success st hout hret
    · have hseen : s.2.add (.saved (some out)) = s.2 := by
        simp [Seen.add, hstored]
      rw [hseen, hh]
      exact
        { loop := { hI.loop with index := rfl }
          cur := hI.cur, file := hI.file, entries := hI.entries, first := hI.first
          times := hI.times }
    · rw [hacc] at hyes; cases hyes
  | true =>
    obtain ⟨hin, hgap⟩ := hP (htaken.trans hacc)
    obtain ⟨hmult, hfirst⟩ := hoff (htaken.trans hacc)
    have hM := hI.loop.pos
    -- the frame lies in the cycle of the last one or in the next
    have hcycle : i.frame.u64GlobalOffset.toNat / M = h.stCycMgr.s32CycTimes ∨
        i.frame.u64GlobalOffset.toNat / M = h.stCycMgr.s32CycTimes + 1 := by
      cases hlast : s.2.stored.getLast? with
      | none =>
        have hnil := List.getLast?_eq_none_iff.mp hlast
        have h2M := hfirst hnil
        have hlt : i.frame.u64GlobalOffset.toNat / M < 2 :=
          (Nat.div_lt_iff_lt_mul hM).mpr (by omega)
        rw [hI.first hnil]
        exact (Nat.le_one_iff_eq_zero_or_eq_one.mp (Nat.le_of_lt_succ hlt))
      | some e =>
        obtain ⟨hlt, hless⟩ := hgap e hlast
        rw [hI.times e hlast]
        exact cycle_next hlt hless
    have hle : M * h.stCycMgr.s32CycTimes ≤ i.frame.u64GlobalOffset.toNat := by
      have hmul := Nat.mul_div_le i.frame.u64GlobalOffset.toNat M
      have hmono : M * h.stCycMgr.s32CycTimes ≤ M * (i.frame.u64GlobalOffset.toNat / M) :=
        Nat.mul_le_mul_left M (by omega)
      omega
    obtain ⟨hl, pos, e, hstored, hglobal, hsize, hplaced⟩ :=
      save_bySize st hI.loop hout hret hacc rfl hle
    rw [place_eq hM hmult hcycle, Prod.mk.injEq] at hplaced
    obtain ⟨hoffset, htimes⟩ := hplaced
    have hseen : s.2.add (.saved (some out)) = { s.2 with stored := s.2.stored ++ [e] } := by
      simp [Seen.add, hstored]
    rw [hseen]
    exact
      { loop := hl
        cur := hI.cur
        file := hI.file
        entries := fun e' he' => by
          rcases List.mem_append.mp he' with hold | hnew
          · exact hI.entries e' hold
          · obtain rfl := List.mem_singleton.mp hnew
            exact ⟨by rw [hoffset, hglobal], by rw [hglobal, hsize]; exact hin⟩
        first := fun hnil => by simp at hnil
        times := fun e' he' => by
          obtain rfl : e = e' := by simpa using he'
          rw [htimes, hglobal] }

/-- Cutting the stream does nothing to a loop by size. -/
theorem cutStream_bySize {M : Nat} {ch : RecChn σ} {h : Index σ} (hl : LoopsBySize M ch h) :
    cutStream ch = ch := by
  simp [cutStream, hl.index, hl.type]

/-- One step of a run. -/
theorem step_inv (st : IdxStore σ) {M : Nat} (s : RecChn σ × Seen) (i : RecInput)
    (hI : ∃ h, Inv M s h) (hP : Proper st M s i ∧ OffBoundary M s i) :
    Keeps st M s i ∧ ∃ h, Inv M ((observed st).step s i).1 h := by
  obtain ⟨h, hI⟩ := hI
  cases i with
  | write c =>
    obtain ⟨hat, hI'⟩ := write_inv st hI hP.1
    exact ⟨⟨hat, hI'.agrees⟩, h, hI'⟩
  | cut =>
    have hI' : Inv M ((observed st).step s .cut).1 h := by
      show Inv M (cutStream s.1, s.2) h
      rw [cutStream_bySize hI.loop]
      exact hI
    exact ⟨⟨trivial, hI'.agrees⟩, h, hI'⟩
  | save i =>
    obtain ⟨h', hI'⟩ := save_inv st hI hP.1 hP.2
    exact ⟨⟨trivial, hI'.agrees⟩, h', hI'⟩

/-- In every run of a recording that loops by size and saves no frame at a positive
    multiple of `M`, the bytes of the stream go to their positions modulo `M` and
    the index points at them. -/
theorem data_and_index_agree (st : IdxStore σ) {M : Nat} (ch : RecChn σ) (h : Index σ)
    (hl : LoopsBySize M ch (PvrIndex.resetRecAttr h)) (hcur : ch.u64CurFileSize = 0)
    (inputs : List RecInput) (hproper : (observed st).Always (Proper st M) (ch, {}) inputs)
    (hoff : (observed st).Always (OffBoundary M) (ch, {}) inputs) :
    (observed st).Always (Keeps st M) (ch, {}) inputs := by
  have hI : Inv M (ch, ({} : Seen)) (PvrIndex.resetRecAttr h) :=
    { loop := hl, cur := hcur, file := fun g hg => absurd hg (Nat.not_lt_zero g), entries := nofun
      first := fun _ => rfl, times := nofun }
  exact (Machine.always_of_invariant (step_inv st) ⟨_, hI⟩ (Machine.Always.and _ hproper hoff)).1

/-! ## A frame at the boundary -/

instance (st : IdxStore σ) (M : Nat) (s : RecChn σ × Seen) :
    ∀ i, Decidable (Proper st M s i)
  | .write _ => inferInstanceAs (Decidable (_ ∧ _ ∧ _ ∧ _))
  | .cut => inferInstanceAs (Decidable (_ ∧ True))
  | .save _ => inferInstanceAs (Decidable (_ ∧ (_ → _ ∧ ∀ e ∈ _, _ ∧ _)))

instance (M : Nat) (s : RecChn σ × Seen) : ∀ i, Decidable (OffBoundary M s i)
  | .write _ => inferInstanceAs (Decidable True)
  | .cut => inferInstanceAs (Decidable True)
  | .save _ => inferInstanceAs (Decidable (_ → (_ → _) ∧ (_ → _)))

/-- An index that loops by size, on a file just opened. -/
def loopIdx (M : Nat) : Index PvrIdxCache.CacheHandle where
  store := PvrIdxCache.opened [] 0 true true
  stCycMgr := { bIsRewind := true, u64MaxCycSize := M, enRewindType := .bySize }

/-- A channel with such an index. -/
def loopChn (M : Nat) : RecChn PvrIdxCache.CacheHandle where
  stUserCfg := { bRewind := true }
  IndexHandle := some (loopIdx M)

theorem loopChn_loops {M : Nat} (hM : 0 < M) :
    LoopsBySize M (loopChn M) (PvrIndex.resetRecAttr (loopIdx M)) where
  pos := hM
  rewind := rfl
  stream := by simp [loopChn]
  index := rfl
  isRewind := rfl
  type := rfl
  pause := rfl
  size := rfl

/-- A frame of 500 bytes. -/
def frameAt (type : PvrIndex.FrameType) (g : UInt64) : SaveCall where
  frame := { enFrameType := type, u64GlobalOffset := g, u32FrameSize := 500 }

/-- Two chunks and three frames, the last of them in the second cycle. -/
theorem data_and_index_agree_two :
    (observed PvrIndex.cached).Always (Keeps PvrIndex.cached 3000) (loopChn 3000, {})
      [.write { data := List.replicate 2000 1 }, .save (frameAt .i 0), .save (frameAt .p 1000),
        .write { data := List.replicate 2000 2 }, .save (frameAt .p 3400)] :=
  data_and_index_agree PvrIndex.cached (loopChn 3000) (loopIdx 3000) (loopChn_loops (by decide))
    rfl _ (by decide +kernel) (by decide +kernel)

/-- A chunk whose writes do not fail is written. -/
theorem write_succeeds {M : Nat} {ch : RecChn σ} {h : Index σ} (hl : LoopsBySize M ch h)
    {data : List UInt8} (hlen : data.length < 4294967296)
    (hfit : ch.u64CurFileSize + data.length < 18446744073709551616) :
    (cycWriteStream ch { data := data }).2.ret = none := by
  obtain ⟨p, hp, -⟩ := placeChunk_bySize hl hlen hfit
  have hok : ∀ (ch : RecChn σ) pos xs, ∃ r, writePart ch pos xs none = .ok r := by
    intro ch pos xs
    unfold writePart
    split <;> exact ⟨_, rfl⟩
  unfold cycWriteStream
  rw [hp]
  obtain ⟨r₁, hr₁⟩ := hok p.chn p.before_pos (data.take p.len1)
  obtain ⟨r₂, hr₂⟩ := hok r₁.1 0 (data.drop p.len1)
  simp only [hr₁, hr₂]

/-- A frame is saved by the index of the channel. -/
theorem save_step (st : IdxStore σ) {s : RecChn σ × Seen} {h h' : Index σ} {out : Option SaveOut}
    {i : SaveCall} (hidx : s.1.IndexHandle = some h) (hstep : (PvrIndex.machine st).step h i = (h', out)) :
    (observed st).step s (.save i) =
      (({ s.1 with IndexHandle := some h' }, s.2.add (.saved out)), .saved out) := by
  simp only [observed, machine, hidx, hstep]

/-- Whether a frame is saved properly, and where it is placed. -/
theorem save_proper (st : IdxStore σ) {M : Nat} {s : RecChn σ × Seen} {h h' : Index σ}
    {pos : Nat} {e : IndexEntry} {i : SaveCall} (hidx : s.1.IndexHandle = some h)
    (hstep : (PvrIndex.machine st).step h i = (h', some { stored := some (pos, e) }))
    (hin : i.frame.u64GlobalOffset.toNat + i.frame.u32FrameSize.toNat ≤ s.2.stream.length)
    (hgap : ∀ e ∈ s.2.stored.getLast?, e.u64GlobalOffset < i.frame.u64GlobalOffset.toNat ∧
      i.frame.u64GlobalOffset.toNat < e.u64GlobalOffset + M) :
    Proper st M s (.save i) ∧
      ((observed st).step s (.save i)).1.1.IndexHandle = some h' ∧
      ((observed st).step s (.save i)).1.2.stream = s.2.stream ∧
      ((observed st).step s (.save i)).1.2.stored = s.2.stored ++ [e] := by
  have hm : (machine st).step s.1 (.save i) =
      ({ s.1 with IndexHandle := some h' }, .saved (some { stored := some (pos, e) })) := by
    simp only [machine, hidx, hstep]
  refine ⟨⟨by rw [hm]; rfl, fun _ => ⟨hin, hgap⟩⟩, ?_⟩
  rw [save_step st hidx hstep]
  exact ⟨rfl, rfl, rfl⟩

/-- A chunk is written properly, and what is there afterwards. -/
theorem write_proper (st : IdxStore σ) {M : Nat} {s : RecChn σ × Seen} {h : Index σ}
    (hI : Inv M s h) (data : List UInt8) (hlen : data.length < M) (h32 : data.length < 4294967296)
    (h64 : s.2.stream.length + data.length < 18446744073709551616) :
    Proper st M s (.write { data := data }) ∧
      Inv M ((observed st).step s (.write { data := data })).1 h ∧
      ((observed st).step s (.write { data := data })).1.2.stream = s.2.stream ++ data ∧
      ((observed st).step s (.write { data := data })).1.2.stored = s.2.stored := by
  have hP : Proper st M s (.write { data := data }) := by
    refine ⟨?_, hlen, h32, h64⟩
    have hret := write_succeeds hI.loop h32 (by rw [hI.cur]; exact h64)
    show ((cycWriteStream s.1 { data := data }).2.ret == none) = true
    rw [hret]
    rfl
  obtain ⟨-, -, -, hseen⟩ := write_seen st hI hP
  exact ⟨hP, (write_inv st hI hP).2, by rw [hseen], by rw [hseen]⟩

/-- Two chunks and three frames of a loop of 50 MiB, the last frame right at its
    end. -/
def boundaryRun (d₁ d₂ : List UInt8) : List RecInput :=
  [.write { data := d₁ }, .write { data := d₂ },
    .save (frameAt .i 0), .save (frameAt .p 1000), .save (frameAt .p 52363264)]

/-- The entry that `frameAt` is stored as. -/
def entryAt (typeAndGop g : Nat) : IndexEntry where
  u16FrameTypeAndGop := typeAndGop
  u64GlobalOffset := g
  u32FrameSize := 500
  u64Offset := g
  u32PtsMs := 0xffffffff
  u16IndexType := 1

/-- The frame at the end of the loop is placed there, whatever the bytes. -/
theorem boundaryRun_disagrees {d₁ d₂ : List UInt8} (hlen₁ : d₁.length = 52363263)
    (hlen₂ : d₂.length = 2000) :
    (observed PvrIndex.cached).Always (Proper PvrIndex.cached 52363264) (loopChn 52363264, {})
        (boundaryRun d₁ d₂) ∧
      ¬ (observed PvrIndex.cached).Always (Keeps PvrIndex.cached 52363264) (loopChn 52363264, {})
        (boundaryRun d₁ d₂) := by
  have hI₀ : Inv 52363264 (loopChn 52363264, ({} : Seen))
      (PvrIndex.resetRecAttr (loopIdx 52363264)) :=
    { loop := loopChn_loops (by decide), cur := rfl, file := fun g hg => absurd hg (Nat.not_lt_zero g)
      entries := nofun, first := fun _ => rfl, times := nofun }
  -- both chunks are written
  obtain ⟨hP₁, hI₁, hstream₁, hstored₁⟩ := write_proper PvrIndex.cached hI₀ d₁ (by omega) (by omega)
    (by rw [hlen₁]; decide)
  have hlen₁' : ((observed PvrIndex.cached).step (loopChn 52363264, ({} : Seen))
      (.write { data := d₁ })).1.2.stream.length = 52363263 := by
    rw [hstream₁, List.length_append, hlen₁]
    rfl
  obtain ⟨hP₂, hI₂, hstream₂, hstored₂⟩ := write_proper PvrIndex.cached hI₁ d₂ (by omega) (by omega)
    (by rw [hlen₁', hlen₂]; decide)
  have hlen₂' : ((observed PvrIndex.cached).step ((observed PvrIndex.cached).step
      (loopChn 52363264, ({} : Seen)) (.write { data := d₁ })).1
      (.write { data := d₂ })).1.2.stream.length = 52365263 := by
    rw [hstream₂, List.length_append, hlen₁', hlen₂]
  rw [hstored₁] at hstored₂
  -- and so are the frames
  have hsaves : (PvrIndex.machine PvrIndex.cached).outputs
      (PvrIndex.resetRecAttr (loopIdx 52363264))
      [frameAt .i 0, frameAt .p 1000, frameAt .p 52363264] =
      [some { stored := some (0, entryAt 16384 0) }, some { stored := some (1, entryAt 32769 1000) },
        some { stored := some (2, entryAt 32770 52363264) }] := by
    decide +kernel
  obtain ⟨h₁, hs₁, hsaves⟩ := Machine.of_outputs_cons _ hsaves
  obtain ⟨h₂, hs₂, hsaves⟩ := Machine.of_outputs_cons _ hsaves
  obtain ⟨h₃, hs₃, -⟩ := Machine.of_outputs_cons _ hsaves
  obtain ⟨hP₃, hidx₃, hstream₃, hstored₃⟩ := save_proper PvrIndex.cached hI₂.loop.index hs₁
    (M := 52363264) (by rw [hlen₂']; decide) (by rw [hstored₂]; exact nofun)
  rw [hstored₂] at hstored₃
  obtain ⟨hP₄, hidx₄, hstream₄, hstored₄⟩ := save_proper PvrIndex.cached hidx₃ hs₂
    (M := 52363264) (by rw [hstream₃, hlen₂']; decide) (by rw [hstored₃]; decide)
  rw [hstored₃] at hstored₄
  obtain ⟨hP₅, -, -, hstored₅⟩ := save_proper PvrIndex.cached hidx₄ hs₃
    (M := 52363264) (by rw [hstream₄, hstream₃, hlen₂']; decide) (by rw [hstored₄]; decide)
  refine ⟨⟨hP₁, hP₂, hP₃, hP₄, hP₅, trivial⟩, ?_⟩
  rintro ⟨-, -, -, -, hkeeps, -⟩
  have hplaced := hkeeps.2.placed (entryAt 32770 52363264) (by rw [hstored₅]; simp)
  exact absurd hplaced (by decide)

/-- The entry of the frame at the end of the loop points behind the last byte of the
    data file. -/
theorem index_behind_data :
    ¬ ((observed PvrIndex.cached).Always (Proper PvrIndex.cached 52363264) (loopChn 52363264, {})
        (boundaryRun (List.replicate 52363263 0) (List.replicate 2000 0)) →
      (observed PvrIndex.cached).Always (Keeps PvrIndex.cached 52363264) (loopChn 52363264, {})
        (boundaryRun (List.replicate 52363263 0) (List.replicate 2000 0))) := by
  obtain ⟨hproper, hnot⟩ := boundaryRun_disagrees List.length_replicate List.length_replicate
  exact fun hall => hnot (hall hproper)

end Tntsat.PvrRec
