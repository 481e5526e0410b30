import Tntsat.Spec.PvrFifoCorrect

/-!
# The event map finds the last write

`PVR_PREAD64` takes the first cell of the event map that covers an offset.  As
long as the heads of the cells ascend (`Chain`), that is the cell the offset was
last written through.  `PVR_PWRITE64` at offset 0 breaks the order: it sets the
running event's head to 0 and leaves the cells before it as they are, and so
does `PVR_RecNewEvent` after a rewind below the running event's head.

## Key results

- `Chain.search_eq`: the search in an ascending map
- `pvrRecNewEvent_cases`: what opening an event does to the map
- `pread_finds_last_write`: every run whose writes and new events are made at or
  behind the running event's head
- `pread_finds_last_write_fails`: a rewind in the second event
-/

namespace Tntsat.PvrFifo

/-! ## Ascending maps -/

/-- The last write of a log that stored offset `x`. -/
def lastWrite (log : List NodeWrite) (x : Nat) : Option NodeWrite :=
  log.reverse.find? (·.stores x)

theorem lastWrite_append (log ws : List NodeWrite) (x : Nat) :
    lastWrite (log ++ ws) x = (lastWrite ws x).or (lastWrite log x) := by
  simp [lastWrite, List.find?_append]

theorem lastWrite_some {log : List NodeWrite} {x : Nat} {w : NodeWrite}
    (h : lastWrite log x = some w) : w ∈ log ∧ w.stores x = true := by
  unfold lastWrite at h
  exact ⟨List.mem_reverse.mp (List.mem_of_find?_eq_some h), by simpa using List.find?_some h⟩

theorem lastWrite_none {log : List NodeWrite} {x : Nat} (h : lastWrite log x = none) :
    ∀ w ∈ log, ¬ w.stores x = true := by
  unfold lastWrite at h
  exact fun w hw => List.find?_eq_none.mp h w (List.mem_reverse.mpr hw)

/-- The cells before the running one are closed and end where the next begins;
    the running one is open. -/
structure Chain (idx : EventIdx) : Prop where
  first : (idx.cell 0).u64head = 0
  closed : ∀ i < idx.widpos,
    (idx.cell i).u64head + (idx.cell i).u64size = (idx.cell (i + 1)).u64head ∧
      (idx.cell i).u64Tail ≠ invalidDefaultFileEventSize
  head_lt : ∀ i ≤ idx.widpos, (idx.cell i).u64head < invalidDefaultFileEventSize
  running : (idx.cell idx.widpos).u64size = invalidDefaultFileEventSize ∨
    ((idx.cell idx.widpos).u64size = 0 ∧
      (idx.cell idx.widpos).u64Tail = invalidDefaultFileEventSize)

/-- `Chain` is about the ranges of the cells only. -/
theorem Chain.congr {idx idx' : EventIdx} (h : Chain idx) (hsame : SameRanges idx idx') :
    Chain idx' := by
  have hcell : ∀ i, (idx'.cell i).u64head = (idx.cell i).u64head ∧
      (idx'.cell i).u64Tail = (idx.cell i).u64Tail ∧
      (idx'.cell i).u64size = (idx.cell i).u64size := by
    intro i
    have hi := hsame.2 i
    simp only [CellMap.range, Prod.mk.injEq] at hi
    exact ⟨hi.1, hi.2.1, hi.2.2.1⟩
  obtain ⟨hfirst, hclosed, hlt, hrun⟩ := h
  refine { first := ?_, closed := ?_, head_lt := ?_, running := ?_ }
  · rw [(hcell 0).1]; exact hfirst
  · intro i hi
    rw [(hcell i).1, (hcell i).2.1, (hcell i).2.2, (hcell (i + 1)).1]
    exact hclosed i (hsame.1 ▸ hi)
  · intro i hi
    rw [(hcell i).1]
    exact hlt i (hsame.1 ▸ hi)
  · rw [hsame.1, (hcell _).2.1, (hcell _).2.2]
    exact hrun

/-- The heads ascend. -/
theorem Chain.head_mono {idx : EventIdx} (h : Chain idx) {i j : Nat} (hij : i ≤ j)
    (hj : j ≤ idx.widpos) : (idx.cell i).u64head ≤ (idx.cell j).u64head := by
  induction j with
  | zero => rw [Nat.le_zero.mp hij]
  | succ j ih =>
    rcases Nat.lt_or_ge i (j + 1) with hlt | hge
    · have hle := ih (by omega) (by omega)
      have hnext := (h.closed j hj).1
      omega
    · rw [Nat.le_antisymm hij hge]

/-- In an ascending map the search finds the cell whose range holds the offset,
    past cells of length zero. -/
theorem Chain.search_eq {idx : EventIdx} (h : Chain idx) {x i : Nat} (hi : i ≤ idx.widpos)
    (hle : (idx.cell i).u64head ≤ x)
    (hlt : i < idx.widpos → x < (idx.cell (i + 1)).u64head) : idx.search x = some i := by
  have hmax : invalidDefaultFileEventSize = 18446744073709551615 := rfl
  unfold EventIdx.search
  rw [List.find?_range_eq_some]
  refine ⟨?_, List.mem_range.mpr (Nat.lt_succ_of_le hi), fun j hj => ?_⟩
  · simp only [CellMap.covers, decide_eq_true_eq]
    refine ⟨hle, ?_⟩
    rcases Nat.lt_or_ge i idx.widpos with hlt' | hge
    · left
      have hnext := h.head_lt (i + 1) hlt'
      rw [(h.closed i hlt').1, u64_of_lt (by omega)]
      exact hlt hlt'
    · obtain rfl := Nat.le_antisymm hi hge
      exact .inr h.running
  · -- an earlier cell ends at or before the head of this one
    have hjw : j < idx.widpos := Nat.lt_of_lt_of_le hj hi
    obtain ⟨hend, htail⟩ := h.closed j hjw
    have hmono := h.head_mono (show j + 1 ≤ i from hj) hi
    have hnext := h.head_lt (j + 1) hjw
    have hsize : (idx.cell j).u64size ≠ invalidDefaultFileEventSize := by omega
    have hpast : ¬ x < u64 ((idx.cell j).u64head + (idx.cell j).u64size) := by
      rw [hend, u64_of_lt (by omega)]; omega
    simp only [CellMap.covers, hsize, htail, hpast, and_false, or_false, decide_false,
      Bool.not_false]

/-! ## Opening an event -/

theorem markSaved_sameRanges (idx : EventIdx) (name : String) (env : EventEnv) :
    SameRanges idx (markSaved idx name env) := by
  unfold markSaved
  simp only
  split
  · exact SameRanges.refl idx
  · refine ⟨rfl, fun i => ?_⟩
    simp only
    split <;> rfl

theorem pvrRemoveTimeoutEvent_sameRanges (idx : EventIdx) (env : EventEnv) :
    SameRanges idx (pvrRemoveTimeoutEvent idx env) := by
  refine ⟨rfl, fun i => ?_⟩
  simp only [pvrRemoveTimeoutEvent]
  split <;> rfl

/-- The map after `seek` bytes, with the running event closed and `name` opened. -/
structure Extended (idx idx' : EventIdx) (seek : Nat) (name : String) : Prop where
  widpos : idx'.widpos = idx.widpos + 1
  old : ∀ i < idx.widpos, (idx'.cell i).range = (idx.cell i).range
  closed : ∃ tail, (tail = 0 ∨ tail = seek) ∧ (idx'.cell idx.widpos).range =
    ((idx.cell idx.widpos).u64head, tail, u64sub seek (idx.cell idx.widpos).u64head,
      (idx.cell idx.widpos).cellname)
  opened : (idx'.cell (idx.widpos + 1)).range = (seek, invalidDefaultFileEventSize, 0, name)

private theorem Extended.congr {idx₀ idx idx' : EventIdx} {seek : Nat} {name : String}
    (h : Extended idx idx' seek name) (hsame : SameRanges idx₀ idx) :
    Extended idx₀ idx' seek name := by
  obtain ⟨hwid, hold, hclosed, hopened⟩ := h
  rw [hsame.1] at hwid hold hclosed hopened
  rw [hsame.head, hsame.cellname] at hclosed
  exact { widpos := hwid, old := fun i hi => (hold i hi).trans (hsame.2 i), closed := hclosed
          opened := hopened }

/-- `PVR_Add_New_Event` extends the map and touches nothing else of the handle. -/
theorem pvrAddNewEvent_cases (f : PvrFile) {idx : EventIdx} (hidx : f.eventidx = some idx)
    (name : String) (isStop : Bool) (env : EventEnv) (isNull : Bool) :
    pvrAddNewEvent f name isStop env isNull = none ∨
    ∃ idx', pvrAddNewEvent f name isStop env isNull = some { f with eventidx := some idx' } ∧
      Extended idx idx' f.u64SeekOffset name := by
  unfold pvrAddNewEvent
  rw [hidx]
  simp only
  split
  · exact .inl rfl
  · right
    refine ⟨_, rfl, ?_⟩
    -- growing the table and dropping events that are too old keep the ranges
    generalize (if 1 + idx.widpos + 1 ≥ idx.celllen then idx.celllen + pvrFileMaxEvent
      else idx.celllen) = celllen
    have hsame : SameRanges idx (pvrRemoveTimeoutEvent { idx with celllen } env) :=
      pvrRemoveTimeoutEvent_sameRanges { idx with celllen } env
    generalize pvrRemoveTimeoutEvent { idx with celllen } env = r at hsame ⊢
    have hne : ¬ idx.widpos = 1 + idx.widpos := by omega
    refine { widpos := ?_, old := fun i hi => ?_, closed := ⟨if isStop then f.u64SeekOffset else 0,
             ?_, ?_⟩, opened := ?_ }
    · split <;> exact Nat.add_comm _ _
    -- only the running cell and the one behind it are written
    · have hi1 : ¬ i = 1 + idx.widpos := by omega
      have hi2 : ¬ i = idx.widpos := by omega
      rw [← hsame.2 i]
      split <;> simp only [EventIdx.setCell, if_neg hi1, if_neg hi2]
    · split
      · exact .inr rfl
      · exact .inl rfl
    · rw [← hsame.head, ← hsame.cellname]
      split <;> simp only [EventIdx.setCell, if_neg hne, if_true, CellMap.range]
    · rw [Nat.add_comm idx.widpos 1]
      split <;> simp only [EventIdx.setCell, if_true, CellMap.range]

theorem eventName_sameRanges (idx : EventIdx) (fname : Option String) :
    SameRanges idx (eventName idx fname).2 := by
  cases fname with
  | none => exact ⟨rfl, fun _ => rfl⟩
  | some name => exact SameRanges.refl idx

/-- What `PVR_RecNewEvent` can do to a handle: nothing but bookkeeping, or extend
    the map and open the new event's first node file. -/
inductive NewEvent (s s' : State) (idx idx' : EventIdx) : Prop
  | failed (h : s' = { s with file := { s.file with eventidx := some idx' } })
      (hsame : SameRanges idx idx')
  | opened (name : String)
      (h : s' = { s with file := { s.file with
        systemFd := some { cell := idx.widpos + 1, cellname := name, nodeIdx := 0 }
        u64StartOfCurFd := s.file.u64SeekOffset
        eventidx := some idx' } })
      (hext : Extended idx idx' s.file.u64SeekOffset name)

private theorem openEvent_cases (s : State) {idx idx₁ : EventIdx} (hsame : SameRanges idx idx₁)
    (name : String) (isStop isNull : Bool) (env : EventEnv) :
    ∃ idx', NewEvent s (openEvent s idx₁ name isStop isNull env).1 idx idx' := by
  unfold openEvent
  simp only
  split
  · rcases pvrAddNewEvent_cases { s.file with eventidx := some idx₁ } rfl name isStop env isNull
      with hnone | ⟨idx', hsome, hext⟩
    · rw [hnone]
      exact ⟨idx₁, .failed rfl hsame⟩
    · rw [hsome]
      exact ⟨idx', .opened name (by rw [hsame.1]) (hext.congr hsame)⟩
  · exact ⟨idx₁, .failed rfl hsame⟩

theorem pvrRecNewEvent_cases (s : State) {idx : EventIdx} (hidx : s.file.eventidx = some idx)
    (args : EventArgs) (env : EventEnv) :
    ∃ idx', NewEvent s (pvrRecNewEvent s args env).1 idx idx' := by
  unfold pvrRecNewEvent
  rw [hidx]
  refine openEvent_cases s ?_ _ _ _ env
  cases args.savedEvent with
  | none => exact eventName_sameRanges idx args.fname
  | some name =>
    have hsaved := markSaved_sameRanges idx name env
    exact hsaved.trans (eventName_sameRanges _ args.fname)

/-! ## Runs -/

/-- Where the running event begins. -/
def runningHead (f : PvrFile) : Nat :=
  match f.eventidx with
  | some idx => (idx.cell idx.widpos).u64head
  | none => 0

/-- The condition on one call: writes and new events are made at or behind the
    running event's head, the second chunk of a write fits into one node, and the
    stream stays two nodes below `2 ^ 64` bytes. -/
def MapSafe (s : State) : Call → Prop
  | .write c => runningHead s.file ≤ s.file.u64SeekOffset ∧ SecondChunkFits s.file c.size ∧
      s.file.u64SeekOffset + 2 * s.file.u64FileNodeSize < 18446744073709551616
  | .newEvent _ _ => runningHead s.file ≤ s.file.u64SeekOffset ∧
      s.file.u64SeekOffset + 2 * s.file.u64FileNodeSize < 18446744073709551616
  | .rewind => True

instance (s : State) : ∀ c, Decidable (MapSafe s c)
  | .write _ => inferInstanceAs (Decidable (_ ∧ _ ∧ _))
  | .newEvent _ _ => inferInstanceAs (Decidable (_ ∧ _))
  | .rewind => inferInstanceAs (Decidable True)

/-- A write that returns neither an error nor 0, unless it was asked for nothing. -/
def Succeeds (s : State) (c : Call) : Prop :=
  match c with
  | .write w => w.size = 0 ∨ 0 < (machine.step s c).2.ret
  | _ => True

instance (s : State) : ∀ c, Decidable (Succeeds s c)
  | .write _ => inferInstanceAs (Decidable (_ ∨ _))
  | .newEvent _ _ => inferInstanceAs (Decidable True)
  | .rewind => inferInstanceAs (Decidable True)

/-- The byte of offset `x` was last written through cell `i` of the map, into the
    node and to the position that belong to it there. -/
structure WrittenThrough (N : Nat) (idx : EventIdx) (x : Nat) (w : NodeWrite) (i : Nat) :
    Prop where
  le_widpos : i ≤ idx.widpos
  head_le : (idx.cell i).u64head ≤ x
  lt_next : i < idx.widpos → x < (idx.cell (i + 1)).u64head
  stores : w.stores x = true
  file : w.file = { cell := i, cellname := (idx.cell i).cellname,
                    nodeIdx := (x - (idx.cell i).u64head) / N }
  pos : w.pos + (x - w.offset) = (x - (idx.cell i).u64head) % N
  node_lt : (x - (idx.cell i).u64head) / N < pvrFileMaxEventNode

/-- The invariant: the map is ascending, the open node file belongs to its last
    cell, and every offset before the current one was last written through the
    cell that covers it. -/
structure Mapped (N : Nat) (s : State) (idx : EventIdx) (log : List NodeWrite) : Prop where
  running : ∃ node, Running N s idx node
  chain : Chain idx
  seek : s.file.u64SeekOffset = 0 ∨ (s.file.u64StartOfCurFd ≤ s.file.u64SeekOffset ∧
    s.file.u64SeekOffset ≤ s.file.u64StartOfCurFd + N)
  seek_lt : s.file.u64SeekOffset < 18446744073709551616
  written : ∀ x < s.file.u64SeekOffset, ∃ w i, lastWrite log x = some w ∧
    WrittenThrough N idx x w i

theorem Mapped.runningHead_eq {N : Nat} {s : State} {idx : EventIdx} {log : List NodeWrite}
    (h : Mapped N s idx log) : runningHead s.file = (idx.cell idx.widpos).u64head := by
  obtain ⟨node, hrun⟩ := h.running
  simp only [runningHead, hrun.eventidx]

theorem pvrOpen64_mapped (filename : String) (N : Nat) :
    Mapped N (pvrOpen64 filename N) (pvrInitEventidx filename) [] where
  running := ⟨0, pvrOpen64_running filename N⟩
  chain := { first := rfl, closed := fun i hi => absurd hi (Nat.not_lt_zero i)
             head_lt := fun i hi => by
               rw [Nat.le_zero.mp hi]; exact (by decide : 0 < invalidDefaultFileEventSize)
             running := .inl rfl }
  seek := .inl rfl
  seek_lt := (by decide : 0 < 18446744073709551616)
  written x hx := absurd hx (Nat.not_lt_zero x)

/-- What is known of an offset survives changes of the map that keep its cell's
    head and name and the next cell's head. -/
theorem WrittenThrough.congr {N : Nat} {idx idx' : EventIdx} {x : Nat} {w : NodeWrite} {i : Nat}
    (h : WrittenThrough N idx x w i) (hsame : SameRanges idx idx') :
    WrittenThrough N idx' x w i where
  le_widpos := by rw [hsame.1]; exact h.le_widpos
  head_le := by rw [hsame.head]; exact h.head_le
  lt_next hi := by rw [hsame.head]; exact h.lt_next (hsame.1 ▸ hi)
  stores := h.stores
  file := by rw [hsame.head, hsame.cellname]; exact h.file
  pos := by rw [hsame.head]; exact h.pos
  node_lt := by rw [hsame.head]; exact h.node_lt

/-- A successful write extends what is mapped by the bytes it stored. -/
theorem Mapped.write {N : Nat} {s : State} {idx : EventIdx} {log : List NodeWrite}
    (h : Mapped N s idx log) (hN : 0 < N) (c : WriteCall) (hsucc : Succeeds s (.write c))
    (hsafe : MapSafe s (.write c)) :
    ∃ idx', Mapped N (machine.step s (.write c)).1 idx'
      (log ++ (machine.step s (.write c)).2.writes) := by
  obtain ⟨hhead, hfits, hlt⟩ := hsafe
  rw [h.runningHead_eq] at hhead
  obtain ⟨⟨node, hrun⟩, hchain, hseek, hseeklt, hwritten⟩ := h
  have hstart := hrun.start
  rw [hrun.nodeSize] at hlt
  by_cases h0 : c.size = 0
  · -- nothing was asked for and nothing happened
    have hstep : machine.step s (.write c) = (s, { ret := 0 }) := by
      simp only [machine, pvrPwrite64, if_pos h0]
    rw [hstep, List.append_nil]
    exact ⟨idx, { running := ⟨node, hrun⟩, chain := hchain, seek := hseek
                  seek_lt := hseeklt, written := hwritten }⟩
  · have hret : 0 < (machine.step s (.write c)).2.ret := hsucc.resolve_left h0
    have hbound : ¬ InNode s.file s.file.u64SeekOffset →
        N ∣ s.file.u64SeekOffset - (idx.cell idx.widpos).u64head := by
      intro hin
      rcases hseek with hzero | ⟨hge, hle⟩
      · rw [hzero, Nat.zero_sub]; exact Nat.dvd_zero N
      · -- behind the open node file, so exactly at its end
        refine ⟨node + 1, ?_⟩
        simp only [InNode, hrun.nodeSize] at hin
        rw [Nat.mul_comm, Nat.succ_mul]; omega
    obtain ⟨idx', hw⟩ := pvrPwrite64_running hrun hN c (by omega) hhead hlt hfits hbound
    obtain ⟨node', hrun'⟩ := hw.running
    obtain ⟨hseek', hge', hcover⟩ := hw.advanced hret
    have hsame := hw.same
    refine ⟨idx', { running := ⟨node', hrun'⟩, chain := hchain.congr hsame,
                    seek := .inr ⟨hge', hw.seek_le⟩
                    seek_lt := hw.seek_lt, written := fun x hx => ?_ }⟩
    change x < (pvrPwrite64 s c.pRecChn c.env c.size s.file.u64SeekOffset).1.file.u64SeekOffset at hx
    rw [hseek'] at hx
    rw [lastWrite_append]
    change ∃ w i, (lastWrite (pvrPwrite64 s c.pRecChn c.env c.size s.file.u64SeekOffset).2.writes
      x).or (lastWrite log x) = some w ∧ WrittenThrough N idx' x w i
    generalize pvrPwrite64 s c.pRecChn c.env c.size s.file.u64SeekOffset = res at *
    cases hlast : lastWrite res.2.writes x with
    | some w =>
      -- one of the bytes just stored
      obtain ⟨hmem, hstores⟩ := lastWrite_some hlast
      obtain ⟨hox, -⟩ := (hcover x).mp ⟨w, hmem, hstores⟩
      have hp := hw.placed w hmem
      have hrange := hstores
      simp only [NodeWrite.stores, decide_eq_true_eq] at hrange
      obtain ⟨hidx, hpos⟩ := hp.byte hN (show x - w.offset < w.count by omega)
      rw [show w.offset + (x - w.offset) = x by omega] at hidx hpos
      have hthrough : WrittenThrough N idx x w idx.widpos :=
        { le_widpos := Nat.le_refl _, head_le := by omega
          lt_next := fun hlt' => absurd hlt' (Nat.lt_irrefl _)
          stores := hstores
          file := by rw [← hidx]; exact hp.file
          pos := hpos
          node_lt := hidx ▸ hp.node_lt }
      exact ⟨w, idx.widpos, rfl, hthrough.congr hsame⟩
    | none =>
      -- an older byte, which this write did not touch
      have hnot : ¬ (s.file.u64SeekOffset ≤ x ∧ x < s.file.u64SeekOffset + res.2.ret.toNat) := by
        intro hin
        obtain ⟨w, hmem, hstores⟩ := (hcover x).mpr hin
        exact lastWrite_none hlast w hmem hstores
      obtain ⟨w, i, hold, hthrough⟩ := hwritten x (by omega)
      exact ⟨w, i, by rw [hold]; rfl, hthrough.congr hsame⟩

/-- Opening an event keeps everything mapped. -/
theorem Mapped.newEvent {N : Nat} {s : State} {idx : EventIdx} {log : List NodeWrite}
    (h : Mapped N s idx log) (hN : 0 < N) (args : EventArgs) (env : EventEnv)
    (hsafe : MapSafe s (.newEvent args env)) :
    ∃ idx', Mapped N (machine.step s (.newEvent args env)).1 idx' log := by
  obtain ⟨hhead, hlt⟩ := hsafe
  rw [h.runningHead_eq] at hhead
  obtain ⟨⟨node, hrun⟩, hchain, hseek, hseeklt, hwritten⟩ := h
  rw [hrun.nodeSize] at hlt
  have hmax : invalidDefaultFileEventSize = 18446744073709551615 := rfl
  obtain ⟨idx', hcases⟩ := pvrRecNewEvent_cases s hrun.eventidx args env
  refine ⟨idx', ?_⟩
  change Mapped N (pvrRecNewEvent s args env).1 idx' log
  generalize (pvrRecNewEvent s args env).1 = s' at hcases
  cases hcases with
  | failed hs hsame =>
    -- nothing is opened: the cells are those from before, and so is the file
    subst hs
    exact { running := ⟨node, { hrun with
              eventidx := rfl
              start := by rw [hsame.1, hsame.head]; exact hrun.start
              fd := fun f hf => by rw [hsame.1, hsame.cellname]; exact hrun.fd f hf }⟩
            chain := hchain.congr hsame, seek := hseek, seek_lt := hseeklt
            written := fun x hx =>
              let ⟨w, i, hw, hi⟩ := hwritten x hx
              ⟨w, i, hw, hi.congr hsame⟩ }
  | opened name hs hext =>
    subst hs
    -- the running event is closed and the next cell opened behind it
    obtain ⟨hwid, hold, ⟨tail, htail, hclosed⟩, hopened⟩ := hext
    simp only [CellMap.range, Prod.mk.injEq] at hold hclosed hopened
    rw [u64sub_of_le hhead (by omega)] at hclosed
    have hfirst := hchain.first
    -- no event that is already there moves its head
    have hheads : ∀ i ≤ idx.widpos, (idx'.cell i).u64head = (idx.cell i).u64head := by
      intro i hi
      rcases Nat.lt_or_ge i idx.widpos with hlt' | hge
      · exact (hold i hlt').1
      · rw [Nat.le_antisymm hi hge]; exact hclosed.1
    -- the new event begins in node file 0, at its own head
    refine { running := ⟨0, ?_⟩, chain := ?_, seek := .inr ⟨Nat.le_refl _, Nat.le_add_right _ _⟩,
             seek_lt := hseeklt, written := fun x hx => ?_ }
    · exact { eventidx := rfl, nodeSize := hrun.nodeSize, loopEventId := hrun.loopEventId
              start := by rw [hwid, hopened.1, Nat.zero_mul]; rfl
              node_lt := by decide
              fd := fun f hf => by
                obtain rfl := Option.some.inj hf
                rw [hwid, hopened.2.2.2] }
    -- each event ends where the next one starts
    · refine { first := ?_, closed := fun i hi => ?_, head_lt := fun i hi => ?_, running := .inr ?_ }
      · rw [hheads 0 (Nat.zero_le _)]; exact hfirst
      · rw [hwid] at hi
        rcases Nat.lt_or_ge i idx.widpos with hlt' | hge
        · rw [hheads (i + 1) hlt', (hold i hlt').1, (hold i hlt').2.1, (hold i hlt').2.2.1]
          exact hchain.closed i hlt'
        -- the one that was running ends in front of the new head
        · obtain rfl : i = idx.widpos := by omega
          rw [hopened.1, hclosed.1, hclosed.2.1, hclosed.2.2.1]
          refine ⟨by omega, ?_⟩
          rcases htail with rfl | rfl <;> omega
      · rcases Nat.lt_or_ge idx.widpos i with hgt | hle
        · obtain rfl : i = idx.widpos + 1 := by omega
          rw [hopened.1]; omega
        · rw [hheads i hle]; exact hchain.head_lt i hle
      · rw [hwid]
        exact ⟨hopened.2.2.1, hopened.2.1⟩
    -- a byte written before stays with its event, whose head and name are the same
    · obtain ⟨w, i, hw, hi⟩ := hwritten x hx
      have hname : (idx'.cell i).cellname = (idx.cell i).cellname := by
        rcases Nat.lt_or_ge i idx.widpos with hlt' | hge
        · exact (hold i hlt').2.2.2
        · rw [Nat.le_antisymm hi.le_widpos hge]; exact hclosed.2.2.2
      have hh := hheads i hi.le_widpos
      refine ⟨w, i, hw, { le_widpos := by rw [hwid]; exact Nat.le_succ_of_le hi.le_widpos
                          head_le := by rw [hh]; exact hi.head_le
                          lt_next := fun _ => ?_
                          stores := hi.stores
                          file := by rw [hh, hname]; exact hi.file
                          pos := by rw [hh]; exact hi.pos
                          node_lt := by rw [hh]; exact hi.node_lt }⟩
      rcases Nat.lt_or_ge i idx.widpos with hlt' | hge
      · rw [hheads (i + 1) hlt']; exact hi.lt_next hlt'
      · rw [Nat.le_antisymm hi.le_widpos hge, hopened.1]; exact hx

/-- One call keeps everything mapped. -/
theorem Mapped.step {N : Nat} {s : State} {idx : EventIdx} {log : List NodeWrite}
    (h : Mapped N s idx log) (hN : 0 < N) (c : Call) (hsucc : Succeeds s c) (hsafe : MapSafe s c) :
    ∃ idx', Mapped N (machine.step s c).1 idx' (log ++ (machine.step s c).2.writes) := by
  cases c with
  | write w => exact h.write hN w hsucc hsafe
  | newEvent args env =>
    have hnone : (machine.step s (.newEvent args env)).2.writes = [] := rfl
    rw [hnone, List.append_nil]
    exact h.newEvent hN args env hsafe
  | rewind =>
    obtain ⟨⟨node, hrun⟩, hchain, -, -, -⟩ := h
    exact ⟨idx, { running := ⟨node, { hrun with }⟩, chain := hchain, seek := .inl rfl
                  seek_lt := (by decide : 0 < 18446744073709551616)
                  written := fun x hx => absurd hx (Nat.not_lt_zero x) }⟩

/-- In every run of successful writes, new events and rewinds whose calls meet
    `MapSafe`, `PVR_PREAD64` finds every offset that has been written since the
    last rewind in the event, the node and the position it was last written to. -/
theorem pread_finds_last_write (filename : String) (N : Nat) (hN : 0 < N) (calls : List Call)
    (hsucc : machine.Always Succeeds (pvrOpen64 filename N) calls)
    (hsafe : machine.Always MapSafe (pvrOpen64 filename N) calls) :
    let s := machine.final (pvrOpen64 filename N) calls
    let log := stored (machine.outputs (pvrOpen64 filename N) calls)
    ∀ x < s.file.u64SeekOffset, ∃ w start, lastWrite log x = some w ∧
      preadNode s x = some (w.file, start) ∧ x = start + (w.pos + (x - w.offset)) := by
  intro s log x hx
  have hmapped : ∃ idx, Mapped N s idx log :=
    Machine.invariant_outputs (I := fun s es => ∃ idx, Mapped N s idx (stored es)) (l := [])
      (fun s es c h hc => by
        obtain ⟨idx, h⟩ := h
        rw [stored_append]
        exact h.step hN c hc.1 hc.2)
      ⟨_, pvrOpen64_mapped filename N⟩ (Machine.Always.and machine hsucc hsafe)
  obtain ⟨idx, ⟨node, hrun⟩, hchain, -, hseek, hwritten⟩ := hmapped
  -- the last write of the byte and the event it belongs to
  obtain ⟨w, i, hlast, hi⟩ := hwritten x hx
  -- the search of the read finds that event
  have hsearch := hchain.search_eq hi.le_widpos hi.head_le hi.lt_next
  have hfile := hi.file
  have hpos := hi.pos
  have hnode := hi.node_lt
  have hhead := hi.head_le
  generalize hk : (x - (idx.cell i).u64head) / N = k at hfile hnode
  -- and the division by the node size the file of the write
  have hdm := Nat.div_add_mod (x - (idx.cell i).u64head) N
  rw [hk, Nat.mul_comm] at hdm
  unfold pvrFileMaxEventNode at hnode
  refine ⟨w, (idx.cell i).u64head + k * N, hlast, ?_, by omega⟩
  have hsub : u64sub x (idx.cell i).u64head = x - (idx.cell i).u64head :=
    u64sub_of_le hhead (by omega)
  simp only [preadNode, hrun.eventidx, hsearch, hrun.loopEventId, hrun.nodeSize, hsub, hk, ne_eq,
    not_true_eq_false, if_false]
  rw [u32_of_lt (by omega), u64_of_lt (by omega), ← hfile]

/-- A recording with a rewind in its first event and a second event after it. -/
def eventRun : List Call :=
  [.write (writeCall 100 wroteAll wroteAll), .rewind, .write (writeCall 60 wroteAll wroteAll),
    .newEvent { fname := some "b" } {}, .write (writeCall 2000000 wroteAll wroteAll)]

theorem pread_finds_last_write_eventRun :
    ∃ w start, lastWrite (stored (machine.outputs (pvrOpen64 "a.ts" 1048576) eventRun)) 30 =
        some w ∧
      preadNode (machine.final (pvrOpen64 "a.ts" 1048576) eventRun) 30 = some (w.file, start) ∧
      30 = start + (w.pos + (30 - w.offset)) :=
  pread_finds_last_write "a.ts" 1048576 (by decide) eventRun (by decide +kernel)
    (by decide +kernel) 30 (by decide +kernel)

/-- The rewind comes after a second event has begun. -/
def rewoundRun : List Call :=
  [.write (writeCall 100 wroteAll wroteAll), .newEvent { fname := some "b" } {},
    .write (writeCall 100 wroteAll wroteAll), .rewind, .write (writeCall 50 wroteAll wroteAll)]

/-- After a rewind in the second event its bytes are looked for in the first. -/
theorem pread_finds_last_write_fails :
    let s := machine.final (pvrOpen64 "a.ts" 1048576) rewoundRun
    let log := stored (machine.outputs (pvrOpen64 "a.ts" 1048576) rewoundRun)
    machine.Always Succeeds (pvrOpen64 "a.ts" 1048576) rewoundRun ∧
      0 < s.file.u64SeekOffset ∧
      (lastWrite log 0).map (·.file.cell) = some 1 ∧
      (preadNode s 0).map (·.1.cell) = some 0 := by
  decide +kernel

end Tntsat.PvrFifo
