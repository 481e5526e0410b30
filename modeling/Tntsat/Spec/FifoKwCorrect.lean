import Tntsat.Native.FifoKw

/-!
# The subtitle fifo delivers its records

The fifo is compared with a queue of records.  The invariant `Holds` says that
the unread bytes, read cyclically from the read position, are the queued records
one after the other, and that the write position is that many bytes further on,
up to one turn.  "Up to one turn" is where the code goes wrong: full and empty
are told apart by the order of the two positions only, so after the last record
ended exactly at `endPos` the two positions are a whole buffer apart although
nothing is unread.

## Key results

- `writeSubFifoKw_holds`, `readSubFifoKw_holds`: what one call does to the queue
- `subFifo_delivers`: every run whose reads all meet `ReadSafe` delivers
- `subFifo_fails`: two runs that do not
-/

namespace Tntsat.FifoKw

/-! ## One write -/

/-- The read and write positions after the branch that resets them when equal. -/
private def resetIfEmpty (f : FifoType) : FifoType :=
  if f.wrPos = f.rdPos then { f with wrPos := f.startPos, rdPos := f.startPos } else f

/-- A record that does not fit leaves at most the positions reset. -/
theorem writeSubFifoKw_refused (s : State) (d : List UInt8) (hlen : d.length ≤ s.fifo.len)
    (hfree : ¬ freeSize s.fifo > d.length) :
    (writeSubFifoKw s d).1 = { s with fifo := resetIfEmpty s.fifo } := by
  simp only [writeSubFifoKw, writeLoop, writeRound, Nat.min_eq_left hlen, if_neg hfree, resetIfEmpty]

/-- A record that fits is stored with one cyclic write, in one round. -/
theorem writeSubFifoKw_accepted (s : State) (d : List UInt8) (hlen : d.length ≤ s.fifo.len)
    (hfree : freeSize s.fifo > d.length) (start : Nat)
    (hstart : s.fifo.startPos = start) (hend : s.fifo.endPos = start + s.fifo.len)
    (hwr : start ≤ s.fifo.wrPos ∧ s.fifo.wrPos ≤ start + s.fifo.len) :
    let f := resetIfEmpty s.fifo
    let wrPos := if f.wrPos = f.endPos then start else f.wrPos
    (writeSubFifoKw s d).1 =
      { fifo := { f with wrPos := if wrPos + d.length > f.endPos
                          then wrPos + d.length - s.fifo.len else wrPos + d.length },
        mem := s.mem.writeRing start s.fifo.len (wrPos - start) d } := by
  have hf : ∀ f, (resetIfEmpty f).startPos = f.startPos ∧ (resetIfEmpty f).endPos = f.endPos := by
    intro f; unfold resetIfEmpty; split <;> exact ⟨rfl, rfl⟩
  obtain ⟨hfs, hfe⟩ := hf s.fifo
  have hfw : start ≤ (resetIfEmpty s.fifo).wrPos ∧
      (resetIfEmpty s.fifo).wrPos ≤ start + s.fifo.len := by
    unfold resetIfEmpty; split
    · simp only; omega
    · exact hwr
  intro f wrPos
  have hw : start ≤ wrPos ∧ wrPos ≤ start + s.fifo.len := by
    simp only [wrPos, f]; split <;> omega
  simp only [writeSubFifoKw, writeLoop, Nat.min_eq_left hlen, Nat.sub_self, Nat.lt_irrefl,
    gt_iff_lt, if_false]
  have hround : writeRound s d d.length =
      ({ fifo := { f with wrPos := if wrPos + d.length > f.endPos
                          then wrPos + d.length - s.fifo.len else wrPos + d.length },
         mem := s.mem.writeRing start s.fifo.len (wrPos - start) d }, true) := by
    have hfold : (if s.fifo.wrPos = s.fifo.rdPos
        then { s.fifo with wrPos := s.fifo.startPos, rdPos := s.fifo.startPos } else s.fifo) = f := rfl
    simp only [writeRound, if_pos hfree, hfold]
    have hfs' : f.startPos = start := by rw [← hstart]; exact hfs
    have hfe' : f.endPos = start + s.fifo.len := by rw [← hend]; exact hfe
    have hwp : (if f.wrPos = f.endPos then f.startPos else f.wrPos) = wrPos := by
      simp only [wrPos, hfs']
    simp only [hwp]
    by_cases hwrap : wrPos + d.length > f.endPos
    · -- two copies, one up to `endPos` and one from `startPos`
      have hdrop : (d.drop (f.endPos - wrPos)).take (d.length - (f.endPos - wrPos)) =
          d.drop (f.endPos - wrPos) := by
        rw [← List.length_drop, List.take_length]
      have hpos : start + (d.length - (f.endPos - wrPos)) = wrPos + d.length - s.fifo.len := by
        omega
      simp only [if_pos hwrap, hdrop, Memory.writeRing,
        if_neg (show ¬ wrPos - start + d.length ≤ s.fifo.len by omega),
        show start + (wrPos - start) = wrPos by omega,
        show s.fifo.len - (wrPos - start) = f.endPos - wrPos by omega, hfs', hpos]
    · simp only [if_neg hwrap, Memory.writeRing, List.take_length,
        if_pos (show wrPos - start + d.length ≤ s.fifo.len by omega),
        show start + (wrPos - start) = wrPos by omega]
  rw [hround]

/-! ## The invariant -/

/-- The bytes of the queued records, one after the other. -/
def unreadBytes (q : List ReadResult) : List UInt8 := q.flatMap ReadResult.data

/-- The fifo holds the queue `q` of unread records. -/
structure Holds (start len : Nat) (s : State) (q : List ReadResult) : Prop where
  startPos : s.fifo.startPos = start
  fifoLen : s.fifo.len = len
  endPos : s.fifo.endPos = start + len
  rdPos : start ≤ s.fifo.rdPos ∧ (s.fifo.rdPos = start ∨ s.fifo.rdPos < start + len)
  wrPos : start ≤ s.fifo.wrPos ∧ s.fifo.wrPos ≤ start + len
  room : (unreadBytes q).length = 0 ∨ (unreadBytes q).length < len
  /-- the write position is behind the unread bytes, up to one turn -/
  turn : s.fifo.wrPos = s.fifo.rdPos + (unreadBytes q).length ∨
    s.fifo.wrPos + len = s.fifo.rdPos + (unreadBytes q).length ∨
    (s.fifo.wrPos = s.fifo.rdPos + len ∧ (unreadBytes q).length = 0)
  bytes : s.mem.readRing start len (s.fifo.rdPos - start) (unreadBytes q).length = unreadBytes q
  framed : ∀ r ∈ q, WellFramed r.data ∧ r.size = r.data.length

/-- The state left by `init_fifo_kw` holds the empty queue. -/
theorem initFifoKw_holds (mem : Memory UInt8) (start len : Nat) :
    Holds start len (initFifoKw mem start len) [] where
  startPos := rfl
  fifoLen := rfl
  endPos := rfl
  rdPos := ⟨Nat.le_refl _, .inl rfl⟩
  wrPos := ⟨Nat.le_refl _, Nat.le_add_right _ _⟩
  room := .inl rfl
  turn := .inl rfl
  bytes := rfl
  framed := by simp

/-- Resetting equal positions keeps the queue: equal positions mean it is empty. -/
theorem Holds.resetIfEmpty {start len : Nat} {s : State} {q : List ReadResult}
    (h : Holds start len s q) :
    Holds start len { s with fifo := FifoKw.resetIfEmpty s.fifo } q := by
  unfold FifoKw.resetIfEmpty
  split
  · rename_i heq
    obtain ⟨hstart, hfl, hend, hrd, hwr, hroom, hturn, hbytes, hframed⟩ := h
    have hnil : (unreadBytes q).length = 0 := by omega
    exact { startPos := hstart, fifoLen := hfl, endPos := hend,
            rdPos := ⟨Nat.le_of_eq hstart.symm, .inl hstart⟩,
            wrPos := ⟨Nat.le_of_eq hstart.symm, by simp only; omega⟩,
            room := .inl hnil, turn := .inl (by simp only; omega),
            bytes := by rw [List.eq_nil_of_length_eq_zero hnil]; rfl, framed := hframed }
  · exact h

/-- The free size the code computes is never more than what is really free. -/
theorem Holds.room_of_freeSize {start len : Nat} {s : State} {q : List ReadResult}
    (h : Holds start len s q) {k : Nat} (hfree : freeSize s.fifo > k) :
    (unreadBytes q).length + k < len := by
  obtain ⟨hstart, hfl, hend, hrd, hwr, hroom, hturn, -, -⟩ := h
  unfold freeSize at hfree
  split at hfree
  · omega
  · split at hfree <;> omega

/-- `write_sub_fifo_kw` appends an accepted record to the queue and drops a
    refused one. -/
theorem writeSubFifoKw_holds {start len : Nat} {s : State} {q : List ReadResult}
    (h : Holds start len s q) {rec : List UInt8} (hrec : WellFramed rec) (hlen : rec.length < len) :
    ∃ q', QueueStep q (Event.wrote rec (freeSize s.fifo > rec.length)).toQueue q' ∧
      Holds start len (writeSubFifoKw s rec).1 q' := by
  have hfl := h.fifoLen
  by_cases hfree : freeSize s.fifo > rec.length
  · have hacc := writeSubFifoKw_accepted s rec (by omega) hfree start h.startPos
      (by rw [h.endPos, hfl]) (by rw [hfl]; exact h.wrPos)
    have hroom := h.room_of_freeSize hfree
    obtain ⟨hstart, -, hend, hrd, hwr, -, hturn, hbytes, hframed⟩ := h.resetIfEmpty
    simp only at hstart hend hrd hwr hturn hbytes
    generalize hf : FifoKw.resetIfEmpty s.fifo = f at *
    -- the cell the record is written to is the one behind the unread bytes
    have hcell : (if f.wrPos = f.endPos then start else f.wrPos) - start =
        (f.rdPos - start + (unreadBytes q).length) % len := by
      rw [wrap_eq (by omega)]
      split <;> split <;> omega
    have hflen : f.len = len := by rw [← hf, ← hfl]; unfold FifoKw.resetIfEmpty; split <;> rfl
    refine ⟨q ++ [{ size := rec.length, data := rec }], ?_, ?_⟩
    · simp only [hfree, decide_true]; exact .push q _
    · rw [hacc]
      have hub : unreadBytes (q ++ [{ size := rec.length, data := rec }]) = unreadBytes q ++ rec := by
        simp [unreadBytes]
      refine { startPos := hstart, fifoLen := hflen, endPos := hend, rdPos := hrd,
               wrPos := ?_, room := ?_, turn := ?_, bytes := ?_, framed := ?_ }
      · simp only; split <;> split <;> omega
      · right; rw [hub, List.length_append]; exact hroom
      · simp only [hub, List.length_append]
        split <;> split <;> omega
      · simp only [hub, List.length_append, hfl, hcell]
        rw [Memory.readRing_writeRing _ _ (by omega) (by omega), hbytes]
      · intro r hr
        rcases List.mem_append.mp hr with hr | hr
        · exact hframed r hr
        · obtain rfl := List.mem_singleton.mp hr
          exact ⟨hrec, rfl⟩
  · have href := writeSubFifoKw_refused s rec (by omega) hfree
    refine ⟨q, by simp only [hfree, decide_false]; exact .refuse q, ?_⟩
    rw [href]
    exact h.resetIfEmpty

/-! ## One read -/

/-- The states in which a read does what it should.  The length field must not
    run past `endPos`, where the four-byte copy would read foreign memory, and
    the write position must not rest at `endPos` after the read position has
    already been moved to `startPos`. -/
def ReadSafe (s : State) : Call → Prop
  | .write _ => True
  | .read => s.fifo.rdPos ≠ s.fifo.wrPos →
      s.fifo.rdPos + 4 ≤ s.fifo.endPos ∧
        ¬ (s.fifo.rdPos = s.fifo.startPos ∧ s.fifo.wrPos = s.fifo.endPos)

instance (s : State) : ∀ c, Decidable (ReadSafe s c)
  | .write _ => inferInstanceAs (Decidable True)
  | .read => inferInstanceAs (Decidable (_ → _))

private theorem be32_take (b : List UInt8) : be32 (b.take 4) = be32 b := by
  simp [be32]

/-- Safe reads see unequal positions exactly when there is something to read. -/
theorem Holds.length_pos {start len : Nat} {s : State} {q : List ReadResult}
    (h : Holds start len s q) (hsafe : ReadSafe s .read) :
    s.fifo.rdPos ≠ s.fifo.wrPos ↔ 0 < (unreadBytes q).length := by
  obtain ⟨hstart, hfl, hend, hrd, hwr, hroom, hturn, -, -⟩ := h
  simp only [ReadSafe] at hsafe
  constructor
  · intro hne
    have := hsafe hne
    omega
  · intro hpos heq
    omega

/-- `read_sub_fifo_kw` hands out the oldest unread record and drops it. -/
theorem readSubFifoKw_cons {start len : Nat} {s : State} {r : ReadResult} {q : List ReadResult}
    (h : Holds start len s (r :: q)) (hsafe : ReadSafe s .read) :
    (readSubFifoKw s).2 = r ∧ Holds start len (readSubFifoKw s).1 q := by
  obtain ⟨⟨hr8, hr32k, hrL⟩, hrsize⟩ := h.framed r List.mem_cons_self
  have hne := (h.length_pos hsafe).mpr (by
    simp only [unreadBytes, List.flatMap_cons, List.length_append]; omega)
  obtain ⟨hhead4, hnot⟩ := hsafe hne
  obtain ⟨hstart, hfl, hend, hrd, hwr, hroom, hturn, hbytes, hframed⟩ := h
  have hub : unreadBytes (r :: q) = r.data ++ unreadBytes q := by simp [unreadBytes]
  rw [hub, List.length_append] at hroom hturn hbytes
  -- the first unread bytes are those of `r`, the others those of `q`
  rw [Memory.readRing_add] at hbytes
  obtain ⟨hdata, hrest⟩ := List.append_inj hbytes (by simp)
  have havail : available s.fifo > 0 := by
    unfold available
    split
    · omega
    · split <;> omega
  have hturn' : s.fifo.wrPos = s.fifo.rdPos + (r.data.length + (unreadBytes q).length) ∨
      s.fifo.wrPos + len = s.fifo.rdPos + (r.data.length + (unreadBytes q).length) := by omega
  have hhead : s.mem.read s.fifo.rdPos 4 = r.data.take 4 := by
    have hsplit := Memory.readRing_add s.mem start len (s.fifo.rdPos - start) 4 (r.data.length - 4)
    rw [show 4 + (r.data.length - 4) = r.data.length by omega, hdata] at hsplit
    rw [hsplit, List.take_left' (by simp), Memory.readRing_eq_read _ _ (by omega),
      show start + (s.fifo.rdPos - start) = s.fifo.rdPos by omega]
  have hsize : s32 (be32 (s.mem.read s.fifo.rdPos 4) + 8) = r.data.length := by
    have hL : (be32 r.data : Int) + 8 = r.data.length := by omega
    have hmax : subtBufSizeMax = 32768 := rfl
    rw [hhead, be32_take, hL]
    exact s32_of_range (by omega) (by omega)
  have hover : ¬ subtBufSizeMax < (r.data.length : Int) := Int.not_lt.mpr hr32k
  have hr : r = { size := r.data.length, data := r.data } := by rw [← hrsize]
  simp only [readSubFifoKw, if_pos havail, hsize, if_neg hover, Int.toNat_natCast, ← Int.natCast_add]
  clear hsize hhead hr32k hover
  by_cases hwrap : ((s.fifo.rdPos + r.data.length : Nat) : Int) > s.fifo.endPos
  · -- the record wraps: copied in two parts
    simp only [if_pos hwrap]
    refine ⟨?_, ?_⟩
    · rw [Memory.readRing_eq_read_append _ _ (by omega) (by omega) (by omega),
        show start + (s.fifo.rdPos - start) = s.fifo.rdPos by omega,
        show len - (s.fifo.rdPos - start) = s.fifo.endPos - s.fifo.rdPos by omega] at hdata
      rw [hstart, hdata, ← hr]
    · refine { startPos := hstart, fifoLen := hfl, endPos := hend, rdPos := ?_, wrPos := hwr,
               room := by omega, turn := ?_, bytes := ?_,
               framed := fun r' hr' => hframed r' (List.mem_cons_of_mem _ hr') }
      · simp only; omega
      · simp only; omega
      · rw [← Memory.readRing_mod, wrap_eq (by omega), if_neg (by omega)] at hrest
        rw [← hrest]
        simp only
        congr 1
        · omega
        · rw [hrest]
  · simp only [if_neg hwrap]
    refine ⟨?_, ?_⟩
    · rw [Memory.readRing_eq_read _ _ (by omega),
        show start + (s.fifo.rdPos - start) = s.fifo.rdPos by omega] at hdata
      rw [hdata, ← hr]
    · refine { startPos := hstart, fifoLen := hfl, endPos := hend, rdPos := ?_, wrPos := hwr,
               room := by omega, turn := ?_, bytes := ?_,
               framed := fun r' hr' => hframed r' (List.mem_cons_of_mem _ hr') }
      · simp only; split <;> omega
      · simp only; split <;> omega
      · rw [← Memory.readRing_mod, wrap_eq (by omega)] at hrest
        rw [← hrest]
        simp only
        congr 1
        · split <;> split <;> omega
        · rw [hrest]

/-- `read_sub_fifo_kw` returns 0 on a drained fifo. -/
theorem readSubFifoKw_nil {start len : Nat} {s : State} (h : Holds start len s [])
    (hsafe : ReadSafe s .read) : readSubFifoKw s = (s, { size := 0, data := [] }) := by
  have heq : s.fifo.rdPos = s.fifo.wrPos := by
    by_contra hne
    exact absurd ((h.length_pos hsafe).mp hne) (by simp [unreadBytes])
  have havail : ¬ available s.fifo > 0 := by
    simp [available, heq]
  simp only [readSubFifoKw, if_neg havail]

/-! ## Runs -/

/-- One call is one move of the queue. -/
theorem step_holds {start len : Nat} {s : State} {q : List ReadResult} (c : Call)
    (h : Holds start len s q) (hframed : c.Framed len) (hsafe : ReadSafe s c) :
    ∃ q', QueueStep q (machine.step s c).2.toQueue q' ∧
      Holds start len (machine.step s c).1 q' := by
  cases c with
  | write rec =>
    obtain ⟨hrec, hlen⟩ := hframed
    exact writeSubFifoKw_holds h hrec hlen
  | read =>
    cases q with
    | nil =>
      refine ⟨[], ?_, ?_⟩
      · simp only [machine, readSubFifoKw_nil h hsafe]
        exact .popNone
      · simp only [machine, readSubFifoKw_nil h hsafe]
        exact h
    | cons r q =>
      obtain ⟨hr, hrest⟩ := readSubFifoKw_cons h hsafe
      have hsize : ¬ r.size = 0 := by
        obtain ⟨⟨hr8, -⟩, hrsize⟩ := h.framed r List.mem_cons_self
        omega
      refine ⟨q, ?_, hrest⟩
      simp only [machine, Event.toQueue, hr, if_neg hsize]
      exact .popSome r q

/-- In every run of framed writes and safe reads the reads return exactly the
    accepted records, in order, each once, and 0 whenever none is left. -/
theorem subFifo_delivers (start len : Nat) (mem : Memory UInt8) (calls : List Call)
    (hframed : ∀ c ∈ calls, c.Framed len)
    (hsafe : machine.Always ReadSafe (initFifoKw mem start len) calls) :
    Delivers (machine.outputs (initFifoKw mem start len) calls) := by
  obtain ⟨q, hrun, -⟩ := Machine.queueRun (M := machine) Event.toQueue
    (fun s q c h hc => step_holds c h hc.1 hc.2) (initFifoKw_holds mem start len)
    (machine.always_of_forall_mem hframed hsafe)
  exact ⟨q, hrun⟩

/-- A record of `n` bytes, the last `n - 4` of them `x`. -/
def record (n : Nat) (x : UInt8) : List UInt8 :=
  [0, 0, 0, UInt8.ofNat (n - 8)] ++ List.replicate (n - 4) x

/-- Three records through a fifo of 20 bytes, the last one wrapping. -/
def wrappingRun : List Call :=
  [.write (record 8 1), .write (record 8 2), .read, .write (record 10 3), .read, .read, .read]

theorem subFifo_delivers_wrapping :
    Delivers (machine.outputs (initFifoKw (fun _ => 0xff) 0x1000 20) wrappingRun) :=
  subFifo_delivers 0x1000 20 (fun _ => 0xff) wrappingRun (by decide) (by decide)

/-- In a fifo of 24 bytes the last record ends exactly at `endPos`, and the read
    after it finds the first one again. -/
def drainedRun : List Call :=
  [.write (record 8 1), .write (record 8 2), .read, .write (record 8 3), .read, .read, .read]

/-- In a fifo of 20 bytes the third record's length field straddles `endPos`. -/
def straddlingRun : List Call :=
  [.write (record 10 1), .write (record 8 2), .read, .write (record 10 3), .read, .read]

/-- Delivered records are accepted ones, oldest first. -/
private theorem Delivers.popped_prefix {events : List Event} (h : Delivers events) :
    popped (events.map Event.toQueue) <+: pushed (events.map Event.toQueue) := by
  obtain ⟨unread, hrun⟩ := h
  exact ⟨unread, by simpa using hrun.conservation.symm⟩

/-- Both ways of leaving the condition lose the order of the records. -/
theorem subFifo_fails :
    (∀ c ∈ drainedRun, c.Framed 24) ∧ (∀ c ∈ straddlingRun, c.Framed 20) ∧
      ¬ Delivers (machine.outputs (initFifoKw (fun _ => 0) 0x1000 24) drainedRun) ∧
      ¬ Delivers (machine.outputs (initFifoKw (fun _ => 0) 0x1000 20) straddlingRun) := by
  refine ⟨by decide, by decide, fun h => ?_, fun h => ?_⟩
  · exact absurd h.popped_prefix (by decide)
  · exact absurd h.popped_prefix (by decide)

end Tntsat.FifoKw
