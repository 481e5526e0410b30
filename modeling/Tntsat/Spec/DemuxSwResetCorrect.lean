import Tntsat.Spec.DemuxSwSectionsCorrect

/-!
# What closing a channel forgets

`DMX_SwResetChannel` gives all blocks back and drops what is in progress in the
write block, but leaves `u8TmpArryLen`: one or two bytes of a section header that
came before the close are the head of the first section after it.

## Key results

- `Rep.reset`: the assembler a closed channel represents
- `Rep.extract`: one packet of the thread refines `Assembler.extract`
- `reset_forgets`: closing forgets the past exactly when no header is in progress
-/

namespace Tntsat.DemuxSw

/-! ## Histories -/

/-- What happens to a channel: a packet under the filters in force, or a call. -/
inductive ChnEvent
  | packet (cfg : FilterCfg) (ts : TsPacket)
  | openChn
  | closeChn

/-- A channel in use. -/
def chnMachine : Machine SwChn ChnEvent Unit where
  step chn
    | .packet cfg ts => (swExtract cfg chn ts, ())
    | .openChn => ((swOpenChannel chn).1, ())
    | .closeChn => ((swCloseChannel chn).1, ())

/-- A channel created in a buffer of `chanBufSize` bytes. -/
def newChn (mem : Memory UInt8) (chanBufSize : Nat) (buf : MmzBuffer) : SwChn :=
  (swNewChannel { usedFlag := false, runFlag := false, cc := 0, dataBuf := .zero mem } .sec
    chanBufSize (some buf) true).1

/-- `MT_DMX_SwCloseChannel` and `MT_DMX_SwOpenChannel`. -/
def reopen (chn : SwChn) : SwChn := (swOpenChannel (swCloseChannel chn).1).1

/-- Packets, each under the filters in force. -/
def swExtractAll (chn : SwChn) (later : List (FilterCfg × TsPacket)) : SwChn :=
  later.foldl (fun chn e => swExtract e.1 chn e.2) chn

/-! ## The assembler of a channel that runs -/

namespace Assembler

/-- The test of `DMX_SwCheckIfChnOvfl`. -/
def overflows (a : Assembler) : Bool :=
  a.free + 1 < (a.closed.length + a.free + 1) * dmxSwOverflPercent / 100

/-- One packet of the thread. -/
def extract (a : Assembler) (e : FilterCfg × TsPacket) : Assembler :=
  if byteAt e.2.bytes 0 ≠ 0x47 then a
  else if a.overflows then a
  else a.packet e.1.accepts e.2

theorem extract_rebase (log : List (List UInt8)) (fixed : Fixed) (a : Assembler)
    (e : FilterCfg × TsPacket) :
    (a.rebase log fixed).extract e = (a.extract e).rebase log fixed := by
  have hovfl : (a.rebase log fixed).overflows = a.overflows := rfl
  unfold extract
  rw [hovfl, packet_rebase]
  split
  · rfl
  · split <;> rfl

theorem extractAll_rebase (log : List (List UInt8)) (fixed : Fixed) (a : Assembler)
    (later : List (FilterCfg × TsPacket)) :
    later.foldl extract (a.rebase log fixed) = (later.foldl extract a).rebase log fixed := by
  induction later generalizing a with
  | nil => rfl
  | cons e later ih => rw [List.foldl_cons, List.foldl_cons, extract_rebase, ih]

theorem extract_fixed (a : Assembler) (e : FilterCfg × TsPacket) :
    (a.extract e).fixed = a.fixed := by
  have hself : a.rebase [] a.fixed = a := rfl
  rw [← hself, extract_rebase]
  rfl

end Assembler

/-- The overflow test by what the channel holds. -/
theorem Rep.overflows_eq {s : SwDataBuf} {a : Assembler} (h : Rep s a) :
    swCheckIfChnOvfl s = a.overflows := by
  have hused := h.usedBlocks_eq
  have hcount := h.count
  obtain ⟨_, hf, -⟩ := h.filled
  have hr := hf.geometry.readPtr_lt
  have hw := hf.geometry.writePtr_lt
  have hsize : (if s.writePtr ≥ s.readPtr then s.writePtr - s.readPtr
      else s.descSize - s.readPtr + s.writePtr) = a.closed.length := by
    unfold SwDataBuf.usedBlocks at hused
    rw [wrap_eq (by omega)] at hused
    rw [← hused]
    split <;> split <;> omega
  unfold swCheckIfChnOvfl Assembler.overflows
  simp only [hsize]
  rw [← hcount, show a.closed.length + a.free + 1 - a.closed.length = a.free + 1 by omega]

/-- One packet of the thread refines the assembler. -/
theorem Rep.extract {chn : SwChn} {a : Assembler} (h : Rep chn.dataBuf a)
    (hused : chn.usedFlag = true) (hrun : chn.runFlag = true) (e : FilterCfg × TsPacket) :
    Rep (swExtract e.1 chn e.2).dataBuf (a.extract e) ∧
    (swExtract e.1 chn e.2).usedFlag = true ∧ (swExtract e.1 chn e.2).runFlag = true := by
  unfold swExtract swCheckTsPacket Assembler.extract
  rw [hused, hrun]
  simp only [Bool.and_self, if_true]
  by_cases hsync : byteAt e.2.bytes 0 ≠ 0x47
  · rw [if_pos hsync, if_pos hsync]
    simp only [Bool.false_and, Bool.false_eq_true, if_false]
    exact ⟨h, hused, hrun⟩
  · rw [if_neg hsync, if_neg hsync]
    simp only [Bool.true_and, h.overflows_eq]
    cases a.overflows with
    | true => exact ⟨h, rfl, rfl⟩
    | false => exact ⟨h.packet e.1 e.2, rfl, rfl⟩

theorem Rep.extractAll {chn : SwChn} {a : Assembler} (h : Rep chn.dataBuf a)
    (hused : chn.usedFlag = true) (hrun : chn.runFlag = true)
    (later : List (FilterCfg × TsPacket)) :
    Rep (swExtractAll chn later).dataBuf (later.foldl Assembler.extract a) := by
  induction later generalizing chn a with
  | nil => exact h
  | cons e later ih =>
    obtain ⟨h', hused', hrun'⟩ := h.extract hused hrun e
    exact ih h' hused' hrun'

/-! ## Closing -/

/-- The bytes of a section header that are not in the write block. -/
def SwDataBuf.tmpBytes (s : SwDataBuf) : List UInt8 := s.tmpDataArry.read 0 s.tmpArryLen

theorem geometry_reset {s : SwDataBuf} (h : Geometry s) : Geometry (swResetChannel s) where
  descSize_pos := h.descSize_pos
  startPhyAddr := (h.setDataLen 0 0).startPhyAddr
  bufSize := (h.setDataLen 0 0).bufSize
  readPtr_lt := h.descSize_pos
  writePtr_lt := h.descSize_pos

/-- A closed channel holds the bytes in `tmpDataArry` and nothing else. -/
theorem Rep.reset {s : SwDataBuf} {a : Assembler} (h : Rep s a) :
    Rep (swResetChannel s) (.empty (swResetChannel s).fixed s.tmpBytes s.committed) := by
  obtain ⟨bytes, hf, hheld⟩ := h.filled
  have hlen : ((swResetChannel s).desc 0).dataLen = 0 := by
    refine (setDataLen_desc s 0 0 0).2.2.trans ?_
    rw [if_pos rfl]
  have hle : ∀ i < s.descSize, ((swResetChannel s).desc i).dataLen ≤ dmxMaxSecLen := by
    intro i hi
    show ((s.setDataLen 0 0).desc i).dataLen ≤ _
    rw [(setDataLen_desc s 0 0 i).2.2]
    split
    · exact Nat.zero_le _
    · exact hf.dataLen_le i hi
  have hfilled := (geometry_reset hf.geometry).filled_empty rfl rfl hlen rfl hle s.tmpBytes
  rcases hheld with ⟨-, hle2, htmp, hread⟩ | ⟨-, -, htmp, -⟩
  · -- less than a header was in progress, and it still is
    have hbytes : s.tmpBytes = a.pending := by
      unfold SwDataBuf.tmpBytes
      rw [htmp, hread]
    rw [hbytes] at hfilled ⊢
    exact {
      filled := ⟨[], hfilled, .inl ⟨rfl, hle2, htmp, hread⟩⟩
      head := h.head }
  · have hbytes : s.tmpBytes = [] := by
      unfold SwDataBuf.tmpBytes
      rw [htmp]
      rfl
    rw [hbytes] at hfilled ⊢
    exact hfilled.rep_nil htmp

/-- What every history keeps; a channel that does not run is empty. -/
structure ChnOk (chanBufSize : Nat) (chn : SwChn) : Prop where
  used : chn.usedFlag = true
  rep : ∃ a, Rep chn.dataBuf a
  descSize : chn.dataBuf.descSize = swBlockNum chanBufSize
  idle : chn.runFlag = false →
    Rep chn.dataBuf (.empty chn.dataBuf.fixed chn.dataBuf.tmpBytes chn.dataBuf.committed)

theorem chnOk_new (mem : Memory UInt8) (chanBufSize : Nat) (buf : MmzBuffer) :
    ChnOk chanBufSize (newChn mem chanBufSize buf) where
  used := rfl
  rep := ⟨_, rep_new mem chanBufSize buf⟩
  descSize := rfl
  idle _ := rep_new mem chanBufSize buf

/-- Every event keeps it. -/
theorem ChnOk.step {chanBufSize : Nat} {chn : SwChn} (h : ChnOk chanBufSize chn) (i : ChnEvent) :
    ChnOk chanBufSize (chnMachine.step chn i).1 := by
  obtain ⟨a, hrep⟩ := h.rep
  cases i with
  | packet cfg ts =>
    show ChnOk chanBufSize (swExtract cfg chn ts)
    by_cases hrun : chn.runFlag = true
    · obtain ⟨hrep', hused', hrun'⟩ := hrep.extract h.used hrun (cfg, ts)
      exact {
        used := hused'
        rep := ⟨_, hrep'⟩
        descSize := by
          rw [hrep'.descSize_eq, Assembler.extract_fixed, ← hrep.descSize_eq, h.descSize]
        idle := fun hfalse => nomatch hrun'.symm.trans hfalse }
    · -- the thread passes over a channel that does not run
      have hskip : swExtract cfg chn ts = chn := by
        unfold swExtract
        rw [h.used, Bool.eq_false_iff.mpr hrun]
        rfl
      rw [hskip]
      exact h
  | openChn =>
    show ChnOk chanBufSize (swOpenChannel chn).1
    unfold swOpenChannel
    rw [h.used]
    cases hrun : chn.runFlag with
    | true => exact h
    | false => exact ⟨rfl, ⟨a, hrep⟩, h.descSize, fun hfalse => nomatch hfalse⟩
  | closeChn =>
    show ChnOk chanBufSize (swCloseChannel chn).1
    unfold swCloseChannel
    rw [h.used]
    cases hrun : chn.runFlag with
    | true => exact ⟨rfl, ⟨_, hrep.reset⟩, h.descSize, fun _ => hrep.reset⟩
    | false => exact h

/-- A reopened channel runs, and holds the bytes in `tmpDataArry` and nothing else. -/
theorem ChnOk.reopen {chanBufSize : Nat} {chn : SwChn} (h : ChnOk chanBufSize chn) :
    (reopen chn).usedFlag = true ∧ (reopen chn).runFlag = true ∧
    (reopen chn).dataBuf.descSize = swBlockNum chanBufSize ∧
    Rep (reopen chn).dataBuf
      (.empty (reopen chn).dataBuf.fixed chn.dataBuf.tmpBytes chn.dataBuf.committed) := by
  obtain ⟨a, hrep⟩ := h.rep
  unfold DemuxSw.reopen swCloseChannel swOpenChannel
  cases hrun : chn.runFlag with
  | true =>
    simp only [h.used, Bool.not_true, Bool.false_eq_true, if_false]
    exact ⟨trivial, trivial, h.descSize, hrep.reset⟩
  | false =>
    simp only [h.used, Bool.not_true, Bool.not_false, Bool.false_eq_true, if_false, if_true, hrun]
    exact ⟨trivial, trivial, h.descSize, h.idle hrun⟩

/-! ## A header in progress shows -/

namespace Assembler

/-- A packet of zeros. -/
def zeroPkt : TsPacket where
  bytes := [0x47, 0x00, 0x00, 0x10] ++ List.replicate 184 0
  length_eq := by decide +kernel

/-- A packet of `n` zeros and then stuffing. -/
def lastPkt (n : Fin 185) : TsPacket where
  bytes := [0x47, 0x00, 0x00, 0x10] ++ (List.replicate n 0 ++ List.replicate (184 - n) 0xff)
  length_eq := by
    have hn := n.isLt
    simp only [List.length_append, List.length_replicate, List.length_cons, List.length_nil]
    unfold dmxTsPacketLen
    omega

theorem lastPkt_payload (n : Fin 185) :
    (lastPkt n).payload = List.replicate n 0 ++ List.replicate (184 - n) 0xff := by
  have hcontrol : (lastPkt n).adaptationFieldControl = 1 := by
    show ((0x10 : UInt8) >>> 4) &&& 0x3 = 1
    decide
  unfold TsPacket.payload
  rw [if_pos hcontrol]
  rfl

/-- A channel in which nothing is in progress drops packets without a unit start. -/
theorem extract_idle {a : Assembler} (hp : a.pending = []) (cfg : FilterCfg) {ts : TsPacket}
    (hstart : ¬ ts.unitStart) : a.extract (cfg, ts) = a := by
  unfold extract
  rw [packet_cont _ _ hstart]
  have hinsert : a.insert cfg.accepts ts.payload false = a := by
    unfold insert
    rw [hp]
    split <;> rfl
  rw [hinsert]
  split
  · rfl
  · split <;> rfl

/-- A packet continues the section in progress of a channel with all blocks free. -/
theorem extract_cont {a : Assembler} (hclosed : a.closed = []) (cfg : FilterCfg) {ts : TsPacket}
    (hsync : byteAt ts.bytes 0 = 0x47) (hstart : ¬ ts.unitStart) :
    a.extract (cfg, ts) = a.insert cfg.accepts ts.payload false := by
  have hovfl : a.overflows = false := by
    unfold overflows dmxSwOverflPercent
    rw [hclosed, List.length_nil, decide_eq_false_iff_not]
    omega
  unfold extract
  rw [if_neg (not_not.mpr hsync), hovfl, packet_cont _ _ hstart]
  rfl

/-- Zeros complete a section that needs `m` more of them. -/
theorem exists_completion (m : Nat) (hm : 0 < m) {a : Assembler} (hclosed : a.closed = [])
    (hcur : a.cur = []) (hp : a.pending ≠ [])
    (hlegal : LegalSection passAllCfg (a.pending ++ List.replicate m 0)) :
    ∃ pkts : List TsPacket, (∀ ts ∈ pkts, ¬ ts.unitStart) ∧
      ((pkts.map fun ts => (passAllCfg, ts)).foldl extract a).log =
        a.log ++ [a.pending ++ List.replicate m 0] := by
  induction m using Nat.strongRecOn generalizing a with
  | ind m ih =>
    by_cases hle : m ≤ 184
    · -- one packet is enough: the rest of it is stuffing
      let ts := lastPkt ⟨m, by omega⟩
      have hpayload : ts.payload = List.replicate m 0 ++ List.replicate (184 - m) 0xff :=
        lastPkt_payload _
      have hstart : ¬ ts.unitStart := by
        show ¬ ((0x00 : UInt8) &&& 0x40 ≠ 0)
        decide
      have hstuffing : Stuffing (List.replicate (184 - m) 0xff) :=
        fun b hb => List.eq_of_mem_replicate hb
      have hrest : List.replicate m (0 : UInt8) ≠ [] := by
        rw [Ne, List.replicate_eq_nil_iff]
        omega
      have htodo : a.todo (List.replicate m 0) [] = [a.pending ++ List.replicate m 0] := by
        unfold todo
        rw [if_neg hrest]
      have hlegals : ∀ sec ∈ a.todo (List.replicate m 0) [], LegalSection passAllCfg sec := by
        intro sec hsec
        rw [htodo] at hsec
        rw [List.mem_singleton.mp hsec]
        exact hlegal
      have hfree : ((a.todo (List.replicate m 0) []).foldl storeSection
          { a with pending := [] }.blocks).length ≤ a.closed.length + a.free + 1 := by
        have hblocks : { a with pending := [] }.blocks = [[]] := by
          unfold blocks
          simp only [hclosed, hcur]
          rfl
        rw [htodo, hblocks, List.foldl_cons, List.foldl_nil, storeSection, List.length_nil,
          if_pos (by rw [Nat.zero_add]; exact hlegal.length_le), List.length_singleton]
        omega
      obtain ⟨r, hr, hadded⟩ := addAll_spec (a := { a with pending := [] }) hlegals hfree
      obtain ⟨-, hadd⟩ := insert_rest (fun hc => absurd hc hrest) (fun _ => hp) hstuffing hlegals hr
      refine ⟨[ts], fun t ht => by rw [List.mem_singleton.mp ht]; exact hstart, ?_⟩
      show (a.extract (passAllCfg, ts)).log = _
      rw [extract_cont hclosed passAllCfg rfl hstart, hpayload, Option.some.inj hadd, hadded.log,
        htodo]
    · -- the section grows by a packet of zeros
      have hsplit : List.replicate m (0 : UInt8) =
          List.replicate 184 0 ++ List.replicate (m - 184) 0 := by
        rw [← List.replicate_add, show 184 + (m - 184) = m by omega]
      have happ : a.pending ++ List.replicate m 0 =
          a.pending ++ List.replicate 184 0 ++ List.replicate (m - 184) 0 := by
        rw [hsplit, List.append_assoc]
      have hppos := List.length_pos_iff.mpr hp
      have hlen : (a.pending ++ List.replicate 184 (0 : UInt8)).length = a.pending.length + 184 := by
        rw [List.length_append, List.length_replicate]
      have hstart : ¬ zeroPkt.unitStart := by decide +kernel
      have hpayload : zeroPkt.payload = List.replicate 184 0 := by decide +kernel
      have hlegal' := hlegal
      rw [happ] at hlegal'
      have hsec : secLen (a.pending ++ List.replicate 184 0) = a.pending.length + m := by
        have hlength := hlegal'.length_eq
        rw [secLen_append (by omega)] at hlength
        rw [hlength, List.length_append, hlen, List.length_replicate]
        omega
      have hmax : a.pending.length + m ≤ dmxMaxSecLen := by
        have hle' := hlegal.length_le
        rwa [List.length_append, List.length_replicate] at hle'
      have hff : byteAt (a.pending ++ List.replicate 184 0) 0 ≠ 0xff := by
        have hfirst := hlegal.first
        rw [byteAt_append_left hppos] at hfirst ⊢
        exact hfirst
      have hreserve : { a with pending := [] }.reserve (a.pending.length + m) =
          some { a with pending := [] } := by
        unfold reserve
        simp only [hcur, List.flatten_nil, List.length_nil, Nat.zero_add]
        rw [if_pos hmax]
      have hinsert : a.extract (passAllCfg, zeroPkt) =
          { a with pending := a.pending ++ List.replicate 184 0 } := by
        rw [extract_cont hclosed passAllCfg (by decide +kernel) hstart, hpayload]
        unfold insert
        rw [List.length_replicate, if_neg (by omega)]
        simp only [Bool.false_eq_true, if_false]
        rw [if_neg (by omega), take_header _ _ (by omega) hff, hsec, if_neg (by omega), hreserve]
        simp only
        rw [if_neg (by omega)]
      obtain ⟨pkts, hstarts, hlog⟩ := ih (m - 184) (by omega) (by omega)
        (a := { a with pending := a.pending ++ List.replicate 184 0 }) hclosed hcur
        (by simp [hp]) hlegal'
      refine ⟨zeroPkt :: pkts, fun ts hts => ?_, ?_⟩
      · rcases List.mem_cons.mp hts with rfl | hts
        · exact hstart
        · exact hstarts ts hts
      · rw [List.map_cons, List.foldl_cons, hinsert, hlog, happ]

end Assembler

/-- One or two bytes of a header can always be completed to a section. -/
theorem exists_legal {p : List UInt8} (hpos : 0 < p.length) (hle : p.length ≤ 2)
    (hff : byteAt p 0 ≠ 0xff) :
    ∃ m, 0 < m ∧ LegalSection passAllCfg (p ++ List.replicate m 0) := by
  -- zeros behind the header make its length come out right
  match p, hpos, hle with
  | [b0], _, _ =>
    have hsec : secLen ([b0] ++ List.replicate 2 0) = 3 := by
      show secLenOf 0 0 = 3
      decide
    exact ⟨2, by decide, hsec, by show 3 ≤ dmxMaxSecLen; decide, hff, rfl⟩
  | [b0, b1], _, _ =>
    have h3 := Nat.le_add_left 3 (((b1 &&& 0x0f).toNat <<< 8) + (0 : UInt8).toNat)
    have hmax : secLenOf b1 0 ≤ dmxMaxSecLen := by
      have hand : (b1 &&& 0x0f).toNat ≤ 15 := by
        rw [UInt8.toNat_and]
        exact Nat.and_le_right
      have hzero : (0 : UInt8).toNat = 0 := rfl
      unfold secLenOf dmxMaxSecLen
      rw [Nat.shiftLeft_eq, hzero]
      omega
    obtain ⟨k, hk⟩ : ∃ k, secLenOf b1 0 = k + 3 := ⟨secLenOf b1 0 - 3, by unfold secLenOf at *; omega⟩
    refine ⟨k + 1, Nat.succ_pos k, ?_⟩
    have hlen : ([b0, b1] ++ List.replicate (k + 1) (0 : UInt8)).length = k + 3 := by
      rw [List.length_append, List.length_replicate]
      show 2 + (k + 1) = k + 3
      omega
    have hsec : secLen ([b0, b1] ++ List.replicate (k + 1) 0) = secLenOf b1 0 := rfl
    exact ⟨by rw [hsec, hk, hlen], by rw [hlen]; omega, hff, rfl⟩

/-! ## Closing and reopening -/

/-- A channel after a history. -/
def afterHistory (mem : Memory UInt8) (chanBufSize : Nat) (buf : MmzBuffer)
    (history : List ChnEvent) : SwChn :=
  chnMachine.final (newChn mem chanBufSize buf) history

theorem chnOk_afterHistory (mem : Memory UInt8) (chanBufSize : Nat) (buf : MmzBuffer)
    (history : List ChnEvent) : ChnOk chanBufSize (afterHistory mem chanBufSize buf history) := by
  exact Machine.invariant (M := chnMachine) (I := ChnOk chanBufSize) (P := fun _ _ => True)
    (fun _ i h _ => h.step i) (chnOk_new mem chanBufSize buf) (chnMachine.always_true _ history)

/-- After any history, closing and reopening a channel makes it commit what a new
    channel commits, whatever comes later, exactly when no section header is in
    progress at the close. -/
theorem reset_forgets (mem : Memory UInt8) (chanBufSize : Nat) (buf : MmzBuffer)
    (history : List ChnEvent) :
    (∀ (mem' : Memory UInt8) (buf' : MmzBuffer) (later : List (FilterCfg × TsPacket)),
      (swExtractAll (reopen (afterHistory mem chanBufSize buf history)) later).dataBuf.committed =
        (afterHistory mem chanBufSize buf history).dataBuf.committed ++
          (swExtractAll (swOpenChannel (newChn mem' chanBufSize buf')).1 later).dataBuf.committed) ↔
    (afterHistory mem chanBufSize buf history).dataBuf.tmpArryLen = 0 := by
  have hok := chnOk_afterHistory mem chanBufSize buf history
  generalize afterHistory mem chanBufSize buf history = chn at hok
  obtain ⟨hused, hrun, hsize, hrep⟩ := hok.reopen
  -- a new channel, which is open
  have hnew : ∀ mem' buf' later,
      (swExtractAll (swOpenChannel (newChn mem' chanBufSize buf')).1 later).dataBuf.committed =
        (later.foldl Assembler.extract
          (.empty (SwDataBuf.new mem' chanBufSize buf').fixed [] [])).log := by
    intro mem' buf' later
    have hchn : (swOpenChannel (newChn mem' chanBufSize buf')).1 =
        { usedFlag := true, runFlag := true, cc := dmxSwInvalidCc,
          dataBuf := .new mem' chanBufSize buf' } := rfl
    rw [hchn]
    exact (Rep.extractAll (rep_new mem' chanBufSize buf') rfl rfl later).committed_eq
  constructor
  · -- a header in progress shows in the first section that ends
    intro hsame
    by_contra htmp
    obtain ⟨a, ha⟩ := hok.rep
    obtain ⟨bytes, -, hheld⟩ := ha.filled
    have hle : chn.dataBuf.tmpArryLen ≤ 2 := by
      rcases hheld with ⟨-, hle, hlen, -⟩ | ⟨-, -, hlen, -⟩ <;> omega
    have hlen : chn.dataBuf.tmpBytes.length = chn.dataBuf.tmpArryLen := Memory.length_read _ _ _
    obtain ⟨m, hm, hlegal⟩ := exists_legal (p := chn.dataBuf.tmpBytes) (by omega) (by omega)
      hrep.head
    obtain ⟨pkts, hstarts, hlog⟩ := Assembler.exists_completion m hm
      (a := .empty (reopen chn).dataBuf.fixed chn.dataBuf.tmpBytes chn.dataBuf.committed) rfl rfl
      (by show chn.dataBuf.tmpBytes ≠ []; exact List.length_pos_iff.mp (by omega)) hlegal
    have hsame := hsame mem buf (pkts.map fun ts => (passAllCfg, ts))
    rw [(hrep.extractAll hused hrun _).committed_eq, hlog, hnew] at hsame
    -- the new channel drops all these packets
    have hdrop : (pkts.map fun ts => (passAllCfg, ts)).foldl Assembler.extract
        (.empty (SwDataBuf.new mem chanBufSize buf).fixed [] []) =
          .empty (SwDataBuf.new mem chanBufSize buf).fixed [] [] := by
      clear hlog hsame
      induction pkts with
      | nil => rfl
      | cons ts pkts ih =>
        rw [List.map_cons, List.foldl_cons,
          Assembler.extract_idle rfl passAllCfg (hstarts ts List.mem_cons_self)]
        exact ih fun ts' h => hstarts ts' (List.mem_cons_of_mem _ h)
    rw [hdrop] at hsame
    have hlength := congrArg List.length hsame
    simp [Assembler.empty] at hlength
  · -- nothing is left but the log
    intro htmp mem' buf' later
    have hbytes : chn.dataBuf.tmpBytes = [] := by
      unfold SwDataBuf.tmpBytes
      rw [htmp]
      rfl
    rw [hbytes] at hrep
    have hbase : Assembler.empty (reopen chn).dataBuf.fixed [] chn.dataBuf.committed =
        (Assembler.empty (SwDataBuf.new mem' chanBufSize buf').fixed [] []).rebase
          chn.dataBuf.committed (reopen chn).dataBuf.fixed := by
      have hdesc : (reopen chn).dataBuf.fixed.descSize =
          (SwDataBuf.new mem' chanBufSize buf').fixed.descSize := hsize
      unfold Assembler.empty Assembler.rebase
      simp only [hdesc, List.append_nil]
    rw [(hrep.extractAll hused hrun later).committed_eq, hbase, Assembler.extractAll_rebase, hnew]
    rfl

/-- A channel that got a packet which ends with two bytes of a header. -/
def headerChn : SwChn :=
  afterHistory (fun _ => 0) dmxSwChnbufMinlen smallMmz [.openChn, .packet passAllCfg splitPkt]

/-- After the channel is closed and opened again, the two bytes are the head of a
    section that a new channel does not see. -/
theorem reset_keeps_header :
    headerChn.dataBuf.tmpBytes = [0x42, 0xf0] ∧
    (swExtractAll (reopen headerChn) [(passAllCfg, splitPktEnd)]).dataBuf.committed =
      headerChn.dataBuf.committed ++ [[0x42, 0xf0, 1, 9]] ∧
    (swExtractAll (swOpenChannel (newChn (fun _ => 0) dmxSwChnbufMinlen smallMmz)).1
      [(passAllCfg, splitPktEnd)]).dataBuf.committed = [] := by
  refine ⟨?_, ?_, ?_⟩ <;> decide +kernel

end Tntsat.DemuxSw
