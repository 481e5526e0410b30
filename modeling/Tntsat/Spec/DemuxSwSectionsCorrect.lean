import Tntsat.Spec.DemuxSwAssembler

/-!
# Reassembly of sections

Sections are legally carried in TS packets when each packet continues the section
in progress, or ends it, or has a unit start whose pointer skips the end of the
section in progress and is followed by whole sections and perhaps the head of one
more; stuffing only comes after the last section of a packet (`Packetised`).
However they are carried, the blocks of the channel end up with exactly the
sections, packed in order by `storeSection`.

## Key results

- `Assembler.take_whole`, `Assembler.take_head`: a section cut off, a head kept
- `run_packetised`: the assembler on a legal packetisation
- `sections_reassembled`: the channel on a legal packetisation
-/

namespace Tntsat.DemuxSw

/-! ## Packets as the standard has them -/

/-- `adaptation_field_control`. -/
def TsPacket.adaptationFieldControl (ts : TsPacket) : UInt8 := (byteAt ts.bytes 3 >>> 4) &&& 0x3

/-- `payload_unit_start_indicator`. -/
def TsPacket.unitStart (ts : TsPacket) : Prop := byteAt ts.bytes 1 &&& 0x40 ≠ 0

instance (ts : TsPacket) : Decidable ts.unitStart := inferInstanceAs (Decidable (_ ≠ _))

/-- The payload, behind the adaptation field if there is one. -/
def TsPacket.payload (ts : TsPacket) : List UInt8 :=
  if ts.adaptationFieldControl = 1 then ts.bytes.drop 4
  else if ts.adaptationFieldControl = 3 then ts.bytes.drop (5 + (byteAt ts.bytes 4).toNat)
  else []

/-- Nothing but `0xff`. -/
def Stuffing (xs : List UInt8) : Prop := ∀ b ∈ xs, b = 0xff

/-- `pkts` carry `rest`, the rest of a section in progress, and then `secs`. -/
inductive Packetised : List UInt8 → List (List UInt8) → List TsPacket → Prop
  | done : Packetised [] [] []
  /-- a packet without payload -/
  | noPayload {ts : TsPacket} {rest : List UInt8} {secs : List (List UInt8)}
      {pkts : List TsPacket} (hpayload : ts.payload = []) (h : Packetised rest secs pkts) :
      Packetised rest secs (ts :: pkts)
  /-- more of the section in progress, but not all of it -/
  | cont {ts : TsPacket} {rest : List UInt8} {secs : List (List UInt8)} {pkts : List TsPacket}
      (hstart : ¬ ts.unitStart) (hpayload : ts.payload ≠ []) (hrest : rest ≠ [])
      (h : Packetised rest secs pkts) : Packetised (ts.payload ++ rest) secs (ts :: pkts)
  /-- the end of the section in progress and stuffing -/
  | last {ts : TsPacket} {rest stuffing : List UInt8} {secs : List (List UInt8)}
      {pkts : List TsPacket} (hstart : ¬ ts.unitStart) (hpayload : ts.payload = rest ++ stuffing)
      (hstuffing : Stuffing stuffing) (h : Packetised [] secs pkts) :
      Packetised rest secs (ts :: pkts)
  /-- a unit start: the end of the section in progress, whole sections and
      stuffing -/
  | startWhole {ts : TsPacket} {rest stuffing : List UInt8} {whole secs : List (List UInt8)}
      {pkts : List TsPacket} (hstart : ts.unitStart) (hwhole : whole ≠ [])
      (hpayload : ts.payload =
        UInt8.ofNat rest.length :: (rest ++ (whole.flatten ++ stuffing)))
      (hstuffing : Stuffing stuffing) (h : Packetised [] secs pkts) :
      Packetised rest (whole ++ secs) (ts :: pkts)
  /-- a unit start: the end of the section in progress, whole sections and the
      head of one more -/
  | startHead {ts : TsPacket} {rest head tail : List UInt8} {whole secs : List (List UInt8)}
      {pkts : List TsPacket} (hstart : ts.unitStart) (hhead : head ≠ []) (htail : tail ≠ [])
      (hpayload : ts.payload = UInt8.ofNat rest.length :: (rest ++ (whole.flatten ++ head)))
      (h : Packetised tail secs pkts) :
      Packetised rest (whole ++ (head ++ tail) :: secs) (ts :: pkts)

/-- A section the channel keeps: its length is the one in its header, it does not
    look like stuffing, and it passes the checks. -/
structure LegalSection (cfg : FilterCfg) (sec : List UInt8) : Prop where
  length_eq : secLen sec = sec.length
  length_le : sec.length ≤ dmxMaxSecLen
  first : byteAt sec 0 ≠ 0xff
  accepted : cfg.accepts sec = true

/-! ## Blocks of a channel -/

/-- The number of blocks before the write block. -/
def SwDataBuf.usedBlocks (s : SwDataBuf) : Nat :=
  (s.writePtr + s.descSize - s.readPtr) % s.descSize

/-- The committed bytes of the blocks from `readPtr` to `writePtr`. -/
def SwDataBuf.blocks (s : SwDataBuf) : List (List UInt8) :=
  (List.range (s.usedBlocks + 1)).map fun k => s.blockBytes ((s.readPtr + k) % s.descSize)

/-- A section goes behind the others of the last block if it fits, else to a new
    block. -/
def storeSection : List (List UInt8) → List UInt8 → List (List UInt8)
  | [], sec => [sec]
  | [cur], sec => if cur.length + sec.length ≤ dmxMaxSecLen then [cur ++ sec] else [cur, sec]
  | b :: bs, sec => b :: storeSection bs sec

/-- Nothing is in progress in a channel that was created and used. -/
def SwDataBuf.Idle (s : SwDataBuf) : Prop := ∃ a, Rep s a ∧ a.pending = []

/-- `storeSection` works on the last block. -/
theorem storeSection_concat (bs : List (List UInt8)) (cur sec : List UInt8) :
    storeSection (bs ++ [cur]) sec =
      bs ++ if cur.length + sec.length ≤ dmxMaxSecLen then [cur ++ sec] else [cur, sec] := by
  induction bs with
  | nil => rfl
  | cons b bs ih =>
    rw [List.cons_append, List.cons_append, ← ih]
    cases bs with
    | nil => rfl
    | cons b' bs => rfl

/-- Blocks are never given up. -/
theorem length_le_storeAll (secs : List (List UInt8)) {bs : List (List UInt8)} (hne : bs ≠ []) :
    bs.length ≤ (secs.foldl storeSection bs).length := by
  induction secs generalizing bs with
  | nil => exact Nat.le_refl _
  | cons sec secs ih =>
    obtain ⟨bs', cur, rfl⟩ : ∃ bs' cur, bs = bs' ++ [cur] :=
      ⟨_, _, (List.dropLast_append_getLast hne).symm⟩
    rw [List.foldl_cons, storeSection_concat]
    refine Nat.le_trans ?_ (ih ?_)
    · simp only [List.length_append, List.length_singleton]
      split <;> simp
    · split <;> simp

/-! ## The assembler on sections -/

namespace Assembler

/-- The bytes of the blocks. -/
def blocks (a : Assembler) : List (List UInt8) := (a.closed ++ [a.cur]).map List.flatten

/-- Add one section. -/
def add (accept : List UInt8 → Bool) (a : Assembler) (sec : List UInt8) : Option Assembler :=
  (a.reserve sec.length).map fun a' => a'.commit accept sec

/-- Add sections in order. -/
def addAll (accept : List UInt8 → Bool) (a : Assembler) : List (List UInt8) → Option Assembler
  | [] => some a
  | sec :: secs => (a.add accept sec).bind fun a' => a'.addAll accept secs

/-- What adding a section leaves, if there is a block for it. -/
structure Added (a r : Assembler) (secs : List (List UInt8)) : Prop where
  blocks : r.blocks = secs.foldl storeSection a.blocks
  log : r.log = a.log ++ secs
  pending : r.pending = a.pending

variable {cfg : FilterCfg} {a b r : Assembler} {sec : List UInt8}

/-- A section takes a new block exactly when `storeSection` does. -/
theorem add_spec (h : LegalSection cfg sec)
    (hfree : (storeSection a.blocks sec).length ≤ a.closed.length + a.free + 1) :
    ∃ r, a.add cfg.accepts sec = some r ∧ Added a r [sec] ∧
      r.closed.length + r.free = a.closed.length + a.free := by
  have hblocks : a.blocks = a.closed.map List.flatten ++ [a.cur.flatten] := by
    unfold blocks
    rw [List.map_append, List.map_cons, List.map_nil]
  rw [hblocks, storeSection_concat] at hfree
  unfold add reserve
  -- into the block that is open, or into the next one
  by_cases hfit : a.cur.flatten.length + sec.length ≤ dmxMaxSecLen
  · rw [if_pos hfit, Option.map_some]
    refine ⟨_, rfl, ?_, ?_⟩
    · unfold commit
      rw [if_pos h.accepted]
      refine ⟨?_, rfl, rfl⟩
      rw [hblocks, List.foldl_cons, List.foldl_nil, storeSection_concat, if_pos hfit]
      simp only [blocks, List.map_append, List.map_cons, List.map_nil, List.flatten_append,
        List.flatten_cons, List.flatten_nil, List.append_nil]
    · unfold commit
      rw [if_pos h.accepted]
  · rw [if_neg hfit] at hfree
    have hpos : a.free ≠ 0 := by
      simp only [List.length_append, List.length_map, List.length_cons, List.length_nil] at hfree
      omega
    rw [if_neg hfit, if_neg hpos, Option.map_some]
    refine ⟨_, rfl, ?_, ?_⟩
    · unfold commit
      rw [if_pos h.accepted]
      refine ⟨?_, rfl, rfl⟩
      rw [hblocks, List.foldl_cons, List.foldl_nil, storeSection_concat, if_neg hfit]
      simp only [blocks, List.map_append, List.map_cons, List.map_nil, List.flatten_cons,
        List.flatten_nil, List.append_nil, List.nil_append, List.append_assoc, List.cons_append]
    · unfold commit
      rw [if_pos h.accepted]
      simp only [List.length_append, List.length_singleton]
      omega

theorem Added.trans {secs : List (List UInt8)} (h : Added a b [sec]) (h' : Added b r secs) :
    Added a r (sec :: secs) where
  blocks := by rw [h'.blocks, h.blocks]; rfl
  log := by rw [h'.log, h.log, List.append_assoc]; rfl
  pending := h'.pending.trans h.pending

/-- With enough blocks every section is stored. -/
theorem addAll_spec {secs : List (List UInt8)} (h : ∀ sec ∈ secs, LegalSection cfg sec)
    (hfree : (secs.foldl storeSection a.blocks).length ≤ a.closed.length + a.free + 1) :
    ∃ r, a.addAll cfg.accepts secs = some r ∧ Added a r secs := by
  induction secs generalizing a with
  | nil => exact ⟨a, rfl, rfl, (List.append_nil _).symm, rfl⟩
  | cons sec secs ih =>
    rw [List.foldl_cons] at hfree
    have hne : storeSection a.blocks sec ≠ [] := by
      unfold blocks
      rw [List.map_append, List.map_cons, List.map_nil, storeSection_concat]
      split <;> simp
    have hle := length_le_storeAll secs hne
    obtain ⟨b, hb, hadded, hcount⟩ :=
      add_spec (h sec List.mem_cons_self) (Nat.le_trans hle hfree)
    have hblocks : storeSection a.blocks sec = b.blocks := hadded.blocks.symm
    rw [hblocks, ← hcount] at hfree
    obtain ⟨r, hr, hadded'⟩ := ih (fun sec' h' => h sec' (List.mem_cons_of_mem _ h')) hfree
    exact ⟨r, by rw [addAll, hb, Option.bind_some, hr], hadded.trans hadded'⟩

/-- A section at the head of the data is added. -/
theorem take_whole (h : LegalSection cfg sec) (hb : a.add cfg.accepts sec = some b)
    (data : List UInt8) : a.take cfg.accepts (sec ++ data) = b.take cfg.accepts data := by
  have h3 := three_le_secLen sec
  rw [h.length_eq] at h3
  have hsec : secLen (sec ++ data) = sec.length := (secLen_append h3 data).trans h.length_eq
  have hle := h.length_le
  obtain ⟨a', ha', hcommit⟩ := Option.map_eq_some_iff.mp hb
  rw [take_header _ _ (by rw [List.length_append]; omega)
      (by rw [byteAt_append_left (by omega)]; exact h.first), hsec, if_neg (by omega), ha']
  simp only
  rw [if_pos (by rw [List.length_append]; omega), List.take_left, List.drop_left, hcommit]

/-- Whole sections are added one after the other. -/
theorem take_wholes {secs : List (List UInt8)} (h : ∀ sec ∈ secs, LegalSection cfg sec)
    (hb : a.addAll cfg.accepts secs = some b) (data : List UInt8) :
    a.take cfg.accepts (secs.flatten ++ data) = b.take cfg.accepts data := by
  induction secs generalizing a with
  | nil => cases hb; rfl
  | cons sec secs ih =>
    obtain ⟨a', ha', hrest⟩ := Option.bind_eq_some_iff.mp hb
    rw [List.flatten_cons, List.append_assoc,
      take_whole (h sec List.mem_cons_self) ha' (secs.flatten ++ data)]
    exact ih (fun sec' h' => h sec' (List.mem_cons_of_mem _ h')) hrest

/-- Making room and committing leave the bytes in progress alone. -/
theorem reserve_pending {n : Nat} (hb : a.reserve n = some b) : b.pending = a.pending := by
  unfold reserve at hb
  split at hb
  · rw [← Option.some.inj hb]
  · split at hb
    · cases hb
    · rw [← Option.some.inj hb]

theorem commit_pending (accept : List UInt8 → Bool) (a : Assembler) (sec : List UInt8) :
    (a.commit accept sec).pending = a.pending := by
  unfold commit
  split <;> rfl

/-- Making room twice for one section is making room once. -/
theorem reserve_reserve {n : Nat} (hn : n ≤ dmxMaxSecLen) (hb : a.reserve n = some b) :
    b.reserve n = some b := by
  unfold reserve at hb
  split at hb
  · obtain rfl := Option.some.inj hb
    unfold reserve
    rw [if_pos ‹_›]
  · split at hb
    · cases hb
    · obtain rfl := Option.some.inj hb
      unfold reserve
      rw [if_pos (by simpa using hn)]

/-- The head of a section is kept, and its room is still there. -/
theorem take_head {head tail : List UInt8} (h : LegalSection cfg (head ++ tail))
    (hhead : head ≠ []) (htail : tail ≠ []) (hp : a.pending = [])
    (hb : a.add cfg.accepts (head ++ tail) = some b) :
    (a.take cfg.accepts head).pending = head ∧
    { a.take cfg.accepts head with pending := [] }.add cfg.accepts (head ++ tail) = some b := by
  have hpos := List.length_pos_iff.mpr hhead
  have htpos := List.length_pos_iff.mpr htail
  have happ : (head ++ tail).length = head.length + tail.length := List.length_append
  have hff : byteAt head 0 ≠ 0xff := by
    have hfirst := h.first
    rwa [byteAt_append_left hpos] at hfirst
  obtain ⟨a', ha', hcommit⟩ := Option.map_eq_some_iff.mp hb
  by_cases h3 : head.length < 3
  · -- less than a header: no room is made yet
    have hself : { a with pending := [] } = a := by rw [← hp]
    rw [take, dif_pos h3, if_neg hff]
    refine ⟨rfl, ?_⟩
    simp only [hself]
    exact hb
  · have hsec : secLen head = (head ++ tail).length := by
      rw [← h.length_eq, secLen_append (by omega) tail]
    have hle := h.length_le
    have hp' : a'.pending = [] := (reserve_pending ha').trans hp
    rw [take_header _ _ (by omega) hff, if_neg (by omega), hsec, ha']
    simp only
    rw [if_neg (by omega)]
    refine ⟨rfl, ?_⟩
    have hself : { a' with pending := [] } = a' := by rw [← hp']
    simp only [hself]
    rw [add, reserve_reserve hle ha', Option.map_some, hcommit]

end Assembler

/-! ## What a packet inserts -/

/-- The payload is what follows the header. -/
theorem TsPacket.payload_eq (ts : TsPacket) :
    ts.payload = (swGetTsHeaderLen ts).elim [] ts.bytes.drop := by
  have hlen := ts.length_eq
  unfold TsPacket.payload swGetTsHeaderLen TsPacket.adaptationFieldControl
  simp only
  by_cases h1 : (byteAt ts.bytes 3 >>> 4) &&& 0x3 = 1
  · rw [if_pos h1, if_pos h1]
    rfl
  · rw [if_neg h1, if_neg h1]
    by_cases h2 : (byteAt ts.bytes 3 >>> 4) &&& 0x3 = 2
    · rw [if_pos h2, h2, if_neg (by decide)]
      exact (List.drop_of_length_le (Nat.le_of_eq hlen)).symm
    · rw [if_neg h2]
      split
      · show _ = ts.bytes.drop ((byteAt ts.bytes 4).toNat + 4 + 1)
        rw [Nat.add_comm 5]
      · rfl

namespace Assembler

variable {cfg : FilterCfg} {a b r : Assembler}

/-- A packet without a unit start continues the section in progress. -/
theorem packet_cont (accept : List UInt8 → Bool) (a : Assembler) {ts : TsPacket}
    (hstart : ¬ ts.unitStart) : a.packet accept ts = a.insert accept ts.payload false := by
  have hlen := ts.length_eq
  unfold packet tsInserts
  rw [ts.payload_eq]
  cases swGetTsHeaderLen ts with
  | none => rfl
  | some headerLen =>
    simp only [Option.elim_some]
    by_cases hno : headerLen ≥ dmxTsPacketLen
    · rw [if_pos hno, List.drop_of_length_le (by omega)]
      rfl
    · have hbit : ¬ byteAt ts.bytes 1 &&& 0x40 ≠ 0 := hstart
      rw [if_neg hno, if_neg hbit]
      rfl

/-- A packet with a unit start: what the pointer skips, and what it points to. -/
theorem packet_start (accept : List UInt8 → Bool) (a : Assembler) {ts : TsPacket}
    (hstart : ts.unitStart) {p : UInt8} {xs : List UInt8} (hpayload : ts.payload = p :: xs)
    (hp : p.toNat ≤ xs.length) :
    a.packet accept ts =
      (a.insert accept (xs.take p.toNat) false).insert accept (xs.drop p.toNat) true := by
  have hlen := ts.length_eq
  rw [ts.payload_eq] at hpayload
  unfold packet tsInserts
  cases hheader : swGetTsHeaderLen ts with
  | none => rw [hheader] at hpayload; cases hpayload
  | some headerLen =>
    rw [hheader, Option.elim_some] at hpayload
    have hlength := congrArg List.length hpayload
    rw [List.length_drop, hlen, List.length_cons] at hlength
    -- the pointer field and what it points over
    have hbyte : byteAt ts.bytes headerLen = p := by
      have hget := congrArg (·[0]?) hpayload
      simp only [List.getElem?_drop, Nat.add_zero, List.getElem?_cons_zero] at hget
      rw [byteAt, hget, Option.getD_some]
    have hxs : ts.bytes.drop (headerLen + 1) = xs := by
      rw [← List.drop_drop, hpayload]
      rfl
    have hbit : byteAt ts.bytes 1 &&& 0x40 ≠ 0 := hstart
    simp only
    rw [if_neg (by omega), if_pos hbit, hbyte, if_neg (by omega), hxs,
      show headerLen + p.toNat + 1 = headerLen + 1 + p.toNat by omega, ← List.drop_drop, hxs]
    rfl

/-! ## The assembler on a legal packetisation -/

/-- The sections that are still to be added when `rest` is missing of the one in
    progress. -/
def todo (a : Assembler) (rest : List UInt8) (secs : List (List UInt8)) : List (List UInt8) :=
  if rest = [] then secs else (a.pending ++ rest) :: secs

/-- The end of the section in progress arrives. -/
theorem insert_rest {rest stuffing : List UInt8} {secs : List (List UInt8)}
    (hnil : rest = [] → a.pending = []) (hne : rest ≠ [] → a.pending ≠ [])
    (hstuffing : Stuffing stuffing) (hlegal : ∀ sec ∈ a.todo rest secs, LegalSection cfg sec)
    (hr : { a with pending := [] }.addAll cfg.accepts (a.todo rest secs) = some r) :
    (a.insert cfg.accepts (rest ++ stuffing) false).pending = [] ∧
    (a.insert cfg.accepts (rest ++ stuffing) false).addAll cfg.accepts secs = some r := by
  unfold todo at hlegal hr
  by_cases hrest : rest = []
  · -- nothing is in progress, and the data is not looked at
    have hp := hnil hrest
    rw [if_pos hrest] at hr
    have hself : { a with pending := [] } = a := by rw [← hp]
    rw [hself] at hr
    have hinsert : a.insert cfg.accepts (rest ++ stuffing) false = a := by
      unfold insert
      rw [hp]
      split <;> rfl
    rw [hinsert]
    exact ⟨hp, hr⟩
  · rw [if_neg hrest] at hlegal hr
    have hp := hne hrest
    obtain ⟨b, hb, hbr⟩ := Option.bind_eq_some_iff.mp hr
    have hsec := hlegal _ List.mem_cons_self
    have hinsert : a.insert cfg.accepts (rest ++ stuffing) false = { b with pending := [] } := by
      have hpos := List.length_pos_iff.mpr hrest
      have hppos := List.length_pos_iff.mpr hp
      unfold insert
      rw [if_neg (by rw [List.length_append]; omega)]
      simp only [Bool.false_eq_true, if_false]
      rw [if_neg (by omega), ← List.append_assoc, take_whole hsec hb, take_stuffing]
      cases stuffing with
      | nil => exact .inl rfl
      | cons x stuffing => exact .inr (hstuffing x List.mem_cons_self)
    have hbp : b.pending = [] := by
      obtain ⟨a', ha', rfl⟩ := Option.map_eq_some_iff.mp hb
      rw [commit_pending, reserve_pending ha']
    have hself : { b with pending := [] } = b := by rw [← hbp]
    rw [hinsert, hself]
    exact ⟨hbp, hbr⟩

/-- The end of the section in progress arrives, and a unit start follows. -/
theorem packet_unit {rest xs : List UInt8} {secs : List (List UInt8)} {ts : TsPacket}
    (hstart : ts.unitStart) (hpayload : ts.payload = UInt8.ofNat rest.length :: (rest ++ xs))
    (hnil : rest = [] → a.pending = []) (hne : rest ≠ [] → a.pending ≠ [])
    (hlegal : ∀ sec ∈ a.todo rest secs, LegalSection cfg sec)
    (hr : { a with pending := [] }.addAll cfg.accepts (a.todo rest secs) = some r)
    (hxs : xs ≠ []) :
    ∃ b : Assembler, b.pending = [] ∧ b.addAll cfg.accepts secs = some r ∧
      a.packet cfg.accepts ts = b.take cfg.accepts xs := by
  -- the rest of a section fits into a packet, so one byte tells its length
  have hlen : rest.length + xs.length < 188 := by
    have hlength := congrArg List.length hpayload
    have hle : ts.payload.length ≤ 188 := by
      rw [ts.payload_eq]
      cases swGetTsHeaderLen ts with
      | none => exact Nat.zero_le _
      | some n =>
        rw [Option.elim_some, List.length_drop, ts.length_eq]
        exact Nat.sub_le _ _
    rw [List.length_cons, List.length_append] at hlength
    omega
  have hp : (UInt8.ofNat rest.length).toNat = rest.length := by
    rw [UInt8.toNat_ofNat']
    exact Nat.mod_eq_of_lt (by omega)
  have hstuffing : Stuffing [] := fun _ hb => nomatch hb
  -- the rest completes the section that was pending
  obtain ⟨hpending, hadd⟩ := insert_rest hnil hne hstuffing hlegal hr
  rw [List.append_nil] at hpending hadd
  refine ⟨a.insert cfg.accepts rest false, hpending, hadd, ?_⟩
  rw [packet_start _ _ hstart hpayload (by rw [hp, List.length_append]; omega), hp,
    List.take_left, List.drop_left]
  generalize a.insert cfg.accepts rest false = b at hpending
  have hself : { b with pending := [] } = b := by rw [← hpending]
  unfold insert
  rw [if_neg (by rw [List.length_eq_zero_iff]; exact hxs)]
  simp only [if_true]
  rw [hself]

/-- Splitting the sections still to be added. -/
theorem addAll_append {accept : List UInt8 → Bool} {secs secs' : List (List UInt8)}
    (h : a.addAll accept (secs ++ secs') = some r) :
    ∃ b, a.addAll accept secs = some b ∧ b.addAll accept secs' = some r := by
  induction secs generalizing a with
  | nil => exact ⟨a, rfl, h⟩
  | cons sec secs ih =>
    obtain ⟨b, hb, hrest⟩ := Option.bind_eq_some_iff.mp h
    obtain ⟨b', hb', hr⟩ := ih hrest
    exact ⟨b', by rw [addAll, hb, Option.bind_some, hb'], hr⟩

theorem addAll_pending {accept : List UInt8 → Bool} {secs : List (List UInt8)}
    (h : a.addAll accept secs = some r) : r.pending = a.pending := by
  induction secs generalizing a with
  | nil => rw [← Option.some.inj h]
  | cons sec secs ih =>
    obtain ⟨b, hb, hrest⟩ := Option.bind_eq_some_iff.mp h
    obtain ⟨a', ha', rfl⟩ := Option.map_eq_some_iff.mp hb
    rw [ih hrest, commit_pending, reserve_pending ha']

/-- However sections are carried, they are added in order. -/
theorem run_packetised {rest : List UInt8} {secs : List (List UInt8)} {pkts : List TsPacket}
    (h : Packetised rest secs pkts) (hnil : rest = [] → a.pending = [])
    (hne : rest ≠ [] → a.pending ≠ [])
    (hlegal : ∀ sec ∈ a.todo rest secs, LegalSection cfg sec)
    (hr : { a with pending := [] }.addAll cfg.accepts (a.todo rest secs) = some r) :
    pkts.foldl (packet cfg.accepts) a = r := by
  induction h generalizing a with
  | done =>
    have hself : { a with pending := [] } = a := by rw [← hnil rfl]
    rw [hself] at hr
    exact Option.some.inj hr
  | @noPayload ts rest secs pkts hpayload _ ih =>
    have hskip : a.packet cfg.accepts ts = a := by
      unfold packet tsInserts
      rw [ts.payload_eq] at hpayload
      cases hheader : swGetTsHeaderLen ts with
      | none => rfl
      | some headerLen =>
        rw [hheader, Option.elim_some] at hpayload
        have hlength := congrArg List.length hpayload
        rw [List.length_drop, ts.length_eq, List.length_nil] at hlength
        simp only
        rw [if_pos (by omega)]
        rfl
    rw [List.foldl_cons, hskip]
    exact ih hnil hne hlegal hr
  | @cont ts rest secs pkts hstart hpayload hrest _ ih =>
    -- the section in progress grows by the payload
    have happ : ts.payload ++ rest ≠ [] := by simp [hpayload]
    have hp := hne happ
    unfold todo at hlegal hr
    rw [if_neg happ] at hlegal hr
    rw [← List.append_assoc] at hlegal hr
    obtain ⟨b, hb, hbr⟩ := Option.bind_eq_some_iff.mp hr
    have hhead : a.pending ++ ts.payload ≠ [] := by simp [hp]
    obtain ⟨hpending, hadd⟩ := take_head (hlegal _ List.mem_cons_self) hhead hrest rfl hb
    have hinsert : a.packet cfg.accepts ts =
        { a with pending := [] }.take cfg.accepts (a.pending ++ ts.payload) := by
      rw [packet_cont _ _ hstart]
      unfold insert
      rw [if_neg (by rw [List.length_eq_zero_iff]; exact hpayload)]
      simp only [Bool.false_eq_true, if_false]
      rw [if_neg (by rw [List.length_eq_zero_iff]; exact hp)]
    rw [List.foldl_cons, hinsert]
    refine ih (fun hc => absurd hc hrest) (fun _ => by rw [hpending]; exact hhead) ?_ ?_
    · unfold todo
      rw [if_neg hrest, hpending]
      exact hlegal
    · unfold todo
      rw [if_neg hrest, hpending, addAll, hadd, Option.bind_some]
      exact hbr
  | @last ts rest stuffing secs pkts hstart hpayload hstuffing _ ih =>
    obtain ⟨hpending, hadd⟩ := insert_rest hnil hne hstuffing hlegal hr
    have hself : { a.insert cfg.accepts (rest ++ stuffing) false with pending := [] } =
        a.insert cfg.accepts (rest ++ stuffing) false := by rw [← hpending]
    rw [List.foldl_cons, packet_cont _ _ hstart, hpayload]
    refine ih (fun _ => hpending) (fun hc => absurd rfl hc) ?_ ?_
    · intro sec hsec
      apply hlegal
      unfold todo
      split
      · exact hsec
      · exact List.mem_cons_of_mem _ hsec
    · rw [hself]
      exact hadd
  | @startWhole ts rest stuffing whole secs pkts hstart hwhole hpayload hstuffing _ ih =>
    have hmem : ∀ sec ∈ whole ++ secs, LegalSection cfg sec := by
      intro sec hsec
      apply hlegal
      unfold todo
      split
      · exact hsec
      · exact List.mem_cons_of_mem _ hsec
    have hxs : whole.flatten ++ stuffing ≠ [] := by
      obtain ⟨sec, hsec⟩ := List.exists_mem_of_ne_nil whole hwhole
      have h3 := three_le_secLen sec
      rw [(hmem sec (List.mem_append_left _ hsec)).length_eq] at h3
      intro hc
      have hnil := List.flatten_eq_nil_iff.mp (List.append_eq_nil_iff.mp hc).1 sec hsec
      rw [hnil] at h3
      exact absurd h3 (by decide)
    obtain ⟨b, hbp, hbr, hpacket⟩ := packet_unit hstart hpayload hnil hne hlegal hr hxs
    obtain ⟨b', hb', hbr'⟩ := addAll_append hbr
    have hbp' : b'.pending = [] := (addAll_pending hb').trans hbp
    have hself : { b' with pending := [] } = b' := by rw [← hbp']
    have htake : b.take cfg.accepts (whole.flatten ++ stuffing) = b' := by
      rw [take_wholes (fun sec hsec => hmem sec (List.mem_append_left _ hsec)) hb',
        take_stuffing, hself]
      cases stuffing with
      | nil => exact .inl rfl
      | cons x stuffing => exact .inr (hstuffing x List.mem_cons_self)
    rw [List.foldl_cons, hpacket, htake]
    refine ih (fun _ => hbp') (fun hc => absurd rfl hc) ?_ ?_
    · exact fun sec hsec => hmem sec (List.mem_append_right _ hsec)
    · rw [hself]
      exact hbr'
  | @startHead ts rest head tail whole secs pkts hstart hhead htail hpayload _ ih =>
    have hmem : ∀ sec ∈ whole ++ (head ++ tail) :: secs, LegalSection cfg sec := by
      intro sec hsec
      apply hlegal
      unfold todo
      split
      · exact hsec
      · exact List.mem_cons_of_mem _ hsec
    have hxs : whole.flatten ++ head ≠ [] := by simp [hhead]
    obtain ⟨b, hbp, hbr, hpacket⟩ := packet_unit hstart hpayload hnil hne hlegal hr hxs
    obtain ⟨b', hb', hbr'⟩ := addAll_append hbr
    have hbp' : b'.pending = [] := (addAll_pending hb').trans hbp
    obtain ⟨b'', hb'', hrest⟩ := Option.bind_eq_some_iff.mp hbr'
    have hsec : LegalSection cfg (head ++ tail) :=
      hmem _ (List.mem_append_right _ List.mem_cons_self)
    obtain ⟨hpending, hadd⟩ := take_head hsec hhead htail hbp' hb''
    rw [List.foldl_cons, hpacket,
      take_wholes (fun sec hsec => hmem sec (List.mem_append_left _ hsec)) hb']
    refine ih (fun hc => absurd hc htail) (fun _ => by rw [hpending]; exact hhead) ?_ ?_
    · unfold todo
      rw [if_neg htail, hpending]
      exact fun sec hsec => hmem sec (List.mem_append_right _ hsec)
    · unfold todo
      rw [if_neg htail, hpending, addAll, hadd, Option.bind_some]
      exact hrest

end Assembler

/-! ## The channel on a legal packetisation -/

/-- Packets fed one by one. -/
def swParseTsPackets (cfg : FilterCfg) (s : SwDataBuf) (pkts : List TsPacket) : SwDataBuf :=
  pkts.foldl (fun s ts => (swParseTsPacket cfg s ts).1) s

namespace Rep

variable {s : SwDataBuf} {a : Assembler}

theorem descSize_eq (h : Rep s a) : s.descSize = a.fixed.descSize := by
  obtain ⟨_, hf, -⟩ := h.filled
  exact congrArg Fixed.descSize hf.fixed

theorem committed_eq (h : Rep s a) : s.committed = a.log := by
  obtain ⟨_, hf, -⟩ := h.filled
  exact hf.log

theorem count (h : Rep s a) : a.closed.length + a.free + 1 = s.descSize := by
  obtain ⟨_, hf, -⟩ := h.filled
  exact hf.count

theorem usedBlocks_eq (h : Rep s a) : s.usedBlocks = a.closed.length := by
  obtain ⟨_, hf, -⟩ := h.filled
  have hr := hf.geometry.readPtr_lt
  have hcount := hf.count
  unfold SwDataBuf.usedBlocks
  rw [hf.writePtr, wrap_eq (a := s.readPtr + a.closed.length) (by omega)]
  -- the write pointer may have gone round
  by_cases hlt : s.readPtr + a.closed.length < s.descSize
  · rw [if_pos hlt, wrap_eq (by omega), if_neg (by omega)]
    omega
  · rw [if_neg hlt, wrap_eq (by omega), if_pos (by omega)]
    omega

/-- The blocks of the channel are those of the assembler. -/
theorem blocks_eq (h : Rep s a) : s.blocks = a.blocks := by
  obtain ⟨_, hf, -⟩ := h.filled
  unfold SwDataBuf.blocks Assembler.blocks
  rw [h.usedBlocks_eq]
  apply List.ext_getElem
  · simp
  · intro k hk hk'
    rw [List.length_map, List.length_range] at hk
    rw [List.getElem_map, List.getElem_range, List.getElem_map]
    by_cases hlt : k < a.closed.length
    · rw [List.getElem_append_left hlt, hf.closed k hlt]
    · obtain rfl : k = a.closed.length := by omega
      rw [List.getElem_append_right (Nat.le_refl _), ← hf.writePtr, hf.cur]
      simp only [Nat.sub_self, List.getElem_cons_zero]

/-- No block overflows. -/
theorem dataLen_le (h : Rep s a) {i : Nat} (hi : i < s.descSize) :
    (s.desc i).dataLen ≤ (s.desc i).bufSize := by
  obtain ⟨_, hf, -⟩ := h.filled
  rw [hf.geometry.bufSize i hi]
  exact hf.dataLen_le i hi

theorem descSize_packets (cfg : FilterCfg) (h : Rep s a) (pkts : List TsPacket) :
    (swParseTsPackets cfg s pkts).descSize = s.descSize := by
  have hrun := h.packets cfg pkts
  have hfixed : ∀ (pkts : List TsPacket) (a : Assembler),
      (pkts.foldl (Assembler.packet cfg.accepts) a).fixed = a.fixed := by
    intro pkts
    induction pkts with
    | nil => intro a; rfl
    | cons ts pkts ih =>
      intro a
      rw [List.foldl_cons, ih, Assembler.packet_fixed]
  show (pkts.foldl (fun s ts => (swParseTsPacket cfg s ts).1) s).descSize = _
  rw [hrun.descSize_eq, hfixed, ← h.descSize_eq]

end Rep

/-- However the sections `secs` are carried in packets, feeding the packets puts
    exactly them behind what the blocks hold, in order and once each, as long as
    there are blocks for them; and no block ever overflows. -/
theorem sections_reassembled (cfg : FilterCfg) (s : SwDataBuf) (hidle : s.Idle)
    (secs : List (List UInt8)) (hsecs : ∀ sec ∈ secs, LegalSection cfg sec)
    (pkts : List TsPacket) (hpkts : Packetised [] secs pkts)
    (hfree : (secs.foldl storeSection s.blocks).length ≤ s.descSize) :
    (swParseTsPackets cfg s pkts).blocks = secs.foldl storeSection s.blocks ∧
    (swParseTsPackets cfg s pkts).committed = s.committed ++ secs ∧
    (swParseTsPackets cfg s pkts).Idle ∧
    ∀ k, ∀ i < s.descSize,
      ((swParseTsPackets cfg s (pkts.take k)).desc i).dataLen ≤
        ((swParseTsPackets cfg s (pkts.take k)).desc i).bufSize := by
  obtain ⟨a, hrep, hp⟩ := hidle
  have hself : { a with pending := [] } = a := by rw [← hp]
  rw [hrep.blocks_eq, ← hrep.count] at hfree
  obtain ⟨r, hr, hadded⟩ := Assembler.addAll_spec hsecs hfree
  -- the packets add the sections one by one
  have hrun : pkts.foldl (Assembler.packet cfg.accepts) a = r := by
    apply Assembler.run_packetised hpkts (fun _ => hp) (fun hne => absurd rfl hne)
    · unfold Assembler.todo
      rw [if_pos rfl]
      exact hsecs
    · unfold Assembler.todo
      rw [if_pos rfl, hself]
      exact hr
  -- and the buffers follow the abstract assembler
  have hrep' : Rep (swParseTsPackets cfg s pkts) r := hrun ▸ hrep.packets cfg pkts
  refine ⟨?_, ?_, ⟨r, hrep', hadded.pending.trans hp⟩, fun k i hi => ?_⟩
  · rw [hrep'.blocks_eq, hadded.blocks, hrep.blocks_eq]
  · rw [hrep'.committed_eq, hadded.log, hrep.committed_eq]
  · rw [← hrep.descSize_packets cfg (pkts.take k)] at hi
    exact (hrep.packets cfg (pkts.take k)).dataLen_le hi

/-! ## Two sections in two packets -/

/-- A filter that lets everything through, and no CRC. -/
def passAllCfg : FilterCfg where
  chanId := 0
  filters := [{ chanId := 0, depth := 0, mask := fun _ => 0, matchByte := fun _ => 0,
                negate := fun _ => 0 }]
  crcMode := .forbid

/-- Memory for eight blocks. -/
def smallMmz : MmzBuffer where
  startPhyAddr := 0x100000
  startVirAddr := 0x8000
  startVirAddr_pos := by decide

/-- A new channel of eight blocks. -/
def smallChn : SwDataBuf := .new (fun _ => 0) dmxSwChnbufMinlen smallMmz

/-- 181 bytes and 4 bytes. -/
def splitSecs : List (List UInt8) :=
  [[0x42, 0xf0, 178] ++ List.replicate 178 7, [0x42, 0xf0, 1, 9]]

/-- The second section begins with the last two bytes of the first packet. -/
def splitPkt : TsPacket where
  bytes := [0x47, 0x40, 0x00, 0x10] ++
    (0 :: ([0x42, 0xf0, 178] ++ (List.replicate 178 7 ++ [0x42, 0xf0])))
  length_eq := by decide +kernel

def splitPktEnd : TsPacket where
  bytes := [0x47, 0x00, 0x00, 0x11] ++ ([1, 9] ++ List.replicate 182 0xff)
  length_eq := by decide +kernel

theorem splitPkts_packetised : Packetised [] splitSecs [splitPkt, splitPktEnd] := by
  have hstuffing : Stuffing (List.replicate 182 0xff) := fun b hb => List.eq_of_mem_replicate hb
  have hpayload : splitPktEnd.payload = [1, 9] ++ List.replicate 182 0xff := by decide +kernel
  have hlast : Packetised [1, 9] [] [splitPktEnd] :=
    .last (by decide +kernel) hpayload hstuffing .done
  have hpayload : splitPkt.payload =
      UInt8.ofNat ([] : List UInt8).length ::
        ([] ++ ([[0x42, 0xf0, 178] ++ List.replicate 178 7].flatten ++ [0x42, 0xf0])) := by
    decide +kernel
  exact .startHead (by decide +kernel) (by decide) (by decide) hpayload hlast

theorem splitSecs_legal : ∀ sec ∈ splitSecs, LegalSection passAllCfg sec := by
  intro sec hsec
  have haccepted : ∀ sec, passAllCfg.accepts sec = true := fun _ => rfl
  rcases List.mem_cons.mp hsec with rfl | hsec
  · exact ⟨by decide +kernel, by decide +kernel, by decide +kernel, haccepted _⟩
  · rw [List.mem_singleton.mp hsec]
    exact ⟨by decide, by decide, by decide, haccepted _⟩

theorem smallChn_idle : smallChn.Idle := ⟨_, rep_new _ _ _, rfl⟩

theorem sections_reassembled_split :
    (swParseTsPackets passAllCfg smallChn [splitPkt, splitPktEnd]).committed = splitSecs :=
  (sections_reassembled passAllCfg smallChn smallChn_idle splitSecs splitSecs_legal
    [splitPkt, splitPktEnd] splitPkts_packetised (by decide +kernel)).2.1

end Tntsat.DemuxSw
