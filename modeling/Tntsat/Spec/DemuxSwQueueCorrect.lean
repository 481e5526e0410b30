import Tntsat.Spec.DemuxSwPosition

/-!
# The section queue

Commits, reads and releases in any order, as long as what is released was read and
is released in the order it was read.

## Key results

- `Assembler.Grows`: what packets do to the blocks
- `Rep.releaseBlock`: giving back the read block
- `Queued.packet`, `Queued.read`, `Queued.release`: every action keeps the invariant
- `delivered_once`: every section is delivered once and in order, and stays in memory
  until it is released
-/

namespace Tntsat.DemuxSw

/-! ## Runs -/

/-- What happens to a queue; `release n` releases the oldest `n` messages. -/
inductive QueueAct
  | packet (cfg : FilterCfg) (ts : TsPacket)
  | read (acqNum : Nat)
  | release (n : Nat)

/-- A channel, the messages that were read and not released, and the sections that
    were read. -/
structure QueueState where
  buf : SwDataBuf
  held : List UserMsg := []
  returned : List (List UInt8) := []

/-- What an action reports: that there was no error, and the number of messages. -/
structure QueueOut where
  ok : Bool := true
  count : Nat := 0

def queueMachine : Machine QueueState QueueAct QueueOut where
  step q
    | .packet cfg ts => ({ q with buf := (swParseTsPacket cfg q.buf ts).1 }, {})
    | .read acqNum =>
      let (buf, msgs) := swReadDataRequset q.buf acqNum
      ({ buf, held := q.held ++ msgs, returned := q.returned ++ msgs.map buf.contents },
        { count := msgs.length })
    | .release n =>
      let (buf, ok) := swReleaseReadData q.buf (q.held.take n)
      ({ q with buf, held := q.held.drop n }, { ok })

/-! ## Growing -/

namespace Assembler

/-- Sections go behind those of the last block, and to blocks behind it. -/
structure Grows (a b : Assembler) (more : List (List UInt8)) (rest : List (List (List UInt8))) :
    Prop where
  groups : b.groups = a.closed ++ (a.cur ++ more) :: rest
  log : b.log = a.log ++ more ++ rest.flatten
  fixed : b.fixed = a.fixed

def Grown (a b : Assembler) : Prop := ∃ more rest, Grows a b more rest

variable {a b c : Assembler}

theorem Grown.refl (a : Assembler) : Grown a a :=
  ⟨[], [], by simp [groups], by simp, rfl⟩

theorem Grown.trans (h : Grown a b) (h' : Grown b c) : Grown a c := by
  obtain ⟨more, rest, hg, hlog, hfixed⟩ := h
  obtain ⟨more', rest', hg', hlog', hfixed'⟩ := h'
  rcases List.eq_nil_or_concat rest with rfl | ⟨init, last, rfl⟩
  · -- the last block is still the same one
    obtain ⟨hclosed, hcur⟩ := List.append_inj' hg rfl
    rw [List.cons.injEq] at hcur
    refine ⟨more ++ more', rest', ?_, ?_, hfixed'.trans hfixed⟩
    · rw [hg', hclosed, hcur.1, List.append_assoc]
    · rw [hlog', hlog]
      simp only [List.flatten_nil, List.append_nil, List.append_assoc]
  · rw [List.concat_eq_append] at hg hlog
    have hg2 : b.closed ++ [b.cur] = (a.closed ++ (a.cur ++ more) :: init) ++ [last] := by
      rw [List.append_assoc, List.cons_append]
      exact hg
    obtain ⟨hclosed, hcur⟩ := List.append_inj' hg2 rfl
    rw [List.cons.injEq] at hcur
    refine ⟨more, init ++ (last ++ more') :: rest', ?_, ?_, hfixed'.trans hfixed⟩
    · rw [hg', hclosed, hcur.1, List.append_assoc, List.cons_append]
    · rw [hlog', hlog]
      simp only [List.flatten_append, List.flatten_cons, List.flatten_nil, List.append_nil,
        List.append_assoc]

theorem Grown.pending (h : Grown a b) (p p' : List UInt8) :
    Grown { a with pending := p } { b with pending := p' } := by
  obtain ⟨more, rest, h⟩ := h
  exact ⟨more, rest, h.groups, h.log, h.fixed⟩

theorem reserve_grown {n : Nat} (h : a.reserve n = some b) : Grown a b := by
  unfold reserve at h
  split at h
  · rw [← Option.some.inj h]
    exact .refl a
  · split at h
    · cases h
    · rw [← Option.some.inj h]
      exact ⟨[], [[]], by simp [groups], by simp, rfl⟩

theorem commit_grown (accept : List UInt8 → Bool) (a : Assembler) (sec : List UInt8) :
    Grown a (a.commit accept sec) := by
  unfold commit
  split
  · exact ⟨[sec], [], by simp [groups], by simp, rfl⟩
  · exact .refl a

theorem take_grown (accept : List UInt8 → Bool) (a : Assembler) (data : List UInt8) :
    Grown a (a.take accept data) := by
  -- the induction follows the sections that are cut off
  induction a, data using Assembler.take.induct accept with
  | case1 a data h =>
    rw [take, dif_pos h]
    exact (Grown.refl a).pending _ _
  | case2 a data h hff =>
    rw [take, dif_neg h, if_pos hff]
    exact (Grown.refl a).pending _ _
  | case3 a data h hff hmax =>
    rw [take, dif_neg h, if_neg hff, if_pos hmax]
    exact (Grown.refl a).pending _ _
  | case4 a data h hff hmax hnone =>
    rw [take, dif_neg h, if_neg hff, if_neg hmax, hnone]
    exact (Grown.refl a).pending _ _
  | case5 a data h hff hmax a' hsome hle ih =>
    rw [take, dif_neg h, if_neg hff, if_neg hmax, hsome]
    simp only
    rw [if_pos hle]
    exact ((reserve_grown hsome).trans (commit_grown _ _ _)).trans ih
  | case6 a data h hff hmax a' hsome hle =>
    rw [take, dif_neg h, if_neg hff, if_neg hmax, hsome]
    simp only
    rw [if_neg hle]
    exact (reserve_grown hsome).pending _ _

theorem insert_grown (accept : List UInt8 → Bool) (a : Assembler) (data : List UInt8)
    (pusi : Bool) : Grown a (a.insert accept data pusi) := by
  have hclear : Grown a { a with pending := [] } := (Grown.refl a).pending a.pending []
  unfold insert
  split
  · exact .refl a
  · split
    · exact hclear.trans (take_grown accept _ data)
    · split
      · exact .refl a
      · exact hclear.trans (take_grown accept _ (a.pending ++ data))

theorem packet_grown (accept : List UInt8 → Bool) (a : Assembler) (ts : TsPacket) :
    Grown a (a.packet accept ts) := by
  unfold packet
  induction tsInserts ts generalizing a with
  | nil => exact .refl a
  | cons d ds ih => exact (insert_grown accept a d.1 d.2).trans (ih _)

/-- Growing moves no position. -/
theorem Grown.position {blk off : Nat} {msgs : List UserMsg} (h : Grown a b) {p : a.Split}
    (hp : p.Is a blk off msgs) :
    ∃ q : b.Split, q.Is b blk off msgs ∧ q.gsDone = p.gsDone ∧ q.gDone = p.gDone := by
  obtain ⟨more, rest, hg, -, hfixed⟩ := h
  have hpeq := p.eq
  have hfind : ∃ gTodo gsTodo, b.groups = p.gsDone ++ (p.gDone ++ gTodo) :: gsTodo := by
    rcases List.eq_nil_or_concat p.gsTodo with hnil | ⟨init, last, hconcat⟩
    · -- a position in the last block
      rw [hnil] at hpeq
      obtain ⟨hclosed, hcur⟩ := List.append_inj' hpeq rfl
      rw [List.cons.injEq] at hcur
      exact ⟨p.gTodo ++ more, rest, by rw [hg, hclosed, hcur.1, List.append_assoc]⟩
    · rw [hconcat, List.concat_eq_append] at hpeq
      have hpeq2 : a.closed ++ [a.cur] =
          (p.gsDone ++ (p.gDone ++ p.gTodo) :: init) ++ [last] := by
        rw [List.append_assoc, List.cons_append]
        exact hpeq
      obtain ⟨hclosed, hcur⟩ := List.append_inj' hpeq2 rfl
      rw [List.cons.injEq] at hcur
      exact ⟨p.gTodo, init ++ (last ++ more) :: rest,
        by rw [hg, hclosed, hcur.1, List.append_assoc, List.cons_append]⟩
  obtain ⟨gTodo, gsTodo, hgroups⟩ := hfind
  refine ⟨⟨p.gsDone, p.gDone, gTodo, gsTodo, hgroups⟩, ⟨?_, hp.off, ?_⟩, rfl, rfl⟩
  · rw [hfixed]
    exact hp.blk
  · rw [hfixed]
    exact hp.msgs

/-- The messages before a position are the first of all messages. -/
theorem At.prefix {blk off : Nat} {msgs : List UserMsg} (hat : a.At blk off msgs) :
    ∃ rest, a.fixed.msgs 0 a.groups = msgs ++ rest := by
  obtain ⟨p, hp⟩ := hat
  refine ⟨blockMsgs (a.fixed.blockAddr (0 + p.gsDone.length) + p.gDone.flatten.length) p.gTodo ++
    a.fixed.msgs (0 + p.gsDone.length + 1) p.gsTodo, ?_⟩
  rw [p.eq, hp.msgs, Fixed.msgs_append, Fixed.msgs_append, Fixed.msgs, Fixed.msgs, Fixed.msgs,
    blockMsgs_append]
  simp only [List.append_nil, List.append_assoc]

/-- The assembler without its first block. -/
def release (a : Assembler) (gs : List (List (List UInt8))) (pp po : Nat) : Assembler :=
  { a with
    closed := gs
    free := a.free + 1
    fixed := { a.fixed with
      readPtr := dmxInc a.fixed.readPtr a.fixed.descSize, procesPtr := pp, procesOffset := po } }

end Assembler

/-! ## Giving back a block -/

/-- `procesPtr` and `procesOffset` when the read block is given back. -/
def SwDataBuf.procesPtrAfter (s : SwDataBuf) : Nat :=
  if s.procesPtr = s.readPtr then dmxInc s.procesPtr s.descSize else s.procesPtr

def SwDataBuf.procesOffsetAfter (s : SwDataBuf) : Nat :=
  if s.procesPtr = s.readPtr then 0 else s.procesOffset

theorem swReleaseBlock_eq (s : SwDataBuf) :
    swReleaseBlock s = { s.setDataLen s.readPtr 0 with
      procesPtr := s.procesPtrAfter
      procesOffset := s.procesOffsetAfter
      readPtr := dmxInc s.readPtr s.descSize } := by
  unfold swReleaseBlock SwDataBuf.procesPtrAfter SwDataBuf.procesOffsetAfter SwDataBuf.setDataLen
  by_cases heq : s.procesPtr = s.readPtr
  · simp only [if_pos heq]
  · simp only [if_neg heq]

/-- The read block is given back. -/
theorem Rep.releaseBlock {s : SwDataBuf} {a : Assembler} (h : Rep s a)
    {g : List (List UInt8)} {gs : List (List (List UInt8))} (hclosed : a.closed = g :: gs) :
    Rep (swReleaseBlock s) (a.release gs s.procesPtrAfter s.procesOffsetAfter) := by
  obtain ⟨bytes, hf, hheld⟩ := h.filled
  have hr := hf.geometry.readPtr_lt
  have hw := hf.geometry.writePtr_lt
  have hcount := hf.count
  have hlen : a.closed.length = gs.length + 1 := by rw [hclosed, List.length_cons]
  have hinc : dmxInc s.readPtr s.descSize = (s.readPtr + 1) % s.descSize := dmxInc_eq hr
  have hself : s.readPtr = (s.readPtr + 0) % s.descSize := by
    rw [Nat.add_zero, Nat.mod_eq_of_lt hr]
  have hne : s.writePtr ≠ s.readPtr := by
    rw [hf.writePtr]
    conv_rhs => rw [hself]
    exact (wrap_ne (by omega) (by omega)).symm
  -- the block after the read block is the first one now
  have hnext : ∀ k, (dmxInc s.readPtr s.descSize + k) % s.descSize =
      (s.readPtr + (k + 1)) % s.descSize := by
    intro k
    rw [hinc, Nat.mod_add_mod, Nat.add_assoc, Nat.add_comm 1]
  have hgeom := hf.geometry.setDataLen s.readPtr 0
  have hwdl : ((s.setDataLen s.readPtr 0).desc s.writePtr).dataLen = s.writeDesc.dataLen := by
    rw [(setDataLen_desc s s.readPtr 0 s.writePtr).2.2, if_neg hne]
    rfl
  have hwaddr : (s.setDataLen s.readPtr 0).bufVirAddr s.writePtr = s.bufVirAddr s.writePtr :=
    setDataLen_bufVirAddr s s.readPtr 0 s.writePtr
  rw [swReleaseBlock_eq]
  refine { filled := ⟨bytes, ?_, ?_⟩, head := h.head }
  · exact {
      geometry := ⟨hgeom.descSize_pos, hgeom.startPhyAddr, hgeom.bufSize,
        by rw [hinc]; exact Nat.mod_lt _ hgeom.descSize_pos, hgeom.writePtr_lt⟩
      fixed := by
        unfold Assembler.release
        rw [← hf.fixed]
        rfl
      count := by
        show gs.length + (a.free + 1) + 1 = s.descSize
        omega
      writePtr := by
        show s.writePtr = (dmxInc s.readPtr s.descSize + gs.length) % s.descSize
        rw [hnext, hf.writePtr, hlen]
      dataLen_le := fun i hi => by
        show ((s.setDataLen s.readPtr 0).desc i).dataLen ≤ _
        rw [(setDataLen_desc s s.readPtr 0 i).2.2]
        split
        · exact Nat.zero_le _
        · exact hf.dataLen_le i hi
      closed := fun k hk => by
        have hk' : k + 1 < a.closed.length := by
          have hk' : k < gs.length := hk
          omega
        have hbytes := hf.closed (k + 1) hk'
        have hother : (s.readPtr + (k + 1)) % s.descSize ≠ s.readPtr := by
          conv_rhs => rw [hself]
          exact (wrap_ne (by omega) (by omega)).symm
        have hget : a.closed[k + 1] = gs[k] := by
          simp only [hclosed, List.getElem_cons_succ]
          rfl
        show (s.setDataLen s.readPtr 0).blockBytes
          ((dmxInc s.readPtr s.descSize + k) % s.descSize) = gs[k].flatten
        rw [hnext, setDataLen_blockBytes s 0 hother, hbytes, hget]
      cur := by
        show (s.setDataLen s.readPtr 0).blockBytes s.writePtr = _
        rw [setDataLen_blockBytes s 0 hne]
        exact hf.cur
      offset := by
        show s.writeOffset = ((s.setDataLen s.readPtr 0).desc s.writePtr).dataLen + _
        rw [hwdl]
        exact hf.offset
      offset_le := hf.offset_le
      bytes := by
        show s.mem.read ((s.setDataLen s.readPtr 0).bufVirAddr s.writePtr +
          ((s.setDataLen s.readPtr 0).desc s.writePtr).dataLen) bytes.length = bytes
        rw [hwdl, hwaddr]
        exact hf.bytes
      log := hf.log
      wf_closed := fun g' hg' => hf.wf_closed g' (by rw [hclosed]; exact List.mem_cons_of_mem _ hg')
      wf_cur := hf.wf_cur }
  · -- what is in progress is in the write block or in `tmpDataArry`
    rcases hheld with hheld | ⟨hb, h3, htmp, hlt, hfit⟩
    · exact .inl hheld
    · refine .inr ⟨hb, h3, htmp, hlt, ?_⟩
      show ((s.setDataLen s.readPtr 0).desc s.writePtr).dataLen + _ ≤ _
      rw [hwdl]
      exact hfit

/-! ## The invariant -/

/-- The messages before the reading position are `msgs`; `rel` of them are released,
    which are no more than those of the read block; `past` are the sections of the
    blocks that were given back. -/
structure Queued (a : Assembler) (msgs : List UserMsg) (rel : Nat) (past : List (List UInt8))
    (s : SwDataBuf) (held : List UserMsg) (returned : List (List UInt8)) : Prop where
  rep : Rep s a
  vir : 0 < s.dataVirAddr
  pos : a.At s.procesPtr s.procesOffset msgs
  rel_le : rel ≤ msgs.length
  rel_head : rel ≤ (a.groups.headD []).length
  held : held = msgs.drop rel
  log : a.log = past ++ a.groups.flatten
  returned : returned = past ++ msgs.map s.contents

namespace Queued

variable {a : Assembler} {msgs : List UserMsg} {rel : Nat} {past : List (List UInt8)}
  {s : SwDataBuf} {held : List UserMsg} {returned : List (List UInt8)}

/-- The sections before the reading position are the first of all sections. -/
theorem contents_prefix (h : Queued a msgs rel past s held returned) :
    ∃ rest, a.groups.flatten = msgs.map s.contents ++ rest := by
  obtain ⟨p, hp⟩ := h.pos
  refine ⟨p.gTodo ++ p.gsTodo.flatten, ?_⟩
  rw [hp.contents h.rep, p.eq]
  simp only [List.flatten_append, List.flatten_cons, List.append_assoc]

/-- Packets change neither what was read nor what is held. -/
theorem packet (h : Queued a msgs rel past s held returned) (cfg : FilterCfg) (ts : TsPacket) :
    Queued (a.packet cfg.accepts ts) msgs rel past (swParseTsPacket cfg s ts).1 held returned := by
  have hrep := h.rep.packet cfg ts
  have hgrown := Assembler.packet_grown cfg.accepts a ts
  obtain ⟨p, hp⟩ := h.pos
  obtain ⟨q, hq, hgs, hg⟩ := hgrown.position hp
  obtain ⟨more, rest, hgroups, hlog, hfixed⟩ := hgrown
  have hsame : (swParseTsPacket cfg s ts).1.fixed = s.fixed := by
    obtain ⟨_, hf, -⟩ := h.rep.filled
    obtain ⟨_, hf', -⟩ := hrep.filled
    rw [hf'.fixed, hfixed, hf.fixed]
  have hptr : (swParseTsPacket cfg s ts).1.procesPtr = s.procesPtr := congrArg Fixed.procesPtr hsame
  have hoff : (swParseTsPacket cfg s ts).1.procesOffset = s.procesOffset :=
    congrArg Fixed.procesOffset hsame
  have hvir : (swParseTsPacket cfg s ts).1.dataVirAddr = s.dataVirAddr :=
    congrArg Fixed.dataVirAddr hsame
  exact {
    rep := hrep
    vir := by rw [hvir]; exact h.vir
    pos := by rw [hptr, hoff]; exact ⟨q, hq⟩
    rel_le := h.rel_le
    rel_head := by
      -- the first block does not shrink
      refine Nat.le_trans h.rel_head ?_
      rw [hgroups]
      unfold Assembler.groups
      cases a.closed with
      | nil => simp
      | cons g gs => exact Nat.le_refl _
    held := h.held
    log := by
      rw [hlog, hgroups, h.log]
      simp only [Assembler.groups, List.flatten_append, List.flatten_cons, List.flatten_nil,
        List.append_nil, List.append_assoc]
    returned := by
      -- the messages point to the same sections
      rw [h.returned, hp.contents h.rep, hq.contents hrep, hgs, hg] }

/-- A read hands out the next messages. -/
theorem read (h : Queued a msgs rel past s held returned) (acqNum : Nat) :
    ∃ a' msgs', Queued a' msgs' rel past (swReadDataRequset s acqNum).1
      (held ++ (swReadDataRequset s acqNum).2)
      (returned ++ (swReadDataRequset s acqNum).2.map (swReadDataRequset s acqNum).1.contents) := by
  obtain ⟨pp, po, new, heq, hat, -, -⟩ := swReadDataRequset_eq h.rep h.vir h.pos acqNum
  rw [heq]
  obtain ⟨p, hp⟩ := hat
  refine ⟨a.setProces pp po, msgs ++ new, h.rep.setProces pp po, h.vir,
    ⟨⟨p.gsDone, p.gDone, p.gTodo, p.gsTodo, p.eq⟩, Assembler.at_setProces.mpr hp⟩, ?_, h.rel_head,
    ?_, h.log, ?_⟩
  · rw [List.length_append]
    exact Nat.le_add_right_of_le h.rel_le
  · show held ++ new = _
    rw [h.held, List.drop_append_of_le_length h.rel_le]
  · show returned ++ new.map s.contents = past ++ (msgs ++ new).map s.contents
    rw [h.returned, List.map_append, List.append_assoc]

/-- Giving back the read block, when all of its sections were read. -/
theorem releaseBlock (h : Queued a msgs rel past s held returned) {g : List (List UInt8)}
    {gs : List (List (List UInt8))} (hclosed : a.closed = g :: gs) (hle : g.length ≤ msgs.length)
    (rel' : Nat) (hrel : rel' ≤ (msgs.drop g.length).length)
    (hhead : rel' ≤ ((gs ++ [a.cur]).headD []).length) :
    Queued (a.release gs s.procesPtrAfter s.procesOffsetAfter) (msgs.drop g.length) rel' (past ++ g)
      (swReleaseBlock s) ((msgs.drop g.length).drop rel') returned := by
  have hrep := h.rep.releaseBlock hclosed
  have hr : s.readPtr < s.descSize := by
    obtain ⟨_, hf, -⟩ := h.rep.filled
    exact hf.geometry.readPtr_lt
  have hcount := h.rep.count
  have hdesc := h.rep.descSize_eq
  have hread := h.rep.readPtr_eq
  have hgroups : a.groups = g :: (gs ++ [a.cur]) := by
    unfold Assembler.groups
    rw [hclosed, List.cons_append]
  have hlen : a.closed.length = gs.length + 1 := by rw [hclosed, List.length_cons]
  have hsame : (swReleaseBlock s).contents = s.contents := by
    rw [swReleaseBlock_eq]
    rfl
  have hvir : (swReleaseBlock s).dataVirAddr = s.dataVirAddr := by
    rw [swReleaseBlock_eq]
    rfl
  have hinc : dmxInc a.fixed.readPtr a.fixed.descSize = (s.readPtr + 1) % s.descSize := by
    rw [← hread, ← hdesc]
    exact dmxInc_eq hr
  -- the blocks are numbered from the next one on
  have hshift : ∀ j, (a.release gs s.procesPtrAfter s.procesOffsetAfter).fixed.blockAddr (0 + j) =
      a.fixed.blockAddr (1 + j) := by
    intro j
    show a.fixed.dataPhyAddr + (dmxInc a.fixed.readPtr a.fixed.descSize + (0 + j)) %
      a.fixed.descSize * dmxMaxSecLen = _
    rw [hinc, ← hdesc, Nat.mod_add_mod, Fixed.blockAddr, ← hdesc, ← hread, Nat.zero_add,
      Nat.add_assoc]
  exact {
    rep := hrep
    vir := by rw [hvir]; exact h.vir
    pos := by
      rw [swReleaseBlock_eq]
      show Assembler.At _ s.procesPtrAfter s.procesOffsetAfter _
      obtain ⟨p, hp⟩ := h.pos
      have hpeq := p.eq
      have hmsgs := hp.msgs
      have hblk := hp.blk
      have hlength := p.length_eq
      rw [hgroups] at hpeq
      rw [← hread, ← hdesc] at hblk
      cases hgs : p.gsDone with
      | nil =>
        -- the reading position is at the end of the read block
        rw [hgs, List.nil_append, List.cons.injEq] at hpeq
        rw [hgs, List.length_nil, Nat.add_zero, Nat.mod_eq_of_lt hr] at hblk
        have hmlen : msgs.length = p.gDone.length := by
          rw [hmsgs, hgs, Fixed.length_msgs]
          simp
        have hdrop : msgs.drop g.length = [] := by
          rw [List.drop_eq_nil_iff, hmlen, hpeq.1, List.length_append]
          exact Nat.le_add_right _ _
        obtain ⟨g', gs', hcons⟩ := List.exists_cons_of_ne_nil
          (show gs ++ [a.cur] ≠ [] by simp)
        refine ⟨⟨[], [], g', gs', hcons⟩, ?_, ?_, ?_⟩
        · unfold SwDataBuf.procesPtrAfter
          rw [if_pos hblk, hblk, hread, hdesc]
          show _ = (dmxInc a.fixed.readPtr a.fixed.descSize + 0) % a.fixed.descSize
          rw [hinc, ← hdesc]
          exact (Nat.mod_mod _ _).symm
        · unfold SwDataBuf.procesOffsetAfter
          rw [if_pos hblk]
          rfl
        · rw [hdrop]
          rfl
      | cons g0 gsDone =>
        -- the reading position is behind the read block
        rw [hgs, List.cons_append, List.cons.injEq] at hpeq
        obtain ⟨rfl, htail⟩ := hpeq
        rw [hgs, List.length_cons] at hlength hblk
        have hne : s.procesPtr ≠ s.readPtr := by
          have hself : s.readPtr = (s.readPtr + 0) % s.descSize := by
            rw [Nat.add_zero, Nat.mod_eq_of_lt hr]
          rw [hblk]
          conv_rhs => rw [hself]
          exact (wrap_ne (by omega) (by omega)).symm
        refine ⟨⟨gsDone, p.gDone, p.gTodo, p.gsTodo, htail⟩, ?_, ?_, ?_⟩
        · unfold SwDataBuf.procesPtrAfter
          rw [if_neg hne, hblk]
          show _ = (dmxInc a.fixed.readPtr a.fixed.descSize + gsDone.length) % a.fixed.descSize
          rw [hinc, ← hdesc, Nat.mod_add_mod, Nat.add_assoc, Nat.add_comm 1]
        · unfold SwDataBuf.procesOffsetAfter
          rw [if_neg hne]
          exact hp.off
        · rw [hmsgs, hgs, List.cons_append, Fixed.msgs, List.drop_left' (length_blockMsgs _ _)]
          exact (Fixed.msgs_congr hshift _).symm
    rel_le := hrel
    rel_head := hhead
    held := rfl
    log := by
      show a.log = _
      rw [h.log, hgroups, List.flatten_cons, List.append_assoc]
      rfl
    returned := by
      -- the sections of the block are the first ones that were read
      obtain ⟨rest, hrest⟩ := h.contents_prefix
      rw [hgroups, List.flatten_cons] at hrest
      have htake : (msgs.take g.length).map s.contents = g := by
        have htake := congrArg (List.take g.length) hrest
        rw [List.take_left, List.take_append_of_le_length (by rw [List.length_map]; exact hle),
          ← List.map_take] at htake
        exact htake.symm
      rw [hsame, h.returned]
      conv_lhs => rw [← List.take_append_drop g.length msgs]
      rw [List.map_append, htake, List.append_assoc] }

/-- Where the oldest message that is held lies: in the read block, or at the head of
    the block behind it when all of the read block was released already. -/
theorem head_message {m : UserMsg} (h : Queued a msgs rel past s (m :: held) returned)
    {g : List (List UInt8)} {gs : List (List (List UInt8))} (hclosed : a.closed = g :: gs) :
    (∃ g1 sec g2, g = g1 ++ sec :: g2 ∧ g1.length = rel ∧
      m = { bufStartAddr := a.fixed.blockAddr 0 + g1.flatten.length, msgLen := sec.length }) ∨
    (rel = g.length ∧ ∃ sec g' gs', gs ++ [a.cur] = (sec :: g') :: gs' ∧
      m = { bufStartAddr := a.fixed.blockAddr 1, msgLen := sec.length }) := by
  have hgroups : a.groups = g :: (gs ++ [a.cur]) := by
    unfold Assembler.groups
    rw [hclosed, List.cons_append]
  have hhead := h.rel_head
  rw [hgroups] at hhead
  obtain ⟨rest, hall⟩ := h.pos.prefix
  have hdrop := congrArg (List.drop rel) hall
  rw [List.drop_append_of_le_length h.rel_le, ← h.held, hgroups, Fixed.msgs] at hdrop
  rcases Nat.lt_or_eq_of_le hhead with hlt | heq
  · left
    have hlt : rel < g.length := hlt
    have hsplit : g = g.take rel ++ g[rel] :: g.drop (rel + 1) := by
      rw [← List.drop_eq_getElem_cons hlt, List.take_append_drop]
    have hlen : (g.take rel).length = rel := by
      rw [List.length_take]
      omega
    refine ⟨g.take rel, g[rel], g.drop (rel + 1), hsplit, hlen, ?_⟩
    rw [hsplit, blockMsgs_append, List.append_assoc,
      List.drop_left' ((length_blockMsgs _ _).trans hlen), blockMsgs, List.cons_append,
      List.cons_append, List.cons.injEq] at hdrop
    exact hdrop.1.symm
  · right
    have heq : rel = g.length := heq
    refine ⟨heq, ?_⟩
    rw [heq, List.drop_left' (length_blockMsgs _ _)] at hdrop
    cases gs with
    | nil =>
      rw [List.nil_append] at hdrop ⊢
      cases hcur : a.cur with
      | nil => rw [hcur] at hdrop; cases hdrop
      | cons sec g' =>
        rw [hcur, Fixed.msgs, blockMsgs, List.cons_append, List.cons_append, List.cons.injEq] at hdrop
        exact ⟨sec, g', [], rfl, hdrop.1.symm⟩
    | cons x xs =>
      -- the next block is closed, so there is something in it
      have hne : x ≠ [] := by
        obtain ⟨_, hf, -⟩ := h.rep.filled
        exact (hf.wf_closed x (by rw [hclosed]; simp)).1
      obtain ⟨sec, g', rfl⟩ := List.exists_cons_of_ne_nil hne
      rw [List.cons_append, Fixed.msgs, blockMsgs, List.cons_append, List.cons_append,
        List.cons.injEq] at hdrop
      exact ⟨sec, g', xs ++ [a.cur], rfl, hdrop.1.symm⟩

/-- One more message of the read block is released. -/
theorem releaseNext {m : UserMsg} (h : Queued a msgs rel past s (m :: held) returned)
    (hhead : rel + 1 ≤ (a.groups.headD []).length) :
    Queued a msgs (rel + 1) past s held returned := by
  have hdrop := h.held
  have hlt : rel < msgs.length := by
    by_contra hge
    rw [List.drop_of_length_le (by omega)] at hdrop
    cases hdrop
  exact { h with
    rel_le := hlt
    rel_head := hhead
    held := by rw [← List.drop_drop, ← hdrop, List.drop_one, List.tail_cons] }

/-- The loops give back blocks only after all of their messages. -/
theorem releaseLoop (fuel : Nat) {now later : List UserMsg}
    (h : Queued a msgs rel past s (now ++ later) returned)
    (hfuel : now.length + a.closed.length ≤ fuel) :
    (swReleaseLoop fuel s now).2 = true ∧ ∃ a' msgs' rel' past',
      Queued a' msgs' rel' past' (swReleaseLoop fuel s now).1 later returned := by
  induction fuel generalizing a msgs rel past s now with
  | zero =>
    have hnil : now = [] := List.eq_nil_of_length_eq_zero (by omega)
    subst hnil
    exact ⟨rfl, a, msgs, rel, past, h⟩
  | succ fuel ih =>
    cases now with
    | nil => exact ⟨rfl, a, msgs, rel, past, h⟩
    | cons m now =>
      rw [List.length_cons] at hfuel
      rw [List.cons_append] at h
      have hcount := h.rep.count
      have hdesc := h.rep.descSize_eq
      have hread := h.rep.readPtr_eq
      have hr : s.readPtr < s.descSize := by
        obtain ⟨_, hf, -⟩ := h.rep.filled
        exact hf.geometry.readPtr_lt
      have hwrite : s.writePtr = (s.readPtr + a.closed.length) % s.descSize := by
        obtain ⟨_, hf, -⟩ := h.rep.filled
        exact hf.writePtr
      unfold swReleaseLoop
      simp only
      cases hclosed : a.closed with
      | nil =>
        -- the read block is the write block: nothing is given back
        have heq : s.readPtr = s.writePtr := by
          rw [hwrite, hclosed, List.length_nil, Nat.add_zero, Nat.mod_eq_of_lt hr]
        rw [if_neg (not_not.mpr heq)]
        have hall : ∀ (k : List UserMsg) (rel : Nat),
            Queued a msgs rel past s (k ++ later) returned →
            ∃ rel', Queued a msgs rel' past s later returned := by
          intro k
          induction k with
          | nil => exact fun rel h => ⟨rel, h⟩
          | cons m' k ihk =>
            intro rel h
            apply ihk (rel + 1)
            apply h.releaseNext
            -- what was read is in the write block
            obtain ⟨p, hp⟩ := h.pos
            have hlen := hp.length_msgs
            have hdrop := congrArg List.length h.held
            rw [List.cons_append, List.length_cons, List.length_drop] at hdrop
            have hgroups : a.groups = [a.cur] := by
              unfold Assembler.groups
              rw [hclosed, List.nil_append]
            rw [hgroups, List.flatten_singleton] at hlen
            rw [hgroups]
            show rel + 1 ≤ a.cur.length
            omega
        obtain ⟨rel', hrel'⟩ := hall (m :: now) rel h
        exact ⟨rfl, a, msgs, rel', past, hrel'⟩
      | cons g gs =>
        have hlen : a.closed.length = gs.length + 1 := by rw [hclosed, List.length_cons]
        have hgroups : a.groups = g :: (gs ++ [a.cur]) := by
          unfold Assembler.groups
          rw [hclosed, List.cons_append]
        have hself : s.readPtr = (s.readPtr + 0) % s.descSize := by
          rw [Nat.add_zero, Nat.mod_eq_of_lt hr]
        have hne : s.readPtr ≠ s.writePtr := by
          rw [hwrite]
          conv_lhs => rw [hself]
          exact wrap_ne (by omega) (by omega)
        rw [if_pos hne]
        have hblk : s.readPtr = (a.fixed.readPtr + 0) % a.fixed.descSize := by
          rw [← hread, ← hdesc]
          exact hself
        have hcur := h.rep.block ⟨[], [], g, gs ++ [a.cur], hgroups⟩ hblk
        have hcurStart := hcur.startPhyAddr
        have hcurLen := hcur.dataLen
        simp only [List.length_nil, List.nil_append] at hcurStart hcurLen
        have hdropPos : rel < msgs.length := by
          have hdrop := congrArg List.length h.held
          rw [List.length_cons, List.length_drop] at hdrop
          omega
        have htail : now ++ later = msgs.drop (rel + 1) := by
          rw [← List.drop_drop, ← h.held, List.drop_one, List.tail_cons]
        rcases h.head_message hclosed with ⟨g1, sec, g2, rfl, rfl, rfl⟩ | ⟨rfl, sec, g', gs', hgs, rfl⟩
        · -- a message of the read block
          have hflat : (g1 ++ sec :: g2).flatten.length =
              g1.flatten.length + sec.length + g2.flatten.length := by
            simp only [List.flatten_append, List.flatten_cons, List.length_append]
            omega
          rw [hcurStart, hcurLen, hflat]
          simp only
          rw [if_pos (by omega)]
          by_cases hlast : g2 = []
          · -- the last one
            subst hlast
            rw [if_pos (by rw [List.flatten_nil, List.length_nil]; omega)]
            have hglen : (g1 ++ [sec]).length = g1.length + 1 := by
              rw [List.length_append, List.length_singleton]
            have hnew := h.releaseBlock hclosed (by omega) 0 (Nat.zero_le _) (Nat.zero_le _)
            rw [List.drop_zero, hglen, ← htail] at hnew
            exact ih hnew (by show now.length + gs.length ≤ fuel; omega)
          · have hpos : 0 < g2.flatten.length := by
              by_contra hzero
              exact hlast (flatten_eq_nil_of_wf (fun x hx => hcur.wf x (by simp [hx])) (by omega))
            rw [if_neg (by omega)]
            have hnew := h.releaseNext (by
              rw [hgroups]
              show g1.length + 1 ≤ (g1 ++ sec :: g2).length
              rw [List.length_append, List.length_cons]
              omega)
            exact ih hnew (by omega)
        · -- the first message of the next block
          have hblk' : dmxInc s.readPtr s.descSize =
              (a.fixed.readPtr + 1) % a.fixed.descSize := by
            rw [← hread, ← hdesc]
            exact dmxInc_eq hr
          have hnext := h.rep.block ⟨[g], [], sec :: g', gs', by rw [hgroups, hgs]; rfl⟩ hblk'
          have hnextStart := hnext.startPhyAddr
          simp only [List.length_singleton] at hnextStart
          have hdropLen : (msgs.drop g.length).length = msgs.length - g.length := List.length_drop
          rw [hcurStart, hcurLen, hnextStart]
          simp only
          by_cases hin : a.fixed.blockAddr 1 ≥ a.fixed.blockAddr 0 ∧
              a.fixed.blockAddr 1 ≤ a.fixed.blockAddr 0 + g.flatten.length
          · -- the read block is full and the next one follows it in memory
            have hfar : a.fixed.blockAddr 0 + dmxMaxSecLen ≤ a.fixed.blockAddr 1 := by
              have hother : (a.fixed.readPtr + 0) % a.fixed.descSize ≠
                  (a.fixed.readPtr + 1) % a.fixed.descSize := wrap_ne Nat.one_pos (by omega)
              have hle := hin.1
              unfold Fixed.blockAddr dmxMaxSecLen at hle ⊢
              omega
            have hfull : g.flatten.length ≤ dmxMaxSecLen := by
              obtain ⟨_, hf, -⟩ := h.rep.filled
              have hle := hf.dataLen_le s.readPtr hr
              rwa [hcurLen] at hle
            rw [if_pos hin, if_pos (by omega)]
            have hnew := h.releaseBlock hclosed (by omega) 1 (by omega)
              (by rw [hgs]; exact Nat.succ_le_succ (Nat.zero_le _))
            rw [List.drop_drop, ← htail] at hnew
            exact ih hnew (by show now.length + gs.length ≤ fuel; omega)
          · -- the read block is given back, and the message is looked at again
            rw [if_neg hin, if_pos (by omega)]
            have hnew := h.releaseBlock hclosed (by omega) 0 (Nat.zero_le _) (Nat.zero_le _)
            rw [List.drop_zero, ← h.held] at hnew
            exact ih hnew (by show (now.length + 1) + gs.length ≤ fuel; omega)

/-- A release gives back blocks, and there is no error. -/
theorem release (h : Queued a msgs rel past s held returned) (n : Nat) :
    (swReleaseReadData s (held.take n)).2 = true ∧ ∃ a' msgs' rel' past',
      Queued a' msgs' rel' past' (swReleaseReadData s (held.take n)).1 (held.drop n) returned := by
  have hcount := h.rep.count
  have hsplit : held.take n ++ held.drop n = held := List.take_append_drop n held
  unfold swReleaseReadData
  rw [← hsplit] at h
  exact h.releaseLoop _ (by omega)

end Queued

/-! ## Every run -/

/-- What an action must do: never fail, and a read returns no more sections than
    it was asked for, but at least one if there is one. -/
def QueueStepOk (q : QueueState) (i : QueueAct) : Prop :=
  (queueMachine.step q i).2.ok = true ∧
    match i with
    | .read acqNum =>
      (queueMachine.step q i).2.count ≤ acqNum ∧
        (0 < acqNum → q.returned.length < q.buf.committed.length →
          0 < (queueMachine.step q i).2.count)
    | _ => True

/-- What holds of a queue at any time. -/
structure QueueSafe (q : QueueState) : Prop where
  /-- what was returned is the beginning of what was committed -/
  once : q.returned <+: q.buf.committed
  /-- what is held is the end of what was returned, and still in memory -/
  intact : q.held.map q.buf.contents = q.returned.drop (q.returned.length - q.held.length)
  /-- `readPtr`, `procesPtr` and `writePtr` stand in this order -/
  order : (q.buf.procesPtr + q.buf.descSize - q.buf.readPtr) % q.buf.descSize ≤ q.buf.usedBlocks
  offset : q.buf.procesPtr = q.buf.writePtr → q.buf.procesOffset ≤ q.buf.writeDesc.dataLen
  /-- a new block holds nothing that is held -/
  newBlock : ∀ s, swGetNewBlock q.buf = some s → ∀ m ∈ q.held,
    m.bufStartAddr + m.msgLen ≤ s.writeDesc.startPhyAddr ∨
      s.writeDesc.startPhyAddr + s.writeDesc.bufSize ≤ m.bufStartAddr

theorem Queued.safe {a : Assembler} {msgs : List UserMsg} {rel : Nat}
    {past : List (List UInt8)} {q : QueueState}
    (h : Queued a msgs rel past q.buf q.held q.returned) : QueueSafe q := by
  have hcount := h.rep.count
  have hdesc := h.rep.descSize_eq
  have hread := h.rep.readPtr_eq
  have hused := h.rep.usedBlocks_eq
  obtain ⟨p, hp⟩ := h.pos
  have hlength := p.length_eq
  have hblock := h.rep.block p hp.blk
  obtain ⟨_, hf, -⟩ := h.rep.filled
  have hr := hf.geometry.readPtr_lt
  have hhold : q.held.length = msgs.length - rel := by rw [h.held, List.length_drop]
  have hrel := h.rel_le
  exact {
    once := by
      obtain ⟨rest, hrest⟩ := h.contents_prefix
      refine ⟨rest, ?_⟩
      rw [h.returned, List.append_assoc, ← hrest, ← h.log, h.rep.committed_eq]
    intact := by
      have hlen : q.returned.length = past.length + msgs.length := by
        rw [h.returned, List.length_append, List.length_map]
      rw [hlen, hhold, show past.length + msgs.length - (msgs.length - rel) = past.length + rel by omega,
        h.returned, ← List.drop_drop, List.drop_left, h.held, List.map_drop]
    order := by
      rw [hused, hp.blk, ← hread, ← hdesc, wrap_eq (a := q.buf.readPtr + _) (by omega)]
      by_cases hlt : q.buf.readPtr + p.gsDone.length < q.buf.descSize
      · rw [if_pos hlt, wrap_eq (by omega), if_neg (by omega)]
        omega
      · rw [if_neg hlt, wrap_eq (by omega), if_pos (by omega)]
        omega
    offset := by
      intro hwrite
      unfold SwDataBuf.writeDesc
      rw [← hwrite, hblock.dataLen, hp.off, List.flatten_append, List.length_append]
      exact Nat.le_add_right _ _
    newBlock := by
      intro s hs m hm
      rw [h.held] at hm
      -- the message lies in one of the blocks in use
      obtain ⟨rest, hall⟩ := h.pos.prefix
      have hmem : m ∈ a.fixed.msgs 0 a.groups := by
        rw [hall]
        exact List.mem_append_left _ (List.mem_of_mem_drop hm)
      obtain ⟨j, hj, hlo, hhi⟩ := Fixed.mem_msgs hmem
      rw [Nat.zero_add] at hlo hhi
      have hjlen : j < a.closed.length + 1 := by
        unfold Assembler.groups at hj
        rwa [List.length_append, List.length_singleton] at hj
      have hsplit : a.groups = a.groups.take j ++ (a.groups[j] ++ []) :: a.groups.drop (j + 1) := by
        rw [List.append_nil, ← List.drop_eq_getElem_cons hj, List.take_append_drop]
      have hfit : a.groups[j].flatten.length ≤ dmxMaxSecLen := by
        have hb := h.rep.block ⟨_, _, _, _, hsplit⟩ rfl
        have hle := hf.dataLen_le _ hb.lt
        rwa [hb.dataLen, List.append_nil] at hle
      -- the new block is another one
      unfold swGetNewBlock at hs
      simp only at hs
      split at hs
      · cases hs
      · rename_i hne
        have hw := hf.geometry.writePtr_lt
        have hnext : dmxInc q.buf.writePtr q.buf.descSize =
            (q.buf.readPtr + (a.closed.length + 1)) % q.buf.descSize := by
          rw [dmxInc_eq hw, hf.writePtr, Nat.mod_add_mod, Nat.add_assoc]
        have hroom : a.closed.length + 1 < q.buf.descSize := by
          by_contra hge
          have hfull : a.closed.length + 1 = q.buf.descSize := by omega
          rw [hnext, hfull, Nat.add_mod_right, Nat.mod_eq_of_lt hr] at hne
          exact hne rfl
        have hlt : dmxInc q.buf.writePtr q.buf.descSize < q.buf.descSize := by
          rw [hnext]
          exact Nat.mod_lt _ hf.geometry.descSize_pos
        have hother : (q.buf.readPtr + j) % q.buf.descSize ≠
            (q.buf.readPtr + (a.closed.length + 1)) % q.buf.descSize := wrap_ne hjlen (by omega)
        have hphy : q.buf.dataPhyAddr = a.fixed.dataPhyAddr := congrArg Fixed.dataPhyAddr hf.fixed
        rw [← Option.some.inj hs]
        show _ ≤ ((q.buf.setDataLen _ 0).desc (dmxInc q.buf.writePtr q.buf.descSize)).startPhyAddr ∨
          ((q.buf.setDataLen _ 0).desc (dmxInc q.buf.writePtr q.buf.descSize)).startPhyAddr +
            ((q.buf.setDataLen _ 0).desc (dmxInc q.buf.writePtr q.buf.descSize)).bufSize ≤ _
        rw [(setDataLen_desc _ _ _ _).1, (setDataLen_desc _ _ _ _).2.1,
          hf.geometry.startPhyAddr _ hlt, hf.geometry.bufSize _ hlt, hnext]
        unfold Fixed.blockAddr at hlo hhi
        rw [← hread, ← hdesc, ← hphy] at hlo hhi
        unfold dmxMaxSecLen at *
        omega }

/-- Nothing was committed, read or released in a new channel. -/
theorem queued_new (mem : Memory UInt8) (chanBufSize : Nat) (buf : MmzBuffer) :
    Queued (.empty (SwDataBuf.new mem chanBufSize buf).fixed [] []) [] 0 []
      (.new mem chanBufSize buf) [] [] where
  rep := rep_new mem chanBufSize buf
  vir := buf.startVirAddr_pos
  pos := ⟨⟨[], [], [], [], rfl⟩, (Nat.zero_mod _).symm, rfl, rfl⟩
  rel_le := Nat.le_refl _
  rel_head := Nat.le_refl _
  held := rfl
  log := rfl
  returned := rfl

/-- What every run keeps. -/
def QueueInv (q : QueueState) : Prop :=
  ∃ a msgs rel past, Queued a msgs rel past q.buf q.held q.returned

theorem queueStep {q : QueueState} (h : QueueInv q) (i : QueueAct) :
    QueueStepOk q i ∧ QueueInv (queueMachine.step q i).1 := by
  obtain ⟨a, msgs, rel, past, h⟩ := h
  cases i with
  | packet cfg ts => exact ⟨⟨rfl, trivial⟩, _, msgs, rel, past, h.packet cfg ts⟩
  | read acqNum =>
    obtain ⟨pp, po, new, heq, -, hle, hprog⟩ := swReadDataRequset_eq h.rep h.vir h.pos acqNum
    obtain ⟨a', msgs', h'⟩ := h.read acqNum
    refine ⟨⟨rfl, ?_, fun hpos hlt => ?_⟩, a', msgs', rel, past, h'⟩
    · show (swReadDataRequset q.buf acqNum).2.length ≤ acqNum
      rw [heq]
      exact hle
    · show 0 < (swReadDataRequset q.buf acqNum).2.length
      rw [heq]
      apply hprog hpos
      rw [h.rep.committed_eq, h.log, h.returned, List.length_append, List.length_append,
        List.length_map] at hlt
      omega
  | release n =>
    obtain ⟨hok, a', msgs', rel', past', h'⟩ := h.release n
    exact ⟨⟨hok, trivial⟩, a', msgs', rel', past', h'⟩

/-- In every run of a new channel, every section that is committed is returned by
    one read, in the order of the commits, and stays in memory until it is released;
    the pointers keep their order, and a new block holds nothing that is held. -/
theorem delivered_once (mem : Memory UInt8) (chanBufSize : Nat) (buf : MmzBuffer)
    (acts : List QueueAct) :
    queueMachine.Always QueueStepOk { buf := .new mem chanBufSize buf } acts ∧
    QueueSafe (queueMachine.final { buf := .new mem chanBufSize buf } acts) := by
  have hnew : QueueInv { buf := .new mem chanBufSize buf } :=
    ⟨_, _, _, _, queued_new mem chanBufSize buf⟩
  obtain ⟨hsteps, a, msgs, rel, past, hfinal⟩ := Machine.always_of_invariant (M := queueMachine)
    (I := QueueInv) (P := fun _ _ => True) (Q := QueueStepOk)
    (fun _ i h _ => queueStep h i) hnew (queueMachine.always_true _ acts)
  exact ⟨hsteps, hfinal.safe⟩

/-- In every run, a channel with no bytes in progress is idle. -/
theorem idle_of_run (mem : Memory UInt8) (chanBufSize : Nat) (buf : MmzBuffer)
    (acts : List QueueAct)
    (htemp : (queueMachine.final { buf := .new mem chanBufSize buf } acts).buf.tempDataLen = 0)
    (htmp : (queueMachine.final { buf := .new mem chanBufSize buf } acts).buf.tmpArryLen = 0) :
    (queueMachine.final { buf := .new mem chanBufSize buf } acts).buf.Idle := by
  have hnew : QueueInv { buf := .new mem chanBufSize buf } :=
    ⟨_, _, _, _, queued_new mem chanBufSize buf⟩
  obtain ⟨a, _, _, _, h⟩ := Machine.invariant (M := queueMachine) (I := QueueInv)
    (P := fun _ _ => True) (fun _ i h _ => (queueStep h i).2) hnew
    (queueMachine.always_true _ acts)
  refine ⟨a, h.rep, ?_⟩
  obtain ⟨bytes, hf, hheld⟩ := h.rep.filled
  have hbytes := hf.tempDataLen_eq
  rcases hheld with ⟨-, -, hlen, -⟩ | ⟨rfl, h3, -⟩
  · exact List.eq_nil_of_length_eq_zero (by omega)
  · omega

end Tntsat.DemuxSw
