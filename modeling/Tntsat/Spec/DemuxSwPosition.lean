import Tntsat.Spec.DemuxSwSectionsCorrect

/-!
# Reading positions

A position in the blocks of a channel is a block and an offset at which a section
ends: `a.At blk off msgs` says that the messages of the sections before it are
`msgs`.  `DMXSwParseSection` and `DMX_SwReadDataRequset` move positions forward.

## Key results

- `Assembler.At.contents`: the messages before a position read as its sections
- `At.parseSection`: one block is read up to the next section that is not asked for
- `At.readDataRequset`: a read returns the next messages, and at least one if there is one
-/

namespace Tntsat.DemuxSw

/-! ## Messages -/

/-- The messages of sections that lie one behind the other. -/
def blockMsgs : Nat → List (List UInt8) → List UserMsg
  | _, [] => []
  | start, sec :: secs =>
    { bufStartAddr := start, msgLen := sec.length } :: blockMsgs (start + sec.length) secs

theorem blockMsgs_append (start : Nat) (xs ys : List (List UInt8)) :
    blockMsgs start (xs ++ ys) = blockMsgs start xs ++ blockMsgs (start + xs.flatten.length) ys := by
  induction xs generalizing start with
  | nil => rfl
  | cons x xs ih =>
    rw [List.cons_append, blockMsgs, ih, blockMsgs, List.cons_append, List.flatten_cons,
      List.length_append, Nat.add_assoc]

@[simp] theorem length_blockMsgs (start : Nat) (secs : List (List UInt8)) :
    (blockMsgs start secs).length = secs.length := by
  induction secs generalizing start with
  | nil => rfl
  | cons sec secs ih => rw [blockMsgs, List.length_cons, ih, List.length_cons]

/-- Every message lies in its block. -/
theorem mem_blockMsgs {start : Nat} {secs : List (List UInt8)} {m : UserMsg}
    (h : m ∈ blockMsgs start secs) :
    start ≤ m.bufStartAddr ∧ m.bufStartAddr + m.msgLen ≤ start + secs.flatten.length := by
  induction secs generalizing start with
  | nil => cases h
  | cons sec secs ih =>
    rw [List.flatten_cons, List.length_append]
    rcases List.mem_cons.mp h with rfl | h
    · exact ⟨Nat.le_refl _, by simp only; omega⟩
    · have hrest := ih h
      omega

/-- The physical address of the block `k` behind the read block. -/
def Fixed.blockAddr (f : Fixed) (k : Nat) : Nat :=
  f.dataPhyAddr + (f.readPtr + k) % f.descSize * dmxMaxSecLen

/-- The messages of the blocks from `k` on. -/
def Fixed.msgs (f : Fixed) : Nat → List (List (List UInt8)) → List UserMsg
  | _, [] => []
  | k, g :: gs => blockMsgs (f.blockAddr k) g ++ f.msgs (k + 1) gs

theorem Fixed.msgs_append (f : Fixed) (k : Nat) (xs ys : List (List (List UInt8))) :
    f.msgs k (xs ++ ys) = f.msgs k xs ++ f.msgs (k + xs.length) ys := by
  induction xs generalizing k with
  | nil => rfl
  | cons x xs ih =>
    rw [List.cons_append, msgs, ih, msgs, List.append_assoc, List.length_cons,
      Nat.add_right_comm, Nat.add_assoc]

theorem Fixed.length_msgs (f : Fixed) (k : Nat) (gs : List (List (List UInt8))) :
    (f.msgs k gs).length = gs.flatten.length := by
  induction gs generalizing k with
  | nil => rfl
  | cons g gs ih =>
    rw [msgs, List.length_append, ih, length_blockMsgs, List.flatten_cons, List.length_append]

/-- The messages depend on the addresses of the blocks only. -/
theorem Fixed.msgs_congr {f f' : Fixed} {k k' : Nat}
    (h : ∀ j, f.blockAddr (k + j) = f'.blockAddr (k' + j)) (gs : List (List (List UInt8))) :
    f.msgs k gs = f'.msgs k' gs := by
  induction gs generalizing k k' with
  | nil => rfl
  | cons g gs ih =>
    have hzero := h 0
    rw [Nat.add_zero, Nat.add_zero] at hzero
    rw [msgs, msgs, hzero, ih fun j => ?_]
    have hsucc := h (j + 1)
    rwa [← Nat.add_assoc, ← Nat.add_assoc, Nat.add_right_comm, Nat.add_right_comm k'] at hsucc

/-- Every message lies in one of the blocks. -/
theorem Fixed.mem_msgs {f : Fixed} {k : Nat} {gs : List (List (List UInt8))} {m : UserMsg}
    (h : m ∈ f.msgs k gs) :
    ∃ j, ∃ hj : j < gs.length, f.blockAddr (k + j) ≤ m.bufStartAddr ∧
      m.bufStartAddr + m.msgLen ≤ f.blockAddr (k + j) + gs[j].flatten.length := by
  induction gs generalizing k with
  | nil => cases h
  | cons g gs ih =>
    rcases List.mem_append.mp h with h | h
    · exact ⟨0, Nat.zero_lt_succ _, mem_blockMsgs h⟩
    · obtain ⟨j, hj, hm⟩ := ih h
      rw [Nat.add_right_comm] at hm
      exact ⟨j + 1, Nat.succ_lt_succ hj, hm⟩

/-! ## Positions -/

namespace Assembler

/-- The sections of the blocks from the read block on. -/
def groups (a : Assembler) : List (List (List UInt8)) := a.closed ++ [a.cur]

/-- A position: `gsDone` and `gDone` come before it, `gTodo` and `gsTodo` behind it. -/
structure Split (a : Assembler) where
  gsDone : List (List (List UInt8))
  gDone : List (List UInt8)
  gTodo : List (List UInt8)
  gsTodo : List (List (List UInt8))
  eq : a.groups = gsDone ++ (gDone ++ gTodo) :: gsTodo

/-- The messages before the position `(blk, off)` are `msgs`. -/
structure Split.Is (a : Assembler) (p : a.Split) (blk off : Nat) (msgs : List UserMsg) : Prop where
  blk : blk = (a.fixed.readPtr + p.gsDone.length) % a.fixed.descSize
  off : off = p.gDone.flatten.length
  msgs : msgs = a.fixed.msgs 0 (p.gsDone ++ [p.gDone])

def At (a : Assembler) (blk off : Nat) (msgs : List UserMsg) : Prop :=
  ∃ p : a.Split, p.Is a blk off msgs

/-- One more block than there are blocks before and behind the position. -/
theorem Split.length_eq {a : Assembler} (p : a.Split) :
    p.gsDone.length + p.gsTodo.length = a.closed.length := by
  have hlen := congrArg List.length p.eq
  simp only [groups, List.length_append, List.length_cons, List.length_nil] at hlen
  omega

end Assembler

namespace Rep

variable {s : SwDataBuf} {a : Assembler}

theorem readPtr_eq (h : Rep s a) : s.readPtr = a.fixed.readPtr := by
  obtain ⟨_, hf, -⟩ := h.filled
  exact congrArg Fixed.readPtr hf.fixed

theorem wf_groups (h : Rep s a) : ∀ g ∈ a.groups, ∀ sec ∈ g, WellFormed sec := by
  obtain ⟨_, hf, -⟩ := h.filled
  intro g hg
  rcases List.mem_append.mp hg with hg | hg
  · exact (hf.wf_closed g hg).2
  · rw [List.mem_singleton.mp hg]
    exact hf.wf_cur

/-- The block at a position, and what it holds. -/
structure Block (s : SwDataBuf) (a : Assembler) (p : a.Split) (blk : Nat) : Prop where
  lt : blk < s.descSize
  dataLen : (s.desc blk).dataLen = (p.gDone ++ p.gTodo).flatten.length
  bytes : s.mem.read (s.bufVirAddr blk) (p.gDone ++ p.gTodo).flatten.length =
    (p.gDone ++ p.gTodo).flatten
  wf : ∀ sec ∈ p.gDone ++ p.gTodo, WellFormed sec
  startPhyAddr : (s.desc blk).startPhyAddr = a.fixed.blockAddr p.gsDone.length
  bufVirAddr : s.bufVirAddr blk = s.dataVirAddr + blk * dmxMaxSecLen
  write_iff : blk = s.writePtr ↔ p.gsTodo = []

theorem block (h : Rep s a) (p : a.Split) {blk : Nat}
    (hblk : blk = (a.fixed.readPtr + p.gsDone.length) % a.fixed.descSize) : Block s a p blk := by
  have hbytes := h.blocks_eq
  have hused := h.usedBlocks_eq
  have hdesc := h.descSize_eq
  have hread := h.readPtr_eq
  have hlength := p.length_eq
  have hwf := h.wf_groups (p.gDone ++ p.gTodo) (by rw [p.eq]; simp)
  obtain ⟨_, hf, -⟩ := h.filled
  have hcount := hf.count
  have hlt : blk < s.descSize := by
    rw [hblk, ← hdesc]
    exact Nat.mod_lt _ hf.geometry.descSize_pos
  rw [← hdesc, ← hread] at hblk
  -- the bytes of this block are one group of the abstract list
  have hflat : s.blockBytes blk = (p.gDone ++ p.gTodo).flatten := by
    have hget := congrArg (·[p.gsDone.length]?) hbytes
    unfold SwDataBuf.blocks Assembler.blocks at hget
    rw [show a.closed ++ [a.cur] = a.groups from rfl, p.eq, hused] at hget
    simp only [List.getElem?_map, List.getElem?_append_right (Nat.le_refl _), Nat.sub_self,
      List.getElem?_cons_zero, Option.map_some] at hget
    rw [List.getElem?_range (by omega), Option.map_some, Option.some.injEq, ← hblk] at hget
    exact hget
  have hdl : (s.desc blk).dataLen = (p.gDone ++ p.gTodo).flatten.length := by
    rw [← hflat, SwDataBuf.blockBytes, Memory.length_read]
  have hphy : s.dataPhyAddr = a.fixed.dataPhyAddr := congrArg Fixed.dataPhyAddr hf.fixed
  exact {
    lt := hlt
    dataLen := hdl
    bytes := by
      rw [← hdl]
      exact hflat
    wf := hwf
    startPhyAddr := by
      rw [hf.geometry.startPhyAddr blk hlt, Fixed.blockAddr, ← hphy, ← hread, ← hdesc, hblk]
    bufVirAddr := hf.geometry.bufVirAddr hlt
    write_iff := by
      rw [hblk, hf.writePtr]
      constructor
      · intro heq
        by_contra hne
        have hpos := List.length_pos_iff.mpr hne
        exact wrap_ne (show p.gsDone.length < a.closed.length by omega) (by omega) heq
      · intro hnil
        rw [hnil, List.length_nil] at hlength
        rw [← hlength, Nat.add_zero] }

end Rep

/-! ## The sections of a block -/

theorem WellFormed.three_le {sec : List UInt8} (h : WellFormed sec) : 3 ≤ sec.length := by
  rw [← h.1]
  exact three_le_secLen sec

/-- Sections are not empty. -/
theorem flatten_eq_nil_of_wf {secs : List (List UInt8)} (h : ∀ sec ∈ secs, WellFormed sec)
    (hlen : secs.flatten.length = 0) : secs = [] := by
  cases secs with
  | nil => rfl
  | cons sec secs =>
    have h3 := (h sec List.mem_cons_self).three_le
    rw [List.flatten_cons, List.length_append] at hlen
    omega

/-- The length in the header of a section in memory. -/
theorem secLenOf_read {m : Memory UInt8} {addr : Nat} {sec : List UInt8}
    (hread : m.read addr sec.length = sec) (hwf : WellFormed sec) :
    secLenOf (m (addr + 1)) (m (addr + 2)) = sec.length := by
  have h3 := hwf.three_le
  have hbyte : ∀ i < sec.length, m (addr + i) = byteAt sec i := by
    intro i hi
    have hget := congrArg (·[i]?) hread
    simp only [Memory.getElem?_read, if_pos hi] at hget
    rw [byteAt, ← hget, Option.getD_some]
  rw [hbyte 1 (by omega), hbyte 2 (by omega)]
  exact hwf.1

/-- `DMXCheckBuffer` accepts sections that fill the block. -/
theorem dmxCheckBuffer_ok {m : Memory UInt8} {base bufLen : Nat} (fuel : Nat)
    {secs : List (List UInt8)} {off : Nat} (hwf : ∀ sec ∈ secs, WellFormed sec)
    (hread : m.read (base + off) secs.flatten.length = secs.flatten)
    (hle : off + secs.flatten.length ≤ bufLen) :
    dmxCheckBuffer m base bufLen fuel off secs.flatten.length = true := by
  induction fuel generalizing secs off with
  | zero => rfl
  | succ fuel ih =>
    unfold dmxCheckBuffer
    split
    · cases secs with
      | nil => contradiction
      | cons sec secs =>
        have hsec := hwf sec List.mem_cons_self
        rw [List.flatten_cons, List.length_append] at hread hle ⊢
        rw [Memory.read_add] at hread
        obtain ⟨hhead, htail⟩ := List.append_inj hread (Memory.length_read _ _ _)
        have hmax := hsec.2
        simp only
        rw [if_neg (by omega), secLenOf_read hhead hsec, if_neg (by omega),
          Nat.add_sub_cancel_left]
        exact ih (fun sec' h' => hwf sec' (List.mem_cons_of_mem _ h'))
          (by rw [← Nat.add_assoc]; exact htail) (by omega)
    · rfl

/-- `GetSectionLength` at the beginning of a section. -/
theorem getSectionLength_eq {m : Memory UInt8} {base bufLen off : Nat} {sec : List UInt8}
    {secs : List (List UInt8)} (hbase : 0 < base) (hwf : ∀ x ∈ sec :: secs, WellFormed x)
    (hread : m.read (base + off) (sec :: secs).flatten.length = (sec :: secs).flatten)
    (hlen : off + (sec :: secs).flatten.length = bufLen) :
    getSectionLength m base bufLen off = sec.length := by
  have hsec := hwf sec List.mem_cons_self
  have h3 := hsec.three_le
  have hcheck : dmxCheckBuffer m base bufLen (bufLen - off) off (bufLen - off) = true := by
    rw [show bufLen - off = (sec :: secs).flatten.length by omega]
    exact dmxCheckBuffer_ok _ hwf hread (by omega)
  rw [List.flatten_cons, List.length_append] at hread hlen
  rw [Memory.read_add] at hread
  have hhead := (List.append_inj hread (Memory.length_read _ _ _)).1
  unfold getSectionLength
  simp only
  rw [if_neg (by omega), if_neg (by omega), if_neg (by omega), hcheck, secLenOf_read hhead hsec,
    if_neg (by decide), if_pos (by omega), if_neg (by omega)]

/-- The loop in `DMXSwParseSection` takes sections in order, until the block ends or
    enough have been taken. -/
theorem parseSectionLoop_eq {s : SwDataBuf} {blk acqNum : Nat} (hbase : 0 < s.bufVirAddr blk)
    (fuel : Nat) (gDone gTodo : List (List UInt8)) (msgs : List UserMsg)
    (hwf : ∀ sec ∈ gTodo, WellFormed sec) (hne : gTodo ≠ [])
    (hread : s.mem.read (s.bufVirAddr blk + gDone.flatten.length) gTodo.flatten.length =
      gTodo.flatten)
    (hfuel : fuel = acqNum - msgs.length) :
    ∃ new rest, gTodo = new ++ rest ∧
      swParseSectionLoop s blk (gDone ++ gTodo).flatten.length acqNum fuel msgs
          gDone.flatten.length =
        (msgs ++ blockMsgs ((s.desc blk).startPhyAddr + gDone.flatten.length) new,
          (gDone ++ new).flatten.length) ∧
      new.length ≤ acqNum - msgs.length ∧ (rest = [] ∨ new.length = acqNum - msgs.length) := by
  induction fuel generalizing gDone gTodo msgs with
  | zero =>
    exact ⟨[], gTodo, rfl, by simp [swParseSectionLoop, blockMsgs], Nat.zero_le _, .inr hfuel⟩
  | succ fuel ih =>
    obtain ⟨sec, secs, rfl⟩ := List.exists_cons_of_ne_nil hne
    have hsec := hwf sec List.mem_cons_self
    have h3 := hsec.three_le
    have hmax := hsec.2
    have hflat : (gDone ++ sec :: secs).flatten.length =
        gDone.flatten.length + (sec :: secs).flatten.length := by
      rw [List.flatten_append, List.length_append]
    have hcons : (sec :: secs).flatten.length = sec.length + secs.flatten.length := by
      rw [List.flatten_cons, List.length_append]
    have hdone : (gDone ++ [sec]).flatten.length = gDone.flatten.length + sec.length := by
      simp [List.flatten_append]
    unfold swParseSectionLoop
    simp only
    rw [if_pos (by omega), getSectionLength_eq hbase hwf hread hflat.symm, if_neg (by omega)]
    by_cases hend : gDone.flatten.length + sec.length ≥ (gDone ++ sec :: secs).flatten.length
    · -- the last section of the block
      have hnil : secs = [] := flatten_eq_nil_of_wf
        (fun x hx => hwf x (List.mem_cons_of_mem _ hx)) (by omega)
      subst hnil
      rw [if_pos hend]
      refine ⟨[sec], [], rfl, ?_, by rw [List.length_singleton]; omega, .inl rfl⟩
      rw [hdone]
      rfl
    · rw [if_neg hend]
      have hne' : secs ≠ [] := by
        intro hnil
        subst hnil
        rw [hflat, hcons] at hend
        exact hend (by simp)
      have hread' : s.mem.read (s.bufVirAddr blk + (gDone ++ [sec]).flatten.length)
          secs.flatten.length = secs.flatten := by
        rw [List.flatten_cons, List.length_append, Memory.read_add] at hread
        rw [hdone, ← Nat.add_assoc]
        exact (List.append_inj hread (Memory.length_read _ _ _)).2
      obtain ⟨new, rest, rfl, hloop, hle, hstop⟩ := ih (gDone ++ [sec]) secs
        (msgs ++ [{ bufStartAddr := (s.desc blk).startPhyAddr + gDone.flatten.length,
                    msgLen := sec.length }])
        (fun x hx => hwf x (List.mem_cons_of_mem _ hx)) hne' hread'
        (by rw [List.length_append, List.length_singleton]; omega)
      rw [List.length_append, List.length_singleton] at hle hstop
      refine ⟨sec :: new, rest, rfl, ?_, by rw [List.length_cons]; omega, ?_⟩
      · rw [List.append_assoc, List.singleton_append, hdone] at hloop
        rw [hloop, List.append_assoc, blockMsgs, List.singleton_append, List.append_assoc,
          List.singleton_append, Nat.add_assoc]
      · rw [List.length_cons]
        rcases hstop with hstop | hstop
        · exact .inl hstop
        · exact .inr (by omega)

/-! ## Moving a position -/

namespace Assembler.Split.Is

variable {s : SwDataBuf} {a : Assembler} {p : a.Split} {blk off : Nat} {msgs : List UserMsg}

/-- The end of the block is reached when nothing of it is left to do. -/
theorem dataLen_le_iff (hp : p.Is a blk off msgs) (h : Rep s a) :
    (s.desc blk).dataLen ≤ off ↔ p.gTodo = [] := by
  have hblock := h.block p hp.blk
  rw [hblock.dataLen, hp.off, List.flatten_append, List.length_append]
  constructor
  · intro hle
    exact flatten_eq_nil_of_wf
      (fun sec hsec => hblock.wf sec (List.mem_append_right _ hsec)) (by omega)
  · intro hnil
    rw [hnil, List.flatten_nil, List.length_nil]
    omega

/-- On to the next block. -/
theorem next (hp : p.Is a blk off msgs) (h : Rep s a) (htodo : p.gTodo = [])
    (hmore : p.gsTodo ≠ []) :
    ∃ q : a.Split, q.Is a (dmxInc blk s.descSize) 0 msgs ∧
      q.gsTodo.length + 1 = p.gsTodo.length := by
  have hblock := h.block p hp.blk
  obtain ⟨g, gs, hgs⟩ := List.exists_cons_of_ne_nil hmore
  let q : a.Split :=
    { gsDone := p.gsDone ++ [p.gDone], gDone := [], gTodo := g, gsTodo := gs
      eq := by rw [p.eq, htodo, hgs]; simp }
  refine ⟨q, ⟨?_, rfl, ?_⟩, by rw [hgs, List.length_cons]⟩
  · rw [dmxInc_eq hblock.lt, h.descSize_eq, hp.blk, Nat.mod_add_mod]
    show _ = (a.fixed.readPtr + (p.gsDone ++ [p.gDone]).length) % _
    rw [List.length_append, List.length_singleton, Nat.add_assoc]
  · rw [hp.msgs, Fixed.msgs_append _ _ q.gsDone]
    exact (List.append_nil _).symm

/-- `DMXSwParseSection` moves on within the block. -/
theorem parseSection (hp : p.Is a blk off msgs) (h : Rep s a) (hvir : 0 < s.dataVirAddr)
    (htodo : p.gTodo ≠ []) (acqNum : Nat) (acq : List UserMsg) :
    ∃ (q : a.Split) (off' : Nat) (new : List UserMsg), q.Is a blk off' (msgs ++ new) ∧
      q.gsTodo = p.gsTodo ∧
      swParseSection s blk acqNum acq off = (acq ++ new, off', decide (new.length ≠ 0)) ∧
      (new = [] → off' = off) ∧ new.length ≤ acqNum - acq.length ∧
      (q.gTodo = [] ∨ new.length = acqNum - acq.length) := by
  have hblock := h.block p hp.blk
  have hbase : 0 < s.bufVirAddr blk := by
    rw [hblock.bufVirAddr]
    omega
  have hbytes := hblock.bytes
  rw [List.flatten_append, List.length_append, Memory.read_add] at hbytes
  have hread := (List.append_inj hbytes (Memory.length_read _ _ _)).2
  obtain ⟨new, rest, hsplit, hloop, hle, hstop⟩ := parseSectionLoop_eq hbase
    (acqNum - acq.length) p.gDone p.gTodo acq
    (fun sec hsec => hblock.wf sec (List.mem_append_right _ hsec)) htodo hread rfl
  -- the position behind the sections that were handed out
  let q : a.Split :=
    { gsDone := p.gsDone, gDone := p.gDone ++ new, gTodo := rest, gsTodo := p.gsTodo
      eq := by rw [p.eq, hsplit, List.append_assoc] }
  refine ⟨q, (p.gDone ++ new).flatten.length,
    blockMsgs ((s.desc blk).startPhyAddr + p.gDone.flatten.length) new, ⟨hp.blk, rfl, ?_⟩, rfl, ?_,
    ?_, by rw [length_blockMsgs]; exact hle, by rw [length_blockMsgs]; exact hstop⟩
  · rw [hp.msgs, Fixed.msgs_append, Fixed.msgs_append, Nat.zero_add, hblock.startPhyAddr]
    show _ = _ ++ (blockMsgs (a.fixed.blockAddr p.gsDone.length) (p.gDone ++ new) ++ [])
    rw [blockMsgs_append, Fixed.msgs, Fixed.msgs]
    simp only [List.append_nil, List.append_assoc]
    rfl
  · unfold swParseSection
    simp only
    rw [if_neg (by rw [ge_iff_le, hp.dataLen_le_iff h]; exact htodo), hblock.dataLen, hp.off, hloop]
    simp
  · intro hnil
    have hnew : new = [] := by
      rw [← List.length_eq_zero_iff, ← length_blockMsgs, hnil, List.length_nil]
    rw [hnew, List.append_nil, hp.off]

end Assembler.Split.Is

/-- Moving `procesPtr` and `procesOffset` changes nothing else. -/
def Assembler.setProces (a : Assembler) (pp po : Nat) : Assembler :=
  { a with fixed := { a.fixed with procesPtr := pp, procesOffset := po } }

theorem Rep.setProces {s : SwDataBuf} {a : Assembler} (h : Rep s a) (pp po : Nat) :
    Rep { s with procesPtr := pp, procesOffset := po } (a.setProces pp po) := by
  obtain ⟨bytes, hf, hheld⟩ := h.filled
  have hfixed : SwDataBuf.fixed { s with procesPtr := pp, procesOffset := po } =
      (a.setProces pp po).fixed := by
    unfold Assembler.setProces
    rw [← hf.fixed]
    rfl
  exact {
    filled := ⟨bytes, {
      geometry := ⟨hf.geometry.descSize_pos, hf.geometry.startPhyAddr, hf.geometry.bufSize,
        hf.geometry.readPtr_lt, hf.geometry.writePtr_lt⟩
      fixed := hfixed, count := hf.count, writePtr := hf.writePtr, dataLen_le := hf.dataLen_le
      closed := hf.closed, cur := hf.cur, offset := hf.offset, offset_le := hf.offset_le
      bytes := hf.bytes, log := hf.log, wf_closed := hf.wf_closed, wf_cur := hf.wf_cur }, hheld⟩
    head := h.head }

/-- Parsing does not look at them. -/
theorem swParseSection_setProces (s : SwDataBuf) (pp po blk acqNum : Nat) (acq : List UserMsg)
    (off : Nat) :
    swParseSection { s with procesPtr := pp, procesOffset := po } blk acqNum acq off =
      swParseSection s blk acqNum acq off := by
  have hloop : ∀ (bufLen fuel : Nat) (acq : List UserMsg) (off : Nat),
      swParseSectionLoop { s with procesPtr := pp, procesOffset := po } blk bufLen acqNum fuel acq
        off = swParseSectionLoop s blk bufLen acqNum fuel acq off := by
    intro bufLen fuel
    induction fuel with
    | zero => exact fun _ _ => rfl
    | succ fuel ih =>
      intro acq off
      unfold swParseSectionLoop
      simp only [ih]
      rfl
  unfold swParseSection
  simp only [hloop]

/-- Positions do not depend on `procesPtr` and `procesOffset`. -/
theorem Assembler.at_setProces {a : Assembler} {pp po blk off : Nat} {msgs : List UserMsg}
    {gsDone gsTodo : List (List (List UInt8))} {gDone gTodo : List (List UInt8)}
    {h : a.groups = gsDone ++ (gDone ++ gTodo) :: gsTodo} :
    Split.Is (a.setProces pp po) ⟨gsDone, gDone, gTodo, gsTodo, h⟩ blk off msgs ↔
      Split.Is a ⟨gsDone, gDone, gTodo, gsTodo, h⟩ blk off msgs := by
  have hmsgs : (a.setProces pp po).fixed.msgs 0 (gsDone ++ [gDone]) =
      a.fixed.msgs 0 (gsDone ++ [gDone]) := by
    apply Fixed.msgs_congr
    exact fun _ => rfl
  exact ⟨fun hp => ⟨hp.blk, hp.off, hp.msgs.trans hmsgs⟩,
    fun hp => ⟨hp.blk, hp.off, hp.msgs.trans hmsgs.symm⟩⟩

/-! ## Reading -/

/-- The loop over the blocks before the write block: it collects the messages behind
    the position until there are enough, or the write block is reached. -/
theorem readLoop_eq (acqNum fuel : Nat) {s : SwDataBuf} {a : Assembler} (h : Rep s a)
    (hvir : 0 < s.dataVirAddr) {p : a.Split} {blk off : Nat} {msgs : List UserMsg}
    (hp : p.Is a blk off msgs) (acq : List UserMsg)
    (hlocal : acq = [] → s.procesPtr = blk ∧ s.procesOffset = off) (hacq : acq.length ≤ acqNum)
    (hfuel : 2 * p.gsTodo.length + (if p.gTodo = [] then 0 else 1) < fuel) :
    ∃ (pp po blk' off' : Nat) (new : List UserMsg) (q : a.Split),
      swReadLoop acqNum fuel s blk off acq =
        ({ s with procesPtr := pp, procesOffset := po }, blk', off', acq ++ new) ∧
      q.Is a blk' off' (msgs ++ new) ∧ (acq ++ new = [] → pp = blk' ∧ po = off') ∧
      (acq ++ new).length ≤ acqNum ∧ (acq ++ new = [] → 0 < acqNum → q.gsTodo = []) := by
  induction fuel generalizing s a blk off msgs acq with
  | zero => exact absurd hfuel (Nat.not_lt_zero _)
  | succ fuel ih =>
    have hblock := h.block p hp.blk
    unfold swReadLoop
    simp only
    by_cases hwrite : p.gsTodo = []
    · -- the write block
      rw [if_neg (not_not.mpr (hblock.write_iff.mpr hwrite))]
      refine ⟨s.procesPtr, s.procesOffset, blk, off, [], p, by rw [List.append_nil], ?_, ?_, ?_, ?_⟩
      · rw [List.append_nil]; exact hp
      · rw [List.append_nil]; exact hlocal
      · rw [List.append_nil]; exact hacq
      · exact fun _ _ => hwrite
    rw [if_pos (fun hc => hwrite (hblock.write_iff.mp hc))]
    by_cases htodo : p.gTodo = []
    · -- the block has been read: on to the next one
      rw [if_pos ((hp.dataLen_le_iff h).mpr htodo)]
      rw [if_pos htodo] at hfuel
      obtain ⟨q, hq, hlen⟩ := hp.next h htodo hwrite
      obtain ⟨pp, po, blk', off', new, r, hloop, hr⟩ :=
        ih (h.setProces (dmxInc blk s.descSize) 0) hvir (Assembler.at_setProces.mpr hq) acq
          (fun _ => ⟨rfl, rfl⟩) hacq (by simp only; split <;> omega)
      exact ⟨pp, po, blk', off', new, ⟨r.gsDone, r.gDone, r.gTodo, r.gsTodo, r.eq⟩, hloop,
        Assembler.at_setProces.mp hr.1, hr.2⟩
    · rw [if_neg (fun hc => htodo ((hp.dataLen_le_iff h).mp hc))]
      rw [if_neg htodo] at hfuel
      obtain ⟨q, off', new, hq, hgs, hparse, hoff, hle, hstop⟩ :=
        hp.parseSection h hvir htodo acqNum acq
      have hlen : (acq ++ new).length = acq.length + new.length := List.length_append
      have hlocal' : acq ++ new = [] → s.procesPtr = blk ∧ s.procesOffset = off' := by
        intro hnil
        obtain ⟨hacqnil, hnewnil⟩ := List.append_eq_nil_iff.mp hnil
        rw [hoff hnewnil]
        exact hlocal hacqnil
      rw [hparse]
      simp only
      by_cases hq' : q.gTodo = []
      · -- the rest of the block was read
        rw [if_pos ((hq.dataLen_le_iff h).mpr hq')]
        obtain ⟨pp, po, blk', off'', new', r, hloop, hr, hpos, hlen', hprog⟩ :=
          ih h hvir hq (acq ++ new) hlocal' (by omega) (by rw [if_pos hq', hgs]; omega)
        rw [List.append_assoc] at hloop hr hpos hlen' hprog
        exact ⟨pp, po, blk', off'', new ++ new', r, hloop, hr, hpos, hlen', hprog⟩
      · -- enough was read
        have henough : acq.length + new.length = acqNum := by
          rcases hstop with hstop | hstop
          · exact absurd hstop hq'
          · omega
        rw [if_neg (fun hc => hq' ((hq.dataLen_le_iff h).mp hc)), if_pos (by simp [henough])]
        refine ⟨s.procesPtr, s.procesOffset, blk, off', new, q, rfl, hq, hlocal', by omega, ?_⟩
        intro hnil hpos
        rw [hnil, List.length_nil] at hlen
        omega

/-- The number of sections before a position. -/
theorem Assembler.Split.Is.length_msgs {a : Assembler} {p : a.Split} {blk off : Nat}
    {msgs : List UserMsg} (hp : p.Is a blk off msgs) :
    msgs.length + p.gTodo.length + p.gsTodo.flatten.length = a.groups.flatten.length := by
  rw [hp.msgs, Fixed.length_msgs, p.eq]
  simp only [List.flatten_append, List.flatten_cons, List.flatten_nil, List.length_append,
    List.append_nil]
  omega

/-- A read returns the next messages in order, and at least one if there is one. -/
theorem swReadDataRequset_eq {s : SwDataBuf} {a : Assembler} (h : Rep s a)
    (hvir : 0 < s.dataVirAddr) {msgs : List UserMsg}
    (hat : a.At s.procesPtr s.procesOffset msgs) (acqNum : Nat) :
    ∃ (pp po : Nat) (new : List UserMsg),
      swReadDataRequset s acqNum = ({ s with procesPtr := pp, procesOffset := po }, new) ∧
      a.At pp po (msgs ++ new) ∧ new.length ≤ acqNum ∧
      (0 < acqNum → msgs.length < a.groups.flatten.length → 0 < new.length) := by
  obtain ⟨p, hp⟩ := hat
  have hlength := p.length_eq
  have hcount := h.count
  obtain ⟨pp, po, blk, off, new, q, hloop, hq, hpos, hlen, hprog⟩ :=
    readLoop_eq acqNum (2 * s.descSize + 2) h hvir hp [] (fun _ => ⟨rfl, rfl⟩) (Nat.zero_le _)
      (by split <;> omega)
  rw [List.nil_append] at hloop hpos hlen hprog
  unfold swReadDataRequset
  rw [hloop]
  simp only
  by_cases hnew : new = []
  · -- nothing before the write block
    subst hnew
    obtain ⟨rfl, rfl⟩ := hpos rfl
    rw [List.append_nil] at hq
    have hblock := h.block q hq.blk
    rw [List.length_nil, if_neg (Nat.lt_irrefl 0)]
    by_cases hwrite : q.gsTodo = []
    · rw [if_pos (hblock.write_iff.mpr hwrite).symm]
      have hdesc : SwDataBuf.writeDesc { s with procesPtr := pp, procesOffset := po } = s.desc pp := by
        rw [hblock.write_iff.mpr hwrite]
        rfl
      rw [hdesc]
      by_cases htodo : q.gTodo = []
      · rw [if_neg (by rw [gt_iff_lt, Nat.not_lt, hq.dataLen_le_iff h]; exact htodo)]
        refine ⟨pp, po, [], rfl, ?_, Nat.zero_le _, fun _ hlt => ?_⟩
        · rw [List.append_nil]
          exact ⟨q, hq⟩
        · -- everything has been read
          have hall := hq.length_msgs
          rw [htodo, hwrite, List.flatten_nil, List.length_nil] at hall
          omega
      · rw [if_pos (by rw [gt_iff_lt, ← Nat.not_le, hq.dataLen_le_iff h]; exact htodo)]
        obtain ⟨r, off', new, hr, hrest, hparse, hoff, hle, hstop⟩ :=
          hq.parseSection h hvir htodo acqNum []
        rw [List.nil_append] at hparse
        have hparse' : swParseSection { s with procesPtr := pp, procesOffset := po } s.writePtr
            acqNum [] po = (new, off', decide (new.length ≠ 0)) := by
          rw [swParseSection_setProces, ← hblock.write_iff.mpr hwrite]
          exact hparse
        rw [hparse']
        simp only
        have hprogress : 0 < acqNum → 0 < new.length := by
          intro hpos
          rw [List.length_nil] at hstop
          rcases hstop with hstop | hstop
          · -- the whole block was read, and something of it was left
            have hq' := hq.length_msgs
            have hr' := hr.length_msgs
            have hne := List.length_pos_iff.mpr htodo
            rw [hstop, hrest, List.length_append, List.length_nil] at hr'
            omega
          · omega
        by_cases hnone : new.length > 0
        · rw [if_pos hnone]
          exact ⟨pp, off', new, rfl, ⟨r, hr⟩, by rw [List.length_nil] at hle; omega, fun _ _ => hnone⟩
        · have hnil : new = [] := List.eq_nil_of_length_eq_zero (by omega)
          subst hnil
          rw [if_neg hnone]
          have hself := hoff rfl
          subst hself
          refine ⟨pp, off', [], ?_, ⟨r, hr⟩, Nat.zero_le _, fun hpos _ => hprogress hpos⟩
          split <;> rfl
    · rw [if_neg (fun hc => hwrite (hblock.write_iff.mp hc.symm))]
      refine ⟨pp, po, [], rfl, ?_, Nat.zero_le _, fun hpos _ => absurd (hprog rfl hpos) hwrite⟩
      rw [List.append_nil]
      exact ⟨q, hq⟩
  · have hpos := List.length_pos_iff.mpr hnew
    rw [if_pos hpos]
    exact ⟨blk, off, new, rfl, ⟨q, hq⟩, hlen, fun _ _ => hpos⟩

/-! ## Contents -/

/-- What a message points to. -/
def SwDataBuf.contents (s : SwDataBuf) (m : UserMsg) : List UInt8 :=
  s.mem.read (m.bufStartAddr - s.dataPhyAddr + s.dataVirAddr) m.msgLen

/-- The messages of sections that lie one behind the other point to them. -/
theorem contents_blockMsgs {s : SwDataBuf} {start : Nat} {secs : List (List UInt8)}
    (hle : s.dataPhyAddr ≤ start)
    (hread : s.mem.read (start - s.dataPhyAddr + s.dataVirAddr) secs.flatten.length =
      secs.flatten) :
    (blockMsgs start secs).map s.contents = secs := by
  induction secs generalizing start with
  | nil => rfl
  | cons sec secs ih =>
    rw [List.flatten_cons, List.length_append, Memory.read_add] at hread
    obtain ⟨hhead, htail⟩ := List.append_inj hread (Memory.length_read _ _ _)
    have haddr : start - s.dataPhyAddr + s.dataVirAddr + sec.length =
        start + sec.length - s.dataPhyAddr + s.dataVirAddr := by omega
    rw [haddr] at htail
    rw [blockMsgs, List.map_cons, ih (by omega) htail]
    have hcontents : s.contents { bufStartAddr := start, msgLen := sec.length } = sec := hhead
    rw [hcontents]

theorem contents_msgs {s : SwDataBuf} {f : Fixed} {k : Nat} {gs : List (List (List UInt8))}
    (hphy : f.dataPhyAddr = s.dataPhyAddr)
    (hread : ∀ j (hj : j < gs.length),
      s.mem.read (f.blockAddr (k + j) - s.dataPhyAddr + s.dataVirAddr) gs[j].flatten.length =
        gs[j].flatten) :
    (f.msgs k gs).map s.contents = gs.flatten := by
  induction gs generalizing k with
  | nil => rfl
  | cons g gs ih =>
    have hle : s.dataPhyAddr ≤ f.blockAddr k := by
      rw [← hphy]
      exact Nat.le_add_right _ _
    have hhead : (blockMsgs (f.blockAddr k) g).map s.contents = g :=
      contents_blockMsgs hle (hread 0 (Nat.zero_lt_succ _))
    rw [Fixed.msgs, List.map_append, hhead, List.flatten_cons, ih fun j hj => ?_]
    have hj' := hread (j + 1) (Nat.succ_lt_succ hj)
    rwa [← Nat.add_assoc, Nat.add_right_comm] at hj'

/-- The messages before a position point to the sections before it. -/
theorem Assembler.Split.Is.contents {s : SwDataBuf} {a : Assembler} {p : a.Split} {blk off : Nat}
    {msgs : List UserMsg} (hp : p.Is a blk off msgs) (h : Rep s a) :
    msgs.map s.contents = p.gsDone.flatten ++ p.gDone := by
  have hphy : a.fixed.dataPhyAddr = s.dataPhyAddr := by
    obtain ⟨_, hf, -⟩ := h.filled
    exact (congrArg Fixed.dataPhyAddr hf.fixed).symm
  have hflat : (p.gsDone ++ [p.gDone]).flatten = p.gsDone.flatten ++ p.gDone := by simp
  rw [hp.msgs, contents_msgs hphy, hflat]
  intro j hj
  rw [Nat.zero_add]
  by_cases hlt : j < p.gsDone.length
  · -- a block that comes before the position
    rw [List.getElem_append_left hlt]
    let q : a.Split :=
      { gsDone := p.gsDone.take j, gDone := p.gsDone[j], gTodo := []
        gsTodo := p.gsDone.drop (j + 1) ++ (p.gDone ++ p.gTodo) :: p.gsTodo
        eq := by
          rw [p.eq, List.append_nil, ← List.cons_append, ← List.drop_eq_getElem_cons hlt,
            ← List.append_assoc, List.take_append_drop] }
    have hlen : q.gsDone.length = j := by
      show (p.gsDone.take j).length = j
      rw [List.length_take]
      omega
    have hblock := h.block q rfl
    have hbytes := hblock.bytes
    have hstart := hblock.startPhyAddr
    rw [hlen] at hstart
    unfold SwDataBuf.bufVirAddr at hbytes
    rw [hlen, hstart, List.append_nil] at hbytes
    exact hbytes
  · -- the block of the position, up to it
    have heq : j = p.gsDone.length := by
      rw [List.length_append, List.length_singleton] at hj
      omega
    subst heq
    rw [List.getElem_append_right (Nat.le_refl _)]
    simp only [Nat.sub_self, List.getElem_cons_zero]
    have hblock := h.block p rfl
    have hbytes := hblock.bytes
    unfold SwDataBuf.bufVirAddr at hbytes
    rw [hblock.startPhyAddr, List.flatten_append, List.length_append, Memory.read_add] at hbytes
    exact (List.append_inj hbytes (Memory.length_read _ _ _)).1

end Tntsat.DemuxSw
