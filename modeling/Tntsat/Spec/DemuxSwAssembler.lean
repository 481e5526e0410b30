import Tntsat.Native.DemuxSwChannel

/-!
# The section assembler

What `DMX_SwInsertTmpData` is for: it collects the bytes of the section in
progress wherever they are kept, prefixes them to what comes next, and cuts whole
sections off the front.  An `Assembler` holds the committed sections of the
blocks between `readPtr` and `writePtr`, the bytes in progress and the number of
free blocks; `Assembler.insert` is one call.

`Rep s a` says that the state `s` of a channel represents the assembler `a`.

## Key results

- `Filled.copy`, `Filled.parse_whole`, `Filled.needBlock`: the three primitives
- `Rep.insert`: `DMX_SwInsertTmpData` refines `Assembler.insert`
- `Rep.packet`: so does a TS packet
- `rep_new`: a channel that was created holds nothing
-/

namespace Tntsat.DemuxSw

/-! ## The assembler -/

/-- The parts of a channel that inserting data does not touch. -/
structure Fixed where
  dataPhyAddr : Nat
  dataVirAddr : Nat
  descSize : Nat
  readPtr : Nat
  procesPtr : Nat
  procesOffset : Nat

/-- A channel by what it holds. -/
structure Assembler where
  /-- the sections of the blocks before the write block -/
  closed : List (List (List UInt8))
  /-- the sections of the write block -/
  cur : List (List UInt8)
  /-- the number of blocks behind the write block -/
  free : Nat
  /-- the bytes of the section in progress -/
  pending : List UInt8
  /-- every section committed so far -/
  log : List (List UInt8)
  fixed : Fixed

namespace Assembler

variable (accept : List UInt8 → Bool)

/-- Make room for a section of `n` bytes. -/
def reserve (a : Assembler) (n : Nat) : Option Assembler :=
  if a.cur.flatten.length + n ≤ dmxMaxSecLen then some a
  else if a.free = 0 then none
  else some { a with closed := a.closed ++ [a.cur], cur := [], free := a.free - 1 }

/-- Commit a section that passes the checks. -/
def commit (a : Assembler) (sec : List UInt8) : Assembler :=
  if accept sec then { a with cur := a.cur ++ [sec], log := a.log ++ [sec] } else a

/-- Cut the sections off the front of `data`; what is left is in progress. -/
def take (a : Assembler) (data : List UInt8) : Assembler :=
  if _h : data.length < 3 then
    { a with pending := if byteAt data 0 = 0xff then [] else data }
  else if byteAt data 0 = 0xff then { a with pending := [] }
  else if secLen data > dmxMaxSecLen then { a with pending := [] }
  else
    match a.reserve (secLen data) with
    | none => { a with pending := [] }
    | some a' =>
      if secLen data ≤ data.length then
        take (a'.commit accept (data.take (secLen data))) (data.drop (secLen data))
      else { a' with pending := data }
termination_by data.length
decreasing_by
  rw [List.length_drop]
  have hpos : 3 ≤ secLen data := Nat.le_add_left 3 _
  omega

/-- One call of `DMX_SwInsertTmpData`. -/
def insert (a : Assembler) (data : List UInt8) (pusi : Bool) : Assembler :=
  if data.length = 0 then a
  else if pusi then { a with pending := [] }.take accept data
  else if a.pending.length = 0 then a
  else { a with pending := [] }.take accept (a.pending ++ data)

end Assembler

/-! ## Blocks -/

/-- The fixed parts of a channel. -/
def SwDataBuf.fixed (s : SwDataBuf) : Fixed where
  dataPhyAddr := s.dataPhyAddr
  dataVirAddr := s.dataVirAddr
  descSize := s.descSize
  readPtr := s.readPtr
  procesPtr := s.procesPtr
  procesOffset := s.procesOffset

/-- The committed bytes of a block. -/
def SwDataBuf.blockBytes (s : SwDataBuf) (blk : Nat) : List UInt8 :=
  s.mem.read (s.bufVirAddr blk) (s.desc blk).dataLen

/-- The blocks of a channel lie one behind the other. -/
structure Geometry (s : SwDataBuf) : Prop where
  descSize_pos : 0 < s.descSize
  startPhyAddr : ∀ i < s.descSize, (s.desc i).startPhyAddr = s.dataPhyAddr + i * dmxMaxSecLen
  bufSize : ∀ i < s.descSize, (s.desc i).bufSize = dmxMaxSecLen
  readPtr_lt : s.readPtr < s.descSize
  writePtr_lt : s.writePtr < s.descSize

theorem Geometry.bufVirAddr {s : SwDataBuf} (h : Geometry s) {i : Nat} (hi : i < s.descSize) :
    s.bufVirAddr i = s.dataVirAddr + i * dmxMaxSecLen := by
  unfold SwDataBuf.bufVirAddr
  rw [h.startPhyAddr i hi]
  omega

/-- Setting the length of a block moves no block. -/
theorem setDataLen_desc (s : SwDataBuf) (blk n i : Nat) :
    ((s.setDataLen blk n).desc i).startPhyAddr = (s.desc i).startPhyAddr ∧
    ((s.setDataLen blk n).desc i).bufSize = (s.desc i).bufSize ∧
    ((s.setDataLen blk n).desc i).dataLen = if i = blk then n else (s.desc i).dataLen := by
  unfold SwDataBuf.setDataLen
  by_cases hi : i = blk
  · subst hi
    simp only [Memory.set_self, if_pos, and_self]
  · simp only [Memory.set_of_ne _ _ hi, if_neg hi, and_self]

theorem setDataLen_bufVirAddr (s : SwDataBuf) (blk n i : Nat) :
    (s.setDataLen blk n).bufVirAddr i = s.bufVirAddr i := by
  unfold SwDataBuf.bufVirAddr
  rw [(setDataLen_desc s blk n i).1]
  rfl

theorem Geometry.setDataLen {s : SwDataBuf} (h : Geometry s) (blk n : Nat) :
    Geometry (s.setDataLen blk n) where
  descSize_pos := h.descSize_pos
  startPhyAddr i hi := by rw [(setDataLen_desc s blk n i).1]; exact h.startPhyAddr i hi
  bufSize i hi := by rw [(setDataLen_desc s blk n i).2.1]; exact h.bufSize i hi
  readPtr_lt := h.readPtr_lt
  writePtr_lt := h.writePtr_lt

/-- The other blocks keep their bytes. -/
theorem setDataLen_blockBytes (s : SwDataBuf) {blk i : Nat} (n : Nat) (hi : i ≠ blk) :
    (s.setDataLen blk n).blockBytes i = s.blockBytes i := by
  unfold SwDataBuf.blockBytes
  rw [setDataLen_bufVirAddr, (setDataLen_desc s blk n i).2.2, if_neg hi]
  rfl

/-- A section as it can be committed: its length is the one in its header. -/
def WellFormed (sec : List UInt8) : Prop :=
  secLen sec = sec.length ∧ sec.length ≤ dmxMaxSecLen

theorem three_le_secLen (data : List UInt8) : 3 ≤ secLen data := Nat.le_add_left 3 _

/-- The state `s` holds the blocks of `a`, and `bytes` behind the committed ones
    of the write block. -/
structure Filled (s : SwDataBuf) (a : Assembler) (bytes : List UInt8) : Prop where
  geometry : Geometry s
  fixed : s.fixed = a.fixed
  count : a.closed.length + a.free + 1 = s.descSize
  writePtr : s.writePtr = (s.readPtr + a.closed.length) % s.descSize
  dataLen_le : ∀ i < s.descSize, (s.desc i).dataLen ≤ dmxMaxSecLen
  closed : ∀ k (hk : k < a.closed.length),
    s.blockBytes ((s.readPtr + k) % s.descSize) = a.closed[k].flatten
  cur : s.blockBytes s.writePtr = a.cur.flatten
  offset : s.writeOffset = s.writeDesc.dataLen + bytes.length
  offset_le : s.writeOffset ≤ dmxMaxSecLen
  bytes : s.mem.read (s.bufVirAddr s.writePtr + s.writeDesc.dataLen) bytes.length = bytes
  log : s.committed = a.log
  wf_closed : ∀ g ∈ a.closed, g ≠ [] ∧ ∀ sec ∈ g, WellFormed sec
  wf_cur : ∀ sec ∈ a.cur, WellFormed sec

namespace Filled

variable {s : SwDataBuf} {a : Assembler} {bytes : List UInt8}

/-- The committed length of the write block. -/
theorem dataLen_eq (h : Filled s a bytes) : s.writeDesc.dataLen = a.cur.flatten.length := by
  have hlen := congrArg List.length h.cur
  rwa [SwDataBuf.blockBytes, Memory.length_read] at hlen

/-- A closed block is not the write block. -/
theorem closed_ne (h : Filled s a bytes) {k : Nat} (hk : k < a.closed.length) :
    (s.readPtr + k) % s.descSize ≠ s.writePtr := by
  rw [h.writePtr]
  have hcount := h.count
  exact wrap_ne hk (by omega)

theorem tempDataLen_eq (h : Filled s a bytes) : s.tempDataLen = bytes.length := by
  unfold SwDataBuf.tempDataLen
  rw [h.offset, Nat.add_sub_cancel_left]

end Filled

/-- Two blocks do not overlap. -/
theorem Geometry.disjoint {s : SwDataBuf} (h : Geometry s) {i j : Nat} (hi : i < s.descSize)
    (hj : j < s.descSize) (hij : i ≠ j) :
    s.bufVirAddr i + dmxMaxSecLen ≤ s.bufVirAddr j ∨
      s.bufVirAddr j + dmxMaxSecLen ≤ s.bufVirAddr i := by
  rw [h.bufVirAddr hi, h.bufVirAddr hj]
  unfold dmxMaxSecLen
  omega

/-- Advancing a pointer by one. -/
theorem dmxInc_eq {a size : Nat} (h : a < size) : dmxInc a size = (a + 1) % size := by
  unfold dmxInc
  rw [wrap_eq (by omega)]
  by_cases hlt : a + 1 < size
  · rw [if_pos hlt, if_neg (by omega)]
  · rw [if_neg hlt, if_pos (by omega)]
    omega

namespace Filled

variable {s : SwDataBuf} {a : Assembler} {bytes : List UInt8}

/-! ## The primitives -/

/-- Copying more bytes of the section in progress. -/
theorem copy (h : Filled s a bytes) (xs : List UInt8)
    (hlen : s.writeOffset + xs.length ≤ dmxMaxSecLen) : Filled (s.copy xs) a (bytes ++ xs) := by
  have hw := h.geometry.writePtr_lt
  have hoff := h.offset
  have hgeom : Geometry (s.copy xs) :=
    ⟨h.geometry.descSize_pos, h.geometry.startPhyAddr, h.geometry.bufSize, h.geometry.readPtr_lt, hw⟩
  refine { geometry := hgeom, fixed := h.fixed, count := h.count, writePtr := h.writePtr,
           dataLen_le := h.dataLen_le, closed := fun k hk => ?_, cur := ?_, offset := ?_,
           offset_le := hlen, bytes := ?_, log := h.log, wf_closed := h.wf_closed,
           wf_cur := h.wf_cur }
  · -- a closed block: other memory
    have hlt : (s.readPtr + k) % s.descSize < s.descSize := Nat.mod_lt _ h.geometry.descSize_pos
    have hdisj := h.geometry.disjoint hlt hw (h.closed_ne hk)
    have hle := h.dataLen_le _ hlt
    rw [← h.closed k hk]
    have hread : (s.mem.write (s.bufVirAddr s.writePtr + s.writeOffset) xs).read
        (s.bufVirAddr ((s.readPtr + k) % s.descSize))
        (s.desc ((s.readPtr + k) % s.descSize)).dataLen =
          s.blockBytes ((s.readPtr + k) % s.descSize) :=
      Memory.read_write_disjoint _ _ (by omega)
    exact hread
  · -- the committed bytes of the write block come before
    rw [← h.cur]
    have hread : (s.mem.write (s.bufVirAddr s.writePtr + s.writeOffset) xs).read
        (s.bufVirAddr s.writePtr) s.writeDesc.dataLen = s.blockBytes s.writePtr :=
      Memory.read_write_disjoint _ _ (by omega)
    exact hread
  · rw [List.length_append, ← Nat.add_assoc]
    show s.writeOffset + xs.length = s.writeDesc.dataLen + bytes.length + xs.length
    rw [hoff]
  · rw [List.length_append, Memory.read_add]
    show (s.mem.write (s.bufVirAddr s.writePtr + s.writeOffset) xs).read
        (s.bufVirAddr s.writePtr + s.writeDesc.dataLen) bytes.length ++
      (s.mem.write (s.bufVirAddr s.writePtr + s.writeOffset) xs).read
        (s.bufVirAddr s.writePtr + s.writeDesc.dataLen + bytes.length) xs.length = bytes ++ xs
    rw [Nat.add_assoc _ _ bytes.length, ← hoff, Memory.read_write_self]
    rw [Memory.read_write_disjoint _ _ (by omega), h.bytes]

/-- Giving up the section in progress. -/
theorem dropTmp (h : Filled s a bytes) : Filled s.dropTmp a [] :=
  { h with
    geometry := { h.geometry with }
    offset := rfl
    offset_le := h.dataLen_le _ h.geometry.writePtr_lt
    bytes := rfl }

/-- The bytes in `tmpDataArry` are kept apart. -/
theorem setTmp (h : Filled s a bytes) (tmp : Memory UInt8) (len : Nat) :
    Filled { s with tmpDataArry := tmp, tmpArryLen := len } a bytes :=
  { h with geometry := { h.geometry with } }

/-- The bytes in progress are those of the channel, not of the assembler. -/
theorem setPending (h : Filled s a bytes) (pending : List UInt8) :
    Filled s { a with pending } bytes :=
  { h with }

/-- Byte `i` in progress. -/
theorem byteAt_eq (h : Filled s a bytes) {i : Nat} (hi : i < bytes.length) :
    s.mem (s.bufVirAddr s.writePtr + s.writeDesc.dataLen + i) = byteAt bytes i := by
  have hget := congrArg (·[i]?) h.bytes
  simp only [Memory.getElem?_read, if_pos hi] at hget
  rw [byteAt, ← hget, Option.getD_some]

/-- The length in the header of the section in progress. -/
theorem secLen_eq (h : Filled s a bytes) (h3 : 3 ≤ bytes.length) :
    secLenOf (s.mem (s.bufVirAddr s.writePtr + s.writeDesc.dataLen + 1))
      (s.mem (s.bufVirAddr s.writePtr + s.writeDesc.dataLen + 2)) = secLen bytes := by
  rw [h.byteAt_eq (by omega), h.byteAt_eq (by omega)]
  rfl

/-- Nothing happens to a section that is not complete. -/
theorem parse_partial (h : Filled s a bytes) (h3 : 3 ≤ bytes.length)
    (hlt : bytes.length < secLen bytes) (cfg : FilterCfg) : swParseTmpData cfg s = s := by
  unfold swParseTmpData
  have htemp := h.tempDataLen_eq
  obtain ⟨fuel, hfuel⟩ : ∃ fuel, s.tempDataLen = fuel + 1 := ⟨s.tempDataLen - 1, by omega⟩
  rw [hfuel, swParseTmpDataLoop]
  simp only
  rw [h.secLen_eq h3, if_neg (by omega)]

/-- A complete section is committed, or dropped when a check fails. -/
theorem parse_whole (h : Filled s a bytes) (hwf : WellFormed bytes) (cfg : FilterCfg) :
    Filled (swParseTmpData cfg s) (a.commit cfg.accepts bytes) [] := by
  obtain ⟨hlen, hle⟩ := hwf
  have h3 := three_le_secLen bytes
  have htemp := h.tempDataLen_eq
  have hoff := h.offset
  have hoff_le := h.offset_le
  have hw := h.geometry.writePtr_lt
  unfold swParseTmpData
  obtain ⟨fuel, hfuel⟩ : ∃ fuel, s.tempDataLen = fuel + 1 := ⟨s.tempDataLen - 1, by omega⟩
  rw [hfuel, swParseTmpDataLoop]
  simp only
  rw [h.secLen_eq (by omega), if_pos (by omega), hlen]
  unfold swTakeSection
  simp only
  rw [h.bytes]
  unfold Assembler.commit
  by_cases haccept : cfg.accepts bytes = true
  · -- committed: `dataLen` catches up with `writeOffset`
    rw [if_pos haccept, if_pos haccept]
    have hu16 : u16 (s.writeDesc.dataLen + bytes.length) = s.writeDesc.dataLen + bytes.length :=
      u16_of_lt (by unfold dmxMaxSecLen at *; omega)
    rw [hu16]
    let s' : SwDataBuf := { s.setDataLen s.writePtr (s.writeDesc.dataLen + bytes.length) with
      committed := s.committed ++ [bytes] }
    have hcur : (s'.desc s.writePtr).dataLen = s.writeDesc.dataLen + bytes.length := by
      refine (setDataLen_desc s s.writePtr _ s.writePtr).2.2.trans ?_
      rw [if_pos rfl]
    have hgeom := h.geometry.setDataLen s.writePtr (s.writeDesc.dataLen + bytes.length)
    have htemp' : s'.tempDataLen = 0 := by
      show s.writeOffset - (s'.desc s.writePtr).dataLen = 0
      rw [hcur]
      omega
    change Filled (if s'.tempDataLen > 3 then swParseTmpDataLoop cfg fuel s' else s') _ []
    rw [htemp', if_neg (by omega)]
    refine { geometry := ⟨hgeom.descSize_pos, hgeom.startPhyAddr, hgeom.bufSize,
               hgeom.readPtr_lt, hgeom.writePtr_lt⟩
             fixed := h.fixed, count := h.count, writePtr := h.writePtr
             dataLen_le := fun i hi => ?_, closed := fun k hk => ?_, cur := ?_, offset := ?_
             offset_le := hoff_le, bytes := rfl, log := ?_, wf_closed := h.wf_closed
             wf_cur := fun sec hsec => ?_ }
    · show ((s.setDataLen s.writePtr _).desc i).dataLen ≤ _
      rw [(setDataLen_desc s s.writePtr _ i).2.2]
      split
      · omega
      · exact h.dataLen_le i hi
    · rw [← h.closed k hk]
      exact setDataLen_blockBytes s _ (h.closed_ne hk)
    · show s.mem.read ((s.setDataLen s.writePtr _).bufVirAddr s.writePtr)
        (s'.desc s.writePtr).dataLen = _
      rw [setDataLen_bufVirAddr, hcur, Memory.read_add, h.bytes, List.flatten_append, ← h.cur]
      simp only [List.flatten_cons, List.flatten_nil, List.append_nil]
      rfl
    · show s.writeOffset = (s'.desc s.writePtr).dataLen + 0
      rw [hcur]
      omega
    · show s.committed ++ [bytes] = a.log ++ [bytes]
      rw [h.log]
    · rcases List.mem_append.mp hsec with hsec | hsec
      · exact h.wf_cur sec hsec
      · rw [List.mem_singleton.mp hsec]
        exact ⟨hlen, hle⟩
  · -- dropped: `writeOffset` falls back to `dataLen`
    rw [if_neg haccept, if_neg haccept, if_neg (show ¬ s.tempDataLen > bytes.length by omega)]
    have hback : s.writeOffset - bytes.length = s.writeDesc.dataLen := by omega
    rw [hback, if_neg (Nat.lt_irrefl _)]
    have hdrop : ({ s with mem := s.mem, writeOffset := s.writeDesc.dataLen } : SwDataBuf) =
        s.dropTmp := rfl
    have htemp' : s.dropTmp.tempDataLen = 0 := Nat.sub_self _
    rw [hdrop, htemp', if_neg (by omega)]
    exact h.dropTmp

/-- A new block is needed when the section does not fit behind the committed
    ones, and there is one when `free` says so. -/
theorem needBlock (h : Filled s a []) {n : Nat} (hn : n ≤ dmxMaxSecLen) :
    (swNeedBlock s n = none ∧ a.reserve n = none) ∨
    ∃ s' a', swNeedBlock s n = some s' ∧ a.reserve n = some a' ∧ Filled s' a' [] ∧
      s'.writeOffset + n ≤ dmxMaxSecLen ∧ s'.tmpDataArry = s.tmpDataArry ∧
      s'.tmpArryLen = s.tmpArryLen := by
  have hw := h.geometry.writePtr_lt
  have hoff : s.writeOffset = s.writeDesc.dataLen := h.offset
  have hle := h.offset_le
  have hdl := h.dataLen_eq
  have hbuf : s.writeDesc.bufSize = dmxMaxSecLen := h.geometry.bufSize _ hw
  have hcount := h.count
  unfold swNeedBlock Assembler.reserve
  rw [hbuf, ← hdl]
  by_cases hfit : s.writeDesc.dataLen + n ≤ dmxMaxSecLen
  · right
    rw [if_neg (by omega), if_pos hfit]
    exact ⟨s, a, rfl, rfl, h, by omega, rfl, rfl⟩
  · rw [if_pos (by omega), if_neg hfit]
    -- the next block is the one behind the `closed.length + 1` in use
    have hnext : dmxInc s.writePtr s.descSize =
        (s.readPtr + (a.closed.length + 1)) % s.descSize := by
      rw [dmxInc_eq hw, h.writePtr, Nat.mod_add_mod, Nat.add_assoc]
    unfold swGetNewBlock
    simp only
    by_cases hfree : a.free = 0
    · left
      have hfull : dmxInc s.writePtr s.descSize = s.readPtr := by
        rw [hnext, show a.closed.length + 1 = s.descSize by omega, Nat.add_mod_right,
          Nat.mod_eq_of_lt h.geometry.readPtr_lt]
      rw [if_pos hfull, if_pos hfree]
      exact ⟨rfl, rfl⟩
    · right
      have hne : dmxInc s.writePtr s.descSize ≠ s.readPtr := by
        have hwrap : (s.readPtr + 0) % s.descSize ≠
            (s.readPtr + (a.closed.length + 1)) % s.descSize := wrap_ne (by omega) (by omega)
        rw [hnext]
        rw [Nat.add_zero, Nat.mod_eq_of_lt h.geometry.readPtr_lt] at hwrap
        exact hwrap.symm
      rw [if_neg hne, if_neg hfree]
      have hnext_lt : dmxInc s.writePtr s.descSize < s.descSize := by
        rw [hnext]; exact Nat.mod_lt _ h.geometry.descSize_pos
      have hold : ∀ k, k ≤ a.closed.length →
          (s.readPtr + k) % s.descSize ≠ dmxInc s.writePtr s.descSize := by
        intro k hk
        rw [hnext]
        exact wrap_ne (by omega) (by omega)
      have hgeom := h.geometry.setDataLen (dmxInc s.writePtr s.descSize) 0
      have hzero : ((s.setDataLen (dmxInc s.writePtr s.descSize) 0).desc
          (dmxInc s.writePtr s.descSize)).dataLen = 0 := by
        rw [(setDataLen_desc s _ _ _).2.2, if_pos rfl]
      refine ⟨_, _, rfl, rfl, ?_, by show 0 + n ≤ _; omega, rfl, rfl⟩
      refine { geometry := ⟨hgeom.descSize_pos, hgeom.startPhyAddr, hgeom.bufSize,
                 hgeom.readPtr_lt, hnext_lt⟩
               fixed := h.fixed, count := ?_, writePtr := ?_
               dataLen_le := fun i hi => ?_, closed := fun k hk => ?_, cur := ?_, offset := ?_
               offset_le := Nat.zero_le _, bytes := rfl, log := h.log
               wf_closed := fun g hg => ?_, wf_cur := fun _ hsec => nomatch hsec }
      · show (a.closed ++ [a.cur]).length + (a.free - 1) + 1 = s.descSize
        rw [List.length_append, List.length_singleton]
        omega
      · show dmxInc s.writePtr s.descSize = (s.readPtr + (a.closed ++ [a.cur]).length) % s.descSize
        rw [List.length_append, List.length_singleton, hnext]
      · show ((s.setDataLen _ 0).desc i).dataLen ≤ _
        rw [(setDataLen_desc s _ _ i).2.2]
        split
        · exact Nat.zero_le _
        · exact h.dataLen_le i hi
      · -- the blocks so far, with the old write block as the last of them
        have hk' : k < a.closed.length + 1 := by
          rwa [List.length_append, List.length_singleton] at hk
        refine (setDataLen_blockBytes s _ (hold k (by omega))).trans ?_
        by_cases hlt : k < a.closed.length
        · rw [List.getElem_append_left hlt]
          exact h.closed k hlt
        · obtain rfl : k = a.closed.length := by omega
          rw [List.getElem_append_right (Nat.le_refl _), ← h.writePtr, h.cur]
          simp only [Nat.sub_self, List.getElem_cons_zero]
      · show s.mem.read _ ((s.setDataLen _ 0).desc (dmxInc s.writePtr s.descSize)).dataLen = []
        rw [hzero, Memory.read_zero]
      · show 0 = ((s.setDataLen _ 0).desc (dmxInc s.writePtr s.descSize)).dataLen + 0
        rw [hzero]
      · rcases List.mem_append.mp hg with hg | hg
        · exact h.wf_closed g hg
        · -- the old write block is not empty: otherwise the section would have fit
          rw [List.mem_singleton.mp hg]
          refine ⟨fun hnil => ?_, h.wf_cur⟩
          rw [hnil] at hdl
          simp only [List.flatten_nil, List.length_nil] at hdl
          omega

end Filled

/-! ## Representation -/

/-- Where the bytes in progress are: less than a header in `tmpDataArry`, or else
    behind the committed bytes of a block with room for the whole section. -/
def Held (s : SwDataBuf) (pending bytes : List UInt8) : Prop :=
  bytes = [] ∧ pending.length ≤ 2 ∧ s.tmpArryLen = pending.length ∧
    s.tmpDataArry.read 0 pending.length = pending ∨
  bytes = pending ∧ 3 ≤ pending.length ∧ s.tmpArryLen = 0 ∧ pending.length < secLen pending ∧
    s.writeDesc.dataLen + secLen pending ≤ dmxMaxSecLen

/-- The state of a channel represents an assembler. -/
structure Rep (s : SwDataBuf) (a : Assembler) : Prop where
  filled : ∃ bytes, Filled s a bytes ∧ Held s a.pending bytes
  head : byteAt a.pending 0 ≠ 0xff

/-- Nothing is in progress. -/
theorem Filled.rep_nil {s : SwDataBuf} {a : Assembler} (h : Filled s a [])
    (htmp : s.tmpArryLen = 0) : Rep s { a with pending := [] } where
  filled := ⟨[], h.setPending [], .inl ⟨rfl, Nat.zero_le _, htmp, rfl⟩⟩
  head := show (0 : UInt8) ≠ 0xff by decide

theorem Filled.rep_clr {s : SwDataBuf} {a : Assembler} {bytes : List UInt8}
    (h : Filled s a bytes) : Rep (swClrTmpData s) { a with pending := [] } :=
  (h.dropTmp.setTmp s.tmpDataArry 0).rep_nil rfl

/-- Committing touches no bytes in progress. -/
theorem swParseTmpData_tmpArryLen (cfg : FilterCfg) (s : SwDataBuf) :
    (swParseTmpData cfg s).tmpArryLen = s.tmpArryLen := by
  have htake : ∀ (s : SwDataBuf) (data n : Nat),
      (swTakeSection cfg s data n).tmpArryLen = s.tmpArryLen := by
    intro s data n
    unfold swTakeSection
    simp only
    split <;> rfl
  have hloop : ∀ (fuel : Nat) (s : SwDataBuf),
      (swParseTmpDataLoop cfg fuel s).tmpArryLen = s.tmpArryLen := by
    intro fuel
    induction fuel with
    | zero => intro s; rfl
    | succ fuel ih =>
      intro s
      unfold swParseTmpDataLoop
      simp only
      split
      · split
        · rw [ih, htake]
        · rw [htake]
      · rfl
  exact hloop _ s

/-! ## Cutting sections -/

theorem byteAt_append_left {xs ys : List UInt8} {i : Nat} (h : i < xs.length) :
    byteAt (xs ++ ys) i = byteAt xs i := by
  unfold byteAt
  rw [List.getElem?_append_left h]

theorem byteAt_append_right {xs ys : List UInt8} {i : Nat} (h : xs.length ≤ i) :
    byteAt (xs ++ ys) i = byteAt ys (i - xs.length) := by
  unfold byteAt
  rw [List.getElem?_append_right h]

/-- The length is in the first three bytes. -/
theorem secLen_append {xs : List UInt8} (h : 3 ≤ xs.length) (ys : List UInt8) :
    secLen (xs ++ ys) = secLen xs := by
  unfold secLen
  rw [byteAt_append_left (by omega), byteAt_append_left (by omega)]

theorem secLen_take {data : List UInt8} {n : Nat} (h3 : 3 ≤ n) (hn : n ≤ data.length) :
    secLen (data.take n) = secLen data := by
  have hlen : (data.take n).length = n := by rw [List.length_take]; omega
  have happ : secLen (data.take n ++ data.drop n) = secLen (data.take n) :=
    secLen_append (by omega) (data.drop n)
  rw [List.take_append_drop] at happ
  exact happ.symm

/-- The section at the head of `data`. -/
theorem wellFormed_take {data : List UInt8} (hlen : secLen data ≤ data.length)
    (hmax : secLen data ≤ dmxMaxSecLen) : WellFormed (data.take (secLen data)) := by
  have hlength : (data.take (secLen data)).length = secLen data := by
    rw [List.length_take]; omega
  exact ⟨by rw [secLen_take (three_le_secLen data) hlen, hlength], by omega⟩

/-- Nothing begins in stuffing. -/
theorem Assembler.take_stuffing (accept : List UInt8 → Bool) (a : Assembler) {data : List UInt8}
    (h : data = [] ∨ byteAt data 0 = 0xff) : a.take accept data = { a with pending := [] } := by
  unfold Assembler.take
  rcases h with rfl | h
  · rfl
  · split
    · rfl
    · rfl

/-- One or two bytes of a header are kept in `tmpDataArry`. -/
theorem Filled.keepTail {s : SwDataBuf} {a : Assembler} (h : Filled s a [])
    (htmp : s.tmpArryLen = 0) {data : List UInt8} (hlen : data.length < 3) :
    Rep (swKeepTail s data) { a with pending := if byteAt data 0 = 0xff then [] else data } := by
  match data, hlen with
  | [], _ => exact h.rep_nil htmp
  | b :: rest, hlen =>
    show Rep (swKeepTail s (b :: rest)) { a with pending := if b = 0xff then [] else b :: rest }
    rw [swKeepTail]
    by_cases hb : b = 0xff
    · rw [if_pos hb, if_pos hb]
      exact h.rep_clr
    · rw [if_neg hb, if_neg hb]
      have hread : (if rest.length = 1 then (s.tmpDataArry.set 0 b).set 1 (byteAt rest 0)
          else s.tmpDataArry.set 0 b).read 0 (rest.length + 1) = b :: rest := by
        match rest, hlen with
        | [], _ => rfl
        | [b'], _ => rfl
      exact {
        filled := ⟨[], (h.setTmp _ _).setPending _, .inl ⟨rfl, Nat.le_of_lt_succ hlen, rfl, hread⟩⟩
        head := hb }

/-- The loops cut the same sections as the assembler. -/
theorem Filled.insertLoop (cfg : FilterCfg) (clr : Bool) (fuel : Nat) {s : SwDataBuf}
    {a : Assembler} {data : List UInt8} (h : Filled s a []) (htmp : s.tmpArryLen = 0)
    (hfuel : data.length ≤ fuel) :
    Rep (swFinish (swInsertLoop cfg clr fuel s data)).1 (a.take cfg.accepts data) := by
  induction fuel generalizing s a data with
  | zero =>
    have hnil : data = [] := List.eq_nil_of_length_eq_zero (Nat.le_zero.mp hfuel)
    subst hnil
    rw [a.take_stuffing cfg.accepts (.inl rfl)]
    exact h.rep_nil htmp
  | succ fuel ih =>
    unfold swInsertLoop Assembler.take
    by_cases hshort : data.length < 3
    · rw [if_pos hshort, dif_pos hshort]
      exact h.keepTail htmp hshort
    rw [if_neg hshort, dif_neg hshort]
    by_cases hff : byteAt data 0 = 0xff
    · rw [if_pos hff, if_pos hff]
      exact h.rep_clr
    rw [if_neg hff, if_neg hff]
    by_cases hmax : secLen data > dmxMaxSecLen
    · rw [if_pos hmax, if_pos hmax]
      exact h.rep_clr
    rw [if_neg hmax, if_neg hmax]
    have h3 := three_le_secLen data
    rcases h.needBlock (n := secLen data) (by omega) with
      ⟨hs, ha⟩ | ⟨s', a', hs, ha, h', hroom, -, htmp'⟩
    · -- no free block
      rw [hs, ha]
      cases clr
      · exact h.rep_nil htmp
      · exact h.rep_clr
    · rw [hs, ha]
      simp only
      by_cases hwhole : secLen data ≤ data.length
      · -- a whole section: commit it and go on behind it
        rw [if_pos hwhole, if_pos hwhole]
        have hlen : (data.take (secLen data)).length = secLen data := by
          rw [List.length_take]; omega
        have hcopy := h'.copy (data.take (secLen data)) (by omega)
        rw [List.nil_append] at hcopy
        have hparse := hcopy.parse_whole (wellFormed_take hwhole (by omega)) cfg
        refine ih hparse ?_ (by rw [List.length_drop]; omega)
        rw [swParseTmpData_tmpArryLen]
        exact htmp'.trans htmp
      · -- the head of a section
        rw [if_neg hwhole, if_neg hwhole]
        have hcopy := h'.copy data (by omega)
        rw [List.nil_append] at hcopy
        have hoff : s'.writeOffset = s'.writeDesc.dataLen := h'.offset
        exact {
          filled := ⟨data, hcopy.setPending data, .inr ⟨rfl, by simp only; omega,
            htmp'.trans htmp, by simp only; omega, by
              show s'.writeDesc.dataLen + secLen data ≤ _
              omega⟩⟩
          head := hff }

/-! ## One call -/

/-- The rest of a section of which the bytes `p` are in the write block: the
    assembler sees `p` and the new data as one. -/
theorem Filled.insertRest (cfg : FilterCfg) {s : SwDataBuf} {a : Assembler} {p data : List UInt8}
    (h : Filled s a p) (htmp : s.tmpArryLen = 0) (hp : 0 < p.length) (hhead : byteAt p 0 ≠ 0xff)
    (h3 : 3 ≤ p.length + data.length) (hlt : p.length < secLen (p ++ data))
    (hmax : secLen (p ++ data) ≤ dmxMaxSecLen)
    (hfit : s.writeDesc.dataLen + secLen (p ++ data) ≤ dmxMaxSecLen) :
    Rep (swInsertRest cfg s (secLen (p ++ data)) data).1
      (if secLen (p ++ data) ≤ (p ++ data).length then
        (a.commit cfg.accepts ((p ++ data).take (secLen (p ++ data)))).take cfg.accepts
          ((p ++ data).drop (secLen (p ++ data)))
      else { a with pending := p ++ data }) := by
  have htemp := h.tempDataLen_eq
  have hoff := h.offset
  have hbuf : s.writeDesc.bufSize = dmxMaxSecLen := h.geometry.bufSize _ h.geometry.writePtr_lt
  have happ : (p ++ data).length = p.length + data.length := List.length_append
  unfold swInsertRest
  simp only [htemp, hbuf]
  rw [if_neg (show ¬ p.length > secLen (p ++ data) by omega),
    if_neg (show ¬ dmxMaxSecLen - s.writeOffset < secLen (p ++ data) - p.length by omega)]
  by_cases hshort : data.length < secLen (p ++ data) - p.length
  · -- still in progress
    rw [if_pos hshort, if_neg (show ¬ secLen (p ++ data) ≤ (p ++ data).length by omega)]
    exact {
      filled := ⟨p ++ data, (h.copy data (by omega)).setPending _,
        .inr ⟨rfl, by simp only; omega, htmp, by simp only; omega, hfit⟩⟩
      head := by
        show byteAt (p ++ data) 0 ≠ 0xff
        rw [byteAt_append_left hp]
        exact hhead }
  · -- complete: `need` bytes go to the section, the others come after it
    rw [if_neg hshort, if_pos (show secLen (p ++ data) ≤ (p ++ data).length by omega)]
    have hneed : (p ++ data).take (secLen (p ++ data)) =
        p ++ data.take (secLen (p ++ data) - p.length) := by
      rw [List.take_append, List.take_of_length_le (by omega)]
    have hrest : (p ++ data).drop (secLen (p ++ data)) =
        data.drop (secLen (p ++ data) - p.length) := by
      rw [List.drop_append, List.drop_of_length_le (by omega), List.nil_append]
    have hwf : WellFormed ((p ++ data).take (secLen (p ++ data))) := wellFormed_take (by omega) hmax
    have hcopy := h.copy (data.take (secLen (p ++ data) - p.length))
      (by rw [List.length_take]; omega)
    rw [hneed] at hwf ⊢
    have hparse := hcopy.parse_whole hwf cfg
    have htmp' : (swParseTmpData cfg (s.copy (data.take (secLen (p ++ data) - p.length)))).tmpArryLen
        = 0 := by
      rw [swParseTmpData_tmpArryLen]
      exact htmp
    rw [hrest]
    by_cases hmore : data.length > secLen (p ++ data) - p.length ∧
        byteAt data (secLen (p ++ data) - p.length) ≠ 0xff
    · rw [if_pos hmore]
      exact hparse.dropTmp.insertLoop cfg false _ htmp' (Nat.le_refl _)
    · rw [if_neg hmore, Assembler.take_stuffing]
      · exact hparse.rep_nil htmp'
      · -- nothing is left, or it begins with stuffing
        by_cases hlen : data.length ≤ secLen (p ++ data) - p.length
        · exact .inl (List.drop_of_length_le hlen)
        · right
          have hff := not_not.mp (not_and.mp hmore (by omega))
          unfold byteAt at hff ⊢
          rwa [List.getElem?_drop, Nat.add_zero]

/-- The first three bytes, split between what is in progress and what comes. -/
theorem secLen_of_two {p data : List UInt8} (h : p.length = 2) :
    secLen (p ++ data) = secLenOf (byteAt p 1) (byteAt data 0) := by
  unfold secLen
  rw [byteAt_append_left (by omega), byteAt_append_right (by omega), h]

theorem secLen_of_one {p data : List UInt8} (h : p.length = 1) :
    secLen (p ++ data) = secLenOf (byteAt data 0) (byteAt data 1) := by
  unfold secLen
  rw [byteAt_append_right (by omega), byteAt_append_right (by omega), h]

/-- What the assembler does with a section that is long enough to have a header
    and whose first byte is not stuffing. -/
theorem Assembler.take_header (accept : List UInt8 → Bool) (a : Assembler) {data : List UInt8}
    (h3 : 3 ≤ data.length) (hff : byteAt data 0 ≠ 0xff) :
    a.take accept data =
      if secLen data > dmxMaxSecLen then { a with pending := [] }
      else
        match a.reserve (secLen data) with
        | none => { a with pending := [] }
        | some a' =>
          if secLen data ≤ data.length then
            (a'.commit accept (data.take (secLen data))).take accept (data.drop (secLen data))
          else { a' with pending := data } := by
  rw [Assembler.take, dif_neg (by omega), if_neg hff]

/-- `tmpDataArry` holds the bytes in progress. -/
theorem byteAt_of_read {m : Memory UInt8} {p : List UInt8} (h : m.read 0 p.length = p) {i : Nat}
    (hi : i < p.length) : m i = byteAt p i := by
  have hget := congrArg (·[i]?) h
  simp only [Memory.getElem?_read, if_pos hi, Nat.zero_add] at hget
  rw [byteAt, ← hget, Option.getD_some]

/-- Data that continues a section of which less than a header has arrived. -/
private theorem Rep.insertTmp (cfg : FilterCfg) {s : SwDataBuf} {a : Assembler}
    {data : List UInt8} (h : Filled s a []) (hhead : byteAt a.pending 0 ≠ 0xff)
    (hp : 0 < a.pending.length) (hle : a.pending.length ≤ 2) (hdata : 0 < data.length)
    (hlen : s.tmpArryLen = a.pending.length)
    (hread : s.tmpDataArry.read 0 a.pending.length = a.pending) :
    Rep (swInsertCont cfg s data).1
      ({ a with pending := [] }.take cfg.accepts (a.pending ++ data)) := by
  have happ : (a.pending ++ data).length = a.pending.length + data.length := List.length_append
  have hff : byteAt (a.pending ++ data) 0 ≠ 0xff := by
    rw [byteAt_append_left hp]
    exact hhead
  have htemp : s.tempDataLen = 0 := h.tempDataLen_eq
  unfold swInsertCont
  rw [if_pos htemp, if_neg (show ¬ s.tmpArryLen = 0 by omega)]
  simp only [hlen]
  by_cases hshort : a.pending.length + data.length ≥ 3
  · rw [if_pos hshort, Assembler.take_header _ _ (by omega) hff]
    -- the length is read across the seam
    have hn : (if a.pending.length = 2 then secLenOf (s.tmpDataArry 1) (byteAt data 0)
        else secLenOf (byteAt data 0) (byteAt data 1)) = secLen (a.pending ++ data) := by
      by_cases htwo : a.pending.length = 2
      · rw [if_pos htwo, secLen_of_two htwo, byteAt_of_read hread (by omega)]
      · rw [if_neg htwo, secLen_of_one (by omega)]
    simp only [hn]
    by_cases hmax : secLen (a.pending ++ data) > dmxMaxSecLen
    · rw [if_pos hmax, if_pos hmax]
      exact h.rep_clr
    rw [if_neg hmax, if_neg hmax]
    have hdrop := (h.dropTmp).setPending []
    have h3 := three_le_secLen (a.pending ++ data)
    rcases hdrop.needBlock (n := secLen (a.pending ++ data)) (by omega) with
      ⟨hs, ha⟩ | ⟨s', a', hs, ha, h', hroom, harry, htmp'⟩
    · rw [hs, ha]
      exact h.dropTmp.rep_clr
    · rw [hs, ha]
      simp only
      have hlen' : s'.tmpArryLen = a.pending.length := htmp'.trans hlen
      have hread' : s'.tmpDataArry.read 0 s'.tmpArryLen = a.pending := by
        rw [hlen', harry]
        exact hread
      rw [hread']
      have hcopy := h'.copy a.pending (by omega)
      rw [List.nil_append] at hcopy
      have hoff : s'.writeOffset = s'.writeDesc.dataLen := h'.offset
      exact (hcopy.setTmp s'.tmpDataArry 0).insertRest cfg rfl hp hhead (by omega) (by omega)
        (by omega) (show s'.writeDesc.dataLen + _ ≤ _ by omega)
  · -- two bytes together: still less than a header
    rw [if_neg hshort, Assembler.take, dif_pos (by omega), if_neg hff]
    obtain ⟨b, hb⟩ : ∃ b, a.pending = [b] := List.length_eq_one_iff.mp (by omega)
    obtain ⟨b', hb'⟩ : ∃ b', data = [b'] := List.length_eq_one_iff.mp (by omega)
    have hzero := byteAt_of_read hread hp
    rw [hb] at hzero hff ⊢
    rw [hb'] at hff ⊢
    have hread' : (s.tmpDataArry.set 1 b').read 0 2 = [b, b'] := by
      show [s.tmpDataArry 0, b'] = [b, b']
      rw [hzero]
      rfl
    exact {
      filled := ⟨[], (h.setTmp _ _).setPending _, .inl ⟨rfl, Nat.le_refl 2, rfl, hread'⟩⟩
      head := hff }

/-- `DMX_SwInsertTmpData` refines the assembler, for any data in any state. -/
theorem Rep.insert (cfg : FilterCfg) {s : SwDataBuf} {a : Assembler} (h : Rep s a)
    (data : List UInt8) (pusi : Bool) :
    Rep (swInsertTmpData cfg s data pusi).1 (a.insert cfg.accepts data pusi) := by
  obtain ⟨bytes, hfilled, hheld⟩ := h.filled
  unfold swInsertTmpData Assembler.insert
  by_cases hdata : data.length = 0
  · rw [if_pos hdata, if_pos hdata]
    exact h
  rw [if_neg hdata, if_neg hdata]
  cases pusi with
  | true =>
    -- what was in progress is given up
    simp only [if_true]
    have hparse : (if s.tempDataLen = 0 then s else swParseTmpData cfg s) = s := by
      by_cases htemp : s.tempDataLen = 0
      · rw [if_pos htemp]
      · rw [if_neg htemp]
        have htempLen := hfilled.tempDataLen_eq
        rcases hheld with ⟨rfl, -⟩ | ⟨rfl, h3, -, hlt, -⟩
        · exact absurd htempLen htemp
        · exact hfilled.parse_partial h3 hlt cfg
    rw [hparse]
    have hclr := (hfilled.dropTmp.setTmp s.tmpDataArry 0).setPending []
    exact hclr.insertLoop cfg true _ rfl (Nat.le_refl _)
  | false =>
    simp only [Bool.false_eq_true, if_false]
    rcases hheld with ⟨rfl, hle, hlen, hread⟩ | ⟨rfl, h3, htmp, hlt, hfit⟩
    · by_cases hp : a.pending.length = 0
      · -- nothing in progress: the data is dropped
        rw [if_pos hp]
        have htemp : s.tempDataLen = 0 := hfilled.tempDataLen_eq
        unfold swInsertCont
        rw [if_pos htemp, if_pos (hlen.trans hp)]
        exact h
      · rw [if_neg hp]
        exact Rep.insertTmp cfg hfilled h.head (by omega) hle (by omega) hlen hread
    · -- the section is in the write block, with room for all of it
      rw [if_neg (show ¬ a.pending.length = 0 by omega)]
      have happ : (a.pending ++ data).length = a.pending.length + data.length :=
        List.length_append
      have hsec : secLen (a.pending ++ data) = secLen a.pending := secLen_append h3 data
      have hff : byteAt (a.pending ++ data) 0 ≠ 0xff := by
        rw [byteAt_append_left (by omega)]
        exact h.head
      have hreserve : { a with pending := [] }.reserve (secLen (a.pending ++ data)) =
          some { a with pending := [] } := by
        unfold Assembler.reserve
        rw [if_pos]
        rw [hsec, ← hfilled.dataLen_eq]
        exact hfit
      rw [Assembler.take_header _ _ (by omega) hff, if_neg (by omega), hreserve]
      unfold swInsertCont
      rw [if_neg (show ¬ s.tempDataLen = 0 by rw [hfilled.tempDataLen_eq]; omega)]
      simp only
      rw [hfilled.secLen_eq h3, ← hsec]
      exact (hfilled.setPending []).insertRest cfg htmp (by omega) h.head (by omega) (by omega)
        (by omega) (by omega)

/-! ## TS packets -/

/-- What `DMX_SwParseTsPacket` inserts. -/
def tsInserts (ts : TsPacket) : List (List UInt8 × Bool) :=
  match swGetTsHeaderLen ts with
  | none => []
  | some headerLen =>
    if headerLen ≥ dmxTsPacketLen then []
    else if byteAt ts.bytes 1 &&& 0x40 ≠ 0 then
      let pointer := (byteAt ts.bytes headerLen).toNat
      if pointer > dmxTsPacketLen - headerLen - 1 then []
      else [((ts.bytes.drop (headerLen + 1)).take pointer, false),
        (ts.bytes.drop (headerLen + pointer + 1), true)]
    else [(ts.bytes.drop headerLen, false)]

/-- One packet. -/
def Assembler.packet (accept : List UInt8 → Bool) (a : Assembler) (ts : TsPacket) : Assembler :=
  (tsInserts ts).foldl (fun a d => a.insert accept d.1 d.2) a

/-! ## What does not depend on the past -/

namespace Assembler

/-- The same contents in another channel, behind the log `log`. -/
def rebase (log : List (List UInt8)) (fixed : Fixed) (a : Assembler) : Assembler :=
  { a with log := log ++ a.log, fixed }

variable (log : List (List UInt8)) (fixed : Fixed) (accept : List UInt8 → Bool)

theorem reserve_rebase (a : Assembler) (n : Nat) :
    (a.rebase log fixed).reserve n = (a.reserve n).map (rebase log fixed) := by
  unfold reserve rebase
  simp only
  split
  · rfl
  · split <;> rfl

theorem commit_rebase (a : Assembler) (sec : List UInt8) :
    (a.rebase log fixed).commit accept sec = (a.commit accept sec).rebase log fixed := by
  unfold commit rebase
  split
  · simp only [List.append_assoc]
  · rfl

/-- What is cut off depends neither on the log nor on the fixed parts. -/
theorem take_rebase (a : Assembler) (data : List UInt8) :
    (a.rebase log fixed).take accept data = (a.take accept data).rebase log fixed := by
  -- the induction follows the sections that are cut off
  induction a, data using Assembler.take.induct accept with
  | case1 a data h => rw [take, dif_pos h, take, dif_pos h]; rfl
  | case2 a data h hff => rw [take, dif_neg h, if_pos hff, take, dif_neg h, if_pos hff]; rfl
  | case3 a data h hff hmax =>
    rw [take, dif_neg h, if_neg hff, if_pos hmax, take, dif_neg h, if_neg hff, if_pos hmax]
    rfl
  | case4 a data h hff hmax hnone =>
    rw [take, dif_neg h, if_neg hff, if_neg hmax, reserve_rebase, take, dif_neg h, if_neg hff,
      if_neg hmax, hnone]
    rfl
  | case5 a data h hff hmax a' hsome hle ih =>
    rw [take, dif_neg h, if_neg hff, if_neg hmax, reserve_rebase, take, dif_neg h, if_neg hff,
      if_neg hmax, hsome]
    simp only [Option.map_some]
    rw [if_pos hle, if_pos hle, commit_rebase, ih]
  | case6 a data h hff hmax a' hsome hle =>
    rw [take, dif_neg h, if_neg hff, if_neg hmax, reserve_rebase, take, dif_neg h, if_neg hff,
      if_neg hmax, hsome]
    simp only [Option.map_some]
    rw [if_neg hle, if_neg hle]
    rfl

theorem insert_rebase (a : Assembler) (data : List UInt8) (pusi : Bool) :
    (a.rebase log fixed).insert accept data pusi = (a.insert accept data pusi).rebase log fixed := by
  unfold insert
  split
  · rfl
  · split
    · exact take_rebase log fixed accept { a with pending := [] } data
    · show (if a.pending.length = 0 then _ else _) = _
      split
      · rfl
      · exact take_rebase log fixed accept { a with pending := [] } (a.pending ++ data)

theorem packet_rebase (a : Assembler) (ts : TsPacket) :
    (a.rebase log fixed).packet accept ts = (a.packet accept ts).rebase log fixed := by
  unfold packet
  induction tsInserts ts generalizing a with
  | nil => rfl
  | cons d ds ih => rw [List.foldl_cons, List.foldl_cons, insert_rebase, ih]

/-- A packet touches no fixed part. -/
theorem packet_fixed (a : Assembler) (ts : TsPacket) : (a.packet accept ts).fixed = a.fixed := by
  have hself : a.rebase [] a.fixed = a := rfl
  rw [← hself, packet_rebase]
  rfl

end Assembler

/-- `DMX_SwParseTsPacket` refines the assembler. -/
theorem Rep.packet (cfg : FilterCfg) {s : SwDataBuf} {a : Assembler} (h : Rep s a)
    (ts : TsPacket) : Rep (swParseTsPacket cfg s ts).1 (a.packet cfg.accepts ts) := by
  unfold swParseTsPacket Assembler.packet tsInserts
  cases swGetTsHeaderLen ts with
  | none => exact h
  | some headerLen =>
    simp only
    split
    · exact h
    · split
      · split
        · exact h
        · -- the part before the pointer, then the part behind it
          refine Rep.insert cfg ?_ _ true
          by_cases hzero : (byteAt ts.bytes headerLen).toNat = 0
          · rw [if_pos hzero, hzero, List.take_zero]
            exact h
          · rw [if_neg hzero]
            exact h.insert cfg _ false
      · exact h.insert cfg _ false

/-- The same for packets in order. -/
theorem Rep.packets (cfg : FilterCfg) {s : SwDataBuf} {a : Assembler} (h : Rep s a)
    (pkts : List TsPacket) :
    Rep (pkts.foldl (fun s ts => (swParseTsPacket cfg s ts).1) s)
      (pkts.foldl (Assembler.packet cfg.accepts) a) := by
  induction pkts generalizing s a with
  | nil => exact h
  | cons ts pkts ih => exact ih (h.packet cfg ts)

/-! ## Channels that hold nothing -/

/-- An assembler that holds nothing but the bytes `pending`. -/
def Assembler.empty (fixed : Fixed) (pending : List UInt8) (log : List (List UInt8)) :
    Assembler where
  closed := []
  cur := []
  free := fixed.descSize - 1
  pending
  log
  fixed

/-- All blocks are free when both pointers are at the first one and it is empty. -/
theorem Geometry.filled_empty {s : SwDataBuf} (h : Geometry s) (hread : s.readPtr = 0)
    (hwrite : s.writePtr = 0) (hlen : (s.desc 0).dataLen = 0) (hoff : s.writeOffset = 0)
    (hle : ∀ i < s.descSize, (s.desc i).dataLen ≤ dmxMaxSecLen) (pending : List UInt8) :
    Filled s (.empty s.fixed pending s.committed) [] := by
  have hpos := h.descSize_pos
  have hdesc : s.writeDesc.dataLen = 0 := by
    unfold SwDataBuf.writeDesc
    rw [hwrite, hlen]
  -- no block is closed, and nothing stands in the one that is written
  exact {
    geometry := h
    fixed := rfl
    count := by
      show 0 + (s.descSize - 1) + 1 = s.descSize
      omega
    writePtr := by
      show s.writePtr = (s.readPtr + 0) % s.descSize
      rw [hread, hwrite, Nat.zero_mod]
    dataLen_le := hle
    closed := fun _ hk => nomatch hk
    cur := by
      unfold SwDataBuf.blockBytes
      rw [hwrite, hlen]
      rfl
    offset := by rw [hdesc, hoff]; rfl
    offset_le := by rw [hoff]; exact Nat.zero_le _
    bytes := rfl
    log := rfl
    wf_closed := fun _ hg => nomatch hg
    wf_cur := fun _ hsec => nomatch hsec }

theorem swBlockNum_pos (chanBufSize : Nat) : 0 < swBlockNum chanBufSize := by
  unfold swBlockNum swChanBufSize dmxSwChnbufMinlen dmxSwChnbufMaxlen dmxMaxSecLen
  split
  · decide
  · split <;> omega

theorem geometry_new (mem : Memory UInt8) (chanBufSize : Nat) (buf : MmzBuffer) :
    Geometry (.new mem chanBufSize buf) where
  descSize_pos := swBlockNum_pos chanBufSize
  startPhyAddr i hi := by
    have hlt : i < swBlockNum chanBufSize := hi
    simp only [SwDataBuf.new, if_pos hlt]
  bufSize i hi := by
    have hlt : i < swBlockNum chanBufSize := hi
    simp only [SwDataBuf.new, if_pos hlt]
  readPtr_lt := swBlockNum_pos chanBufSize
  writePtr_lt := swBlockNum_pos chanBufSize

theorem dataLen_new (mem : Memory UInt8) (chanBufSize : Nat) (buf : MmzBuffer) (i : Nat) :
    ((SwDataBuf.new mem chanBufSize buf).desc i).dataLen = 0 := by
  unfold SwDataBuf.new
  simp only
  split <;> rfl

/-- A channel that has just been created holds nothing. -/
theorem rep_new (mem : Memory UInt8) (chanBufSize : Nat) (buf : MmzBuffer) :
    Rep (.new mem chanBufSize buf) (.empty (SwDataBuf.new mem chanBufSize buf).fixed [] []) := by
  have hlen := dataLen_new mem chanBufSize buf
  have hfilled := (geometry_new mem chanBufSize buf).filled_empty rfl rfl (hlen 0) rfl
    (fun i _ => by rw [hlen i]; exact Nat.zero_le _) []
  exact hfilled.rep_nil rfl

end Tntsat.DemuxSw
