import Tntsat.Native.DemuxSw

/-!
# Software section channels: life cycle, reading and releasing

`msp/drv/demux/drv_demux_sw.c` and `GetSectionLength` of `drv_demux_func.c`.
`procesPtr` and `procesOffset` say up to where the sections have been read, and
`readPtr` is the first block that is not released.

Starting and stopping the thread, the hardware channel behind a software channel
and the statistics of `DMX_ChanInfo_S` are not modelled.
-/

namespace Tntsat.DemuxSw

/-- `MT_UNF_DMX_CHAN_TYPE_E`. -/
inductive ChanType
  | sec
  | pes
  | aud
  | vid
  | post
  | ecmEmm
  | hwPes
  | record
  | audAd
  | dss
deriving DecidableEq

/-- `DMX_SW_CHNBUF_MINLEN`. -/
def dmxSwChnbufMinlen : Nat := 32 * 1024

/-- `DMX_SW_CHNBUF_MAXLEN`. -/
def dmxSwChnbufMaxlen : Nat := 2 * 1024 * 1024

/-- `DMX_SW_INVALID_CC`. -/
def dmxSwInvalidCc : Nat := 0xff

/-- `DMX_SW_OVERFL_PERCENT`. -/
def dmxSwOverflPercent : Nat := 5

/-- `mmz_buffer_s`, as `MT_DRV_MMZ_AllocAndMap` fills it: the mapping is not null. -/
structure MmzBuffer where
  startPhyAddr : Nat
  startVirAddr : Nat
  startVirAddr_pos : 0 < startVirAddr

/-- `ST_SW_ChnInfor`. -/
structure SwChn where
  usedFlag : Bool
  runFlag : Bool
  cc : Nat
  dataBuf : SwDataBuf

/-! ## Life cycle -/

/-- `memset` of `stDataBuf`. -/
def SwDataBuf.zero (mem : Memory UInt8) : SwDataBuf where
  dataPhyAddr := 0
  dataVirAddr := 0
  desc := fun _ => {}
  descSize := 0
  readPtr := 0
  writePtr := 0
  procesPtr := 0
  procesOffset := 0
  writeOffset := 0
  tmpDataArry := fun _ => 0
  tmpArryLen := 0
  mem

/-- `ChanBufSize` as `MT_DMX_SwNewChannel` limits it. -/
def swChanBufSize (chanBufSize : Nat) : Nat :=
  if chanBufSize < dmxSwChnbufMinlen then dmxSwChnbufMinlen
  else if chanBufSize > dmxSwChnbufMaxlen then dmxSwChnbufMaxlen
  else chanBufSize

/-- `u32BlockNum` of `MT_DMX_SwNewChannel`. -/
def swBlockNum (chanBufSize : Nat) : Nat := swChanBufSize chanBufSize / dmxMaxSecLen

/-- The data buffer of a channel that has just been created. -/
def SwDataBuf.new (mem : Memory UInt8) (chanBufSize : Nat) (buf : MmzBuffer) : SwDataBuf :=
  { SwDataBuf.zero mem with
    dataPhyAddr := buf.startPhyAddr
    dataVirAddr := buf.startVirAddr
    desc := fun i =>
      if i < swBlockNum chanBufSize then
        { startPhyAddr := buf.startPhyAddr + i * dmxMaxSecLen, bufSize := dmxMaxSecLen, dataLen := 0 }
      else {}
    descSize := swBlockNum chanBufSize }

/-- `MT_DMX_SwNewChannel`; `buf` is what the allocation of the data buffer returns,
    and `dscOk` whether there is memory for the descriptors. -/
def swNewChannel (chn : SwChn) (chanType : ChanType) (chanBufSize : Nat) (buf : Option MmzBuffer)
    (dscOk : Bool) : SwChn × Bool :=
  if chanType ≠ .sec ∧ chanType ≠ .ecmEmm then (chn, false)
  else
    match buf with
    | some buf =>
      if dscOk then
        ({ chn with
            dataBuf := .new chn.dataBuf.mem chanBufSize buf
            cc := dmxSwInvalidCc
            usedFlag := true }, true)
      else ({ chn with dataBuf := .zero chn.dataBuf.mem }, false)
    | none => ({ chn with dataBuf := .zero chn.dataBuf.mem }, false)

/-- `DMX_SwResetChannel`. -/
def swResetChannel (s : SwDataBuf) : SwDataBuf :=
  { s.setDataLen 0 0 with
    readPtr := 0
    writePtr := 0
    writeOffset := 0
    procesPtr := 0
    procesOffset := 0 }

/-- `MT_DMX_SwOpenChannel`. -/
def swOpenChannel (chn : SwChn) : SwChn × Bool :=
  if !chn.usedFlag then (chn, false)
  else if chn.runFlag then (chn, true)
  else ({ chn with runFlag := true }, true)

/-- `MT_DMX_SwCloseChannel`. -/
def swCloseChannel (chn : SwChn) : SwChn × Bool :=
  if !chn.usedFlag then (chn, false)
  else if !chn.runFlag then (chn, true)
  else ({ chn with runFlag := false, dataBuf := swResetChannel chn.dataBuf }, true)

/-! ## Feeding -/

/-- `DMX_SwCheckTsPacket`; a jump of the continuity counter does not matter. -/
def swCheckTsPacket (chn : SwChn) (ts : TsPacket) : SwChn × Bool :=
  if byteAt ts.bytes 0 ≠ 0x47 then (chn, false)
  else ({ chn with cc := (byteAt ts.bytes 3 &&& 0x0f).toNat }, true)

/-- `DMX_SwCheckIfChnOvfl`. -/
def swCheckIfChnOvfl (s : SwDataBuf) : Bool :=
  let usedSize := if s.writePtr ≥ s.readPtr then s.writePtr - s.readPtr
    else s.descSize - s.readPtr + s.writePtr
  s.descSize - usedSize < s.descSize * dmxSwOverflPercent / 100

/-- What `MT_DMX_SWExtractthread` does with one packet of a channel. -/
def swExtract (cfg : FilterCfg) (chn : SwChn) (ts : TsPacket) : SwChn :=
  if chn.usedFlag && chn.runFlag then
    let (chn', ok) := swCheckTsPacket chn ts
    if ok && !swCheckIfChnOvfl chn'.dataBuf then
      { chn' with dataBuf := (swParseTsPacket cfg chn'.dataBuf ts).1 }
    else chn'
  else chn

/-! ## Reading -/

/-- `DMX_UserMsg_S`. -/
structure UserMsg where
  bufStartAddr : Nat
  msgLen : Nat

/-- The loop in `DMXCheckBuffer`: every round takes three bytes or more. -/
def dmxCheckBuffer (m : Memory UInt8) (bufStartAddr bufLen : Nat) : Nat → Nat → Nat → Bool
  | 0, _, _ => true
  | fuel + 1, offset, bufLenTmp =>
    if bufLenTmp > 3 then
      let addr := bufStartAddr + offset
      if bufLen < offset then false
      else
        let n := secLenOf (m (addr + 1)) (m (addr + 2))
        if n > bufLenTmp ∨ n > dmxMaxSecLen then false
        else dmxCheckBuffer m bufStartAddr bufLen fuel (offset + n) (bufLenTmp - n)
    else true

/-- `GetSectionLength`. -/
def getSectionLength (m : Memory UInt8) (bufStartAddr bufLen offset : Nat) : Nat :=
  if bufStartAddr = 0 then 0
  else if bufLen = 0 then 0
  else if offset ≥ bufLen then 0
  else if !dmxCheckBuffer m bufStartAddr bufLen (bufLen - offset) offset (bufLen - offset) then 0
  else if bufLen ≥ 3 then
    let n := secLenOf (m (bufStartAddr + offset + 1)) (m (bufStartAddr + offset + 2))
    if bufLen - offset < n then 0 else n
  else 0

/-- The loop in `DMXSwParseSection` over the sections of block `blk`; the messages
    so far are `msgs`. -/
def swParseSectionLoop (s : SwDataBuf) (blk bufLen acqNum : Nat) :
    Nat → List UserMsg → Nat → List UserMsg × Nat
  | 0, msgs, offset => (msgs, offset)
  | fuel + 1, msgs, offset =>
    if msgs.length < acqNum then
      let n := getSectionLength s.mem (s.bufVirAddr blk) bufLen offset
      if n = 0 ∨ n > dmxMaxSecLen then (msgs, bufLen)
      else
        let msgs := msgs ++ [{ bufStartAddr := (s.desc blk).startPhyAddr + offset, msgLen := n }]
        if offset + n ≥ bufLen then (msgs, offset + n)
        else swParseSectionLoop s blk bufLen acqNum fuel msgs (offset + n)
    else (msgs, offset)

/-- `DMXSwParseSection`. -/
def swParseSection (s : SwDataBuf) (blk acqNum : Nat) (msgs : List UserMsg) (offset : Nat) :
    List UserMsg × Nat × Bool :=
  let bufLen := (s.desc blk).dataLen
  if offset ≥ bufLen then (msgs, offset, false)
  else
    let r := swParseSectionLoop s blk bufLen acqNum (acqNum - msgs.length) msgs offset
    (r.1, r.2, r.1.length ≠ msgs.length)

/-- The loop in `DMX_SwReadDataRequset` over the blocks before the write block. -/
def swReadLoop (acqNum : Nat) :
    Nat → SwDataBuf → Nat → Nat → List UserMsg → SwDataBuf × Nat × Nat × List UserMsg
  | 0, s, procsBlk, offset, msgs => (s, procsBlk, offset, msgs)
  | fuel + 1, s, procsBlk, offset, msgs =>
    if procsBlk ≠ s.writePtr then
      let dataLen := (s.desc procsBlk).dataLen
      if offset ≥ dataLen then
        let procsBlk := dmxInc procsBlk s.descSize
        swReadLoop acqNum fuel { s with procesPtr := procsBlk, procesOffset := 0 } procsBlk 0 msgs
      else
        let (msgs, offset, ok) := swParseSection s procsBlk acqNum msgs offset
        if offset ≥ dataLen then swReadLoop acqNum fuel s procsBlk offset msgs
        else if !ok || msgs.length ≥ acqNum then (s, procsBlk, offset, msgs)
        else swReadLoop acqNum fuel s (dmxInc procsBlk s.descSize) 0 msgs
    else (s, procsBlk, offset, msgs)

/-- `DMX_SwReadDataRequset` on a channel in use; no message stands for
    `MT_ERR_DMX_NOAVAILABLE_DATA`.  A block takes two rounds of the loop at most. -/
def swReadDataRequset (s : SwDataBuf) (acqNum : Nat) : SwDataBuf × List UserMsg :=
  let (s, procsBlk, offset, msgs) :=
    swReadLoop acqNum (2 * s.descSize + 2) s s.procesPtr s.procesOffset []
  if msgs.length > 0 then ({ s with procesPtr := procsBlk, procesOffset := offset }, msgs)
  else if s.writePtr = s.procesPtr then
    let dataLen := s.writeDesc.dataLen
    if dataLen > s.procesOffset then
      let (msgs, offset, _) := swParseSection s s.writePtr acqNum [] s.procesOffset
      if msgs.length > 0 then ({ s with procesOffset := offset }, msgs)
      else if offset ≥ dataLen then ({ s with procesOffset := offset }, [])
      else (s, [])
    else (s, [])
  else (s, [])

/-! ## Releasing -/

/-- What `MT_DMX_SwReleaseReadData` does when `u32RealseFlag` is set. -/
def swReleaseBlock (s : SwDataBuf) : SwDataBuf :=
  let s' := s.setDataLen s.readPtr 0
  let s'' := if s'.procesPtr = s'.readPtr then
      { s' with procesPtr := dmxInc s'.procesPtr s'.descSize, procesOffset := 0 }
    else s'
  { s'' with readPtr := dmxInc s''.readPtr s''.descSize }

/-- The loops of `MT_DMX_SwReleaseReadData`: a message ends the read block, is in
    its middle, or is in the block behind it. -/
def swReleaseLoop : Nat → SwDataBuf → List UserMsg → SwDataBuf × Bool
  | fuel + 1, s, msg :: msgs =>
    if s.readPtr ≠ s.writePtr then
      let cur := s.desc s.readPtr
      let next := s.desc (dmxInc s.readPtr s.descSize)
      if msg.bufStartAddr ≥ cur.startPhyAddr ∧ msg.bufStartAddr ≤ cur.startPhyAddr + cur.dataLen then
        if msg.bufStartAddr + msg.msgLen ≥ cur.startPhyAddr + cur.dataLen then
          swReleaseLoop fuel (swReleaseBlock s) msgs
        else swReleaseLoop fuel s msgs
      else if msg.bufStartAddr ≥ next.startPhyAddr ∧
          msg.bufStartAddr ≤ next.startPhyAddr + next.dataLen then
        swReleaseLoop fuel (swReleaseBlock s) (msg :: msgs)
      else (s, false)
    else (s, true)
  | _, s, _ => (s, true)

/-- `MT_DMX_SwReleaseReadData` on a channel in use: a round of the loops takes a
    message or releases a block. -/
def swReleaseReadData (s : SwDataBuf) (msgs : List UserMsg) : SwDataBuf × Bool :=
  swReleaseLoop (msgs.length + s.descSize) s msgs

end Tntsat.DemuxSw
