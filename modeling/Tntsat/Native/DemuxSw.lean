import Tntsat.ForStd.CInt
import Tntsat.ForStd.Machine
import Tntsat.ForStd.Ring
import Tntsat.Native.DemuxSwFilter

/-!
# Software section channels

`msp/drv/demux/drv_demux_sw.c`.  TS packets of a channel are taken apart and
their sections put together again in blocks of `DMX_MAX_SEC_LEN` bytes: the
sections of a block up to `dataLen` are committed, what lies between `dataLen`
and `writeOffset` of the write block is a section in progress, and a section of
which less than its three header bytes has arrived waits in `tmpDataArry`.

Memory is indexed by virtual address.  `committed` records what was committed
since the channel was created; no function reads it.  Locks and the thread that
feeds the channel are not modelled.
-/

namespace Tntsat.DemuxSw

/-- `DMX_MAX_SEC_LEN`. -/
def dmxMaxSecLen : Nat := 0x1000

/-- `DMX_TS_PACKET_LEN`. -/
def dmxTsPacketLen : Nat := 188

/-- `st_SW_DESC`. -/
structure SwDesc where
  startPhyAddr : Nat := 0
  bufSize : Nat := 0
  dataLen : Nat := 0

/-- `st_SW_DataBuf` with the memory behind it; `dataPhyAddr` and `dataVirAddr` are
    the two addresses of `dataBuf`. -/
structure SwDataBuf where
  dataPhyAddr : Nat
  dataVirAddr : Nat
  desc : Memory SwDesc
  descSize : Nat
  readPtr : Nat
  writePtr : Nat
  procesPtr : Nat
  procesOffset : Nat
  writeOffset : Nat
  tmpDataArry : Memory UInt8
  tmpArryLen : Nat
  mem : Memory UInt8
  committed : List (List UInt8) := []

/-- `DMXINC`. -/
def dmxInc (a size : Nat) : Nat := if a + 1 ≥ size then 0 else a + 1

/-- The length of a section by bytes 1 and 2 of its header. -/
def secLenOf (b1 b2 : UInt8) : Nat := ((b1 &&& 0x0f).toNat <<< 8) + b2.toNat + 3

/-- The length of the section at the head of `data`. -/
def secLen (data : List UInt8) : Nat := secLenOf (byteAt data 1) (byteAt data 2)

namespace SwDataBuf

/-- `pstWriteDesc`. -/
def writeDesc (s : SwDataBuf) : SwDesc := s.desc s.writePtr

/-- The virtual address of a block. -/
def bufVirAddr (s : SwDataBuf) (blk : Nat) : Nat :=
  (s.desc blk).startPhyAddr - s.dataPhyAddr + s.dataVirAddr

/-- `desc[blk].u16DataLen = n`. -/
def setDataLen (s : SwDataBuf) (blk n : Nat) : SwDataBuf :=
  { s with desc := s.desc.set blk { s.desc blk with dataLen := n } }

/-- `u32TempDataLen`: the bytes of the section in progress. -/
def tempDataLen (s : SwDataBuf) : Nat := s.writeOffset - s.writeDesc.dataLen

/-- `memcpy` to `u32WriteOffset` of the write block. -/
def copy (s : SwDataBuf) (data : List UInt8) : SwDataBuf :=
  { s with
    mem := s.mem.write (s.bufVirAddr s.writePtr + s.writeOffset) data
    writeOffset := s.writeOffset + data.length }

/-- `u32WriteOffset = u16DataLen`. -/
def dropTmp (s : SwDataBuf) : SwDataBuf := { s with writeOffset := s.writeDesc.dataLen }

end SwDataBuf

/-- `DMX_SwGetNewBlock`. -/
def swGetNewBlock (s : SwDataBuf) : Option SwDataBuf :=
  let writePtr := dmxInc s.writePtr s.descSize
  if writePtr = s.readPtr then none
  else some { s.setDataLen writePtr 0 with writePtr, writeOffset := 0 }

/-- One round of the loop in `DMX_SwParseTmpData` over a whole section of `n`
    bytes: it is committed, or dropped when a check fails. -/
def swTakeSection (cfg : FilterCfg) (s : SwDataBuf) (data n : Nat) : SwDataBuf :=
  let sec := s.mem.read data n
  if cfg.accepts sec then
    { s.setDataLen s.writePtr (u16 (s.writeDesc.dataLen + n)) with
      committed := s.committed ++ [sec] }
  else
    let mem := if s.tempDataLen > n then s.mem.write data (s.mem.read (data + n) (s.tempDataLen - n))
      else s.mem
    let writeOffset := s.writeOffset - n
    { s with
      mem
      writeOffset := if writeOffset < s.writeDesc.dataLen then s.writeDesc.dataLen else writeOffset }

/-- The loop in `DMX_SwParseTmpData`; every round but the last takes three bytes
    or more. -/
def swParseTmpDataLoop (cfg : FilterCfg) : Nat → SwDataBuf → SwDataBuf
  | 0, s => s
  | fuel + 1, s =>
    let data := s.bufVirAddr s.writePtr + s.writeDesc.dataLen
    let n := secLenOf (s.mem (data + 1)) (s.mem (data + 2))
    if s.tempDataLen ≥ n then
      let s := swTakeSection cfg s data n
      if s.tempDataLen > 3 then swParseTmpDataLoop cfg fuel s else s
    else s

/-- `DMX_SwParseTmpData`. -/
def swParseTmpData (cfg : FilterCfg) (s : SwDataBuf) : SwDataBuf :=
  swParseTmpDataLoop cfg s.tempDataLen s

/-- `DMX_SwClrTmpData`. -/
def swClrTmpData (s : SwDataBuf) : SwDataBuf := { s.dropTmp with tmpArryLen := 0 }

/-- Room for a section of `n` bytes behind `u32WriteOffset`, in a new block if
    need be. -/
def swNeedBlock (s : SwDataBuf) (n : Nat) : Option SwDataBuf :=
  if s.writeDesc.bufSize - s.writeOffset < n then swGetNewBlock s else some s

/-- The two loops of `DMX_SwInsertTmpData` over the sections that begin in
    `data`.  They differ in what happens when there is no free block: the one for
    a unit start clears the section in progress (`clr`). -/
def swInsertLoop (cfg : FilterCfg) (clr : Bool) :
    Nat → SwDataBuf → List UInt8 → SwDataBuf × List UInt8 × Bool
  | 0, s, data => (s, data, true)
  | fuel + 1, s, data =>
    if data.length < 3 then (s, data, true)
    else if byteAt data 0 = 0xff then (swClrTmpData s, [], true)
    else if secLen data > dmxMaxSecLen then (swClrTmpData s, data, false)
    else
      match swNeedBlock s (secLen data) with
      | none => (if clr then swClrTmpData s else s, data, false)
      | some s' =>
        if data.length ≥ secLen data then
          swInsertLoop cfg clr fuel (swParseTmpData cfg (s'.copy (data.take (secLen data))))
            (data.drop (secLen data))
        else (s'.copy data, [], true)

/-- What follows both loops: one or two bytes of a header are kept. -/
def swKeepTail (s : SwDataBuf) : List UInt8 → SwDataBuf
  | [] => s
  | b :: rest =>
    if b = 0xff then swClrTmpData s
    else
      let tmp := s.tmpDataArry.set 0 b
      { s with
        tmpDataArry := if rest.length = 1 then tmp.set 1 (byteAt rest 0) else tmp
        tmpArryLen := rest.length + 1 }

/-- The end of both loops: an error returns at once. -/
def swFinish : SwDataBuf × List UInt8 × Bool → SwDataBuf × Bool
  | (s, rest, true) => (swKeepTail s rest, true)
  | (s, _, false) => (s, false)

/-- The sections that begin in `data`. -/
def swInsertSections (cfg : FilterCfg) (clr : Bool) (s : SwDataBuf) (data : List UInt8) :
    SwDataBuf × Bool := swFinish (swInsertLoop cfg clr data.length s data)

/-- `DMX_SwInsertTmpData` on the rest of a section of `n` bytes that is in
    progress in the write block. -/
def swInsertRest (cfg : FilterCfg) (s : SwDataBuf) (n : Nat) (data : List UInt8) :
    SwDataBuf × Bool :=
  if s.tempDataLen > n then (s, false)
  else
    let need := n - s.tempDataLen
    if s.writeDesc.bufSize - s.writeOffset < need then (s, false)
    else if data.length < need then (s.copy data, true)
    else
      let s' := swParseTmpData cfg (s.copy (data.take need))
      if data.length > need ∧ byteAt data need ≠ 0xff then
        swInsertSections cfg false s'.dropTmp (data.drop need)
      else (s', true)

/-- `DMX_SwInsertTmpData` without a unit start. -/
def swInsertCont (cfg : FilterCfg) (s : SwDataBuf) (data : List UInt8) : SwDataBuf × Bool :=
  if s.tempDataLen = 0 then
    if s.tmpArryLen = 0 then (s, true)
    else if s.tmpArryLen + data.length ≥ 3 then
      let n := if s.tmpArryLen = 2 then secLenOf (s.tmpDataArry 1) (byteAt data 0)
        else secLenOf (byteAt data 0) (byteAt data 1)
      if n > dmxMaxSecLen then (swClrTmpData s, false)
      else
        match swNeedBlock s.dropTmp n with
        | none => (swClrTmpData s.dropTmp, false)
        | some s' =>
          let s'' := s'.copy (s'.tmpDataArry.read 0 s'.tmpArryLen)
          swInsertRest cfg { s'' with tmpArryLen := 0 } n data
    else
      ({ s with tmpDataArry := s.tmpDataArry.set 1 (byteAt data 0), tmpArryLen := 2 }, true)
  else
    let addr := s.bufVirAddr s.writePtr + s.writeDesc.dataLen
    swInsertRest cfg s (secLenOf (s.mem (addr + 1)) (s.mem (addr + 2))) data

/-- `DMX_SwInsertTmpData`. -/
def swInsertTmpData (cfg : FilterCfg) (s : SwDataBuf) (data : List UInt8) (pusi : Bool) :
    SwDataBuf × Bool :=
  if data.length = 0 then (s, true)
  else if pusi then
    let s' := if s.tempDataLen = 0 then s else swParseTmpData cfg s
    swInsertSections cfg true { s'.dropTmp with tmpArryLen := 0 } data
  else swInsertCont cfg s data

/-! ## TS packets -/

/-- `TS_PACKET`. -/
structure TsPacket where
  bytes : List UInt8
  length_eq : bytes.length = dmxTsPacketLen

/-- `DMX_SwGetTsHeaderLen`. -/
def swGetTsHeaderLen (ts : TsPacket) : Option Nat :=
  let control := (byteAt ts.bytes 3 >>> 4) &&& 0x3
  if control = 1 then some 4
  else if control = 2 then some dmxTsPacketLen
  else if control = 3 then some ((byteAt ts.bytes 4).toNat + 4 + 1)
  else none

/-- `DMX_SwParseTsPacket`. -/
def swParseTsPacket (cfg : FilterCfg) (s : SwDataBuf) (ts : TsPacket) : SwDataBuf × Bool :=
  match swGetTsHeaderLen ts with
  | none => (s, false)
  | some headerLen =>
    if headerLen ≥ dmxTsPacketLen then (s, true)
    else if byteAt ts.bytes 1 &&& 0x40 ≠ 0 then
      let pointer := (byteAt ts.bytes headerLen).toNat
      if pointer > dmxTsPacketLen - headerLen - 1 then (s, false)
      else
        let s' := if pointer = 0 then s
          else (swInsertTmpData cfg s ((ts.bytes.drop (headerLen + 1)).take pointer) false).1
        ((swInsertTmpData cfg s' (ts.bytes.drop (headerLen + pointer + 1)) true).1, true)
    else ((swInsertTmpData cfg s (ts.bytes.drop headerLen) false).1, true)

end Tntsat.DemuxSw
