import Mathlib.Data.FinEnum
import Tntsat.Native.Cc708
import Tntsat.ForStd.CheckedLoop

/-!
# The accesses of the CEA-708 decoder

`_DtvCC_ParsePicUsrData` and `CC708_DEC_ProcessServicefifo` with the reads of the given string and
the writes to the buffers of the decoder.  A read outside of the string, a write outside of an
array and a loop that does not end within its rounds are `none`.  The offset into the string has
8 bits.  What is drawn is left out.
-/

namespace Tntsat.Cc708.Checked

/-- A write that has to meet a condition. -/
def within (inside : Prop) [Decidable inside] (o : Obj) : Option Obj :=
  if inside then some o else none

/-- A position in a block or in a packet, with the bytes that are left. -/
structure Cursor where
  p : List UInt8
  left : Nat
  obj : Obj

/-! ## The coding layer -/

/-- `stCaptionBuf.u16Buf[stCaptionBuf.u8BufLen++] = u16Caption`. -/
def store (o : Obj) (u16Caption : UInt16) : Option Obj :=
  within (o.stCaptionBuf.length < CAPTION_BUF_SIZE) (o.store u16Caption)

/-- A command decoder, which may put a character into the caption buffer. -/
def callDecoder (t : Ksc5601) (pfn : Option Decoder) (pu8Cmd : List UInt8) (o : Obj) : Option Obj :=
  let o := (Cc708.callDecoder t pfn pu8Cmd o).1
  within (o.stCaptionBuf.length ≤ CAPTION_BUF_SIZE) o

/-- `n` bytes of `src` are copied to `au8CMD + off`. -/
def cmdMemcpy (off : Nat) (src : List UInt8) (n : Nat) (o : Obj) : Option Obj :=
  within (off + n ≤ 8) { o with stCMDBuffer := o.stCMDBuffer.memcpy off (src.take n) }

/-- A round of the loop of `_DtvCC_ParseServiceBlock`. -/
def parseCmd (t : Ksc5601) (s : Cursor) : Option Cursor :=
  let u8ServiceData := get8 s.p 0
  if IsCmd u8ServiceData then
    let o := (drawCaption u8ServiceData s.obj).1
    let u8CmdLen := cmdLen s.p s.left
    if s.left < u8CmdLen then
      let buf := { o.stCMDBuffer with u8TotalSize := .ofNat u8CmdLen, u8CurSize := .ofNat s.left }
      (cmdMemcpy 0 s.p s.left { o with stCMDBuffer := buf }).map fun o =>
        { s with left := 0, obj := o }
    else
      (callDecoder t (cmdMap u8ServiceData).pfnCmdDecoder s.p o).map fun o =>
        ⟨s.p.drop u8CmdLen, s.left - u8CmdLen, o⟩
  else
    (store s.obj (if u8ServiceData = 0x7f then 0x266a else u8ServiceData.toUInt16)).map fun o =>
      ⟨s.p.drop 1, s.left - 1, o⟩

/-- No bytes are left. -/
def Cursor.done (s : Cursor) : Bool := s.left = 0

/-- The loop of `_DtvCC_ParseServiceBlock`. -/
def parseCmds (t : Ksc5601) (s : Cursor) : Option Obj :=
  (whileLoop (parseCmd t) Cursor.done s.left s).map Cursor.obj

/-- `_DtvCC_ParseServiceBlock`. -/
def parseServiceBlock (t : Ksc5601) (pu8Buf : List UInt8) (u8BufLen : Nat) (o : Obj) : Option Obj :=
  if u8BufLen = 0 then some o
  else
    let buf := o.stCMDBuffer
    if buf.u8CurSize < buf.u8TotalSize then
      let missing := buf.u8TotalSize.toNat - buf.u8CurSize.toNat
      if missing ≤ u8BufLen then do
        let o ← cmdMemcpy buf.u8CurSize.toNat pu8Buf missing o
        let map := cmdMap (get8 pu8Buf 0)
        let o ← callDecoder t map.pfnCmdDecoder o.stCMDBuffer.au8CMD o
        parseCmds t
          ⟨pu8Buf.drop map.u8CMDLen, u8BufLen - map.u8CMDLen, { o with stCMDBuffer := {} }⟩
      else
        (cmdMemcpy buf.u8CurSize.toNat pu8Buf u8BufLen o).map fun o =>
          { o with
            stCMDBuffer :=
              { o.stCMDBuffer with u8CurSize := o.stCMDBuffer.u8CurSize + .ofNat u8BufLen } }
    else
      let buf := { buf with au8CMD := List.replicate 8 0, u8CurSize := 0 }
      parseCmds t ⟨pu8Buf, u8BufLen, { o with stCMDBuffer := buf }⟩

/-- A round of `CC708_DEC_ProcessServicefifo`, which has an element to parse. -/
def processRound (t : Ksc5601) (o : Obj) : Option Obj :=
  o.stServiceQueue.get.bind fun stSvsElement =>
    (parseServiceBlock t (o.au8ServiceData stSvsElement.pu8Buffer) stSvsElement.u8ServiceLen o).map
      fun o => { o with stServiceQueue := o.stServiceQueue.remove }

/-- `CC708_DEC_ProcessServicefifo` has nothing to do. -/
def processDone (o : Obj) : Bool := o.u8IsDelay || o.stServiceQueue.Tail = o.stServiceQueue.Head

/-- `CC708_DEC_ProcessServicefifo`. -/
def processServicefifo (t : Ksc5601) (o : Obj) : Option Obj :=
  whileLoop (processRound t) processDone o.stServiceQueue.getItemNum o

/-! ## Packets -/

/-- `_DtvCC_PutServiceDataToFIFO` behind the search for a command. -/
def insertServiceData (block : List UInt8) (o : Obj) : Option Obj :=
  within (o.stServiceQueue.Head < SERVICE_QUEUE_SIZE ∧ block.length ≤ 32)
    (Cc708.insertServiceData block o)

/-- `_DtvCC_PutServiceDataToFIFO` on the first bytes of `u8Data`, which are moved behind a Reset. -/
def putServiceDataToFIFO (block : List UInt8) (o : Obj) : Option Obj :=
  let found := detectRstDcCmd block
  if found.2 = C1_RST then
    (within (block.length ≤ 32) { o with u8IsDelay := false, delayTimer := none }.osdReset).bind
      (insertServiceData (block.drop (found.1 + 1)))
  else if found.2 = C1_DLC then
    insertServiceData block { o with u8IsDelay := false, delayTimer := none }
  else
    insertServiceData block o

/-- `n` bytes at `p` are copied to `u8Data + u8CurSize`. -/
def blockMemcpy (p : List UInt8) (n : Nat) (o : Obj) : Option Obj :=
  within (o.stServiceBlock.u8CurSize + n ≤ 32)
    { o with
      stServiceBlock :=
        { o.stServiceBlock with
          u8Data := memcpy o.stServiceBlock.u8Data o.stServiceBlock.u8CurSize (p.take n) } }

/-- A header of a service block. -/
def parseHeader (s : Cursor) : Cursor :=
  let o := s.obj
  let u8ServiceSize := (get8 s.p 0 &&& 0x1f).toNat
  let u8ServiceNo := (get8 s.p 0 >>> 5).toNat
  let extended := u8ServiceNo = 7 ∧ u8ServiceSize ≠ 0
  let u8ServiceNo := if extended then (get8 s.p 1 &&& 0x3f).toNat else u8ServiceNo
  let u8HeaderSize := if extended then 2 else 1
  if u8ServiceNo = 0 ∨ u8ServiceSize = 0 then
    ⟨s.p.drop u8HeaderSize, s.left - u8HeaderSize, o⟩
  else if o.stPacket.u8TotalSize < o.stServiceBlock.u8CurSize + u8HeaderSize + u8ServiceSize then
    { s with left := 0, obj := o.decReset }
  else
    ⟨s.p.drop u8HeaderSize, s.left - u8HeaderSize,
      { o with
        stServiceBlock := { o.stServiceBlock with u8ServiceNo, u8ServiceSize, u8CurSize := 0 }
        bServiceBlockEnded := false }⟩

/-- The service block goes on in the next packet. -/
def keepBlock (s : Cursor) : Option Cursor := do
  let o ← blockMemcpy s.p s.left s.obj
  let block := { o.stServiceBlock with u8CurSize := o.stServiceBlock.u8CurSize + s.left }
  let o := { o with stServiceBlock := block }
  let data := block.u8Data.take block.u8CurSize
  if checkSvcBlockDataIntegrality data ≠ block.u8CurSize then
    some { s with left := 0, obj := o }
  else
    (putServiceDataToFIFO data o).map fun o =>
      let block := o.stServiceBlock
      { s with
        left := 0
        obj :=
          { o with
            stServiceBlock :=
              { block with
                u8ServiceSize := block.u8ServiceSize - block.u8CurSize
                u8CurSize := 0 } } }

/-- The service block is whole. -/
def endBlock (missing : Nat) (s : Cursor) : Option Cursor := do
  let o ← blockMemcpy s.p missing s.obj
  let o ← putServiceDataToFIFO (o.stServiceBlock.u8Data.take o.stServiceBlock.u8ServiceSize) o
  let block := { u8Data := o.stServiceBlock.u8Data }
  some ⟨s.p.drop missing, s.left - missing,
    { o with stServiceBlock := block, bServiceBlockEnded := true }⟩

/-- A round of `_DtvCC_ParsePacketData`. -/
def packetRound (s : Cursor) : Option Cursor :=
  let o := s.obj
  let block := o.stServiceBlock
  let missing := block.u8ServiceSize - block.u8CurSize
  if o.bServiceBlockEnded then
    some (parseHeader s)
  else if block.u8ServiceNo = o.u32ServiceType ∧ o.u8IsStart then
    if s.left < missing then keepBlock s else endBlock missing s
  else if s.left < missing then
    let block := { block with u8CurSize := block.u8CurSize + s.left }
    some { s with left := 0, obj := { o with stServiceBlock := block } }
  else
    let block := { u8Data := block.u8Data }
    some ⟨s.p.drop missing, s.left - missing,
      { o with stServiceBlock := block, bServiceBlockEnded := true }⟩

/-- `_DtvCC_ParsePacket` and `_DtvCC_ParsePacketData`.  A round takes a byte or ends a block. -/
def parsePacket (pu8PacketBuf : List UInt8) (u8PacketLen : Nat) (o : Obj) : Option Obj :=
  (whileLoop packetRound Cursor.done (2 * u8PacketLen)
    ⟨pu8PacketBuf.drop 1, u8PacketLen - 1, o⟩).map Cursor.obj

/-- `_DtvCC_EndPacket`. -/
def endPacket (o : Obj) : Option Obj :=
  (parsePacket o.stPacket.au8PacketData o.stPacket.u8CurSize o).map fun o =>
    let packet := o.stPacket
    if packet.u8CurSize = packet.u8TotalSize then
      { o with stPacket := {}, stServiceBlock := {} }
    else
      { o with
        stPacket :=
          { packet with u8TotalSize := packet.u8TotalSize - packet.u8CurSize, u8CurSize := 0 } }

/-! ## Triplets -/

/-- Where `_DtvCC_ParsePicUsrData` stands in its string. -/
structure Reader where
  u8offset : UInt8
  /-- `MT_FAILURE` is returned -/
  failed : Bool := false
  obj : Obj

/-- A byte of the string. -/
def load (pu8CCPicData : List UInt8) (u8offset : UInt8) : Option UInt8 :=
  pu8CCPicData[u8offset.toNat]?

/-- A byte of the string is put into the packet. -/
def takeByte (pu8CCPicData : List UInt8) (r : Reader) : Option Reader :=
  (load pu8CCPicData r.u8offset).bind fun b =>
    (within (r.obj.stPacket.u8CurSize < MAX_DTVCC_PACKET_LEN) (r.obj.storePacket b)).map fun o =>
      { r with u8offset := r.u8offset + 1, obj := o }

/-- `_DtvCC_EndPacket` once the packet is full. -/
def endIfFull (o : Obj) : Option Obj :=
  if 0 < o.stPacket.u8CurSize ∧ o.stPacket.u8CurSize = o.stPacket.u8TotalSize then endPacket o
  else some o

/-- The packet before a flag `PACKET_START_FLAG` is ended. -/
def endLast (o : Obj) : Option Obj :=
  if 0 < o.stPacket.u8CurSize then endPacket o else some o

/-- The header of a packet. -/
def beginPacket (header : UInt8) (o : Obj) : Obj :=
  let o := { o with stPacket := { o.stPacket with u8SeqenceNo := (header &&& 0xc0) >>> 6 } }
  let o := checkPacketSequenceNo o
  { o with stPacket := { o.stPacket with u8TotalSize := packetSize header } }

/-- The first two bytes of a packet. -/
def takeTwo (pu8CCPicData : List UInt8) (r : Reader) : Option Reader := do
  let r ← takeByte pu8CCPicData r
  let r ← takeByte pu8CCPicData r
  let packet := { r.obj.stPacket with bStart := true }
  (endIfFull { r.obj with stPacket := packet }).map fun o => { r with obj := o }

/-- A flag `PACKET_START_FLAG`. -/
def startPacket (pu8CCPicData : List UInt8) (r : Reader) : Option Reader :=
  (endLast r.obj).bind fun o =>
    (load pu8CCPicData r.u8offset).bind fun header =>
      let o := beginPacket header o
      if MAX_DTVCC_PACKET_LEN < o.stPacket.u8CurSize + 2 ∨
          pu8CCPicData.length ≤ r.u8offset.toNat + 1 then
        some { r with failed := true, obj := o }
      else
        takeTwo pu8CCPicData { r with obj := o }

/-- The loop of a flag `PACKET_DATA_FLAG`, which takes as many bytes at most. -/
def takeData (pu8CCPicData : List UInt8) : Nat → Reader → Option Reader
  | 0, r => some r
  | u8LoopTimes + 1, r =>
    if r.obj.stPacket.u8CurSize < r.obj.stPacket.u8TotalSize then
      (takeByte pu8CCPicData r).bind fun r =>
        let packet := r.obj.stPacket
        if 0 < packet.u8CurSize ∧ packet.u8CurSize = packet.u8TotalSize then
          (endPacket r.obj).map fun o => { r with obj := o }
        else
          takeData pu8CCPicData u8LoopTimes r
    else
      some r

/-- A flag `PACKET_END_FLAG1` or `PACKET_END_FLAG2`. -/
def padPacket (o : Obj) : Option Obj :=
  if 0 < o.stPacket.u8CurSize ∧ o.stPacket.u8TotalSize ≤ o.stPacket.u8CurSize then endPacket o
  else some o

/-- A round of `_DtvCC_ParsePicUsrData`. -/
def picRound (pu8CCPicData : List UInt8) (r : Reader) : Option Reader :=
  (load pu8CCPicData r.u8offset).bind fun u8CCFlag =>
    let r := { r with u8offset := r.u8offset + 1 }
    if u8CCFlag = PACKET_START_FLAG then startPacket pu8CCPicData r
    else if u8CCFlag = PACKET_DATA_FLAG then
      if r.obj.stPacket.bStart then takeData pu8CCPicData 2 r else some r
    else if u8CCFlag = PACKET_END_FLAG1 ∨ u8CCFlag = PACKET_END_FLAG2 then
      (padPacket r.obj).map fun o => { r with obj := o }
    else
      some { r with u8offset := r.u8offset + 2 }

/-- `_DtvCC_ParsePicUsrData` returns. -/
def picDone (pu8CCPicData : List UInt8) (r : Reader) : Bool :=
  r.failed || pu8CCPicData.length ≤ r.u8offset.toNat

/-- `_DtvCC_ParsePicUsrData`.  A round takes its flag, so that only a loop whose offset wraps has
more than 255 of them. -/
def parsePicUsrData (pu8CCPicData : List UInt8) (o : Obj) : Option Obj :=
  (whileLoop (picRound pu8CCPicData) (picDone pu8CCPicData) 255 { u8offset := 0, obj := o }).map
    Reader.obj

end Tntsat.Cc708.Checked
