import Tntsat.Native.Cc708Cmd

/-!
# The CEA-708 decoder

The layers of `kware/cc/src/708/cc708/src/cc708_dec.c`: triplets (`_DtvCC_ParsePicUsrData`),
caption channel packets, service blocks, the service queue and the coding layer, with the
reset paths of `cc708.c` and the queue of `common/src/cc_queue.c`.

The windows on the screen are not part of the state.  A decoder that only works on them is
an event, and so are the captions that are drawn.
-/

namespace Tntsat.Cc708

/-- `INVALID_SERVICE_NUM` is `none`. -/
abbrev SeqenceNo := Option UInt8

/-- `CAPTION_BUF_SIZE`. -/
def CAPTION_BUF_SIZE : Nat := 64

/-- `SERVICE_QUEUE_SIZE`. -/
def SERVICE_QUEUE_SIZE : Nat := 128

/-- `MAX_DTVCC_PACKET_LEN`. -/
def MAX_DTVCC_PACKET_LEN : Nat := 128

/-- `memcpy` of `src` to `dst + off`. -/
def memcpy (dst : List UInt8) (off : Nat) (src : List UInt8) : List UInt8 :=
  dst.take off ++ src ++ dst.drop (off + src.length)

/-! ## The queue -/

/-- `TRI_QUEUE`. -/
structure TriQueue (α : Type) where
  Head : Nat := 0
  Tail : Nat := 0
  Size : Nat
  Element : Nat → α

namespace TriQueue

variable {α : Type}

/-- `CCQueue_Insert`: `none` when the queue is full. -/
def insert (queue : TriQueue α) (element : α) : Option (TriQueue α) :=
  if (queue.Head + 1) % queue.Size = queue.Tail then none
  else some
    { queue with
      Element := fun n => if n = queue.Head then element else queue.Element n
      Head := (queue.Head + 1) % queue.Size }

/-- `CCQueue_Get`. -/
def get (queue : TriQueue α) : Option α :=
  if queue.Tail = queue.Head then none else some (queue.Element queue.Tail)

/-- `CCQueue_Remove`. -/
def remove (queue : TriQueue α) : TriQueue α :=
  if queue.Tail = queue.Head then queue
  else { queue with Tail := (queue.Tail + 1) % queue.Size }

/-- `CCQueue_Flush`. -/
def flush (queue : TriQueue α) : TriQueue α := { queue with Head := 0, Tail := 0 }

/-- `CCQueue_GetItemNum`. -/
def getItemNum (queue : TriQueue α) : Nat :=
  if queue.Tail ≤ queue.Head then queue.Head - queue.Tail
  else queue.Size + queue.Head - queue.Tail

end TriQueue

/-! ## The object -/

/-- `DTVCC_ServiceElement_S`.  A buffer is known by its index in `au8ServiceData`. -/
structure ServiceElement where
  pu8Buffer : Nat := 0
  u8ServiceLen : Nat := 0
deriving DecidableEq

/-- `DTVCC_CMDBuffer_S`. -/
structure CMDBuffer where
  au8CMD : List UInt8 := List.replicate 8 0
  u8TotalSize : UInt8 := 0
  u8CurSize : UInt8 := 0
deriving DecidableEq

/-- `memcpy` to `au8CMD + off`.  The bytes behind the eighth go to `u8TotalSize` and
    `u8CurSize`, those behind them to the screen definition. -/
def CMDBuffer.memcpy (buf : CMDBuffer) (off : Nat) (src : List UInt8) : CMDBuffer :=
  let mem := Cc708.memcpy (buf.au8CMD ++ [buf.u8TotalSize, buf.u8CurSize]) off src
  { au8CMD := mem.take 8, u8TotalSize := get8 mem 8, u8CurSize := get8 mem 9 }

/-- `DTVCC_Packet_S`. -/
structure Packet where
  u8SeqenceNo : UInt8 := 0
  u8TotalSize : Nat := 0
  u8CurSize : Nat := 0
  au8PacketData : List UInt8 := List.replicate 128 0
  bStart : Bool := false
deriving DecidableEq

/-- `DTVCC_ServiceBlock_S`. -/
structure ServiceBlock where
  u8ServiceNo : Nat := 0
  u8ServiceSize : Nat := 0
  u8CurSize : Nat := 0
  u8Data : List UInt8 := List.replicate 32 0
deriving DecidableEq

/-- `CC708_OBJECT_S` as `CC708_OBJ_Create` leaves it, with the characters of `stCaptionBuf`
    and, while the delay timer runs, its interval in milliseconds. -/
structure Obj where
  u8IsStart : Bool := false
  u8IsDelay : Bool := false
  stServiceBlock : ServiceBlock := {}
  s32LastSeqenceNo : SeqenceNo := none
  bServiceBlockEnded : Bool := true
  stPacket : Packet := {}
  stCMDBuffer : CMDBuffer := {}
  u32ServiceType : Nat := 1
  stServiceQueue : TriQueue ServiceElement :=
    { Size := SERVICE_QUEUE_SIZE, Element := fun _ => {} }
  au8ServiceData : Nat → List UInt8 := fun _ => List.replicate 32 0
  stCaptionBuf : List UInt16 := []
  delayTimer : Option Nat := none

/-- What a call does that an observer sees: a block is put into the service queue or parsed,
    a command decoder is called on the bytes it reads, captions are drawn. -/
inductive Event
  | put (block : List UInt8)
  | parse (block : List UInt8)
  | cmd (decoder : Decoder) (pu8Cmd : List UInt8)
  | draw (pu16Text : List UInt16)
deriving DecidableEq

/-- `CC708_OSD_Reset`. -/
def Obj.osdReset (o : Obj) : Obj := { o with stServiceQueue := o.stServiceQueue.flush }

/-- `CC708_DEC_Reset`. -/
def Obj.decReset (o : Obj) : Obj :=
  { o with stCMDBuffer := {}, stPacket := {}, stServiceBlock := {}, u8IsDelay := false }

/-! ## The coding layer -/

/-- The tables `ksc5601_2uni_page21`, `ksc5601_2uni_page30` and `ksc5601_2uni_page4a`. -/
structure Ksc5601 where
  page21 : Nat → UInt16
  page30 : Nat → UInt16
  page4a : Nat → UInt16

/-- `DTVCCG2Code2UnicodeMap`. -/
def dtvccG2Code2UnicodeMap : List UInt16 :=
  [0x1020, 0x1021, 0x005f, 0x005f, 0x005f, 0x2026, 0x005f, 0x005f,
    0x005f, 0x005f, 0x0160, 0x005f, 0x0152, 0x005f, 0x005f, 0x005f,
    0x2588, 0x2018, 0x2019, 0x201c, 0x201d, 0x2022, 0x005f, 0x005f,
    0x005f, 0x2122, 0x0161, 0x005f, 0x0153, 0x2120, 0x005f, 0x0178] ++
  List.replicate 54 0x005f ++
  [0x215b, 0x215c, 0x215d, 0x215e, 0x2502, 0x2510, 0x2514, 0x2500, 0x2518, 0x250c]

/-- `DTVCCG3Code2UnicodeMap`. -/
def dtvccG3Code2UnicodeMap : List UInt16 := 0xf101 :: List.replicate 95 0x005f

/-- A character is put into `stCaptionBuf`. -/
def Obj.store (o : Obj) (u16Caption : UInt16) : Obj :=
  { o with stCaptionBuf := o.stCaptionBuf ++ [u16Caption] }

/-- `_DtvCC_EXT1Cmd`. -/
def ext1Cmd (pu8Cmd : List UInt8) (o : Obj) : Obj :=
  let u8Byte := get8 pu8Cmd 1
  if u8Byte < 0x20 ∨ 0x80 ≤ u8Byte ∧ u8Byte < 0x90 then o
  else if u8Byte &&& 0xf0 = 0x90 then o
  else if u8Byte < 0x80 then
    let u16Caption := dtvccG2Code2UnicodeMap.getD (u8Byte - 0x20).toNat 0
    o.store (if u16Caption = 0x1020 ∨ u16Caption = 0x1021 then 0x1020 else u16Caption)
  else o.store (dtvccG3Code2UnicodeMap.getD (u8Byte - 0xa0).toNat 0)

/-- The character of `_DtvCC_P16Cmd`. -/
def p16Unicode (t : Ksc5601) (pu8Cmd : List UInt8) : UInt16 :=
  let u16Unicode := (get8 pu8Cmd 1).toUInt16 <<< 8 ||| (get8 pu8Cmd 2).toUInt16
  let u8Char1 := get8 pu8Cmd 1 - 0x80
  let u8Char2 := get8 pu8Cmd 2 - 0x80
  if 0xa1 ≤ get8 pu8Cmd 1 ∧
      (0x21 ≤ u8Char1 ∧ u8Char1 ≤ 0x2c ∨ 0x30 ≤ u8Char1 ∧ u8Char1 ≤ 0x48 ∨
        0x4a ≤ u8Char1 ∧ u8Char1 ≤ 0x7d) ∧
      0x21 ≤ u8Char2 ∧ u8Char2 < 0x7f then
    let i := 94 * (u8Char1.toNat - 0x21) + (u8Char2.toNat - 0x21)
    if i < 1410 then (if i < 1115 then t.page21 i else u16Unicode)
    else if i < 3854 then (if i < 3760 then t.page30 (i - 1410) else u16Unicode)
    else if i < 8742 then t.page4a (i - 3854)
    else u16Unicode
  else u16Unicode

/-- `_DtvCC_P16Cmd`. -/
def p16Cmd (t : Ksc5601) (pu8Cmd : List UInt8) (o : Obj) : Obj :=
  if p16Unicode t pu8Cmd ≠ 0xfffd then o.store (p16Unicode t pu8Cmd) else o

/-- `_DtvCC_DelayCmd`. -/
def delayCmd (pu8Cmd : List UInt8) (o : Obj) : Obj :=
  { o with u8IsDelay := true, delayTimer := some ((get8 pu8Cmd 1).toNat * 100) }

/-- What a command decoder does to the object. -/
def Decoder.run (t : Ksc5601) (pu8Cmd : List UInt8) (o : Obj) : Decoder → Obj
  | ext1Cmd => Cc708.ext1Cmd pu8Cmd o
  | p16Cmd => Cc708.p16Cmd t pu8Cmd o
  | delayCmd => Cc708.delayCmd pu8Cmd o
  | resetCmd => o.osdReset
  | _ => o

/-- `if(pfnDTVCCCmdDecoder != NULL) pfnDTVCCCmdDecoder(pu8Cmd)`. -/
def callDecoder (t : Ksc5601) (pfn : Option Decoder) (pu8Cmd : List UInt8) (o : Obj) :
    Obj × List Event :=
  match pfn with
  | some d => (d.run t pu8Cmd o, [.cmd d (pu8Cmd.take d.size)])
  | none => (o, [])

/-- The commands that have the caption buffer drawn. -/
def Draws (u8ServiceData : UInt8) : Prop :=
  0x7f < u8ServiceData ∧ u8ServiceData < 0xa0 ∨ u8ServiceData = C0_ETX ∨
    u8ServiceData = C0_CR ∨ u8ServiceData = C0_HCR ∨ u8ServiceData = C0_FF

instance (b : UInt8) : Decidable (Draws b) := inferInstanceAs (Decidable (_ ∨ _))

/-- The caption buffer is drawn before a command. -/
def drawCaption (u8ServiceData : UInt8) (o : Obj) : Obj × List Event :=
  if Draws u8ServiceData ∧ 0 < o.stCaptionBuf.length ∧
      o.stCaptionBuf.length ≤ CAPTION_BUF_SIZE then
    ({ o with stCaptionBuf := [] }, [.draw o.stCaptionBuf])
  else (o, [])

/-- The loop of `_DtvCC_ParseServiceBlock`, at `&pu8ServiceData[u8Offset]` with
    `u8ServiceLen - u8Offset` bytes left. -/
def parseCmds (t : Ksc5601) : Nat → List UInt8 → Nat → Obj → Obj × List Event
  | 0, _, _, o => (o, [])
  | fuel + 1, p, left, o =>
    if left = 0 then (o, [])
    else
      let u8ServiceData := get8 p 0
      if IsCmd u8ServiceData then
        let r := drawCaption u8ServiceData o
        let u8CmdLen := cmdLen p left
        if left < u8CmdLen then
          -- The command goes on in the next block.
          let buf : CMDBuffer :=
            { r.1.stCMDBuffer with
              u8TotalSize := .ofNat u8CmdLen
              u8CurSize := .ofNat left }
          ({ r.1 with stCMDBuffer := buf.memcpy 0 (p.take left) }, r.2)
        else
          let c := callDecoder t (cmdMap u8ServiceData).pfnCmdDecoder p r.1
          let rest := parseCmds t fuel (p.drop u8CmdLen) (left - u8CmdLen) c.1
          (rest.1, r.2 ++ c.2 ++ rest.2)
      else
        let u16Caption := if u8ServiceData = 0x7f then 0x266a else u8ServiceData.toUInt16
        parseCmds t fuel (p.drop 1) (left - 1) (o.store u16Caption)

/-- `_DtvCC_ParseServiceBlock` on the `u8BufLen` bytes at `pu8Buf`. -/
def parseServiceBlock (t : Ksc5601) (pu8Buf : List UInt8) (u8BufLen : Nat) (o : Obj) :
    Obj × List Event :=
  if u8BufLen = 0 then (o, [])
  else
    let buf := o.stCMDBuffer
    if buf.u8CurSize < buf.u8TotalSize then
      let missing := buf.u8TotalSize.toNat - buf.u8CurSize.toNat
      if missing ≤ u8BufLen then
        -- The command is looked up under the first byte of this block.
        let au8CMD := (buf.memcpy buf.u8CurSize.toNat (pu8Buf.take missing)).au8CMD
        let map := cmdMap (get8 pu8Buf 0)
        let c := callDecoder t map.pfnCmdDecoder au8CMD o
        let rest := parseCmds t u8BufLen (pu8Buf.drop map.u8CMDLen) (u8BufLen - map.u8CMDLen)
          { c.1 with stCMDBuffer := {} }
        (rest.1, c.2 ++ rest.2)
      else
        let buf := buf.memcpy buf.u8CurSize.toNat (pu8Buf.take u8BufLen)
        ({ o with stCMDBuffer := { buf with u8CurSize := buf.u8CurSize + .ofNat u8BufLen } }, [])
    else
      parseCmds t u8BufLen pu8Buf u8BufLen
        { o with stCMDBuffer := { buf with au8CMD := List.replicate 8 0, u8CurSize := 0 } }

/-! ## The service queue -/

/-- `_DtvCC_PutServiceDataToFIFO` behind the search for a command. -/
def insertServiceData (block : List UInt8) (o : Obj) : Obj :=
  if 0 < block.length then
    let n := o.stServiceQueue.Head
    let o :=
      { o with
        au8ServiceData := fun i =>
          if i = n then memcpy (o.au8ServiceData n) 0 block else o.au8ServiceData i }
    match o.stServiceQueue.insert { pu8Buffer := n, u8ServiceLen := block.length } with
    | some queue => { o with stServiceQueue := queue }
    | none => { o with u8IsDelay := false, delayTimer := none }
  else o

/-- `_DtvCC_PutServiceDataToFIFO`. -/
def putServiceDataToFIFO (block : List UInt8) (o : Obj) : Obj × List Event :=
  let found := detectRstDcCmd block
  let o :=
    if found.2 = C1_RST then
      insertServiceData (block.drop (found.1 + 1))
        { o with u8IsDelay := false, delayTimer := none }.osdReset
    else if found.2 = C1_DLC then
      insertServiceData block { o with u8IsDelay := false, delayTimer := none }
    else insertServiceData block o
  (o, [.put block])

/-- The loop of `CC708_DEC_ProcessServicefifo`. -/
def processLoop (t : Ksc5601) : Nat → Obj → Obj × List Event
  | 0, o => (o, [])
  | fuel + 1, o =>
    if o.u8IsDelay then (o, [])
    else
      match o.stServiceQueue.get with
      | none => (o, [])
      | some stSvsElement =>
        let p := o.au8ServiceData stSvsElement.pu8Buffer
        let r := parseServiceBlock t p stSvsElement.u8ServiceLen o
        let o := { r.1 with stServiceQueue := r.1.stServiceQueue.remove }
        let rest := processLoop t fuel o
        (rest.1, .parse (p.take stSvsElement.u8ServiceLen) :: r.2 ++ rest.2)

/-- `CC708_DEC_ProcessServicefifo`.  A round removes an element or finds the queue flushed. -/
def processServicefifo (t : Ksc5601) (o : Obj) : Obj × List Event :=
  processLoop t o.stServiceQueue.getItemNum o

/-- `_DtvCC_DelayTimerCallback`, behind which the timer has stopped. -/
def delayTimerCallback (o : Obj) : Obj := { o with u8IsDelay := false, delayTimer := none }

/-! ## Packets -/

/-- The loop of `_DtvCC_ParsePacketData`, at `pu8PacketBuf + u8Offset` with
    `u8BufLen - u8Offset` bytes left. -/
def packetLoop : Nat → List UInt8 → Nat → Obj → Obj × List Event
  | 0, _, _, o => (o, [])
  | fuel + 1, p, left, o =>
    if left = 0 then (o, [])
    else if o.bServiceBlockEnded then
      let u8ServiceSize := (get8 p 0 &&& 0x1f).toNat
      let u8ServiceNo := (get8 p 0 >>> 5).toNat
      let extended := u8ServiceNo = 7 ∧ u8ServiceSize ≠ 0
      let u8ServiceNo := if extended then (get8 p 1 &&& 0x3f).toNat else u8ServiceNo
      let u8HeaderSize := if extended then 2 else 1
      if u8ServiceNo = 0 ∨ u8ServiceSize = 0 then
        packetLoop fuel (p.drop u8HeaderSize) (left - u8HeaderSize) o
      else if o.stPacket.u8TotalSize <
          o.stServiceBlock.u8CurSize + u8HeaderSize + u8ServiceSize then (o.decReset, [])
      else
        packetLoop fuel (p.drop u8HeaderSize) (left - u8HeaderSize)
          { o with
            stServiceBlock := { o.stServiceBlock with u8ServiceNo, u8ServiceSize, u8CurSize := 0 }
            bServiceBlockEnded := false }
    else
      let block := o.stServiceBlock
      let missing := block.u8ServiceSize - block.u8CurSize
      if block.u8ServiceNo = o.u32ServiceType ∧ o.u8IsStart then
        if left < missing then
          -- The service block goes on in the next packet.
          let block :=
            { block with
              u8Data := memcpy block.u8Data block.u8CurSize (p.take left)
              u8CurSize := block.u8CurSize + left }
          let data := block.u8Data.take block.u8CurSize
          if checkSvcBlockDataIntegrality data ≠ block.u8CurSize then
            ({ o with stServiceBlock := block }, [])
          else
            let r := putServiceDataToFIFO data { o with stServiceBlock := block }
            ({ r.1 with
                stServiceBlock :=
                  { block with
                    u8ServiceSize := block.u8ServiceSize - block.u8CurSize
                    u8CurSize := 0 } }, r.2)
        else
          let u8Data := memcpy block.u8Data block.u8CurSize (p.take missing)
          let r := putServiceDataToFIFO (u8Data.take block.u8ServiceSize)
            { o with stServiceBlock := { block with u8Data } }
          let rest := packetLoop fuel (p.drop missing) (left - missing)
            { r.1 with stServiceBlock := { u8Data }, bServiceBlockEnded := true }
          (rest.1, r.2 ++ rest.2)
      else if left < missing then
        ({ o with stServiceBlock := { block with u8CurSize := block.u8CurSize + left } }, [])
      else
        packetLoop fuel (p.drop missing) (left - missing)
          { o with stServiceBlock := { u8Data := block.u8Data }, bServiceBlockEnded := true }

/-- `_DtvCC_ParsePacket` and `_DtvCC_ParsePacketData`.  A round takes a byte or ends a block. -/
def parsePacket (pu8PacketBuf : List UInt8) (u8PacketLen : Nat) (o : Obj) : Obj × List Event :=
  packetLoop (2 * u8PacketLen) (pu8PacketBuf.drop 1) (u8PacketLen - 1) o

/-- `_DtvCC_EndPacket`. -/
def endPacket (o : Obj) : Obj × List Event :=
  let r := parsePacket o.stPacket.au8PacketData o.stPacket.u8CurSize o
  let packet := r.1.stPacket
  if packet.u8CurSize = packet.u8TotalSize then
    ({ r.1 with stPacket := {}, stServiceBlock := {} }, r.2)
  else
    ({ r.1 with
        stPacket :=
          { packet with
            u8TotalSize := packet.u8TotalSize - packet.u8CurSize
            u8CurSize := 0 } }, r.2)

/-- `_DtvCC_CheckPacketSequenceNo`. -/
def checkPacketSequenceNo (o : Obj) : Obj :=
  match o.s32LastSeqenceNo with
  | none => { o with s32LastSeqenceNo := some o.stPacket.u8SeqenceNo }
  | some last =>
    if o.stPacket.u8SeqenceNo ≠ (last + 1) &&& 0x03 then
      let o := { o with s32LastSeqenceNo := none }
      if o.u8IsStart then o.osdReset else o
    else { o with s32LastSeqenceNo := some o.stPacket.u8SeqenceNo }

/-! ## Triplets -/

/-- `PACKET_START_FLAG`. -/
def PACKET_START_FLAG : UInt8 := 0xff

/-- `PACKET_DATA_FLAG`. -/
def PACKET_DATA_FLAG : UInt8 := 0xfe

/-- `PACKET_END_FLAG1`. -/
def PACKET_END_FLAG1 : UInt8 := 0xfa

/-- `PACKET_END_FLAG2`. -/
def PACKET_END_FLAG2 : UInt8 := 0xfb

/-- The size of a caption channel packet by its header. -/
def packetSize (header : UInt8) : Nat :=
  if header &&& 0x3f = 0 then 128 else (header &&& 0x3f).toNat * 2

/-- A byte is put into the packet. -/
def Obj.storePacket (o : Obj) (b : UInt8) : Obj :=
  { o with
    stPacket :=
      { o.stPacket with
        au8PacketData := memcpy o.stPacket.au8PacketData o.stPacket.u8CurSize [b]
        u8CurSize := o.stPacket.u8CurSize + 1 } }

/-- `_DtvCC_EndPacket` once the packet is full. -/
def endIfFull (o : Obj) : Obj × List Event :=
  if 0 < o.stPacket.u8CurSize ∧ o.stPacket.u8CurSize = o.stPacket.u8TotalSize then endPacket o
  else (o, [])

/-- A flag `PACKET_START_FLAG`, behind which `p` follows and `left` bytes are left.  `none`
    besides is `MT_FAILURE`. -/
def startPacket (p : List UInt8) (left : Nat) (o : Obj) : Obj × List Event × Option Nat :=
  let r := if 0 < o.stPacket.u8CurSize then endPacket o else (o, [])
  let header := get8 p 0
  let o := { r.1 with stPacket := { r.1.stPacket with u8SeqenceNo := (header &&& 0xc0) >>> 6 } }
  let o := checkPacketSequenceNo o
  let o := { o with stPacket := { o.stPacket with u8TotalSize := packetSize header } }
  if MAX_DTVCC_PACKET_LEN < o.stPacket.u8CurSize + 2 ∨ left ≤ 1 then (o, r.2, none)
  else
    let o := (o.storePacket header).storePacket (get8 p 1)
    let e := endIfFull { o with stPacket := { o.stPacket with bStart := true } }
    (e.1, r.2 ++ e.2, some 2)

/-- A flag `PACKET_DATA_FLAG`, behind which `p` follows. -/
def continuePacket (p : List UInt8) (o : Obj) : Obj × List Event × Option Nat :=
  if o.stPacket.bStart then
    if o.stPacket.u8CurSize < o.stPacket.u8TotalSize then
      let o := o.storePacket (get8 p 0)
      if 0 < o.stPacket.u8CurSize ∧ o.stPacket.u8CurSize = o.stPacket.u8TotalSize then
        let e := endPacket o
        (e.1, e.2, some 1)
      else
        let e := endIfFull (o.storePacket (get8 p 1))
        (e.1, e.2, some 2)
    else (o, [], some 0)
  else (o, [], some 0)

/-- A flag `PACKET_END_FLAG1` or `PACKET_END_FLAG2`. -/
def padPacket (o : Obj) : Obj × List Event × Option Nat :=
  if 0 < o.stPacket.u8CurSize ∧ o.stPacket.u8TotalSize ≤ o.stPacket.u8CurSize then
    let e := endPacket o
    (e.1, e.2, some 0)
  else (o, [], some 0)

/-- What a flag has done and how many of the bytes behind it were taken. -/
def dispatchFlag (u8CCFlag : UInt8) (p : List UInt8) (left : Nat) (o : Obj) :
    Obj × List Event × Option Nat :=
  if u8CCFlag = PACKET_START_FLAG then startPacket p left o
  else if u8CCFlag = PACKET_DATA_FLAG then continuePacket p o
  else if u8CCFlag = PACKET_END_FLAG1 ∨ u8CCFlag = PACKET_END_FLAG2 then padPacket o
  else (o, [], some 2)

/-- The loop of `_DtvCC_ParsePicUsrData`, at `&pu8CCPicData[u8offset]` with
    `u8CCdataLength - u8offset` bytes left. -/
def picUsrDataLoop : Nat → List UInt8 → Nat → Obj → Obj × List Event
  | 0, _, _, o => (o, [])
  | fuel + 1, p, left, o =>
    if left = 0 then (o, [])
    else
      let r := dispatchFlag (get8 p 0) (p.drop 1) (left - 1) o
      match r.2.2 with
      | none => (r.1, r.2.1)
      | some taken =>
        let rest := picUsrDataLoop fuel (p.drop (1 + taken)) (left - (1 + taken)) r.1
        (rest.1, r.2.1 ++ rest.2)

/-- `_DtvCC_ParsePicUsrData` on the `u8CCdataLength` bytes at `pu8CCPicData`.  `u8offset` does
    not wrap for the 31 triplets that a picture can have. -/
def parsePicUsrData (pu8CCPicData : List UInt8) (u8CCdataLength : Nat) (o : Obj) :
    Obj × List Event :=
  picUsrDataLoop u8CCdataLength pu8CCPicData u8CCdataLength o

/-! ## Start, stop, reset and configuration -/

/-- `CC708_Start`. -/
def start (o : Obj) : Obj :=
  if o.u8IsStart then o
  else { o with u8IsDelay := false, u8IsStart := true, stCaptionBuf := [], delayTimer := none }

/-- `CC708_Stop`. -/
def stop (o : Obj) : Obj :=
  if o.u8IsStart then
    { o with
      u8IsDelay := false
      delayTimer := if o.u8IsDelay then none else o.delayTimer
      u8IsStart := false }
  else o

/-- `CC708_Reset`. -/
def reset (o : Obj) : Obj := if o.u8IsStart then o.decReset.osdReset else o

/-- What `MT_UNF_CC_708_CONFIGPARAM_S` has. -/
structure ConfigParam where
  enCC708ServiceNum : Nat
  enCC708FontName : Nat := 0
  enCC708TextOpac : Nat := 0
  enCC708BgOpac : Nat := 0
  enCC708FontStyle : Nat := 0
  enCC708FontSize : Nat := 0
  enCC708DispFormat : Nat := 0
  u32CC708TextColor : UInt32 := 0
  u32CC708BgColor : UInt32 := 0
  u32CC708WinColor : UInt32 := 0
  enCC708WinOpac : Nat := 0
  enCC708TextEdgeType : Nat := 0
  u32CC708TextEdgeColor : UInt32 := 0
deriving DecidableEq

/-- `CHECKCLR`. -/
def CheckClr (color : UInt32) : Prop :=
  ∀ rgb ∈ [(color &&& 0x00ff0000) >>> 16, (color &&& 0x0000ff00) >>> 8, color &&& 0x000000ff],
    rgb = 0x00 ∨ rgb = 0x5f ∨ rgb = 0xaf ∨ rgb = 0xff

instance (color : UInt32) : Decidable (CheckClr color) :=
  inferInstanceAs (Decidable (∀ _ ∈ _, _))

/-- The text cannot be told from its background. -/
def ConfigParam.Invisible (c : ConfigParam) : Prop :=
  (c.enCC708TextOpac ≠ 4 ∧ c.enCC708BgOpac ≠ 4) ∧
    (c.u32CC708TextColor ≠ 0 ∧ c.u32CC708TextColor = c.u32CC708BgColor ∨
      c.u32CC708TextColor = 0 ∧ c.u32CC708BgColor = 0xffffffff ∨
      c.u32CC708TextColor = 0xff000000 ∧ c.u32CC708BgColor = 0)

/-- The checks of `CC708_Config`. -/
def ConfigParam.Valid (c : ConfigParam) : Prop :=
  (1 ≤ c.enCC708ServiceNum ∧ c.enCC708ServiceNum < 7) ∧ c.enCC708FontName < 8 ∧
    c.enCC708FontSize < 4 ∧ CheckClr c.u32CC708TextColor ∧ CheckClr c.u32CC708BgColor ∧
    c.enCC708TextOpac < 5 ∧ c.enCC708BgOpac < 5 ∧ c.enCC708FontStyle < 5 ∧
    CheckClr c.u32CC708WinColor ∧ c.enCC708WinOpac < 5 ∧ c.enCC708TextEdgeType < 7 ∧
    CheckClr c.u32CC708TextEdgeColor ∧ c.enCC708DispFormat < 5 ∧ ¬c.Invisible

instance (c : ConfigParam) : Decidable c.Invisible := inferInstanceAs (Decidable (_ ∧ _))

instance (c : ConfigParam) : Decidable c.Valid := inferInstanceAs (Decidable (_ ∧ _))

/-- `CC708_Config`.  The attributes of the captions are not part of the state. -/
def config (c : ConfigParam) (o : Obj) : Obj :=
  if c.Valid ∧ o.u32ServiceType ≠ c.enCC708ServiceNum then
    { reset o with u32ServiceType := c.enCC708ServiceNum }
  else o

end Tntsat.Cc708
