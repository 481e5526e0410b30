import Mathlib.Algebra.Group.Nat.Defs
import Mathlib.Data.List.Basic

/-!
# The T=1 protocol of the card reader

`msp/api/sci/protocol/protocol_t1.c`: a command goes to the card in I-blocks of at most
`ifsc` bytes, each of which but the last the card acknowledges with an R-block, and the
answer comes back in the same way; in front of an answer the card may ask for more time
with S-blocks.

`Line` is what is below: the driver of the reader with the card behind it, over any
state.  The loops end when the card lets them, so they count rounds, and `none` is a
call that has not come to an end in `fuel` of them.  The timeouts are left out, and of
`rsp` the bytes behind `*lr`.
-/

namespace Tntsat.T1

/-- `reader->crdr` and the card: `ICC_Async_Transmit` and `ICC_Async_Receive`. -/
structure Line (κ : Type) where
  transmit : List UInt8 → κ → Bool × κ
  receive : Nat → κ → Option (List UInt8) × κ

/-- `T1_BLOCK_MAX_SIZE`. -/
def t1BlockMaxSize : Nat := 259

/-- `T1_BLOCK_I`. -/
def t1BlockI : UInt8 := 0x00

/-- `T1_BLOCK_R_OK`. -/
def t1BlockROk : UInt8 := 0x80

/-- `T1_BLOCK_S_IFS_REQ`. -/
def t1BlockSIfsReq : UInt8 := 0xC1

/-- `T1_BLOCK_S_WTX_REQ`. -/
def t1BlockSWtxReq : UInt8 := 0xC3

/-- `T1_BLOCK_S_WTX_RES`. -/
def t1BlockSWtxRes : UInt8 := 0xE3

/-- `T1_Block_LRC`. -/
def lrc (data : List UInt8) : UInt8 := data.foldl (fun c b => c ^^^ b) 0

/-- A block: `T1_BLOCK_NAD`, its type, its length, its data and their check. -/
def block (type : UInt8) (inf : List UInt8) : List UInt8 :=
  let head := [0x00, type, UInt8.ofNat inf.length] ++ inf
  head ++ [lrc head]

/-- The block of `T1_Block_SendIBlock`. -/
def iBlock (inf : List UInt8) (ns : UInt8) (more : Bool) : List UInt8 :=
  block ((t1BlockI ||| ((ns <<< 6) &&& 0x40)) ||| (if more then 0x20 else 0)) inf

/-- The block of `T1_Block_SendRBlock`. -/
def rBlock (type nr : UInt8) : List UInt8 := block (type ||| ((nr <<< 4) &&& 0x10)) []

/-- The block of `T1_Block_SendSBlock`. -/
def sBlock (type : UInt8) (inf : List UInt8) : List UInt8 := block type inf

/-- `T1_Block_GetNS`. -/
def getNs (b : List UInt8) : UInt8 := (b.getD 1 0 >>> 6) &&& 0x01

/-- `T1_Block_GetMore`. -/
def getMore (b : List UInt8) : UInt8 := (b.getD 1 0 >>> 5) &&& 0x01

/-- `T1_Block_GetLen`. -/
def getLen (b : List UInt8) : Nat := (b.getD 2 0).toNat

/-- `*rsp_type` of `Protocol_T1_ReceiveBlock`. -/
def rspType (b : List UInt8) : UInt8 :=
  if b.getD 1 0 &&& 0x80 = t1BlockI then t1BlockI else b.getD 1 0 &&& 0xEF

/-- `reader->ns` for the next block. -/
def nextNs (ns : UInt8) : UInt8 := if ns = 1 then 0 else 1

variable {κ : Type} (L : Line κ)

/-- `Protocol_T1_ReceiveBlock`; the check of the block is not looked at. -/
def receiveBlock (s : κ) : Option (List UInt8) × κ :=
  match L.receive 4 s with
  | (none, s) => (none, s)
  | (some head, s) =>
    let length := getLen head
    if length ≠ 0 then
      match L.receive (min (length + 4) t1BlockMaxSize - 4) s with
      | (none, s) => (none, s)
      | (some rest, s) => (some (head ++ rest), s)
    else (some head, s)

/-- `Protocol_T1_Command` from the send of the I-block at `counter` on, to the last of the
    command. -/
def sendChain (command : List UInt8) (ifsc : Nat) :
    Nat → Nat → UInt8 → κ → Option (Bool × UInt8 × κ)
  | 0, _, _, _ => none
  | fuel + 1, counter, ns, s =>
    let bytes := min (command.length - counter) ifsc % 256
    let more := decide (command.length - counter > ifsc)
    let ns := nextNs ns
    match L.transmit (iBlock ((command.drop counter).take bytes) ns more) s with
    | (false, s) => some (false, ns, s)
    | (true, s) =>
      if more then
        match receiveBlock L s with
        | (none, s) => some (false, ns, s)
        | (some b, s) =>
          if rspType b = t1BlockROk then
            sendChain command ifsc fuel ((counter + bytes) % 2 ^ 16) ns s
          else some (false, ns, s)
      else some (true, ns, s)

/-- The second loop of `Protocol_T1_Command`; `rsp` is what it has so far. -/
def receiveAnswer : Nat → List UInt8 → κ → Option (Option (List UInt8) × κ)
  | 0, _, _ => none
  | fuel + 1, rsp, s =>
    match receiveBlock L s with
    | (none, s) => some (none, s)
    | (some b, s) =>
      if rspType b = t1BlockI then
        let bytes := getLen b
        let nr := (getNs b + 1) % 2
        if rsp.length + bytes > t1BlockMaxSize then some (none, s)
        else
          let rsp := rsp ++ (b.drop 3).take bytes
          if getMore b ≠ 0 then
            match L.transmit (rBlock t1BlockROk nr) s with
            | (true, s) => receiveAnswer fuel rsp s
            | (false, s) => some (none, s)
          else some (some rsp, s)
      else if rspType b = t1BlockSWtxReq then
        match L.transmit (sBlock t1BlockSWtxRes [b.getD 3 0]) s with
        | (true, s) => receiveAnswer fuel rsp s
        | (false, s) => some (none, s)
      else some (none, s)

/-- `Protocol_T1_Command`: the bytes of the answer, or `none` for `ERROR`, with `reader->ns`
    behind the call.  The answer to an IFS request leaves `*lr` as it was. -/
def protocolT1Command (ifsc fuel : Nat) (command : List UInt8) (ns : UInt8) (s : κ) :
    Option (Option (List UInt8) × UInt8 × κ) :=
  if command.getD 1 0 = t1BlockSIfsReq then
    match receiveBlock L (L.transmit (sBlock t1BlockSIfsReq [command.getD 3 0]) s).2 with
    | (none, s) => some (none, ns, s)
    | (some _, s) => some (some [], ns, s)
  else
    match sendChain L command ifsc fuel 0 ns s with
    | none => none
    | some (false, ns, s) => some (none, ns, s)
    | some (true, ns, s) =>
      match receiveAnswer L fuel [] s with
      | none => none
      | some (rsp, s) => some (rsp, ns, s)

/-- `ICC_Async_CardWrite` of a T=1 card, with its one retry. -/
def iccAsyncCardWrite (ifsc fuel : Nat) (command : List UInt8) (ns : UInt8) (s : κ) :
    Option (Option (List UInt8) × UInt8 × κ) :=
  match protocolT1Command L ifsc fuel command ns s with
  | some (none, ns, s) => protocolT1Command L ifsc fuel command ns s
  | r => r

end Tntsat.T1
