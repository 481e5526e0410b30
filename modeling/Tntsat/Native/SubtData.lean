import Mathlib.Algebra.Group.Nat.Defs
import Mathlib.Logic.Function.Basic
import Tntsat.ForStd.Machine

/-!
# The replay cache of DVB subtitles

`SUBT_DataRecv_Inject`, `SUBT_DataRecv_Redo` and `SUBT_DataRecv_Reset` of
`kware/subtitle/src/subtitle_data.c`.  Injected packets are parsed and kept in a ring of
three nodes, from which they are parsed again.

A parser is bound; what it does is not modelled, only how `SUBT_DataParse_ParsePESPacket`
is called.  An array is a list of the part of it that has been written.
-/

namespace Tntsat.SubtData

/-- `SUBT_PES_PACKET_MIN`. -/
def subtPesPacketMin : Nat := 26

/-- `SUBT_PES_PACKET_LEN`. -/
def subtPesPacketLen : Nat := 24 * 1024

/-- `SUBT_MAX_PES_PACKET_LEN`. -/
def subtMaxPesPacketLen : Nat := 64 * 1024

/-- `CACHE_NODE_NUM_MAX`. -/
def cacheNodeNumMax : Nat := 3

/-- `Cache_Buffer_Node_S`. -/
structure CacheNode where
  au8Data : List UInt8 := []
  u32DataSize : Nat := 0
deriving DecidableEq

/-- `SUBT_DATA_RECV_S`; `pstCacheNode` is the index of a node. -/
structure DataRecv where
  u32PESWritenLen : Nat := 0
  au8PesBuffer : List UInt8 := []
  u16PageID : Nat
  u16AncillaryID : Nat
  pstCacheNode : Nat := 0
  astCacheNode : Nat → CacheNode := fun _ => {}

/-- A call of `SUBT_DataParse_ParsePESPacket`, with the bytes of the packet. -/
structure ParseCall where
  pu8DataSrc : List UInt8
  u32Len : Nat
  u16PageID : Nat
  u16AncillaryID : Nat
deriving DecidableEq

/-! ## The cache -/

/-- The next node, as `Cache_Init` links them. -/
def next (k : Nat) : Nat := (k + 1) % cacheNodeNumMax

/-- `Cache_Put`. -/
def cachePut (r : DataRecv) (pu8Data : List UInt8) (u32DataSize : Nat) : DataRecv :=
  if u32DataSize < subtPesPacketMin ∨ subtPesPacketLen < u32DataSize then r
  else
    { r with
      astCacheNode := Function.update r.astCacheNode r.pstCacheNode
        { au8Data := pu8Data.take u32DataSize, u32DataSize }
      pstCacheNode := next r.pstCacheNode }

/-- `Cache_Get`: the node's data and its size, which is 0 when there are none. -/
def cacheGet (r : DataRecv) : DataRecv × List UInt8 × Nat :=
  let node := r.astCacheNode r.pstCacheNode
  ({ r with
      astCacheNode := Function.update r.astCacheNode r.pstCacheNode { node with u32DataSize := 0 }
      pstCacheNode := next r.pstCacheNode },
    if node.u32DataSize = 0 then [] else node.au8Data, node.u32DataSize)

/-- `Cache_Reset`. -/
def cacheReset (r : DataRecv) : DataRecv :=
  { r with
    astCacheNode := fun k => { r.astCacheNode k with u32DataSize := 0 }
    pstCacheNode := 0 }

/-! ## The calls -/

/-- `SUBT_DataRecv_Create`. -/
def create (u16PageID u16AncillaryID : Nat) : DataRecv := { u16PageID, u16AncillaryID }

/-- `SUBT_DataRecv_Reset`. -/
def reset (r : DataRecv) : DataRecv :=
  cacheReset { r with au8PesBuffer := [], u32PESWritenLen := 0 }

/-- The loop of `SUBT_DataRecv_Redo`, for as many turns as the nodes allow. -/
def redoLoop : Nat → DataRecv → DataRecv × List ParseCall
  | 0, r => (r, [])
  | turns + 1, r =>
    let (r, pu8Data, u32DataSize) := cacheGet r
    if u32DataSize = 0 then (r, [])
    else
      let call :=
        { pu8DataSrc := pu8Data.take u32DataSize
          u32Len := u32DataSize
          u16PageID := r.u16PageID
          u16AncillaryID := r.u16AncillaryID }
      let (r, calls) := redoLoop turns r
      (r, call :: calls)

/-- `SUBT_DataRecv_Redo`. -/
def redo (r : DataRecv) : DataRecv × List ParseCall := redoLoop (cacheNodeNumMax + 1) r

/-- A byte of a buffer; what stands behind its end makes no difference. -/
def byteAt (pu8Data : List UInt8) (k : Nat) : Nat := (pu8Data.getD k 0).toNat

/-- `u32PESPayloadLength`. -/
def pesPayloadLength (au8PesBuffer : List UInt8) : Nat :=
  byteAt au8PesBuffer 4 <<< 8 ||| byteAt au8PesBuffer 5

/-- What `SUBT_DataRecv_Inject` does with the data before it looks for a whole packet. -/
def receive (r : DataRecv) (pu8Data : List UInt8) : DataRecv :=
  if r.u32PESWritenLen = 0 then
    if byteAt pu8Data 0 = 0x00 ∧ byteAt pu8Data 1 = 0x00 ∧ byteAt pu8Data 2 = 0x01 ∧
        byteAt pu8Data 3 = 0xbd then
      if pu8Data.length ≤ subtMaxPesPacketLen then
        { r with au8PesBuffer := pu8Data, u32PESWritenLen := pu8Data.length }
      else r
    else r
  else
    let r :=
      if pu8Data.length ≤ subtMaxPesPacketLen - r.u32PESWritenLen then
        { r with au8PesBuffer := r.au8PesBuffer.take r.u32PESWritenLen ++ pu8Data }
      else r
    { r with u32PESWritenLen := 0 }

/-- `SUBT_DataRecv_Inject`. -/
def inject (r : DataRecv) (pu8Data : List UInt8) : DataRecv × List ParseCall :=
  if pu8Data = [] then (r, [])
  else
    let r := receive r pu8Data
    let payload := pesPayloadLength r.au8PesBuffer
    if 6 ≤ r.u32PESWritenLen ∧ payload + 6 ≤ r.u32PESWritenLen then
      let r := if payload + 6 ≤ subtPesPacketLen then cachePut r pu8Data (payload + 6) else r
      let call :=
        { pu8DataSrc := r.au8PesBuffer.take (payload + 6)
          u32Len := payload
          u16PageID := r.u16PageID
          u16AncillaryID := r.u16AncillaryID }
      ({ r with u32PESWritenLen := 0 }, [call])
    else ({ r with u32PESWritenLen := 0 }, [])

/-- A call of the interface. -/
inductive Input
  | inject (pu8Data : List UInt8)
  | redo
  | reset
deriving DecidableEq

/-- A receiver, with the calls of the parser. -/
def machine : Machine DataRecv Input (List ParseCall) where
  step r
    | .inject pu8Data => inject r pu8Data
    | .redo => redo r
    | .reset => (reset r, [])

end Tntsat.SubtData
