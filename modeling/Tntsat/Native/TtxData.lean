import Tntsat.Native.SubtData

/-!
# The PES packets of the teletext

`TTX_DataRecv_Inject` of `kware/teletext/src/teletext_data.c`: the bytes of PES packets are
gathered in a buffer, and the packets are parsed from there.

What `vbi_pes_parse_vsb` does is not modelled, only what is in the buffer from its argument on.
The buffer is the list of the bytes that have been written to it; it never holds more than it has
room for.  The copy to the head of the buffer moves the bytes as they are.
-/

namespace Tntsat.TtxData

open SubtData (byteAt pesPayloadLength)

/-- `TTX_MAX_PES_PACKET_LEN`. -/
def TTX_MAX_PES_PACKET_LEN : Nat := 64 * 1024

/-- `TTX_DATA_RECV_S`: the first `u32PESWritenLen` bytes of `au8PesBuffer`. -/
structure DataRecv where
  au8PesBuffer : List UInt8
  fits : au8PesBuffer.length ≤ TTX_MAX_PES_PACKET_LEN

/-- `TTX_DataRecv_Create`. -/
def create : DataRecv := ⟨[], Nat.zero_le _⟩

/-- `ttx_check_pes`. -/
def ttxCheckPes (pu8Data : List UInt8) : Bool :=
  byteAt pu8Data 0 = 0x00 && byteAt pu8Data 1 = 0x00 && byteAt pu8Data 2 = 0x01 &&
    byteAt pu8Data 3 = 0xbd

/-- The data are put behind what has been written, as far as there is room. -/
def receive (r : DataRecv) (pu8Data : List UInt8) : DataRecv where
  au8PesBuffer := r.au8PesBuffer ++
    pu8Data.take (if TTX_MAX_PES_PACKET_LEN < r.au8PesBuffer.length + pu8Data.length then
      TTX_MAX_PES_PACKET_LEN - r.au8PesBuffer.length else pu8Data.length)
  fits := by
    have := r.fits
    rw [List.length_append, List.length_take]
    split <;> omega

/-- The loop of `TTX_DataRecv_Inject` on the bytes from `data_pos` on: the bytes that are kept,
    and those each call of `vbi_pes_parse_vsb` is given. -/
def injectLoop : Nat → List UInt8 → List UInt8 × List (List UInt8)
  | 0, p => (p, [])
  | fuel + 1, p =>
    if p.length < 6 then (p, [])
    else if ttxCheckPes p then
      let u32PESPayloadLength := pesPayloadLength p
      if TTX_MAX_PES_PACKET_LEN >>> 2 < u32PESPayloadLength then ([], [])
      else if p.length < u32PESPayloadLength then (p, [])
      else if u32PESPayloadLength = 0 then ([], [])
      else
        let rest := injectLoop fuel (p.drop u32PESPayloadLength)
        (rest.1, p :: rest.2)
    else ([], [])

/-- The loop keeps no more than there is. -/
theorem length_injectLoop_le (fuel : Nat) (p : List UInt8) :
    (injectLoop fuel p).1.length ≤ p.length := by
  induction fuel generalizing p with
  | zero => exact Nat.le_refl _
  | succ fuel ih =>
    rw [injectLoop]
    split
    · exact Nat.le_refl _
    · split
      · dsimp only
        split
        · exact Nat.zero_le _
        · split
          · exact Nat.le_refl _
          · split
            · exact Nat.zero_le _
            · refine Nat.le_trans (ih _) ?_
              rw [List.length_drop]
              exact Nat.sub_le _ _
      · exact Nat.zero_le _

/-- `TTX_DataRecv_Inject`: a round of the loop takes a byte at least. -/
def inject (r : DataRecv) (pu8Data : List UInt8) : DataRecv × List (List UInt8) :=
  if pu8Data = [] then (r, [])
  else
    let r := receive r pu8Data
    let t := injectLoop r.au8PesBuffer.length r.au8PesBuffer
    ({ au8PesBuffer := t.1
       fits := Nat.le_trans (length_injectLoop_le _ _) r.fits }, t.2)

/-- A receiver: it is given data and calls the parser. -/
def machine : Machine DataRecv (List UInt8) (List (List UInt8)) where
  step := inject

end Tntsat.TtxData
