import Mathlib.Algebra.Group.Nat.Defs
import Mathlib.Data.List.Basic

/-!
# Commands of the CEA-708 coding layer

The command table, the length of a command and the searches of
`kware/cc/src/708/cc708/src/cc708_dec.c` through the commands of a service block.

A pointer is the list of the bytes from it on.  A byte behind the block is read as zero by
the searches: they stop at a command that is not complete, whatever length they find for it.
-/

namespace Tntsat.Cc708

/-- `GET8`. -/
def get8 (p : List UInt8) (o : Nat) : UInt8 := p.getD o 0

/-- `C0_NUL`. -/
def C0_NUL : UInt8 := 0x0

/-- `C0_ETX`. -/
def C0_ETX : UInt8 := 0x3

/-- `C0_FF`. -/
def C0_FF : UInt8 := 0xc

/-- `C0_CR`. -/
def C0_CR : UInt8 := 0xd

/-- `C0_HCR`. -/
def C0_HCR : UInt8 := 0xe

/-- `C0_EXT1`. -/
def C0_EXT1 : UInt8 := 0x10

/-- `C1_DLC`, Delay Cancel. -/
def C1_DLC : UInt8 := 0x8e

/-- `C1_RST`, Reset. -/
def C1_RST : UInt8 := 0x8f

/-- The command decoders, `DTVCC_CmdDecode_FN`. -/
inductive Decoder
  | nulCmd
  | etxCmd
  | bsCmd
  | ffCmd
  | crCmd
  | hcrCmd
  | ext1Cmd
  | p16Cmd
  | setCurrentWindowCmd
  | clearWindowsCmd
  | displayWindowsCmd
  | hideWindowsCmd
  | toggleWindowsCmd
  | deleteWindowsCmd
  | delayCmd
  | resetCmd
  | setPenAttributesCmd
  | setPenColorCmd
  | setPenLocationCmd
  | setWindowAttributesCmd
  | defineWindowCmd
deriving DecidableEq

/-- How many bytes a decoder reads. -/
def Decoder.size : Decoder → Nat
  | nulCmd | etxCmd | bsCmd | ffCmd | crCmd | hcrCmd | setCurrentWindowCmd | resetCmd => 1
  | ext1Cmd | clearWindowsCmd | displayWindowsCmd | hideWindowsCmd | toggleWindowsCmd
  | deleteWindowsCmd | delayCmd => 2
  | p16Cmd | setPenAttributesCmd | setPenLocationCmd => 3
  | setPenColorCmd => 4
  | setWindowAttributesCmd => 5
  | defineWindowCmd => 7

/-- `CC708_CmdMap_S`. -/
structure CmdMap where
  u8CMDLen : Nat
  pfnCmdDecoder : Option Decoder
deriving DecidableEq

/-- `DTVCCCmdMap`. -/
def dtvccCmdMap : List CmdMap :=
  [⟨1, some .nulCmd⟩, ⟨1, none⟩, ⟨1, none⟩, ⟨1, some .etxCmd⟩,
    ⟨1, none⟩, ⟨1, none⟩, ⟨1, none⟩, ⟨1, none⟩,
    ⟨1, some .bsCmd⟩, ⟨1, none⟩, ⟨1, none⟩, ⟨1, none⟩,
    ⟨1, some .ffCmd⟩, ⟨1, some .crCmd⟩, ⟨1, some .hcrCmd⟩, ⟨1, none⟩,
    ⟨2, some .ext1Cmd⟩, ⟨2, none⟩, ⟨2, none⟩, ⟨2, none⟩,
    ⟨2, none⟩, ⟨2, none⟩, ⟨2, none⟩, ⟨2, none⟩,
    ⟨3, some .p16Cmd⟩, ⟨3, none⟩, ⟨3, none⟩, ⟨3, none⟩,
    ⟨3, none⟩, ⟨3, none⟩, ⟨3, none⟩, ⟨3, none⟩,
    ⟨1, some .setCurrentWindowCmd⟩, ⟨1, some .setCurrentWindowCmd⟩,
    ⟨1, some .setCurrentWindowCmd⟩, ⟨1, some .setCurrentWindowCmd⟩,
    ⟨1, some .setCurrentWindowCmd⟩, ⟨1, some .setCurrentWindowCmd⟩,
    ⟨1, some .setCurrentWindowCmd⟩, ⟨1, some .setCurrentWindowCmd⟩,
    ⟨2, some .clearWindowsCmd⟩, ⟨2, some .displayWindowsCmd⟩,
    ⟨2, some .hideWindowsCmd⟩, ⟨2, some .toggleWindowsCmd⟩,
    ⟨2, some .deleteWindowsCmd⟩, ⟨2, some .delayCmd⟩, ⟨1, none⟩, ⟨1, some .resetCmd⟩,
    ⟨3, some .setPenAttributesCmd⟩, ⟨4, some .setPenColorCmd⟩,
    ⟨3, some .setPenLocationCmd⟩, ⟨1, none⟩,
    ⟨1, none⟩, ⟨1, none⟩, ⟨1, none⟩, ⟨5, some .setWindowAttributesCmd⟩,
    ⟨7, some .defineWindowCmd⟩, ⟨7, some .defineWindowCmd⟩,
    ⟨7, some .defineWindowCmd⟩, ⟨7, some .defineWindowCmd⟩,
    ⟨7, some .defineWindowCmd⟩, ⟨7, some .defineWindowCmd⟩,
    ⟨7, some .defineWindowCmd⟩, ⟨7, some .defineWindowCmd⟩]

/-- The entry of a code, `DTVCCCmdMap[((u8CMD&0x80)>>2)|(u8CMD&0x1f)]`. -/
def cmdMap (u8CMD : UInt8) : CmdMap :=
  dtvccCmdMap.getD ((u8CMD &&& 0x80) >>> 2 ||| (u8CMD &&& 0x1f)).toNat ⟨1, none⟩

/-- A code of C0 or C1.  Every other byte is a caption character. -/
def IsCmd (u8ServiceData : UInt8) : Prop :=
  u8ServiceData < 0x20 ∨ 0x7f < u8ServiceData ∧ u8ServiceData < 0xa0

instance (b : UInt8) : Decidable (IsCmd b) := inferInstanceAs (Decidable (_ ∨ _))

/-- `_DtvCC_GetEXT1CmdLen`. -/
def getEXT1CmdLen (pu8Cmd : List UInt8) (s32AvalaibleLen : Nat) : Nat :=
  let u8ByteCode := get8 pu8Cmd 1
  if u8ByteCode ≤ 0x07 then 2
  else if u8ByteCode ≤ 0x0f then 3
  else if u8ByteCode ≤ 0x17 then 4
  else if u8ByteCode ≤ 0x1f then 5
  else if 0x80 ≤ u8ByteCode ∧ u8ByteCode ≤ 0x87 then 6
  else if 0x88 ≤ u8ByteCode ∧ u8ByteCode ≤ 0x8f then 7
  else if u8ByteCode &&& 0xf0 = 0x90 then
    if 3 ≤ s32AvalaibleLen then (get8 pu8Cmd 2 &&& 0x3f).toNat + 3 else s32AvalaibleLen + 1
  else 2

/-- The length of the command at `pu8Cmd`, of which `s32AvalaibleLen` bytes are there. -/
def cmdLen (pu8Cmd : List UInt8) (s32AvalaibleLen : Nat) : Nat :=
  if get8 pu8Cmd 0 = C0_EXT1 then getEXT1CmdLen pu8Cmd s32AvalaibleLen
  else (cmdMap (get8 pu8Cmd 0)).u8CMDLen

/-- The search of `_DtvCC_DetectRstDcCmd` and of `_DtvCC_CheckSvcBlockDataIntegrality`: the
    offset of the first complete command that is looked for, or of the first command that is
    not complete, or the end. -/
def searchCmd (stop : UInt8 → Bool) : Nat → List UInt8 → Nat × Option UInt8
  | 0, _ => (0, none)
  | _ + 1, [] => (0, none)
  | fuel + 1, u8Data :: rest =>
    if IsCmd u8Data then
      let s32CmdLen := cmdLen (u8Data :: rest) (rest.length + 1)
      if rest.length + 1 < s32CmdLen then (0, none)
      else if stop u8Data then (0, some u8Data)
      else
        let r := searchCmd stop fuel ((u8Data :: rest).drop s32CmdLen)
        (s32CmdLen + r.1, r.2)
    else
      let r := searchCmd stop fuel rest
      (1 + r.1, r.2)

/-- `_DtvCC_DetectRstDcCmd`: the offset it returns and `*pu8Cmd`. -/
def detectRstDcCmd (pu8buf : List UInt8) : Nat × UInt8 :=
  let r := searchCmd (fun b => b = C1_DLC ∨ b = C1_RST) pu8buf.length pu8buf
  (r.1, r.2.getD C0_NUL)

/-- `_DtvCC_CheckSvcBlockDataIntegrality`. -/
def checkSvcBlockDataIntegrality (pu8buf : List UInt8) : Nat :=
  (searchCmd (fun _ => false) pu8buf.length pu8buf).1

end Tntsat.Cc708
