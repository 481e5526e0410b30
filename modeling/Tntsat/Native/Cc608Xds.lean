import Tntsat.ForStd.Machine

/-!
# The XDS decoder of CEA-608

`CC608_XDS_XDSDecode` of `kware/cc/src/708/cc608/src/cc608_xds.c`, for one object.

The packet buffers are lists of the bytes written to them, so `u8PacketLen` and
`u8BackupPacketLen` are their lengths.  `enCurXDSClass` and `enBackupXDSClass` only hold
entries of `eXDSClassTable`, so they are never `MT_UNF_CC_XDS_CLASS_BUTT`.
-/

namespace Tntsat.Cc608Xds

/-- `MAX_XDS_PACKET_LEN`. -/
def maxXdsPacketLen : Nat := 0x21

/-- `CC608_XDS_MAX_TYPE`. -/
def cc608XdsMaxType : UInt8 := 0x44

/-- `CLASS_CURRENT_START`. -/
def classCurrentStart : UInt8 := 0x01

/-- `CLASS_PRIVATE_CONTINUE`. -/
def classPrivateContinue : UInt8 := 0x0e

/-- `CLASS_PACKET_END`. -/
def classPacketEnd : UInt8 := 0x0f

/-- `MT_UNF_CC_XDS_CLASS_E`. -/
inductive XdsClass
  | cur | fut | chan | misc | pub | resv | priv
deriving DecidableEq

/-- `eXDSClassTable`. -/
def eXDSClassTable : List XdsClass := [.cur, .fut, .chan, .misc, .pub, .resv, .priv]

/-- `XDS_OBJECT_S`. -/
structure XdsObject where
  u8IsPacketStarted : Bool := false
  enCurXDSClass : XdsClass := .cur
  u8CurXDSType : UInt8 := 0
  au8PacketData : List UInt8 := []
  u8IsBackupStarted : Bool := false
  enBackupXDSClass : XdsClass := .cur
  u8BackupXDSType : UInt8 := 0
  au8BackupPacketData : List UInt8 := []
deriving DecidableEq

/-- What `CCDISP_OutputXDSData` is given. -/
structure XdsData where
  u8XDSClass : XdsClass
  u8XDSPacketType : UInt8
  pu8Data : List UInt8
deriving DecidableEq

/-- What a call returns, `MT_SUCCESS` or `MT_FAILURE`, and the packet it outputs. -/
structure Decoded where
  success : Bool := true
  output : Option XdsData := none
deriving DecidableEq

/-- `_CC608_XDS_EndXDSPacket`. -/
def endXDSPacket (o : XdsObject) : Option XdsData :=
  if cc608XdsMaxType ≤ o.u8CurXDSType then none
  else if 0 < o.au8PacketData.length ∧ o.u8IsPacketStarted then
    some
      { u8XDSClass := o.enCurXDSClass
        u8XDSPacketType := o.u8CurXDSType
        pu8Data := o.au8PacketData }
  else none

/-- The packet that has ended makes room for the one in the backup buffer. -/
def restore (o : XdsObject) : XdsObject :=
  let o := { o with u8IsPacketStarted := false, u8CurXDSType := 0, au8PacketData := [] }
  if o.u8IsBackupStarted then
    { o with
      au8PacketData :=
        if o.au8BackupPacketData.length ≤ maxXdsPacketLen then o.au8BackupPacketData
        else o.au8PacketData
      enCurXDSClass := o.enBackupXDSClass
      u8CurXDSType := o.u8BackupXDSType
      au8BackupPacketData := []
      u8IsBackupStarted := false
      u8IsPacketStarted := true }
  else o

/-- A start code moves the packet in progress to the backup buffer. -/
def suspend (o : XdsObject) : XdsObject :=
  let o :=
    if o.u8IsPacketStarted then
      { o with
        au8BackupPacketData :=
          if o.au8PacketData.length ≤ maxXdsPacketLen then o.au8PacketData
          else o.au8BackupPacketData
        enBackupXDSClass := o.enCurXDSClass
        u8BackupXDSType := o.u8CurXDSType
        u8IsBackupStarted := true }
    else o
  { o with au8PacketData := [] }

/-- Neither zero nor a printable character. -/
def illegal (b : UInt8) : Prop := 0 < b ∧ b ≤ 0x1f

instance (b : UInt8) : Decidable (illegal b) := inferInstanceAs (Decidable (_ ∧ _))

/-- A data pair for the packet in progress. -/
def store (o : XdsObject) (b1 b2 : UInt8) : XdsObject × Decoded :=
  if illegal b1 ∨ illegal b2 then (o, { success := false })
  else if o.au8PacketData.length < maxXdsPacketLen - 2 then
    ({ o with au8PacketData := o.au8PacketData ++ [b1, b2] }, {})
  else if maxXdsPacketLen ≤ o.au8PacketData.length then
    ({ o with au8PacketData := [], u8IsPacketStarted := false }, {})
  else (o, {})

/-- `CC608_XDS_XDSDecode`. -/
def xdsDecode (o : XdsObject) (b1 b2 : UInt8) : XdsObject × Decoded :=
  if b1 = classPacketEnd then (restore o, { output := endXDSPacket o })
  else if classCurrentStart ≤ b1 ∧ b1 ≤ classPrivateContinue then
    let o := if b1 &&& 1 ≠ 0 then suspend o else o
    ({ o with
        u8IsPacketStarted := true
        enCurXDSClass := eXDSClassTable.getD ((b1.toNat - 1) >>> 1) .cur
        u8CurXDSType := b2 }, {})
  else if o.u8IsPacketStarted then store o b1 b2
  else (o, {})

end Tntsat.Cc608Xds
