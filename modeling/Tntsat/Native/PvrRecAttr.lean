import Tntsat.Native.PvrIndex

/-!
# The configuration of a recording

`PVRRecCheckUserCfg` of `msp/api/pvr/mt_pvr_rec_ctrl.c`, with what
`MT_PVR_RecCreateChn` makes of an accepted configuration.  The fields are those
the two functions and `PVR_Index_CreatRec` read.  Other channels are a list, one
item for each that is not in the state `MT_UNF_PVR_REC_STATE_INVALID`.
-/

namespace Tntsat.PvrRec

open PvrIndex (IndexType fifoWriteBlockSize)

/-- `MT_UNF_PVR_STREAM_TYPE_E`. -/
inductive StreamType
  | ts | pes | allTs | other | butt
deriving DecidableEq

/-- `MT_UNF_PVR_CIPHER_S` without the key. -/
structure CipherCfg where
  bDoCipher : Bool := false
  enType : UInt32 := 0
  u32KeyLen : UInt32 := 0
deriving DecidableEq

/-- `MT_UNF_PVR_REC_ATTR_S`.  `szFileName` are the bytes before the final zero. -/
structure RecAttr where
  enIndexType : UInt32 := 1
  enIndexVidType : UInt32 := 0
  u32DemuxID : UInt32 := 0
  u32DavBufSize : UInt32 := 0
  u32ScdBufSize : UInt32 := 0
  u32UsrDataInfoSize : UInt32 := 0
  enStreamType : StreamType := .ts
  stEncryptCfg : CipherCfg := {}
  u64MaxFileSize : UInt64 := 0
  u64MaxTimeInMs : UInt64 := 0
  bRewind : Bool := false
  szFileName : List UInt8 := []
  u32FileNameLen : UInt32 := 0
  u32DIO : Bool := false
  bEnable_CTrec : Bool := false
  bSupportTimeShiftEvent : Bool := false
  u32TimeShiftEventLoopTimeInMs : UInt32 := 0
deriving DecidableEq

/-- What `PVRRecCheckUserCfg` returns when it does not return `MT_SUCCESS`. -/
inductive CfgErr
  | recInvalidDmxid
  | invalidPara
  | fileInvalidFname
  | recInvalidUdsize
  | recInvalidFsize
  | already
  | fileExist
deriving DecidableEq

/-- A channel that is in use, as the check of a new one sees it. -/
structure UsedChn where
  u32DemuxID : UInt32
  szFileName : List UInt8
deriving DecidableEq

/-! ## The limits -/

/-- `PVR_REC_MAX_DMXID`. -/
def recMaxDmxid : Nat := 4

/-- `MT_UNF_PVR_REC_INDEX_TYPE_BUTT`. -/
def indexTypeButt : Nat := 3

/-- `MT_UNF_VCODEC_TYPE_BUTT`. -/
def vcodecTypeButt : Nat := 40

/-- `MT_CIPHER_ALG_BUTT`, of `mt_unf_cipher_v2.h`. -/
def cipherAlgButt : Nat := 9

/-- `PVR_IOBLOCK`. -/
def ioblock : Nat := 64 * 1024

/-- `PVR_REC_MIN_DAV_BUF`. -/
def recMinDavBuf : Nat := 188 * 1024

/-- `PVR_REC_MAX_DAV_BUF`. -/
def recMaxDavBuf : Nat := 188 * 64 * 1024

/-- `PVR_REC_MIN_SC_BUF`. -/
def recMinScBuf : Nat := 7 * 4 * 1024

/-- `PVR_REC_MAX_SC_BUF`. -/
def recMaxScBuf : Nat := 188 * 64 * 1024

/-- `PVR_CIPHER_AES_KEY_LENGTH_BIT / 8`. -/
def cipherMinKeyLen : Nat := 128 / 8

/-- `PVR_MAX_CIPHER_KEY_LEN`. -/
def maxCipherKeyLen : Nat := 128

/-- `PVR_MAX_FILENAME_LEN`. -/
def maxFilenameLen : Nat := 256

/-- `PVR_MAX_USERDATA_LEN`. -/
def maxUserdataLen : Nat := 1024 * 1024

/-- `PVR_MIN_CYC_SIZE`. -/
def minCycSize : Nat := 50 * 1024 * 1024

/-- `PVR_MIN_CYC_TIMEMS`. -/
def minCycTimems : Nat := 5 * 1000

/-- `PVR_MIN_LOOP_REC_TIME_FOR_EVENT`. -/
def minLoopRecTimeForEvent : Nat := 30 * 60

/-! ## The check -/

/-- `align_size`: `least_common_multiple(PVR_IOBLOCK, 188)` for direct writes. -/
def RecAttr.alignSize (a : RecAttr) : Nat :=
  if a.u32DIO then Nat.lcm ioblock 188 else fifoWriteBlockSize

/-- A buffer size is aligned and within its limits. -/
def bufOk (size align lo hi : Nat) : Bool := size % align == 0 && lo ≤ size && size ≤ hi

/-- `PVR_CHECK_CIPHER_CFG`. -/
def CipherCfg.ok (c : CipherCfg) : Bool :=
  !c.bDoCipher ||
    (c.enType.toNat < cipherAlgButt && cipherMinKeyLen ≤ c.u32KeyLen.toNat &&
      c.u32KeyLen.toNat ≤ maxCipherKeyLen)

/-- A size or time that is given is not below its minimum; both branches of the
    check of cycle records test the same. -/
def RecAttr.limitsOk (a : RecAttr) : Bool :=
  !((0 < a.u64MaxFileSize.toNat && a.u64MaxFileSize.toNat < minCycSize) ||
    (0 < a.u64MaxTimeInMs.toNat && a.u64MaxTimeInMs.toNat < minCycTimems))

/-- The loop over the channels in use. -/
def checkChns (a : RecAttr) : List UsedChn → Option CfgErr
  | [] => none
  | c :: cs =>
    if c.u32DemuxID = a.u32DemuxID then some .already
    else if c.szFileName = a.szFileName then some .fileExist
    else checkChns a cs

/-- `PVRRecCheckUserCfg`; `none` is `MT_SUCCESS`. -/
def checkUserCfg (chns : List UsedChn) (a : RecAttr) : Option CfgErr :=
  if recMaxDmxid < a.u32DemuxID.toNat then some .recInvalidDmxid
  else if a.enStreamType ≠ .ts ∧ a.enStreamType ≠ .allTs then some .invalidPara
  else if a.enStreamType = .allTs ∧ (a.bRewind = true ∨ a.stEncryptCfg.bDoCipher = true) then
    some .invalidPara
  else if indexTypeButt ≤ a.enIndexType.toNat then some .invalidPara
  else if a.enIndexType.toNat = IndexType.video.toNat ∧ vcodecTypeButt ≤ a.enIndexVidType.toNat then
    some .invalidPara
  else if !bufOk a.u32DavBufSize.toNat a.alignSize recMinDavBuf recMaxDavBuf then some .invalidPara
  else if !bufOk a.u32ScdBufSize.toNat 188 recMinScBuf recMaxScBuf then some .invalidPara
  else if !a.stEncryptCfg.ok then some .invalidPara
  else if maxFilenameLen ≤ a.szFileName.length ∨ a.szFileName.length ≠ a.u32FileNameLen.toNat then
    some .fileInvalidFname
  else if maxUserdataLen < a.u32UsrDataInfoSize.toNat then some .recInvalidUdsize
  else if !a.limitsOk then some .recInvalidFsize
  else checkChns a chns

/-! ## What a channel is created with -/

/-- Whole blocks of a size. -/
def wholeBlocks (size : Nat) : Nat := size / fifoWriteBlockSize * fifoWriteBlockSize

/-- The attributes that `MT_PVR_RecCreateChn` keeps.  The size is cut to whole
    blocks, and a time shift that loops brings its own time. -/
def RecAttr.adjusted (a : RecAttr) : RecAttr :=
  let a := { a with u64MaxFileSize := .ofNat (wholeBlocks a.u64MaxFileSize.toNat) }
  if a.bSupportTimeShiftEvent ∧ a.bRewind ∧
      minLoopRecTimeForEvent ≤ a.u32TimeShiftEventLoopTimeInMs.toNat then
    { a with u64MaxTimeInMs := a.u32TimeShiftEventLoopTimeInMs.toUInt64 }
  else a

end Tntsat.PvrRec
