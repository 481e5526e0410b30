import Mathlib.Algebra.Group.Nat.Defs
import Mathlib.Data.UInt

/-!
# The CEA-608 decoder of the television caption library (`cc608_dec.c`)

`_CC608_DEC_Decode` takes one pair of bytes: text goes to `CC608_DATA_Caption`, a control code is
checked against the code before it and passed to the function that carries it out. The three
static variables of the function are `Statics`.

The functions that draw and that carry out commands are parameters: they may change everything of
the object but not the statics. Beside its result `decode` says on which object the code's handlers
have run.
-/

namespace Tntsat.Cc608Dec

/-- `CC608_MODE_E`. -/
inductive Mode
  | noCaption
  | caption
  | text
  | xds
deriving DecidableEq

/-- `CC608_DISP_STYLE_E`. -/
inductive DispStyle
  | paintOn
  | popOn
  | rollUp
deriving DecidableEq

/-- `CC608_VBI_FIELD2`; the other field is 1. -/
def cc608VbiField2 : Int := 0

/-- `CC608_AUTOERASE_TIMEOUT`. -/
def cc608AutoeraseTimeout : UInt32 := 16

/-- `CC608_OBJECT_S`; `rest` is what only the handlers read, with the timer. -/
structure Cc608Object (σ : Type) where
  enVbiMode : Mode
  enCurMode : Mode
  u8IsCaptureText : Bool
  u8IsTextShown : Bool
  enDispStyle : DispStyle
  /-- `stScreen.u8CurRow` -/
  u8CurRow : UInt8
  /-- `stScreen.u8CurColumn` -/
  u8CurColumn : UInt8
  u8CmdCount : UInt8
  bIgnoreBACWithoutSpace : Bool
  bOnlyUseSolidBlackBGIn608 : Bool
  rest : σ

/-- The functions that act on the object. -/
structure Handlers (σ : Type) where
  /-- `CC608_DATA_Caption` -/
  dataCaption : Cc608Object σ → List UInt16 → Cc608Object σ
  /-- `CC608_TimeoutErase_Start`, which starts a timer -/
  timeoutEraseStart : σ → UInt32 → σ
  /-- `CC608_DEC_PAC`, its last argument is 0 -/
  pac : Cc608Object σ → UInt16 → UInt16 → Cc608Object σ
  /-- `CC608_DEC_ExtCharSet` -/
  extCharSet : Cc608Object σ → UInt16 → UInt16 → UInt16 → Cc608Object σ
  /-- `CC608_DEC_Command` -/
  command : Cc608Object σ → Bool → UInt16 → UInt16 → Cc608Object σ

/-- The static variables of `_CC608_DEC_Decode`, as they are initialized. -/
structure Statics where
  u8RepeatFlag : UInt8 := 0
  u16PreData : UInt16 := 0
  u16LastCode : UInt16 := 0xff

/-- What a call of `_CC608_DEC_Decode` works on. -/
structure Decoder (σ : Type) where
  object : Cc608Object σ
  statics : Statics := {}

/-! ## Checks and tables -/

/-- `s_u16CC608Char2UnicodeMap`. -/
def cc608Char2UnicodeMap : Vector UInt16 96 :=
  #v[0x20, 0x21, 0x22, 0x23, 0x24, 0x25, 0x26, 0x27, 0x28, 0x29, 0xE1, 0x2B, 0x2C, 0x2D, 0x2E, 0x2F,
    0x30, 0x31, 0x32, 0x33, 0x34, 0x35, 0x36, 0x37, 0x38, 0x39, 0x3A, 0x3B, 0x3C, 0x3D, 0x3E, 0x3F,
    0x40, 0x41, 0x42, 0x43, 0x44, 0x45, 0x46, 0x47, 0x48, 0x49, 0x4A, 0x4B, 0x4C, 0x4D, 0x4E, 0x4F,
    0x50, 0x51, 0x52, 0x53, 0x54, 0x55, 0x56, 0x57, 0x58, 0x59, 0x5A, 0x5B, 0xE9, 0x5D, 0xED, 0xF3,
    0xFA, 0x61, 0x62, 0x63, 0x64, 0x65, 0x66, 0x67, 0x68, 0x69, 0x6A, 0x6B, 0x6C, 0x6D, 0x6E, 0x6F,
    0x70, 0x71, 0x72, 0x73, 0x74, 0x75, 0x76, 0x77, 0x78, 0x79, 0x7A, 0xE7, 0xF7, 0xD1, 0xF1, 0x2588]

/-- `_CC608_DEC_DecodeSpecialAscii`, for the characters that it is called for. -/
def decodeSpecialAscii (u8Caption : UInt16) : UInt16 :=
  cc608Char2UnicodeMap.getD (u8Caption.toNat - 0x20) 0

/-- `_CC608_DEC_ValidationCheck`. -/
def validationCheck (b1 b2 : UInt16) : Bool :=
  if b1 = 0x10 ∨ b1 = 0x18 then
    (b2 ≥ 0x20 ∧ b2 ≤ 0x2f) ∨ (b2 ≥ 0x40 ∧ b2 ≤ 0x5f)
  else if b1 = 0x11 ∨ b1 = 0x19 ∨ b1 = 0x12 ∨ b1 = 0x1a ∨ b1 = 0x13 ∨ b1 = 0x1b then
    b2 ≥ 0x20 ∧ b2 ≤ 0x7f
  else if b1 = 0x14 ∨ b1 = 0x1c ∨ b1 = 0x15 ∨ b1 = 0x1d then
    (b2 ≥ 0x20 ∧ b2 ≤ 0x2f) ∨ (b2 ≥ 0x40 ∧ b2 ≤ 0x7f)
  else if b1 = 0x16 ∨ b1 = 0x1e then
    b2 ≥ 0x40 ∧ b2 ≤ 0x7f
  else if b1 = 0x17 ∨ b1 = 0x1f then
    (b2 ≥ 0x21 ∧ b2 ≤ 0x2f ∧ b2 ≠ 0x2b) ∨ (b2 ≥ 0x40 ∧ b2 ≤ 0x7f)
  else
    false

/-- `oddParityCheck`, the loop with `k` rounds left. -/
def oddParityLoop : Nat → UInt16 → UInt16 → UInt16
  | 0, _, chk => chk &&& 1
  | k + 1, b, chk => oddParityLoop k (b >>> 1) (chk ^^^ ((b >>> 1) &&& 1))

/-- `oddParityCheck`. -/
def oddParityCheck (b : UInt16) : UInt16 :=
  oddParityLoop 7 b (b &&& 1)

variable {σ : Type}

/-- Whether `CC608_DATA_CheckRowColumnValidation` returns `MT_SUCCESS`. -/
def checkRowColumnValidation (obj : Cc608Object σ) : Bool :=
  obj.enDispStyle = .popOn ∨ ¬ (obj.u8CurRow = 0xff ∨ obj.u8CurColumn = 0xff)

/-! ## `_CC608_DEC_Decode` -/

/-- `pstObject->u8CmdCount += 1` in the style that stores captions. -/
def countCommand (obj : Cc608Object σ) : Cc608Object σ :=
  if obj.enDispStyle = .popOn then { obj with u8CmdCount := obj.u8CmdCount + 1 } else obj

/-- A background attribute. -/
def backgroundAttribute (h : Handlers σ) (u16PreData b1 b2 : UInt16) (obj : Cc608Object σ) :
    Cc608Object σ :=
  let obj := countCommand obj
  if u16PreData = 0x20 ∨ !obj.bIgnoreBACWithoutSpace then
    h.dataCaption obj [(b1 <<< 8) ||| b2]
  else
    obj

/-- What is done with a control code of the selected channel: `if (b2 & 0x40)` and its `else`. -/
def handle (h : Handlers σ) (bCaptionMode : Bool) (s32FieldNum : Int) (u16PreData b1 b2 : UInt16)
    (obj : Cc608Object σ) : Cc608Object σ :=
  if b2 &&& 0x40 ≠ 0 then
    if obj.u8IsCaptureText then h.pac { obj with u8CmdCount := 0 } b1 b2 else obj
  else if b1 &&& 0x07 = 0x00 then
    if obj.u8IsCaptureText ∧ b2 ≥ 0x20 ∧ b2 ≤ 0x2f ∧ checkRowColumnValidation obj ∧
        !obj.bOnlyUseSolidBlackBGIn608 then
      backgroundAttribute h u16PreData b1 b2 obj
    else
      obj
  else if b1 &&& 0x07 = 0x01 then
    if obj.u8IsCaptureText ∧ checkRowColumnValidation obj then
      if b2 &&& 0x70 = 0x20 then h.dataCaption obj [0x1100 ||| b2]
      else if b2 &&& 0x70 = 0x30 then h.extCharSet obj u16PreData b1 b2
      else obj
    else
      obj
  else if b1 &&& 0x07 = 0x02 ∨ b1 &&& 0x07 = 0x03 then
    if obj.u8IsCaptureText ∧ checkRowColumnValidation obj then h.extCharSet obj u16PreData b1 b2
    else obj
  else if b1 &&& 0x07 = 0x04 then
    if b2 ≥ 0x20 ∧ b2 ≤ 0x2f then h.command (countCommand obj) bCaptionMode b1 b2 else obj
  else if b1 &&& 0x07 = 0x05 then
    if b2 ≥ 0x20 ∧ b2 ≤ 0x2f ∧ s32FieldNum = cc608VbiField2 then
      h.command (countCommand obj) bCaptionMode b1 b2
    else
      obj
  else if b1 &&& 0x07 = 0x07 then
    if b2 ≥ 0x21 ∧ b2 ≤ 0x23 then
      h.command obj bCaptionMode b1 b2
    else if b2 ≥ 0x2d ∧ b2 ≤ 0x2f ∧ !obj.bOnlyUseSolidBlackBGIn608 ∧ obj.u8IsCaptureText ∧
        checkRowColumnValidation obj then
      backgroundAttribute h u16PreData b1 b2 obj
    else
      obj
  else
    obj

/-- `EDM`, the only command that shows no text. -/
def isEdm (b1 b2 : UInt16) : Bool :=
  (b1 &&& 0x17 = 0x14 ∨ b1 &&& 0x17 = 0x15) ∧ b2 = 0x2c

/-- `u8IsCaptureText`, `u8IsTextShown` and the timer of a control code of the selected channel. -/
def prepare (h : Handlers σ) (b1 b2 : UInt16) (obj : Cc608Object σ) : Cc608Object σ :=
  let obj := if obj.enCurMode = obj.enVbiMode then { obj with u8IsCaptureText := true } else obj
  let obj := if obj.enVbiMode = .xds then { obj with u8IsCaptureText := true } else obj
  let obj := if isEdm b1 b2 then obj else { obj with u8IsTextShown := true }
  { obj with rest := h.timeoutEraseStart obj.rest cc608AutoeraseTimeout }

/-- The characters of a text pair. -/
def textChars (b1 b2 : UInt16) (u8SkipOneByte : Bool) : List UInt16 :=
  if b1 = 0x20 ∧ b2 = 0 ∧ u8SkipOneByte then []
  else if b2 > 31 then [decodeSpecialAscii b1, decodeSpecialAscii b2]
  else [decodeSpecialAscii b1]

/-- A control code that the repeat filter lets pass. -/
def decodeControl (h : Handlers σ) (bCaptionMode : Bool) (s32Channel s32FieldNum : Int)
    (u16Data b1 b2 : UInt16) (obj : Cc608Object σ) (s : Statics) :
    Decoder σ × Option (Cc608Object σ) :=
  if !validationCheck b1 b2 then
    (⟨obj, s⟩, none)
  else if (((b1 >>> 3) &&& 1).toNat : Int) ≠ s32Channel then
    (⟨{ obj with u8IsCaptureText := false }, s⟩, none)
  else if b2 &&& 0x40 ≠ 0 ∧ b1 = 0x10 ∧ b2 ≥ 0x60 then
    (⟨prepare h b1 b2 obj, s⟩, none)
  else
    (⟨handle h bCaptionMode s32FieldNum s.u16PreData b1 b2 (prepare h b1 b2 obj),
      { s with u16PreData := 0, u16LastCode := u16Data }⟩, some (prepare h b1 b2 obj))

/-- A text pair. -/
def decodeText (h : Handlers σ) (u16Data b1 b2 : UInt16) (u8SkipOneByte : Bool)
    (obj : Cc608Object σ) (s : Statics) : Decoder σ :=
  if obj.u8IsCaptureText ∧ checkRowColumnValidation obj then
    let obj :=
      if textChars b1 b2 u8SkipOneByte ≠ [] then
        h.dataCaption obj (textChars b1 b2 u8SkipOneByte)
      else
        obj
    ⟨{ obj with u8IsTextShown := true },
      { s with u16PreData := if b2 > 31 then b2 else b1, u16LastCode := u16Data }⟩
  else
    ⟨obj, s⟩

/-- A pair with the first byte of a control code. -/
def isControl (b1 b2 : UInt16) : Bool := b1 ≤ 0x1f ∧ b1 ≥ 0x10 ∧ b2 > 0x1f

/-- `u8RepeatFlag` after the comparison with the last code. -/
def repeatFlag (s : Statics) (u16Data b1 b2 : UInt16) : UInt8 :=
  if isControl b1 b2 ∧ s.u16LastCode = u16Data then
    if s.u8RepeatFlag = 0 then 1 else 0
  else
    0

/-- The end of `_CC608_DEC_Decode`, from the comparison of the modes. -/
def decodeBytes (h : Handlers σ) (bCaptionMode : Bool) (s32Channel s32FieldNum : Int)
    (u16Data b1 b2 : UInt16) (u8SkipOneByte : Bool) (obj : Cc608Object σ) (s : Statics) :
    Decoder σ × Option (Cc608Object σ) :=
  let obj := if obj.enCurMode ≠ obj.enVbiMode then { obj with u8IsCaptureText := false } else obj
  let s := { s with u8RepeatFlag := repeatFlag s u16Data b1 b2 }
  if b1 ≥ 0x20 ∧ b1 ≤ 0x7f then
    (decodeText h u16Data b1 b2 u8SkipOneByte obj s, none)
  else if isControl b1 b2 ∧ (u16Data ≠ s.u16LastCode ∨ s.u8RepeatFlag = 0) then
    decodeControl h bCaptionMode s32Channel s32FieldNum u16Data b1 b2 obj s
  else
    (⟨obj, { s with u16LastCode := u16Data }⟩, none)

/-- The first byte of a pair is that of an XDS packet. -/
def decodeFirst (h : Handlers σ) (bCaptionMode : Bool) (s32Channel s32FieldNum : Int)
    (u16Data b1 b2 : UInt16) (u8SkipOneByte : Bool) (dec : Decoder σ) :
    Decoder σ × Option (Cc608Object σ) :=
  if b1 > 0 ∧ b1 < 0x10 then
    if s32FieldNum = cc608VbiField2 then
      decodeBytes h bCaptionMode s32Channel s32FieldNum u16Data b1 b2 u8SkipOneByte
        { dec.object with u8IsCaptureText := false, enVbiMode := .xds } dec.statics
    else
      decodeBytes h bCaptionMode s32Channel s32FieldNum u16Data b2 0 u8SkipOneByte dec.object
        dec.statics
  else
    decodeBytes h bCaptionMode s32Channel s32FieldNum u16Data b1 b2 u8SkipOneByte dec.object
      dec.statics

/-- The first byte of a pair without its parity. -/
def firstByte (u16Data : UInt16) : UInt16 := (u16Data >>> 8) &&& 0x7f

/-- The second byte of a pair without its parity. -/
def secondByte (u16Data : UInt16) : UInt16 := u16Data &&& 0x7f

/-- Both bytes of a pair have an odd number of ones. -/
def parityCorrect (u16Data : UInt16) : Bool :=
  ¬ (oddParityCheck ((u16Data >>> 8) &&& 0xff) = 0 ∨ oddParityCheck (u16Data &&& 0xff) = 0)

/-- `_CC608_DEC_Decode`, with the object that the handlers of a control code have been given. -/
def decode (h : Handlers σ) (bCaptionMode : Bool) (s32Channel s32FieldNum : Int)
    (dec : Decoder σ) (u16Data : UInt16) : Decoder σ × Option (Cc608Object σ) :=
  if !parityCorrect u16Data then
    (dec, none)
  else if firstByte u16Data = 0 ∧ secondByte u16Data = 0 then
    (dec, none)
  else if firstByte u16Data = 0 then
    decodeFirst h bCaptionMode s32Channel s32FieldNum u16Data (secondByte u16Data) 0 true dec
  else
    decodeFirst h bCaptionMode s32Channel s32FieldNum u16Data (firstByte u16Data)
      (secondByte u16Data) false dec

end Tntsat.Cc608Dec
