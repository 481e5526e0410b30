import Tntsat.Native.Cc608Dec
import Tntsat.ForStd.Machine
import Mathlib.Algebra.Group.Nat.Defs
import Mathlib.Tactic.Common

/-!
# Doubled control codes of the caption library

`_CC608_DEC_Decode` tells the second copy of a control code by a flag that every repetition turns
over and by the code before. Both are static, and neither a code of the other channel nor text that
is not shown changes what the last code was. Two copies of a code are always handled once, whatever
flag and last code they meet: of two turns of the flag exactly one ends at zero.

## Key results

- `handled_selected`: from any state, two copies of a code of the selected channel are handled once
- `handled_once`: what is handled of a stream are the occurrences of the selected channel, in order
-/

namespace Tntsat.Cc608Dec

variable {σ : Type}

/-! ## Streams -/

/-- A valid control code. -/
structure ControlCode where
  data : UInt16
  parity : parityCorrect data = true
  valid : validationCheck (firstByte data) (secondByte data) = true

/-- The channel of a field that a control code belongs to. -/
def ControlCode.channel (c : ControlCode) : Int :=
  (((firstByte c.data >>> 3) &&& 1).toNat : Int)

/-- Text, a null pair or a pair of an XDS packet. -/
structure OtherPair where
  data : UInt16
  parity : parityCorrect data = true
  not_control : ¬ (0x10 ≤ firstByte data ∧ firstByte data ≤ 0x1f)

/-- What a stream is made of. -/
inductive Item
  | control (c : ControlCode)
  | other (p : OtherPair)

/-- The pairs that are transmitted, a control code twice. -/
def Item.pairs : Item → List UInt16
  | .control c => [c.data, c.data]
  | .other p => [p.data]

/-- The occurrences of control codes of one channel. -/
def occurrences (s32Channel : Int) : List Item → List UInt16
  | [] => []
  | .control c :: items =>
    if c.channel = s32Channel then c.data :: occurrences s32Channel items
    else occurrences s32Channel items
  | .other _ :: items => occurrences s32Channel items

/-! ## What is handled -/

/-- `_CC608_DEC_Decode` for one selection; the output is the control code that is handled and the
object it is handled on. -/
def decoder (h : Handlers σ) (bCaptionMode : Bool) (s32Channel s32FieldNum : Int) :
    Machine (Decoder σ) UInt16 (Option (UInt16 × Cc608Object σ)) where
  step dec u16Data :=
    ((decode h bCaptionMode s32Channel s32FieldNum dec u16Data).1,
      (decode h bCaptionMode s32Channel s32FieldNum dec u16Data).2.map (u16Data, ·))

/-- The control codes of a stream that are handled, each with the object. -/
def handled (h : Handlers σ) (bCaptionMode : Bool) (s32Channel s32FieldNum : Int)
    (dec : Decoder σ) (data : List UInt16) : List (UInt16 × Cc608Object σ) :=
  ((decoder h bCaptionMode s32Channel s32FieldNum).outputs dec data).filterMap id

/-- In the selected mode and behind an XDS packet, the object captures text. -/
def Captures (obj : Cc608Object σ) : Prop :=
  obj.enCurMode = obj.enVbiMode ∨ obj.enVbiMode = .xds → obj.u8IsCaptureText = true

variable {h : Handlers σ} {bCaptionMode : Bool} {s32Channel s32FieldNum : Int}

/-! ## Bytes -/

/-- What is valid has the bytes of a control code, and is none of those that the handlers leave
out. -/
theorem isControl_of_valid {b1 b2 : UInt16} (hvalid : validationCheck b1 b2 = true) :
    isControl b1 b2 = true ∧ ¬ (b1 = 0x10 ∧ b2 ≥ 0x60) := by
  unfold validationCheck at hvalid
  unfold isControl
  grind

theorem ControlCode.isControl (c : ControlCode) :
    Cc608Dec.isControl (firstByte c.data) (secondByte c.data) = true :=
  (isControl_of_valid c.valid).1

theorem ControlCode.not_text (c : ControlCode) :
    ¬ (firstByte c.data ≥ 0x20 ∧ firstByte c.data ≤ 0x7f) := by
  have hcontrol := c.isControl
  simp only [Cc608Dec.isControl, decide_eq_true_eq] at hcontrol
  grind

theorem not_isControl_zero (b1 : UInt16) : Cc608Dec.isControl b1 0 = false := by
  simp [Cc608Dec.isControl]

/-- The pair of a control code reaches the comparison with the last code as it is. -/
theorem ControlCode.decode_eq (c : ControlCode) (dec : Decoder σ) :
    decode h bCaptionMode s32Channel s32FieldNum dec c.data =
      decodeBytes h bCaptionMode s32Channel s32FieldNum c.data (firstByte c.data)
        (secondByte c.data) false dec.object dec.statics := by
  have hcontrol := c.isControl
  simp only [Cc608Dec.isControl, decide_eq_true_eq] at hcontrol
  have hne : firstByte c.data ≠ 0 := by grind
  have hge : ¬ (firstByte c.data > 0 ∧ firstByte c.data < 0x10) := by grind
  rw [decode, if_neg (by simp [c.parity]), if_neg fun hnull => hne hnull.1, if_neg hne,
    decodeFirst, if_neg hge]

/-! ## One pair -/

/-- Nothing is handled of a pair that is no control code. -/
theorem decodeBytes_of_not_control {u16Data b1 b2 : UInt16} {u8SkipOneByte : Bool}
    {obj : Cc608Object σ} {s : Statics} (hnot : Cc608Dec.isControl b1 b2 = false) :
    (decodeBytes h bCaptionMode s32Channel s32FieldNum u16Data b1 b2 u8SkipOneByte obj s).2 =
      none := by
  rw [decodeBytes]
  split
  case isTrue => rfl
  case isFalse => rw [if_neg (by simp [hnot])]

theorem decodeFirst_of_not_control {u16Data b1 b2 : UInt16} {u8SkipOneByte : Bool}
    {dec : Decoder σ} (hnot : Cc608Dec.isControl b1 b2 = false) :
    (decodeFirst h bCaptionMode s32Channel s32FieldNum u16Data b1 b2 u8SkipOneByte dec).2 =
      none := by
  rw [decodeFirst]
  split
  case isTrue =>
    split
    case isTrue => exact decodeBytes_of_not_control hnot
    case isFalse => exact decodeBytes_of_not_control (not_isControl_zero b2)
  case isFalse => exact decodeBytes_of_not_control hnot

/-- Text, a null pair and a pair of an XDS packet are not handled as control codes. -/
theorem decode_other (dec : Decoder σ) (p : OtherPair) :
    (decode h bCaptionMode s32Channel s32FieldNum dec p.data).2 = none := by
  have hnot : Cc608Dec.isControl (firstByte p.data) (secondByte p.data) = false := by
    have hout := p.not_control
    simp only [Cc608Dec.isControl, decide_eq_false_iff_not]
    grind
  rw [decode]
  split
  case isTrue => rfl
  case isFalse =>
    split
    case isTrue => rfl
    case isFalse =>
      split
      case isTrue => exact decodeFirst_of_not_control (not_isControl_zero _)
      case isFalse => exact decodeFirst_of_not_control hnot

/-- The channel decides what becomes of a control code that the repeat filter lets pass. -/
theorem ControlCode.decodeControl_eq (c : ControlCode) (obj : Cc608Object σ) (s : Statics) :
    decodeControl h bCaptionMode s32Channel s32FieldNum c.data (firstByte c.data)
        (secondByte c.data) obj s =
      if c.channel ≠ s32Channel then
        (⟨{ obj with u8IsCaptureText := false }, s⟩, none)
      else
        (⟨handle h bCaptionMode s32FieldNum s.u16PreData (firstByte c.data) (secondByte c.data)
            (prepare h (firstByte c.data) (secondByte c.data) obj),
          { s with u16PreData := 0, u16LastCode := c.data }⟩,
          some (prepare h (firstByte c.data) (secondByte c.data) obj)) := by
  have hleft := (isControl_of_valid c.valid).2
  rw [decodeControl, if_neg (by simp [c.valid]),
    if_neg (c := _ ∧ _) fun hout => hleft hout.2]
  rfl

/-- A control code of the other channel is not handled. -/
theorem decode_otherChannel (dec : Decoder σ) (c : ControlCode) (hch : c.channel ≠ s32Channel) :
    (decode h bCaptionMode s32Channel s32FieldNum dec c.data).2 = none := by
  rw [c.decode_eq, decodeBytes, if_neg c.not_text]
  split
  case isTrue => rw [c.decodeControl_eq, if_pos hch]
  case isFalse => rfl

/-- The object that a control code is handled on. -/
theorem captures_prepare (b1 b2 : UInt16) (obj : Cc608Object σ) : Captures (prepare h b1 b2 obj) := by
  unfold Captures prepare
  grind

/-- Whether the repeat filter lets a control code pass. -/
def Passes (s : Statics) (u16Data : UInt16) : Prop :=
  s.u16LastCode = u16Data → s.u8RepeatFlag ≠ 0

variable (h) (bCaptionMode) (s32FieldNum) in
/-- A control code of the selected channel that passes is handled, and remembered with the flag at
zero. -/
theorem decode_passes (dec : Decoder σ) (c : ControlCode) (hch : c.channel = s32Channel)
    (hpasses : Passes dec.statics c.data) :
    ∃ obj, (decode h bCaptionMode s32Channel s32FieldNum dec c.data).2 = some obj ∧ Captures obj ∧
      (decode h bCaptionMode s32Channel s32FieldNum dec c.data).1.statics =
        { u8RepeatFlag := 0, u16PreData := 0, u16LastCode := c.data } := by
  have hflag : repeatFlag dec.statics c.data (firstByte c.data) (secondByte c.data) = 0 := by
    rw [repeatFlag]
    split
    case isTrue hsame => exact if_neg (hpasses hsame.2)
    case isFalse => rfl
  rw [c.decode_eq, decodeBytes, if_neg c.not_text, if_pos ⟨c.isControl, Or.inr hflag⟩,
    c.decodeControl_eq, if_neg (not_not.mpr hch)]
  refine ⟨_, rfl, captures_prepare _ _ _, ?_⟩
  simp only [hflag]

variable (h) (bCaptionMode) (s32Channel) (s32FieldNum) in
/-- A control code that does not pass is not handled; it is remembered with the flag turned over. -/
theorem decode_not_passes (dec : Decoder σ) (c : ControlCode)
    (hpasses : ¬ Passes dec.statics c.data) :
    (decode h bCaptionMode s32Channel s32FieldNum dec c.data).2 = none ∧
      (decode h bCaptionMode s32Channel s32FieldNum dec c.data).1.statics =
        { dec.statics with u8RepeatFlag := 1, u16LastCode := c.data } := by
  obtain ⟨hsame, hzero⟩ := Classical.not_imp.mp hpasses
  have hflag : repeatFlag dec.statics c.data (firstByte c.data) (secondByte c.data) = 1 := by
    rw [repeatFlag, if_pos ⟨c.isControl, hsame⟩, if_pos (not_not.mp hzero)]
  have hdropped : ¬ (Cc608Dec.isControl (firstByte c.data) (secondByte c.data) = true ∧
      (c.data ≠ dec.statics.u16LastCode ∨ (1 : UInt8) = 0)) := by
    rintro ⟨-, hne | hone⟩
    · exact hne hsame.symm
    · exact absurd hone (by decide)
  rw [c.decode_eq, decodeBytes, if_neg c.not_text]
  simp only [hflag]
  rw [if_neg hdropped]
  exact ⟨rfl, rfl⟩

/-! ## Streams of pairs -/

theorem handled_append (dec : Decoder σ) (data data' : List UInt16) :
    handled h bCaptionMode s32Channel s32FieldNum dec (data ++ data') =
      handled h bCaptionMode s32Channel s32FieldNum dec data ++
        handled h bCaptionMode s32Channel s32FieldNum
          ((decoder h bCaptionMode s32Channel s32FieldNum).final dec data) data' := by
  rw [handled, Machine.outputs_append, List.filterMap_append]
  rfl

/-- What is handled of a pair and of the pairs behind it. -/
theorem handled_cons_none {dec : Decoder σ} {u16Data : UInt16} {data : List UInt16}
    (hnone : (decode h bCaptionMode s32Channel s32FieldNum dec u16Data).2 = none) :
    handled h bCaptionMode s32Channel s32FieldNum dec (u16Data :: data) =
      handled h bCaptionMode s32Channel s32FieldNum
        (decode h bCaptionMode s32Channel s32FieldNum dec u16Data).1 data := by
  simp [handled, decoder, hnone]

theorem handled_cons_some {dec : Decoder σ} {u16Data : UInt16} {data : List UInt16}
    {obj : Cc608Object σ}
    (hsome : (decode h bCaptionMode s32Channel s32FieldNum dec u16Data).2 = some obj) :
    handled h bCaptionMode s32Channel s32FieldNum dec (u16Data :: data) =
      (u16Data, obj) :: handled h bCaptionMode s32Channel s32FieldNum
        (decode h bCaptionMode s32Channel s32FieldNum dec u16Data).1 data := by
  simp [handled, decoder, hsome]

variable (h) (bCaptionMode) (s32FieldNum) in
/-- Two copies of a code of the selected channel are handled once, whatever came before. -/
theorem handled_selected (dec : Decoder σ) (c : ControlCode) (hch : c.channel = s32Channel) :
    ∃ obj, handled h bCaptionMode s32Channel s32FieldNum dec [c.data, c.data] = [(c.data, obj)] ∧
      Captures obj := by
  by_cases hpasses : Passes dec.statics c.data
  · -- the first copy is handled, and turns the flag from zero for the second
    obtain ⟨obj, hout, hcaptures, hstatics⟩ := decode_passes h bCaptionMode s32FieldNum dec c
      hch hpasses
    have hsecond : ¬ Passes (decode h bCaptionMode s32Channel s32FieldNum dec c.data).1.statics
        c.data := by
      rw [hstatics]
      exact fun hzero => hzero rfl rfl
    rw [handled_cons_some hout, handled_cons_none (decode_not_passes h bCaptionMode s32Channel s32FieldNum _ c hsecond).1]
    exact ⟨obj, rfl, hcaptures⟩
  · -- the first copy is dropped, and the second turns the flag back to zero
    obtain ⟨hout, hstatics⟩ := decode_not_passes h bCaptionMode s32Channel s32FieldNum dec c
      hpasses
    have hsecond : Passes (decode h bCaptionMode s32Channel s32FieldNum dec c.data).1.statics
        c.data := by
      rw [hstatics]
      exact fun _ => (by decide : (1 : UInt8) ≠ 0)
    obtain ⟨obj, hnext, hcaptures, -⟩ := decode_passes h bCaptionMode s32FieldNum _ c hch
      hsecond
    rw [handled_cons_none hout, handled_cons_some hnext]
    exact ⟨obj, rfl, hcaptures⟩

/-- What is handled of a stream, from any state. -/
theorem handled_eq_occurrences (dec : Decoder σ) (items : List Item) :
    (handled h bCaptionMode s32Channel s32FieldNum dec (items.flatMap Item.pairs)).map Prod.fst =
        occurrences s32Channel items ∧
      ∀ r ∈ handled h bCaptionMode s32Channel s32FieldNum dec (items.flatMap Item.pairs),
        Captures r.2 := by
  induction items generalizing dec with
  | nil => exact ⟨rfl, fun r hr => absurd hr List.not_mem_nil⟩
  | cons item items ih =>
    rw [List.flatMap_cons]
    cases item with
    | control c =>
      rw [handled_append, occurrences, Item.pairs]
      obtain ⟨hcodes, hcaptures⟩ :=
        ih ((decoder h bCaptionMode s32Channel s32FieldNum).final dec [c.data, c.data])
      by_cases hch : c.channel = s32Channel
      -- a code of the selected channel is handled once, at its first transmission
      · obtain ⟨obj, hout, hobj⟩ := handled_selected h bCaptionMode s32FieldNum dec c hch
        rw [if_pos hch, hout, List.map_append, hcodes]
        refine ⟨rfl, fun r hr => ?_⟩
        rcases List.mem_cons.mp hr with rfl | hrest
        · exact hobj
        · exact hcaptures r hrest
      -- one of another channel is not handled
      · have hout : handled h bCaptionMode s32Channel s32FieldNum dec [c.data, c.data] = [] := by
          rw [handled_cons_none (decode_otherChannel _ c hch),
            handled_cons_none (decode_otherChannel _ c hch)]
          rfl
        rw [if_neg hch, hout]
        exact ⟨hcodes, hcaptures⟩
    | other p =>
      rw [occurrences, Item.pairs, List.singleton_append, handled_cons_none (decode_other dec p)]
      exact ih _

end Tntsat.Cc608Dec
