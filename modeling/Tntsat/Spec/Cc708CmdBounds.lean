import Tntsat.Native.Cc708Checked
import Tntsat.Spec.Cc708Items
import Mathlib.Algebra.Group.Nat.Defs
import Mathlib.Tactic.Common

/-!
# The bounds of the CEA-708 coding layer

The coding layer collects a command that goes on in the next block in eight bytes, and caption
characters in 64 entries, without a look at either bound.

## Key results

- `parseServiceBlock_returns`: a block whose characters and commands find room is parsed
- `processServicefifo_returns`: so is a queue of such blocks
-/

namespace Tntsat.Cc708.Checked

variable (t : Ksc5601)

/-! ## What the coding layer does -/

/-- The indices of the service queue are those of its elements. -/
structure QueueInside (queue : TriQueue ServiceElement) : Prop where
  size : queue.Size = SERVICE_QUEUE_SIZE
  head : queue.Head < SERVICE_QUEUE_SIZE
  tail : queue.Tail < SERVICE_QUEUE_SIZE

theorem QueueInside.flush {queue : TriQueue ServiceElement} (h : QueueInside queue) :
    QueueInside queue.flush :=
  have hzero : 0 < SERVICE_QUEUE_SIZE := by decide
  ⟨h.size, hzero, hzero⟩

/-- The coding layer keeps the packet and the service block, keeps or flushes the queue, and has
its characters in the caption buffer. -/
structure Codes (o o' : Obj) : Prop where
  packet : o'.stPacket = o.stPacket
  block : o'.stServiceBlock = o.stServiceBlock
  queue : o'.stServiceQueue = o.stServiceQueue ∨ o'.stServiceQueue = o.stServiceQueue.flush
  caption : o'.stCaptionBuf.length ≤ CAPTION_BUF_SIZE

theorem Codes.refl {o : Obj} (h : o.stCaptionBuf.length ≤ CAPTION_BUF_SIZE) : Codes o o :=
  ⟨rfl, rfl, Or.inl rfl, h⟩

theorem Codes.trans {o₁ o₂ o₃ : Obj} (h : Codes o₁ o₂) (h' : Codes o₂ o₃) : Codes o₁ o₃ where
  packet := h'.packet.trans h.packet
  block := h'.block.trans h.block
  queue := by
    cases h'.queue with
    | inl heq => rw [heq]; exact h.queue
    | inr hflush =>
      rw [hflush]
      cases h.queue with
      | inl heq => rw [heq]; exact Or.inr rfl
      | inr hflush => rw [hflush]; exact Or.inr rfl
  caption := h'.caption

theorem Codes.queueInside {o o' : Obj} (h : Codes o o') (hqueue : QueueInside o.stServiceQueue) :
    QueueInside o'.stServiceQueue := by
  cases h.queue with
  | inl heq => rwa [heq]
  | inr hflush =>
    rw [hflush]
    exact hqueue.flush

theorem Codes.cmdBuffer {o o' : Obj} (h : Codes o o') (buf : CMDBuffer) :
    Codes o { o' with stCMDBuffer := buf } :=
  ⟨h.packet, h.block, h.queue, h.caption⟩

theorem Cursor.done_of_zero (s : Cursor) (h : s.left = 0) : s.done = true := decide_eq_true h

theorem Cursor.left_pos {s : Cursor} (h : s.done = false) : 0 < s.left := by
  simp only [Cursor.done, decide_eq_false_iff_not] at h
  omega

theorem within_eq {inside : Prop} [Decidable inside] (h : inside) (o : Obj) :
    within inside o = some o := if_pos h

/-! ## Commands and characters -/

/-- A command decoder puts a character into the caption buffer. -/
def Stores (pfn : Option Decoder) (pu8Cmd : List UInt8) : Prop :=
  (pfn = some .ext1Cmd ∧
      ¬ (get8 pu8Cmd 1 < 0x20 ∨ 0x80 ≤ get8 pu8Cmd 1 ∧ get8 pu8Cmd 1 < 0x90) ∧
      get8 pu8Cmd 1 &&& 0xf0 ≠ 0x90) ∨
    pfn = some .p16Cmd ∧ p16Unicode t pu8Cmd ≠ 0xfffd

instance (pfn : Option Decoder) (pu8Cmd : List UInt8) : Decidable (Stores t pfn pu8Cmd) :=
  inferInstanceAs (Decidable (_ ∨ _))

theorem length_store (o : Obj) (u16Caption : UInt16) :
    (o.store u16Caption).stCaptionBuf.length = o.stCaptionBuf.length + 1 := by
  rw [Obj.store, List.length_append, List.length_singleton]

/-- Where there is room, a character is put into the caption buffer. -/
theorem codes_store {o : Obj} (h : o.stCaptionBuf.length < CAPTION_BUF_SIZE) (u16Caption : UInt16) :
    Codes o (o.store u16Caption) :=
  ⟨rfl, rfl, Or.inl rfl, by rw [length_store]; exact h⟩

/-- A decoder has room for its character. -/
theorem callDecoder_returns {pfn : Option Decoder} {pu8Cmd : List UInt8} {o : Obj}
    (hcaption : o.stCaptionBuf.length ≤ CAPTION_BUF_SIZE)
    (hstores : Stores t pfn pu8Cmd → o.stCaptionBuf.length < CAPTION_BUF_SIZE) :
    callDecoder t pfn pu8Cmd o = some (Cc708.callDecoder t pfn pu8Cmd o).1 ∧
      Codes o (Cc708.callDecoder t pfn pu8Cmd o).1 := by
  have hcodes : Codes o (Cc708.callDecoder t pfn pu8Cmd o).1 := by
    cases pfn with
    | none => exact Codes.refl hcaption
    | some d =>
      cases d
      case ext1Cmd =>
        simp only [Cc708.callDecoder, Decoder.run, Cc708.ext1Cmd]
        split_ifs with hset hlong hg2
        · exact Codes.refl hcaption
        · exact Codes.refl hcaption
        all_goals exact codes_store (hstores (Or.inl ⟨rfl, hset, hlong⟩)) _
      case p16Cmd =>
        simp only [Cc708.callDecoder, Decoder.run, Cc708.p16Cmd]
        split_ifs with hchar
        · exact codes_store (hstores (Or.inr ⟨rfl, hchar⟩)) _
        · exact Codes.refl hcaption
      case resetCmd => exact ⟨rfl, rfl, Or.inr rfl, hcaption⟩
      all_goals exact ⟨rfl, rfl, Or.inl rfl, hcaption⟩
  exact ⟨within_eq hcodes.caption _, hcodes⟩

/-- What is asked of a round of the command loop: a character finds one of the 64 entries free, and
a command that goes on in the next block is eight bytes long here at most. -/
structure CmdFits (s : Cursor) : Prop where
  character : ¬ IsCmd (get8 s.p 0) → s.obj.stCaptionBuf.length < CAPTION_BUF_SIZE
  stored : IsCmd (get8 s.p 0) → cmdLen s.p s.left ≤ s.left →
    Stores t (cmdMap (get8 s.p 0)).pfnCmdDecoder s.p →
      s.obj.stCaptionBuf.length < CAPTION_BUF_SIZE
  cut : IsCmd (get8 s.p 0) → s.left < cmdLen s.p s.left → s.left ≤ 8

instance (s : Cursor) : Decidable (CmdFits t s) :=
  decidable_of_iff
    ((¬ IsCmd (get8 s.p 0) → s.obj.stCaptionBuf.length < CAPTION_BUF_SIZE) ∧
      (IsCmd (get8 s.p 0) → cmdLen s.p s.left ≤ s.left →
        Stores t (cmdMap (get8 s.p 0)).pfnCmdDecoder s.p →
          s.obj.stCaptionBuf.length < CAPTION_BUF_SIZE) ∧
      (IsCmd (get8 s.p 0) → s.left < cmdLen s.p s.left → s.left ≤ 8))
    ⟨fun h => ⟨h.1, h.2.1, h.2.2⟩, fun h => ⟨h.character, h.stored, h.cut⟩⟩

/-- Drawing empties the caption buffer or keeps it. -/
theorem codes_drawCaption (b : UInt8) {o : Obj} (h : o.stCaptionBuf.length ≤ CAPTION_BUF_SIZE) :
    Codes o (drawCaption b o).1 ∧
      (drawCaption b o).1.stCaptionBuf.length ≤ o.stCaptionBuf.length := by
  rw [drawCaption]
  split
  · exact ⟨⟨rfl, rfl, Or.inl rfl, Nat.zero_le _⟩, Nat.zero_le _⟩
  · exact ⟨Codes.refl h, Nat.le_refl _⟩

theorem parseCmd_returns {o : Obj} {s : Cursor} (hs : Codes o s.obj) (hdone : s.done = false)
    (hfits : CmdFits t s) :
    ∃ s', parseCmd t s = some s' ∧ Codes o s'.obj ∧ s'.left < s.left := by
  have hleft := Cursor.left_pos hdone
  rw [parseCmd]
  by_cases hcmd : IsCmd (get8 s.p 0)
  · simp only [if_pos hcmd]
    obtain ⟨hdraw, hle⟩ := codes_drawCaption (get8 s.p 0) hs.caption
    have hdrawn := hs.trans hdraw
    by_cases hcut : s.left < cmdLen s.p s.left
    -- the command is cut off and kept for the next block
    · have hroom := hfits.cut hcmd hcut
      rw [if_pos hcut, cmdMemcpy, within_eq (by omega)]
      exact ⟨_, rfl, hdrawn.cmdBuffer _, hleft⟩
    -- a whole one is decoded behind what has been drawn
    · obtain ⟨hcall, hcodes⟩ := callDecoder_returns t hdraw.caption fun hstores =>
        Nat.lt_of_le_of_lt hle (hfits.stored hcmd (by omega) hstores)
      have hpos := cmdLen_pos s.p s.left hleft
      rw [if_neg hcut, hcall]
      refine ⟨_, rfl, hdrawn.trans hcodes, ?_⟩
      show s.left - cmdLen s.p s.left < s.left
      omega
  · have hroom := hfits.character hcmd
    simp only [if_neg hcmd, store]
    rw [within_eq hroom]
    refine ⟨_, rfl, hs.trans (codes_store hroom _), ?_⟩
    show s.left - 1 < s.left
    omega

/-- The commands and characters of a block, in front of each of which the loop finds room. -/
def CmdsFit (s : Cursor) : Prop :=
  ∀ x ∈ whileHeads (parseCmd t) Cursor.done s.left s, CmdFits t x

instance (s : Cursor) : Decidable (CmdsFit t s) :=
  inferInstanceAs (Decidable (∀ _ ∈ _, _))

theorem parseCmds_returns {o : Obj} {s : Cursor} (hs : Codes o s.obj) (hfit : CmdsFit t s) :
    ∃ o', parseCmds t s = some o' ∧ Codes o o' := by
  obtain ⟨s', hs', hcodes⟩ := whileLoop_returns (I := fun x => Codes o x.obj) (m := Cursor.left)
    (fun x _ hzero => x.done_of_zero hzero)
    (fun x hx hdone hfits => parseCmd_returns t hx hdone hfits) hs (Nat.le_refl _) hfit
  exact ⟨s'.obj, by rw [parseCmds, hs', Option.map_some], hcodes⟩

/-! ## Blocks -/

/-- A command of the block before goes on. -/
def Unfinished (o : Obj) : Prop := o.stCMDBuffer.u8CurSize < o.stCMDBuffer.u8TotalSize

instance (o : Obj) : Decidable (Unfinished o) := inferInstanceAs (Decidable (_ < _))

/-- The bytes that it lacks. -/
def missing (o : Obj) : Nat := o.stCMDBuffer.u8TotalSize.toNat - o.stCMDBuffer.u8CurSize.toNat

/-- The object with the bytes of the next block that complete the command. -/
def completed (pu8Buf : List UInt8) (o : Obj) : Obj :=
  { o with
    stCMDBuffer :=
      o.stCMDBuffer.memcpy o.stCMDBuffer.u8CurSize.toNat (pu8Buf.take (missing o)) }

/-- The entry of the table under which a completed command is looked up: that of the first byte of
the block. -/
def resumedMap (pu8Buf : List UInt8) : CmdMap := cmdMap (get8 pu8Buf 0)

/-- Behind the decoder of a completed command the buffer is cleared. -/
def resumed (pu8Buf : List UInt8) (o : Obj) : Obj :=
  { (Cc708.callDecoder t (resumedMap pu8Buf).pfnCmdDecoder
      (completed pu8Buf o).stCMDBuffer.au8CMD (completed pu8Buf o)).1 with
    stCMDBuffer := {} }

/-- Without an unfinished command the buffer is cleared up to its size. -/
def cleared (o : Obj) : Obj :=
  { o with
    stCMDBuffer := { o.stCMDBuffer with au8CMD := List.replicate 8 0, u8CurSize := 0 } }

/-- What is asked of a block. What it adds to an unfinished command lies in the eight bytes, a
completed one finds room for its character, and so do the commands and characters behind it. -/
structure BlockFits (pu8Buf : List UInt8) (u8BufLen : Nat) (o : Obj) : Prop where
  added : Unfinished o → min o.stCMDBuffer.u8TotalSize.toNat
    (o.stCMDBuffer.u8CurSize.toNat + u8BufLen) ≤ 8
  stored : Unfinished o → missing o ≤ u8BufLen →
    Stores t (resumedMap pu8Buf).pfnCmdDecoder (completed pu8Buf o).stCMDBuffer.au8CMD →
      o.stCaptionBuf.length < CAPTION_BUF_SIZE
  behind : Unfinished o → missing o ≤ u8BufLen →
    CmdsFit t ⟨pu8Buf.drop (resumedMap pu8Buf).u8CMDLen,
      u8BufLen - (resumedMap pu8Buf).u8CMDLen, resumed t pu8Buf o⟩
  cmds : ¬ Unfinished o → CmdsFit t ⟨pu8Buf, u8BufLen, cleared o⟩

instance (pu8Buf : List UInt8) (u8BufLen : Nat) (o : Obj) :
    Decidable (BlockFits t pu8Buf u8BufLen o) :=
  decidable_of_iff
    ((Unfinished o → min o.stCMDBuffer.u8TotalSize.toNat
        (o.stCMDBuffer.u8CurSize.toNat + u8BufLen) ≤ 8) ∧
      (Unfinished o → missing o ≤ u8BufLen →
        Stores t (resumedMap pu8Buf).pfnCmdDecoder (completed pu8Buf o).stCMDBuffer.au8CMD →
          o.stCaptionBuf.length < CAPTION_BUF_SIZE) ∧
      (Unfinished o → missing o ≤ u8BufLen →
        CmdsFit t ⟨pu8Buf.drop (resumedMap pu8Buf).u8CMDLen,
          u8BufLen - (resumedMap pu8Buf).u8CMDLen, resumed t pu8Buf o⟩) ∧
      (¬ Unfinished o → CmdsFit t ⟨pu8Buf, u8BufLen, cleared o⟩))
    ⟨fun h => ⟨h.1, h.2.1, h.2.2.1, h.2.2.2⟩, fun h => ⟨h.added, h.stored, h.behind, h.cmds⟩⟩

theorem parseServiceBlock_returns {pu8Buf : List UInt8} {u8BufLen : Nat} {o : Obj}
    (hcaption : o.stCaptionBuf.length ≤ CAPTION_BUF_SIZE)
    (hfits : BlockFits t pu8Buf u8BufLen o) :
    ∃ o', parseServiceBlock t pu8Buf u8BufLen o = some o' ∧ Codes o o' := by
  have hrefl := Codes.refl hcaption
  rw [parseServiceBlock]
  by_cases hzero : u8BufLen = 0
  · exact ⟨o, if_pos hzero, hrefl⟩
  rw [if_neg hzero]
  dsimp only
  by_cases hunfinished : o.stCMDBuffer.u8CurSize < o.stCMDBuffer.u8TotalSize
  · have hadded := hfits.added hunfinished
    have hlt : o.stCMDBuffer.u8CurSize.toNat < o.stCMDBuffer.u8TotalSize.toNat := hunfinished
    rw [if_pos hunfinished]
    by_cases hwhole : missing o ≤ u8BufLen
    · have hroom : o.stCMDBuffer.u8CurSize.toNat + missing o ≤ 8 := by
        rw [missing] at hwhole ⊢
        omega
      have hcopy : cmdMemcpy o.stCMDBuffer.u8CurSize.toNat pu8Buf (missing o) o =
          some (completed pu8Buf o) := within_eq hroom _
      obtain ⟨hcall, hcodes⟩ := callDecoder_returns t (o := completed pu8Buf o) hcaption
        (hfits.stored hunfinished hwhole)
      rw [missing] at hcopy hwhole
      rw [resumedMap] at hcall
      rw [if_pos hwhole, hcopy, Option.bind_eq_bind, Option.bind_some, hcall, Option.bind_some]
      exact parseCmds_returns t ((hrefl.cmdBuffer _).trans (hcodes.cmdBuffer {}))
        (hfits.behind hunfinished hwhole)
    · -- the command goes on in the block behind this one
      have hroom : o.stCMDBuffer.u8CurSize.toNat + u8BufLen ≤ 8 := by
        rw [missing] at hwhole
        omega
      rw [missing] at hwhole
      rw [if_neg hwhole, cmdMemcpy, within_eq hroom]
      exact ⟨_, rfl, hrefl.cmdBuffer _⟩
  · rw [if_neg hunfinished]
    exact parseCmds_returns t (hrefl.cmdBuffer _) (hfits.cmds hunfinished)

/-! ## The queue -/

/-- The block at the tail of the queue finds room. -/
def RoundFits (o : Obj) : Prop :=
  ∀ element ∈ o.stServiceQueue.get,
    BlockFits t (o.au8ServiceData element.pu8Buffer) element.u8ServiceLen o

instance (o : Obj) : Decidable (RoundFits t o) := inferInstanceAs (Decidable (∀ _ ∈ _, _))

theorem get_eq {queue : TriQueue ServiceElement} (h : queue.Tail ≠ queue.Head) :
    queue.get = some (queue.Element queue.Tail) := if_neg h

/-- Behind a round the queue is shorter. -/
theorem getItemNum_remove_lt {queue : TriQueue ServiceElement} (hqueue : QueueInside queue)
    (h : queue.Tail ≠ queue.Head) : queue.remove.getItemNum < queue.getItemNum := by
  have hsize := hqueue.size
  have hhead := hqueue.head
  have htail := hqueue.tail
  simp only [SERVICE_QUEUE_SIZE] at hsize hhead htail
  simp only [TriQueue.remove, TriQueue.getItemNum, if_neg h, hsize]
  split_ifs <;> omega

theorem queueInside_remove {queue : TriQueue ServiceElement} (h : QueueInside queue) :
    QueueInside queue.remove := by
  rw [TriQueue.remove]
  split
  · exact h
  · refine ⟨h.size, h.head, ?_⟩
    show (queue.Tail + 1) % queue.Size < SERVICE_QUEUE_SIZE
    rw [h.size]
    exact Nat.mod_lt _ (by decide)

/-- Between two blocks the queue and the caption buffer are those that a run began with, as far as
the packets are concerned. -/
structure Between (o o' : Obj) : Prop where
  packet : o'.stPacket = o.stPacket
  block : o'.stServiceBlock = o.stServiceBlock
  queue : QueueInside o'.stServiceQueue
  caption : o'.stCaptionBuf.length ≤ CAPTION_BUF_SIZE

theorem processRound_returns {o₀ o : Obj} (h : Between o₀ o) (hdone : processDone o = false)
    (hfits : RoundFits t o) :
    ∃ o', processRound t o = some o' ∧ Between o₀ o' ∧
      o'.stServiceQueue.getItemNum < o.stServiceQueue.getItemNum := by
  have hne : o.stServiceQueue.Tail ≠ o.stServiceQueue.Head := by
    simp only [processDone, Bool.or_eq_false_iff, decide_eq_false_iff_not] at hdone
    exact hdone.2
  have hget := get_eq hne
  obtain ⟨o', ho', hcodes⟩ := parseServiceBlock_returns t h.caption (hfits _ hget)
  rw [processRound, hget, Option.bind_some, ho']
  refine ⟨_, rfl, ⟨hcodes.packet.trans h.packet, hcodes.block.trans h.block,
    queueInside_remove (hcodes.queueInside h.queue), hcodes.caption⟩, ?_⟩
  show o'.stServiceQueue.remove.getItemNum < _
  cases hcodes.queue with
  | inl heq =>
    rw [heq]
    exact getItemNum_remove_lt h.queue hne
  | inr hflush =>
    -- a Reset has flushed the queue
    rw [hflush]
    refine Nat.lt_of_le_of_lt (Nat.le_of_eq ?_) (Nat.lt_of_le_of_lt (Nat.zero_le _)
      (getItemNum_remove_lt h.queue hne))
    rfl

/-- `CC708_DEC_ProcessServicefifo` finds room for what it parses. -/
def ProcessFits (o : Obj) : Prop :=
  ∀ x ∈ whileHeads (processRound t) processDone o.stServiceQueue.getItemNum o, RoundFits t x

instance (o : Obj) : Decidable (ProcessFits t o) := inferInstanceAs (Decidable (∀ _ ∈ _, _))

theorem processServicefifo_returns {o : Obj} (hqueue : QueueInside o.stServiceQueue)
    (hcaption : o.stCaptionBuf.length ≤ CAPTION_BUF_SIZE) (hfits : ProcessFits t o) :
    ∃ o', processServicefifo t o = some o' ∧ Between o o' := by
  refine whileLoop_returns (m := fun x => x.stServiceQueue.getItemNum) (fun x hx hzero => ?_)
    (fun x hx hdone hround => processRound_returns t hx hdone hround)
    ⟨rfl, rfl, hqueue, hcaption⟩ (Nat.le_refl _) hfits
  have hempty : x.stServiceQueue.Tail = x.stServiceQueue.Head := by
    by_contra hne
    have hlt := getItemNum_remove_lt hx.queue hne
    omega
  simp [processDone, hempty]

end Tntsat.Cc708.Checked
