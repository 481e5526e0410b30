import Tntsat.Spec.Cc708CmdBounds
import Tntsat.Spec.Cc708Packets

/-!
# The bounds of the CEA-708 packet layer

The packet, the service block and the service queue are written inside whatever the packets carry:
a packet is not longer than its 128 bytes, a service block than 31 of its 32, and an element of the
queue has an array of its own.

## Key results

- `parsePacket_returns`: a packet is parsed within its rounds
- `endPacket_returns`: behind it the next one begins at the start of the array
-/

namespace Tntsat.Cc708.Checked

/-! ## What holds between two calls -/

/-- The packet collects its bytes up to its size, which is at most that of its array. -/
structure PacketInside (packet : Packet) : Prop where
  cur_le : packet.u8CurSize ≤ packet.u8TotalSize
  total_le : packet.u8TotalSize ≤ MAX_DTVCC_PACKET_LEN

/-- The service block collects its bytes up to its size. -/
structure BlockInside (block : ServiceBlock) : Prop where
  cur_le : block.u8CurSize ≤ block.u8ServiceSize
  size_le : block.u8ServiceSize ≤ 31

/-- The counters and indices of the decoder are those of its arrays. -/
structure Bounded (o : Obj) : Prop where
  packet : PacketInside o.stPacket
  block : BlockInside o.stServiceBlock
  queue : QueueInside o.stServiceQueue
  caption : o.stCaptionBuf.length ≤ CAPTION_BUF_SIZE

theorem packetInside_empty : PacketInside {} := ⟨Nat.le_refl 0, Nat.zero_le _⟩

theorem blockInside_empty (u8Data : List UInt8) : BlockInside { u8Data } :=
  ⟨Nat.le_refl 0, Nat.zero_le _⟩

theorem Between.bounded {o o' : Obj} (h : Between o o') (hpacket : PacketInside o.stPacket)
    (hblock : BlockInside o.stServiceBlock) : Bounded o' :=
  ⟨h.packet ▸ hpacket, h.block ▸ hblock, h.queue, h.caption⟩

/-! ## The queue is filled -/

/-- An insertion moves the head by one element, or does nothing. -/
theorem queueInside_insert {queue queue' : TriQueue ServiceElement} (h : QueueInside queue)
    {element : ServiceElement} (hinsert : queue.insert element = some queue') :
    QueueInside queue' := by
  rw [TriQueue.insert] at hinsert
  split at hinsert
  · cases hinsert
  · cases hinsert
    refine ⟨h.size, ?_, h.tail⟩
    show (queue.Head + 1) % queue.Size < SERVICE_QUEUE_SIZE
    rw [h.size]
    exact Nat.mod_lt _ (by decide)

theorem insertServiceData_returns (block : List UInt8) {o : Obj} (hblock : block.length ≤ 32)
    (hqueue : QueueInside o.stServiceQueue) (hcaption : o.stCaptionBuf.length ≤ CAPTION_BUF_SIZE) :
    ∃ o', insertServiceData block o = some o' ∧ Between o o' := by
  refine ⟨_, within_eq ⟨hqueue.head, hblock⟩ _, ?_⟩
  rw [insertServiceData_frame]
  refine ⟨rfl, rfl, ?_, hcaption⟩
  show QueueInside (Cc708.insertServiceData block o).stServiceQueue
  rw [Cc708.insertServiceData]
  split
  · dsimp only
    split
    case h_1 queue' hinsert => exact queueInside_insert hqueue hinsert
    case h_2 => exact hqueue
  · exact hqueue

theorem putServiceDataToFIFO_returns (block : List UInt8) {o : Obj} (hblock : block.length ≤ 32)
    (hqueue : QueueInside o.stServiceQueue) (hcaption : o.stCaptionBuf.length ≤ CAPTION_BUF_SIZE) :
    ∃ o', putServiceDataToFIFO block o = some o' ∧ Between o o' := by
  rw [putServiceDataToFIFO]
  split
  · -- a Reset flushes the queue first
    rw [within_eq hblock, Option.bind_some]
    obtain ⟨o', ho', hbetween⟩ := insertServiceData_returns
      (block.drop ((detectRstDcCmd block).1 + 1))
      (o := { o with u8IsDelay := false, delayTimer := none }.osdReset)
      (by rw [List.length_drop]; omega) hqueue.flush hcaption
    exact ⟨o', ho', hbetween.packet, hbetween.block, hbetween.queue, hbetween.caption⟩
  split
  · obtain ⟨o', ho', hbetween⟩ := insertServiceData_returns block
      (o := { o with u8IsDelay := false, delayTimer := none }) hblock hqueue hcaption
    exact ⟨o', ho', hbetween.packet, hbetween.block, hbetween.queue, hbetween.caption⟩
  · exact insertServiceData_returns block hblock hqueue hcaption

/-! ## Service blocks -/

/-- Where a packet is parsed: the bytes that are left, twice, and one for a block that has begun. -/
def roundsLeft (s : Cursor) : Nat :=
  if s.left = 0 then 0 else 2 * s.left + if s.obj.bServiceBlockEnded then 0 else 1

theorem roundsLeft_of_zero {s : Cursor} (h : s.left = 0) : roundsLeft s = 0 := if_pos h

theorem parseHeader_bounded {s : Cursor} (h : Bounded s.obj) : Bounded (parseHeader s).obj := by
  have hsize : (get8 s.p 0 &&& 0x1f).toNat ≤ 31 := by
    rw [UInt8.toNat_and]
    exact Nat.and_le_right
  have hreset : Bounded s.obj.decReset :=
    ⟨packetInside_empty, blockInside_empty _, h.queue, h.caption⟩
  have hblock : ∀ u8ServiceNo, Bounded { s.obj with
      stServiceBlock :=
        { s.obj.stServiceBlock with
          u8ServiceNo, u8ServiceSize := (get8 s.p 0 &&& 0x1f).toNat, u8CurSize := 0 }
      bServiceBlockEnded := false } :=
    fun _ => ⟨h.packet, ⟨Nat.zero_le _, hsize⟩, h.queue, h.caption⟩
  rw [parseHeader]
  dsimp only
  split_ifs <;> first | exact h | exact hreset | exact hblock _

theorem parseHeader_left {s : Cursor} (hleft : 0 < s.left)
    (hended : s.obj.bServiceBlockEnded = true) : roundsLeft (parseHeader s) < roundsLeft s := by
  have hs : roundsLeft s = 2 * s.left := by
    rw [roundsLeft, if_neg (by omega), hended, if_pos rfl]
    rfl
  have hlt : (parseHeader s).left < s.left := by
    rw [parseHeader]
    dsimp only
    split_ifs <;> dsimp only <;> omega
  rw [hs, roundsLeft]
  split_ifs <;> omega

/-- Copying into the service block keeps its counters. -/
theorem blockMemcpy_returns {p : List UInt8} {n : Nat} {o : Obj} (h : Bounded o)
    (hn : o.stServiceBlock.u8CurSize + n ≤ o.stServiceBlock.u8ServiceSize) :
    ∃ o', blockMemcpy p n o = some o' ∧ Bounded o' ∧ o'.bServiceBlockEnded = o.bServiceBlockEnded ∧
      o'.stServiceBlock.u8CurSize = o.stServiceBlock.u8CurSize ∧
      o'.stServiceBlock.u8ServiceSize = o.stServiceBlock.u8ServiceSize := by
  have hsize := h.block.size_le
  refine ⟨_, within_eq (by omega) _, ⟨h.packet, ?_, h.queue, h.caption⟩, rfl, rfl, rfl⟩
  exact ⟨h.block.cur_le, hsize⟩

theorem keepBlock_returns {s : Cursor} (h : Bounded s.obj)
    (hleft : s.left < s.obj.stServiceBlock.u8ServiceSize - s.obj.stServiceBlock.u8CurSize) :
    ∃ s', keepBlock s = some s' ∧ Bounded s'.obj ∧ s'.left = 0 := by
  obtain ⟨o, ho, hbounded, -, hcur, hsize⟩ :=
    blockMemcpy_returns (p := s.p) (n := s.left) h (by omega)
  have hle := hbounded.block.size_le
  rw [keepBlock, ho, Option.bind_eq_bind, Option.bind_some]
  dsimp only
  have hblock : BlockInside
      { o.stServiceBlock with u8CurSize := o.stServiceBlock.u8CurSize + s.left } :=
    ⟨by show o.stServiceBlock.u8CurSize + s.left ≤ o.stServiceBlock.u8ServiceSize; omega, hle⟩
  split
  · exact ⟨_, rfl, ⟨hbounded.packet, hblock, hbounded.queue, hbounded.caption⟩, rfl⟩
  · obtain ⟨o', ho', hbetween⟩ := putServiceDataToFIFO_returns
      (o.stServiceBlock.u8Data.take (o.stServiceBlock.u8CurSize + s.left))
      (o := { o with
        stServiceBlock :=
          { o.stServiceBlock with u8CurSize := o.stServiceBlock.u8CurSize + s.left } })
      (by rw [List.length_take]; omega) hbounded.queue hbounded.caption
    have hkept := hbetween.bounded hbounded.packet hblock
    rw [ho']
    refine ⟨_, rfl, ⟨hkept.packet, ⟨Nat.zero_le _, ?_⟩, hkept.queue, hkept.caption⟩, rfl⟩
    have hsize' := hkept.block.size_le
    show o'.stServiceBlock.u8ServiceSize - o'.stServiceBlock.u8CurSize ≤ 31
    omega

theorem endBlock_returns {s : Cursor} (h : Bounded s.obj) :
    ∃ s', endBlock (s.obj.stServiceBlock.u8ServiceSize - s.obj.stServiceBlock.u8CurSize) s =
        some s' ∧
      Bounded s'.obj ∧ s'.obj.bServiceBlockEnded = true ∧ s'.left ≤ s.left := by
  have hcur := h.block.cur_le
  obtain ⟨o, ho, hbounded, -, -, hsize⟩ := blockMemcpy_returns (p := s.p)
    (n := s.obj.stServiceBlock.u8ServiceSize - s.obj.stServiceBlock.u8CurSize) h (by omega)
  have hle := hbounded.block.size_le
  obtain ⟨o', ho', hbetween⟩ := putServiceDataToFIFO_returns
    (o.stServiceBlock.u8Data.take o.stServiceBlock.u8ServiceSize) (o := o)
    (by rw [List.length_take]; omega) hbounded.queue hbounded.caption
  have hkept := hbetween.bounded hbounded.packet hbounded.block
  rw [endBlock, ho, Option.bind_eq_bind, Option.bind_some, ho', Option.bind_some]
  exact ⟨_, rfl, ⟨hkept.packet, blockInside_empty _, hkept.queue, hkept.caption⟩, rfl,
    Nat.sub_le _ _⟩

theorem packetRound_returns {s : Cursor} (h : Bounded s.obj) (hdone : s.done = false) :
    ∃ s', packetRound s = some s' ∧ Bounded s'.obj ∧ roundsLeft s' < roundsLeft s := by
  have hleft := Cursor.left_pos hdone
  rw [packetRound]
  dsimp only
  cases hended : s.obj.bServiceBlockEnded with
  | true => exact ⟨_, rfl, parseHeader_bounded h, parseHeader_left hleft hended⟩
  | false =>
    have hs : roundsLeft s = 2 * s.left + 1 := by
      rw [roundsLeft, if_neg (by omega), hended]
      rfl
    -- a block that goes on ends the packet, a whole one is followed by a header
    have hstop : ∀ s' : Cursor, s'.left = 0 → roundsLeft s' < roundsLeft s := fun s' hzero => by
      rw [roundsLeft_of_zero hzero]
      omega
    have hend : ∀ s' : Cursor, s'.obj.bServiceBlockEnded = true → s'.left ≤ s.left →
        roundsLeft s' < roundsLeft s := fun s' hended' hle => by
      rw [hs, roundsLeft, hended', if_pos rfl]
      split_ifs <;> omega
    rw [if_neg Bool.false_ne_true]
    split
    · split
      case isTrue hlt =>
        obtain ⟨s', hs', hbounded, hzero⟩ := keepBlock_returns h hlt
        exact ⟨s', hs', hbounded, hstop s' hzero⟩
      case isFalse =>
        obtain ⟨s', hs', hbounded, hended', hle⟩ := endBlock_returns h
        exact ⟨s', hs', hbounded, hend s' hended' hle⟩
    · split
      case isTrue hlt =>
        have hblock : BlockInside { s.obj.stServiceBlock with
            u8CurSize := s.obj.stServiceBlock.u8CurSize + s.left } :=
          ⟨by show s.obj.stServiceBlock.u8CurSize + s.left ≤ s.obj.stServiceBlock.u8ServiceSize
              omega, h.block.size_le⟩
        exact ⟨_, rfl, ⟨h.packet, hblock, h.queue, h.caption⟩, hstop _ rfl⟩
      case isFalse =>
        exact ⟨_, rfl, ⟨h.packet, blockInside_empty _, h.queue, h.caption⟩,
          hend _ rfl (Nat.sub_le _ _)⟩

/-! ## Packets -/

theorem parsePacket_returns (pu8PacketBuf : List UInt8) (u8PacketLen : Nat) {o : Obj}
    (h : Bounded o) : ∃ o', parsePacket pu8PacketBuf u8PacketLen o = some o' ∧ Bounded o' := by
  have hrounds : roundsLeft ⟨pu8PacketBuf.drop 1, u8PacketLen - 1, o⟩ ≤ 2 * u8PacketLen := by
    rw [roundsLeft]
    split_ifs <;> dsimp only at * <;> omega
  obtain ⟨s', hs', hbounded⟩ : ∃ s', whileLoop packetRound Cursor.done (2 * u8PacketLen)
      ⟨pu8PacketBuf.drop 1, u8PacketLen - 1, o⟩ = some s' ∧ Bounded s'.obj :=
    whileLoop_returns (I := fun s => Bounded s.obj) (P := fun _ => True) (m := roundsLeft)
      (fun s _ hzero => s.done_of_zero (by rw [roundsLeft] at hzero; split_ifs at hzero <;> omega))
      (fun s hs hdone _ => packetRound_returns hs hdone) h hrounds fun _ _ => trivial
  exact ⟨s'.obj, by rw [parsePacket, hs', Option.map_some], hbounded⟩

theorem endPacket_returns {o : Obj} (h : Bounded o) :
    ∃ o', endPacket o = some o' ∧ Bounded o' ∧ o'.stPacket.u8CurSize = 0 := by
  obtain ⟨o', ho', hbounded⟩ := parsePacket_returns o.stPacket.au8PacketData o.stPacket.u8CurSize h
  rw [endPacket, ho', Option.map_some]
  dsimp only
  split
  · exact ⟨_, rfl, ⟨packetInside_empty, blockInside_empty _, hbounded.queue, hbounded.caption⟩, rfl⟩
  · have hle := hbounded.packet.total_le
    refine ⟨_, rfl, ⟨⟨Nat.zero_le _, ?_⟩, hbounded.block, hbounded.queue, hbounded.caption⟩, rfl⟩
    show o'.stPacket.u8TotalSize - o'.stPacket.u8CurSize ≤ MAX_DTVCC_PACKET_LEN
    omega

end Tntsat.Cc708.Checked
