import Tntsat.Spec.Cc708Items

/-!
# Caption channel packets

A packet is a header byte, service blocks and null block headers, as many bytes in all as the
header says.  `parsePacket_packet` says what `_DtvCC_ParsePacket` puts into the service queue
for such a packet.
-/

namespace Tntsat.Cc708

/-- The service number of a block header: an extended header has it in its second byte. -/
def serviceNumber (head : UInt8) : Option UInt8 → Nat
  | none => (head >>> 5).toNat
  | some ext => (ext &&& 0x3f).toNat

/-- A complete service block: its header, with the second byte of an extended one, and its
    data. -/
structure CaptionBlock where
  head : UInt8
  ext : Option UInt8 := none
  data : List UInt8
  size_eq : (head &&& 0x1f).toNat = data.length
  size_pos : 0 < data.length
  ext_iff : (head >>> 5).toNat = 7 ↔ ext.isSome
  number_ne : serviceNumber head ext ≠ 0

namespace CaptionBlock

/-- The service that a block is for. -/
def number (b : CaptionBlock) : Nat := serviceNumber b.head b.ext

/-- The bytes of a block. -/
def bytes (b : CaptionBlock) : List UInt8 := b.head :: (b.ext.toList ++ b.data)

end CaptionBlock

/-- A header byte of a null block. -/
def NullBlock (head : UInt8) : Prop := (head >>> 5).toNat = 0 ∨ (head &&& 0x1f).toNat = 0

instance (head : UInt8) : Decidable (NullBlock head) := inferInstanceAs (Decidable (_ ∨ _))

/-- A caption channel packet. -/
structure CaptionPacket where
  header : UInt8
  blocks : List CaptionBlock
  nulls : List UInt8
  null_of_mem : ∀ b ∈ nulls, NullBlock b
  size_eq : (header :: (blocks.flatMap CaptionBlock.bytes ++ nulls)).length = packetSize header

/-- The bytes of a packet. -/
def CaptionPacket.bytes (p : CaptionPacket) : List UInt8 :=
  p.header :: (p.blocks.flatMap CaptionBlock.bytes ++ p.nulls)

theorem packetSize_le (header : UInt8) : packetSize header ≤ 128 := by
  unfold packetSize
  split
  · exact Nat.le_refl _
  · have hle : (header &&& 0x3f).toNat ≤ 0x3f := by
      rw [UInt8.toNat_and]
      exact Nat.and_le_right
    omega

theorem packetSize_pos (header : UInt8) : 2 ≤ packetSize header := by
  unfold packetSize
  split
  · decide
  · rename_i hne
    have hpos : (header &&& 0x3f).toNat ≠ 0 := fun h => hne (UInt8.toNat_inj.mp h)
    omega

theorem packetSize_even (header : UInt8) : packetSize header % 2 = 0 := by
  unfold packetSize
  split
  · rfl
  · exact Nat.mul_mod_left _ _

/-! ## What a put leaves alone -/

theorem insertServiceData_frame (block : List UInt8) (o : Obj) :
    insertServiceData block o =
      { o with
        au8ServiceData := (insertServiceData block o).au8ServiceData
        stServiceQueue := (insertServiceData block o).stServiceQueue
        u8IsDelay := (insertServiceData block o).u8IsDelay
        delayTimer := (insertServiceData block o).delayTimer } := by
  unfold insertServiceData
  split
  · simp only
    split <;> rfl
  · rfl

/-- A put works on the service queue and on the delay. -/
theorem putServiceDataToFIFO_frame (block : List UInt8) (o : Obj) :
    (putServiceDataToFIFO block o).1 =
      { o with
        au8ServiceData := (putServiceDataToFIFO block o).1.au8ServiceData
        stServiceQueue := (putServiceDataToFIFO block o).1.stServiceQueue
        u8IsDelay := (putServiceDataToFIFO block o).1.u8IsDelay
        delayTimer := (putServiceDataToFIFO block o).1.delayTimer } := by
  unfold putServiceDataToFIFO
  simp only
  split_ifs
  · rw [insertServiceData_frame]
    rfl
  · rw [insertServiceData_frame]
  · rw [insertServiceData_frame]

@[simp] theorem putServiceDataToFIFO_u8IsStart (block : List UInt8) (o : Obj) :
    (putServiceDataToFIFO block o).1.u8IsStart = o.u8IsStart := by
  rw [putServiceDataToFIFO_frame]

@[simp] theorem putServiceDataToFIFO_u32ServiceType (block : List UInt8) (o : Obj) :
    (putServiceDataToFIFO block o).1.u32ServiceType = o.u32ServiceType := by
  rw [putServiceDataToFIFO_frame]

@[simp] theorem putServiceDataToFIFO_stPacket (block : List UInt8) (o : Obj) :
    (putServiceDataToFIFO block o).1.stPacket = o.stPacket := by
  rw [putServiceDataToFIFO_frame]

/-! ## The blocks of a packet -/

/-- The decoder of service `svc` runs and is between two service blocks of a packet. -/
structure Obj.Between (o : Obj) (packet : Packet) (svc : Nat) : Prop where
  started : o.u8IsStart = true
  ended : o.bServiceBlockEnded = true
  curSize : o.stServiceBlock.u8CurSize = 0
  service : o.u32ServiceType = svc
  packet : o.stPacket = packet

/-- The header of a block is taken. -/
theorem packetLoop_header (b : CaptionBlock) (q : List UInt8) (n fuel : Nat) {o : Obj}
    {packet : Packet} {svc : Nat} (hbetween : o.Between packet svc)
    (hfit : b.bytes.length ≤ packet.u8TotalSize) :
    packetLoop (fuel + 1) (b.bytes ++ q) (b.bytes.length + n) o =
      packetLoop fuel (b.data ++ q) (b.data.length + n)
        { o with
          stServiceBlock :=
            { o.stServiceBlock with
              u8ServiceNo := b.number
              u8ServiceSize := b.data.length
              u8CurSize := 0 }
          bServiceBlockEnded := false } := by
  have hsize := b.size_pos
  have hne := b.number_ne
  have hext := b.ext_iff
  have hhead : get8 (b.bytes ++ q) 0 = b.head := rfl
  have hlen : b.bytes.length = 1 + b.ext.toList.length + b.data.length := by
    simp only [CaptionBlock.bytes, List.length_cons, List.length_append]
    omega
  have hdrop : (b.bytes ++ q).drop (1 + b.ext.toList.length) = b.data ++ q := by
    rw [CaptionBlock.bytes, Nat.add_comm, List.cons_append, List.drop_succ_cons,
      List.append_assoc, List.drop_left]
  rw [CaptionBlock.number]
  -- a header of one byte, or of two where the number is 7
  cases he : b.ext with
  | none =>
    rw [he] at hne hext hlen hdrop
    have hseven : (b.head >>> 5).toNat ≠ 7 := by simpa using hext
    simp only [serviceNumber, Option.toList_none, List.length_nil, Nat.add_zero] at hne hlen hdrop ⊢
    simp only [packetLoop, hhead, b.size_eq, hbetween.ended, hbetween.curSize, hbetween.packet,
      hseven, false_and, if_false, if_true, hdrop]
    rw [if_neg (by omega), if_neg (by omega), if_neg (by omega)]
    congr 1
    omega
  | some e =>
    have hsecond : get8 (b.bytes ++ q) 1 = e := by
      rw [CaptionBlock.bytes, he]
      rfl
    rw [he] at hne hext hlen hdrop
    have hseven : (b.head >>> 5).toNat = 7 := by simpa using hext
    have hdata : b.data.length ≠ 0 := by omega
    simp only [serviceNumber, Option.toList_some, List.length_cons, List.length_nil] at hne hlen hdrop ⊢
    simp only [packetLoop, hhead, hsecond, b.size_eq, hbetween.ended, hbetween.curSize,
      hbetween.packet, hseven, hdata, ne_eq, not_false_eq_true, and_self, if_true, or_false]
    rw [if_neg (by omega), if_neg (by omega), if_neg (by omega)]
    congr 1
    omega

/-- A block is put into the service queue if it is for the service. -/
theorem packetLoop_block (b : CaptionBlock) (q : List UInt8) (n fuel : Nat) {o : Obj}
    {packet : Packet} {svc : Nat} (hbetween : o.Between packet svc)
    (hfit : b.bytes.length ≤ packet.u8TotalSize) :
    ∃ o' : Obj, o'.Between packet svc ∧
      packetLoop (fuel + 2) (b.bytes ++ q) (b.bytes.length + n) o =
        ((packetLoop fuel q n o').1,
          (if b.number = svc then [.put b.data] else []) ++ (packetLoop fuel q n o').2) := by
  have hpos := b.size_pos
  rw [packetLoop_header b q n (fuel + 1) hbetween hfit]
  have hleft : ¬b.data.length + n < b.data.length := by omega
  simp only [packetLoop, Bool.false_eq_true, if_false, Nat.sub_zero, hbetween.started,
    hbetween.service, and_true, if_neg hleft, Nat.add_sub_cancel_left, List.drop_left,
    List.take_left]
  rw [if_neg (by omega)]
  -- whether the block is for the service that is shown
  split
  · have hdata : (memcpy o.stServiceBlock.u8Data 0 b.data).take b.data.length = b.data := by
      simp only [memcpy, List.take_zero, List.nil_append, List.take_left]
    rw [hdata]
    refine ⟨_, ⟨?_, ?_, ?_, ?_, ?_⟩, rfl⟩
    · rw [putServiceDataToFIFO_u8IsStart]
    · rfl
    · rfl
    · rw [putServiceDataToFIFO_u32ServiceType]
    · rw [putServiceDataToFIFO_stPacket]
      exact hbetween.packet
  · refine ⟨_, ⟨?_, ?_, ?_, ?_, ?_⟩, rfl⟩
    · rfl
    · rfl
    · rfl
    · rfl
    · exact hbetween.packet

/-- A null block is passed over. -/
theorem packetLoop_null {b : UInt8} (hnull : NullBlock b) (q : List UInt8) (n fuel : Nat)
    {o : Obj} (hended : o.bServiceBlockEnded = true) :
    packetLoop (fuel + 1) (b :: q) (n + 1) o = packetLoop fuel q n o := by
  have hget : get8 (b :: q) 0 = b := rfl
  have hseven : ¬((b >>> 5).toNat = 7 ∧ (b &&& 0x1f).toNat ≠ 0) := by
    rintro ⟨h7, h0⟩
    rcases hnull with h | h <;> omega
  simp only [packetLoop, hget, hended, if_neg hseven, Nat.succ_ne_zero, if_false, if_true,
    List.drop_succ_cons, List.drop_zero, Nat.add_sub_cancel]
  exact if_pos hnull

/-- What the blocks of a packet put into the service queue of service `svc`. -/
def delivered (svc : Nat) (blocks : List CaptionBlock) : List (List UInt8) :=
  (blocks.filter fun b => b.number = svc).map CaptionBlock.data

theorem packetLoop_nulls (nulls tail : List UInt8) (hnull : ∀ b ∈ nulls, NullBlock b)
    (fuel : Nat) (hfuel : nulls.length ≤ fuel) {o : Obj} (hended : o.bServiceBlockEnded = true) :
    packetLoop fuel (nulls ++ tail) nulls.length o = (o, []) := by
  induction nulls generalizing fuel with
  | nil => cases fuel <;> simp [packetLoop]
  | cons b nulls ih =>
    rw [List.length_cons] at hfuel ⊢
    obtain ⟨fuel, rfl⟩ := Nat.exists_eq_add_one_of_ne_zero (show fuel ≠ 0 by omega)
    rw [List.cons_append, packetLoop_null (hnull b List.mem_cons_self) _ _ _ hended,
      ih (fun c hc => hnull c (List.mem_cons_of_mem _ hc)) fuel (by omega)]

/-- The blocks of a packet are put into the service queue in order, as far as they are for the
    service. -/
theorem packetLoop_blocks (blocks : List CaptionBlock) (nulls tail : List UInt8)
    (hnull : ∀ b ∈ nulls, NullBlock b) (fuel : Nat) {o : Obj} {packet : Packet} {svc : Nat}
    (hfuel : (blocks.flatMap CaptionBlock.bytes ++ nulls).length ≤ fuel)
    (hbetween : o.Between packet svc)
    (hfit : ∀ b ∈ blocks, b.bytes.length ≤ packet.u8TotalSize) :
    ∃ o' : Obj, o'.Between packet svc ∧
      packetLoop fuel (blocks.flatMap CaptionBlock.bytes ++ nulls ++ tail)
          (blocks.flatMap CaptionBlock.bytes ++ nulls).length o =
        (o', (delivered svc blocks).map Event.put) := by
  induction blocks generalizing fuel o with
  | nil => exact ⟨o, hbetween, packetLoop_nulls nulls tail hnull fuel hfuel hbetween.ended⟩
  | cons b blocks ih =>
    have hbytes : 2 ≤ b.bytes.length := by
      have := b.size_pos
      simp only [CaptionBlock.bytes, List.length_cons, List.length_append]
      omega
    simp only [List.flatMap_cons, List.append_assoc, List.length_append] at hfuel ⊢
    -- two rounds for each block: its header and its data
    obtain ⟨fuel, rfl⟩ : ∃ n, fuel = n + 2 := ⟨fuel - 2, by omega⟩
    obtain ⟨o₁, hbetween₁, hblock⟩ := packetLoop_block b
      (blocks.flatMap CaptionBlock.bytes ++ (nulls ++ tail))
      ((blocks.flatMap CaptionBlock.bytes).length + nulls.length) fuel hbetween
      (hfit b List.mem_cons_self)
    obtain ⟨o₂, hbetween₂, hrest⟩ := ih fuel (o := o₁) (by rw [List.length_append]; omega)
      hbetween₁ fun c hc => hfit c (List.mem_cons_of_mem _ hc)
    rw [List.append_assoc, List.length_append] at hrest
    refine ⟨o₂, hbetween₂, ?_⟩
    rw [hblock, hrest]
    by_cases hnumber : b.number = svc
    · simp [delivered, hnumber]
    · simp [delivered, hnumber]

/-- A packet without a service block in progress puts the data of its service blocks into the
    service queue, and leaves none in progress. -/
theorem parsePacket_packet (p : CaptionPacket) (tail : List UInt8) {o : Obj} {packet : Packet}
    {svc : Nat} (hbetween : o.Between packet svc) (htotal : packet.u8TotalSize = p.bytes.length) :
    ∃ o' : Obj, o'.Between packet svc ∧
      parsePacket (p.bytes ++ tail) p.bytes.length o =
        (o', (delivered svc p.blocks).map Event.put) := by
  have hlen : p.bytes.length = (p.blocks.flatMap CaptionBlock.bytes ++ p.nulls).length + 1 := rfl
  have hfit : ∀ b ∈ p.blocks, b.bytes.length ≤ packet.u8TotalSize := by
    intro b hb
    have hle : b.bytes.length ≤ (p.blocks.flatMap CaptionBlock.bytes).length := by
      rw [List.flatMap_def]
      exact (List.sublist_flatten_of_mem (List.mem_map_of_mem hb)).length_le
    rw [htotal, hlen, List.length_append]
    omega
  unfold parsePacket
  rw [hlen, Nat.add_sub_cancel]
  exact packetLoop_blocks p.blocks p.nulls tail p.null_of_mem _ (by omega) hbetween hfit

end Tntsat.Cc708
