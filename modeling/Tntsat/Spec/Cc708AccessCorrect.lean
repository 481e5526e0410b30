import Tntsat.Spec.Cc708PacketBounds
import Tntsat.ForStd.Machine

/-!
# Runs of the CEA-708 decoder inside its buffers

`_DtvCC_ParsePicUsrData` takes the bytes behind a flag before it looks at the end of its string, and
its offset has 8 bits. In a run in which these bytes are there, and in which the commands and
characters of the service blocks find room, every access is inside and every loop ends.

## Key results

- `parsePicUsrData_returns`: a string
- `accesses_inside`: a run
-/

namespace Tntsat.Cc708.Checked

/-! ## Strings -/

/-- What is asked of a round of `_DtvCC_ParsePicUsrData`: a byte follows a start flag in the string,
the bytes that a data flag takes follow it, and the offset behind other flags has 8 bits. -/
structure FlagFits (pu8CCPicData : List UInt8) (r : Reader) : Prop where
  start : load pu8CCPicData r.u8offset = some PACKET_START_FLAG →
    r.u8offset.toNat + 1 < pu8CCPicData.length
  first : load pu8CCPicData r.u8offset = some PACKET_DATA_FLAG →
    r.obj.stPacket.bStart = true → r.obj.stPacket.u8CurSize < r.obj.stPacket.u8TotalSize →
    r.u8offset.toNat + 1 < pu8CCPicData.length
  second : load pu8CCPicData r.u8offset = some PACKET_DATA_FLAG →
    r.obj.stPacket.bStart = true → r.obj.stPacket.u8CurSize + 1 < r.obj.stPacket.u8TotalSize →
    r.u8offset.toNat + 2 < pu8CCPicData.length
  other : (∀ flag ∈ [PACKET_START_FLAG, PACKET_DATA_FLAG, PACKET_END_FLAG1, PACKET_END_FLAG2],
    load pu8CCPicData r.u8offset ≠ some flag) → r.u8offset.toNat + 3 < 256

instance (pu8CCPicData : List UInt8) (r : Reader) : Decidable (FlagFits pu8CCPicData r) :=
  decidable_of_iff
    ((load pu8CCPicData r.u8offset = some PACKET_START_FLAG →
        r.u8offset.toNat + 1 < pu8CCPicData.length) ∧
      (load pu8CCPicData r.u8offset = some PACKET_DATA_FLAG →
        r.obj.stPacket.bStart = true → r.obj.stPacket.u8CurSize < r.obj.stPacket.u8TotalSize →
        r.u8offset.toNat + 1 < pu8CCPicData.length) ∧
      (load pu8CCPicData r.u8offset = some PACKET_DATA_FLAG →
        r.obj.stPacket.bStart = true → r.obj.stPacket.u8CurSize + 1 < r.obj.stPacket.u8TotalSize →
        r.u8offset.toNat + 2 < pu8CCPicData.length) ∧
      ((∀ flag ∈ [PACKET_START_FLAG, PACKET_DATA_FLAG, PACKET_END_FLAG1, PACKET_END_FLAG2],
        load pu8CCPicData r.u8offset ≠ some flag) → r.u8offset.toNat + 3 < 256))
    ⟨fun h => ⟨h.1, h.2.1, h.2.2.1, h.2.2.2⟩, fun h => ⟨h.start, h.first, h.second, h.other⟩⟩

variable {pu8CCPicData : List UInt8}

theorem toNat_add {a b : UInt8} (h : a.toNat + b.toNat < 256) :
    (a + b).toNat = a.toNat + b.toNat := by
  rw [UInt8.toNat_add, Nat.mod_eq_of_lt h]

theorem load_eq {u8offset : UInt8} (h : u8offset.toNat < pu8CCPicData.length) :
    load pu8CCPicData u8offset = some pu8CCPicData[u8offset.toNat] :=
  List.getElem?_eq_getElem h

/-- A byte of the string is put into the packet. -/
theorem takeByte_returns {r : Reader} (h : Bounded r.obj) (hlen : pu8CCPicData.length ≤ 255)
    (hoffset : r.u8offset.toNat < pu8CCPicData.length)
    (hcur : r.obj.stPacket.u8CurSize < r.obj.stPacket.u8TotalSize) :
    ∃ r', takeByte pu8CCPicData r = some r' ∧ Bounded r'.obj ∧
      r'.u8offset.toNat = r.u8offset.toNat + 1 ∧ r'.failed = r.failed ∧
      r'.obj.stPacket.u8CurSize = r.obj.stPacket.u8CurSize + 1 ∧
      r'.obj.stPacket.u8TotalSize = r.obj.stPacket.u8TotalSize := by
  have htotal := h.packet.total_le
  rw [takeByte, load_eq hoffset, Option.bind_some, within_eq (by omega)]
  exact ⟨_, rfl, ⟨⟨hcur, htotal⟩, h.block, h.queue, h.caption⟩,
    toNat_add (by show _ + 1 < 256; omega), rfl, rfl, rfl⟩

/-- A round moves the offset on, or the call returns. -/
structure Advances (r r' : Reader) : Prop where
  bounded : Bounded r'.obj
  moved : r'.failed = true ∨ r.u8offset.toNat ≤ r'.u8offset.toNat

theorem endIfFull_returns {o : Obj} (h : Bounded o) : ∃ o', endIfFull o = some o' ∧ Bounded o' := by
  rw [endIfFull]
  split
  · obtain ⟨o', ho', hbounded, -⟩ := endPacket_returns h
    exact ⟨o', ho', hbounded⟩
  · exact ⟨o, rfl, h⟩

theorem checkPacketSequenceNo_bounded {o : Obj} (h : Bounded o) :
    Bounded (checkPacketSequenceNo o) ∧
      (checkPacketSequenceNo o).stPacket.u8CurSize = o.stPacket.u8CurSize := by
  rw [checkPacketSequenceNo]
  split
  · exact ⟨⟨h.packet, h.block, h.queue, h.caption⟩, rfl⟩
  split
  · dsimp only
    split
    · exact ⟨⟨h.packet, h.block, h.queue.flush, h.caption⟩, rfl⟩
    · exact ⟨⟨h.packet, h.block, h.queue, h.caption⟩, rfl⟩
  · exact ⟨⟨h.packet, h.block, h.queue, h.caption⟩, rfl⟩

theorem endLast_returns {o : Obj} (h : Bounded o) :
    ∃ o', endLast o = some o' ∧ Bounded o' ∧ o'.stPacket.u8CurSize = 0 := by
  rw [endLast]
  split
  case isTrue => exact endPacket_returns h
  case isFalse hzero => exact ⟨o, rfl, h, by omega⟩

theorem beginPacket_bounded (header : UInt8) {o : Obj} (h : Bounded o)
    (hcur : o.stPacket.u8CurSize = 0) :
    Bounded (beginPacket header o) ∧ (beginPacket header o).stPacket.u8CurSize = 0 ∧
      (beginPacket header o).stPacket.u8TotalSize = packetSize header := by
  obtain ⟨hchecked, hkept⟩ := checkPacketSequenceNo_bounded
    (o := { o with stPacket := { o.stPacket with u8SeqenceNo := (header &&& 0xc0) >>> 6 } })
    ⟨⟨h.packet.cur_le, h.packet.total_le⟩, h.block, h.queue, h.caption⟩
  have hzero := hkept.trans hcur
  refine ⟨⟨⟨?_, packetSize_le header⟩, hchecked.block, hchecked.queue, hchecked.caption⟩, hzero,
    rfl⟩
  exact Nat.le_trans (Nat.le_of_eq hzero) (Nat.zero_le _)

theorem takeTwo_returns {r : Reader} (h : Bounded r.obj) (hlen : pu8CCPicData.length ≤ 255)
    (hoffset : r.u8offset.toNat + 1 < pu8CCPicData.length)
    (hcur : r.obj.stPacket.u8CurSize + 1 < r.obj.stPacket.u8TotalSize) :
    ∃ r', takeTwo pu8CCPicData r = some r' ∧ Advances r r' := by
  obtain ⟨r₁, hr₁, hbounded₁, hoffset₁, -, hcur₁, htotal₁⟩ :=
    takeByte_returns h hlen (Nat.lt_of_succ_lt hoffset) (Nat.lt_of_succ_lt hcur)
  obtain ⟨r₂, hr₂, hbounded₂, hoffset₂, -, hcur₂, htotal₂⟩ :=
    takeByte_returns hbounded₁ hlen (by omega) (by omega)
  obtain ⟨o, ho, hbounded⟩ := endIfFull_returns
    (o := { r₂.obj with stPacket := { r₂.obj.stPacket with bStart := true } })
    ⟨⟨hbounded₂.packet.cur_le, hbounded₂.packet.total_le⟩, hbounded₂.block, hbounded₂.queue,
      hbounded₂.caption⟩
  rw [takeTwo, hr₁, Option.bind_eq_bind, Option.bind_some, hr₂, Option.bind_some]
  dsimp only
  rw [ho]
  exact ⟨_, rfl, hbounded, Or.inr (by show _ ≤ r₂.u8offset.toNat; omega)⟩

/-- Behind a start flag the packet before is ended, so that the new one begins at the start of the
array. -/
theorem startPacket_returns {r : Reader} (h : Bounded r.obj) (hlen : pu8CCPicData.length ≤ 255)
    (hoffset : r.u8offset.toNat < pu8CCPicData.length) :
    ∃ r', startPacket pu8CCPicData r = some r' ∧ Advances r r' := by
  obtain ⟨o, ho, hbounded, hcur⟩ := endLast_returns h
  rw [startPacket, ho, Option.bind_some, load_eq hoffset, Option.bind_some]
  obtain ⟨hbegun, hzero, htotal⟩ := beginPacket_bounded pu8CCPicData[r.u8offset.toNat] hbounded hcur
  have htwo := packetSize_pos pu8CCPicData[r.u8offset.toNat]
  dsimp only
  split
  case isTrue => exact ⟨_, rfl, hbegun, Or.inl rfl⟩
  case isFalse hin =>
    obtain ⟨r', hr', hadvances⟩ := takeTwo_returns
      (r := { r with obj := beginPacket pu8CCPicData[r.u8offset.toNat] o }) hbegun hlen
      (by show r.u8offset.toNat + 1 < _; omega) (by rw [hzero, htotal]; omega)
    exact ⟨r', hr', hadvances.bounded, hadvances.moved⟩

/-- The bytes that a data flag takes. -/
theorem takeData_returns (u8LoopTimes : Nat) {r : Reader} (h : Bounded r.obj)
    (hlen : pu8CCPicData.length ≤ 255)
    (hin : ∀ n < u8LoopTimes, r.obj.stPacket.u8CurSize + n < r.obj.stPacket.u8TotalSize →
      r.u8offset.toNat + n < pu8CCPicData.length) :
    ∃ r', takeData pu8CCPicData u8LoopTimes r = some r' ∧ Advances r r' := by
  induction u8LoopTimes generalizing r with
  | zero => exact ⟨r, rfl, h, Or.inr (Nat.le_refl _)⟩
  | succ u8LoopTimes ih =>
    rw [takeData]
    split
    case isFalse => exact ⟨r, rfl, h, Or.inr (Nat.le_refl _)⟩
    case isTrue hroom =>
      obtain ⟨r₁, hr₁, hbounded, hoffset, -, hcur, htotal⟩ :=
        takeByte_returns h hlen (hin 0 (Nat.succ_pos _) hroom) hroom
      rw [hr₁, Option.bind_some]
      dsimp only
      split
      · obtain ⟨o, ho, hended, -⟩ := endPacket_returns hbounded
        rw [ho]
        exact ⟨_, rfl, hended, Or.inr (by show _ ≤ r₁.u8offset.toNat; omega)⟩
      · obtain ⟨r', hr', hadvances⟩ := ih hbounded fun n hn hlt => by
          have hnext := hin (n + 1) (by omega) (by omega)
          omega
        exact ⟨r', hr', hadvances.bounded, hadvances.moved.imp_right fun hle => by omega⟩

theorem padPacket_returns {o : Obj} (h : Bounded o) : ∃ o', padPacket o = some o' ∧ Bounded o' := by
  rw [padPacket]
  split
  · obtain ⟨o', ho', hbounded, -⟩ := endPacket_returns h
    exact ⟨o', ho', hbounded⟩
  · exact ⟨o, rfl, h⟩

/-- A round takes its flag and the bytes that belong to it. -/
theorem picRound_returns {r : Reader} (h : Bounded r.obj) (hlen : pu8CCPicData.length ≤ 255)
    (hoffset : r.u8offset.toNat < pu8CCPicData.length) (hfits : FlagFits pu8CCPicData r) :
    ∃ r', picRound pu8CCPicData r = some r' ∧ Bounded r'.obj ∧
      (r'.failed = true ∨ r.u8offset.toNat < r'.u8offset.toNat) := by
  have hload := load_eq hoffset
  have hnext : (r.u8offset + 1).toNat = r.u8offset.toNat + 1 :=
    toNat_add (by show _ + 1 < 256; omega)
  rw [picRound, hload, Option.bind_some]
  dsimp only
  split
  case isTrue hflag =>
    have hin := hfits.start (hload.trans (congrArg some hflag))
    obtain ⟨r', hr', hadvances⟩ := startPacket_returns (r := { r with u8offset := r.u8offset + 1 })
      h hlen (by rw [hnext]; exact hin)
    exact ⟨r', hr', hadvances.bounded, hadvances.moved.imp_right fun hle => by
      rw [hnext] at hle
      exact hle⟩
  case isFalse hstart =>
  split
  case isTrue hflag =>
    have hdata := hload.trans (congrArg some hflag)
    split
    case isTrue hbegun =>
      obtain ⟨r', hr', hadvances⟩ := takeData_returns 2 (r := { r with u8offset := r.u8offset + 1 })
        h hlen fun n hn hlt => by
          rw [hnext]
          have hcases : n = 0 ∨ n = 1 := by omega
          cases hcases with
          | inl hzero =>
            subst hzero
            exact hfits.first hdata hbegun hlt
          | inr hone =>
            subst hone
            exact hfits.second hdata hbegun hlt
      exact ⟨r', hr', hadvances.bounded, hadvances.moved.imp_right fun hle => by
        rw [hnext] at hle
        exact hle⟩
    case isFalse => exact ⟨_, rfl, h, Or.inr (by rw [hnext]; omega)⟩
  case isFalse hdata =>
  split
  case isTrue =>
    obtain ⟨o, ho, hbounded⟩ := padPacket_returns h
    rw [ho]
    exact ⟨_, rfl, hbounded, Or.inr (by show _ < (r.u8offset + 1).toNat; omega)⟩
  case isFalse hend =>
    -- the two bytes behind are passed over
    have hroom := hfits.other (by
      rw [hload]
      simp only [List.forall_mem_cons, ne_eq, Option.some.injEq]
      exact ⟨hstart, hdata, fun h => hend (Or.inl h), fun h => hend (Or.inr h), by simp⟩)
    have htwo : (r.u8offset + 1 + 2).toNat = r.u8offset.toNat + 1 + 2 := by
      rw [toNat_add (by show _ + 2 < 256; rw [hnext]; omega), hnext]
      rfl
    exact ⟨_, rfl, h, Or.inr (by show _ < (r.u8offset + 1 + 2).toNat; omega)⟩

/-- The bytes of a string behind its flags are there. -/
def StringFits (pu8CCPicData : List UInt8) (o : Obj) : Prop :=
  ∀ r ∈ whileHeads (picRound pu8CCPicData) (picDone pu8CCPicData) 255 { u8offset := 0, obj := o },
    FlagFits pu8CCPicData r

instance (pu8CCPicData : List UInt8) (o : Obj) : Decidable (StringFits pu8CCPicData o) :=
  inferInstanceAs (Decidable (∀ _ ∈ _, _))

/-- How many bytes of the string are left. -/
def bytesLeft (pu8CCPicData : List UInt8) (r : Reader) : Nat :=
  if r.failed then 0 else pu8CCPicData.length - r.u8offset.toNat

theorem parsePicUsrData_returns {o : Obj} (h : Bounded o) (hlen : pu8CCPicData.length ≤ 255)
    (hfits : StringFits pu8CCPicData o) :
    ∃ o', parsePicUsrData pu8CCPicData o = some o' ∧ Bounded o' := by
  have hrounds : bytesLeft pu8CCPicData { u8offset := 0, obj := o } ≤ 255 := hlen
  obtain ⟨r, hr, hbounded⟩ : ∃ r, whileLoop (picRound pu8CCPicData) (picDone pu8CCPicData) 255
      { u8offset := 0, obj := o } = some r ∧ Bounded r.obj := by
    refine whileLoop_returns (I := fun r => Bounded r.obj) (m := bytesLeft pu8CCPicData)
      (fun r _ hzero => ?_) (fun r hr hdone hround => ?_) h hrounds hfits
    · rw [bytesLeft] at hzero
      rw [picDone, Bool.or_eq_true, decide_eq_true_eq]
      split at hzero
      case isTrue hfailed => exact Or.inl hfailed
      case isFalse => exact Or.inr (by omega)
    · rw [picDone, Bool.or_eq_false_iff, decide_eq_false_iff_not] at hdone
      obtain ⟨r', hr', hbounded, hmoved⟩ := picRound_returns hr hlen (by omega) hround
      refine ⟨r', hr', hbounded, ?_⟩
      rw [bytesLeft, bytesLeft, hdone.1, if_neg Bool.false_ne_true]
      cases hmoved with
      | inl hfailed =>
        rw [if_pos hfailed]
        omega
      | inr hlt => split <;> omega
  exact ⟨r.obj, by rw [parsePicUsrData, hr, Option.map_some], hbounded⟩

/-! ## Runs -/

/-- A string that `_DtvCC_ParsePicUsrData` can be given. -/
structure PicUsrData where
  bytes : List UInt8
  pos : 0 < bytes.length
  le_max : bytes.length ≤ 255

/-- A call of the decoder, or the expiry of its delay timer. -/
inductive Op
  | picUsrData (data : PicUsrData)
  | processServicefifo
  | expire
  | start
  | stop
  | reset
  | config (param : ConfigParam)

variable (t : Ksc5601)

/-- What a call does. -/
def Op.run (o : Obj) : Op → Option Obj
  | .picUsrData data => parsePicUsrData data.bytes o
  | .processServicefifo => Checked.processServicefifo t o
  | .expire => some (if o.delayTimer.isSome then delayTimerCallback o else o)
  | .start => some (Cc708.start o)
  | .stop => some (Cc708.stop o)
  | .reset => some (Cc708.reset o)
  | .config param => some (Cc708.config param o)

/-- The decoder, of which nothing is known any more behind an access outside. -/
def decoder : Machine (Option Obj) Op Unit where
  step s op := (s.bind fun o => op.run t o, ())

/-- What is asked of a call: the bytes behind the flags of a string are there, and the commands and
characters of the blocks in the queue find room. -/
def Fits (o : Obj) : Op → Prop
  | .picUsrData data => StringFits data.bytes o
  | .processServicefifo => ProcessFits t o
  | _ => True

instance (o : Obj) : (op : Op) → Decidable (Fits t o op)
  | .picUsrData data => inferInstanceAs (Decidable (StringFits data.bytes o))
  | .processServicefifo => inferInstanceAs (Decidable (ProcessFits t o))
  | .expire | .start | .stop | .reset | .config _ => inferInstanceAs (Decidable True)

theorem bounded_initial : Bounded {} where
  packet := packetInside_empty
  block := blockInside_empty _
  queue := ⟨rfl, by decide, by decide⟩
  caption := Nat.zero_le _

theorem reset_bounded {o : Obj} (h : Bounded o) : Bounded (Cc708.reset o) := by
  rw [Cc708.reset]
  split
  · exact ⟨packetInside_empty, blockInside_empty _, h.queue.flush, h.caption⟩
  · exact h

theorem run_returns {o : Obj} (h : Bounded o) (op : Op) (hfits : Fits t o op) :
    ∃ o', op.run t o = some o' ∧ Bounded o' := by
  cases op with
  | picUsrData data => exact parsePicUsrData_returns h data.le_max hfits
  | processServicefifo =>
    obtain ⟨o', ho', hbetween⟩ := processServicefifo_returns t h.queue h.caption hfits
    exact ⟨o', ho', hbetween.bounded h.packet h.block⟩
  | expire =>
    refine ⟨_, rfl, ?_⟩
    split
    · exact ⟨h.packet, h.block, h.queue, h.caption⟩
    · exact h
  | start =>
    refine ⟨_, rfl, ?_⟩
    rw [Cc708.start]
    split
    · exact h
    · exact ⟨h.packet, h.block, h.queue, Nat.zero_le _⟩
  | stop =>
    refine ⟨_, rfl, ?_⟩
    rw [Cc708.stop]
    split
    · exact ⟨h.packet, h.block, h.queue, h.caption⟩
    · exact h
  | reset => exact ⟨_, rfl, reset_bounded h⟩
  | config param =>
    refine ⟨_, rfl, ?_⟩
    rw [Cc708.config]
    split
    -- a new configuration resets the object
    · have hreset := reset_bounded h
      exact ⟨hreset.packet, hreset.block, hreset.queue, hreset.caption⟩
    · exact h

/-- In a run whose calls find the bytes and the room that they take for granted, every access is
inside, every loop ends, and the counters stay those of their arrays. -/
theorem accesses_inside (ops : List Op)
    (hfits : (decoder t).Always (fun s op => ∀ o ∈ s, Fits t o op) (some {}) ops) :
    ∃ o, (decoder t).final (some {}) ops = some o ∧ Bounded o := by
  refine (decoder t).invariant (I := fun s => ∃ o, s = some o ∧ Bounded o) ?_
    ⟨{}, rfl, bounded_initial⟩ hfits
  rintro s op ⟨o, rfl, hbounded⟩ hop
  exact run_returns t hbounded op (hop o rfl)

/-- A packet of one character, in two triplets, that is shown. -/
theorem accesses_inside_character :
    ∃ o, (decoder ⟨fun _ => 0, fun _ => 0, fun _ => 0⟩).final (some {})
        [.start, .picUsrData ⟨[0xff, 0x02, 0x21, 0xfe, 0x41, 0x00], by decide, by decide⟩,
          .processServicefifo] = some o ∧ Bounded o :=
  accesses_inside _ _ (by decide +kernel)

/-- Behind a start flag at the end of its string the decoder reads a byte behind the string. -/
theorem start_flag_alone :
    ¬ ∀ (t : Ksc5601) (ops : List Op), ((decoder t).final (some {}) ops).isSome = true := by
  intro h
  have hsome := h ⟨fun _ => 0, fun _ => 0, fun _ => 0⟩
    [.start, .picUsrData ⟨[0xff], by decide, by decide⟩]
  exact absurd hsome (by decide +kernel)

end Tntsat.Cc708.Checked
