import Tntsat.Spec.Cc708Packets
import Tntsat.ForStd.Machine

/-!
# Packets from triplets

Caption channel packets come as triplets of a flag and two bytes, among triplets with other
flags, in calls of `_DtvCC_ParsePicUsrData`.  The function takes two bytes behind most flags,
but none behind a padding flag, and none behind `PACKET_DATA_FLAG` while no packet has been
started: what follows in the call is then read at the wrong place.

## Key results

- `services_delivered`: the data of the service blocks arrives, in order and once, as long as
  only harmless triplets follow such a flag in its call
- `padding_loses_packet`: a padding triplet in front of a packet
-/

namespace Tntsat.Cc708

/-- A caption triplet. -/
structure Triplet where
  flag : UInt8
  data1 : UInt8
  data2 : UInt8
deriving DecidableEq

/-- The bytes of triplets. -/
def tripletBytes (ts : List Triplet) : List UInt8 :=
  ts.flatMap fun u => [u.flag, u.data1, u.data2]

/-- The bytes behind a packet's start, two a triplet. -/
def dataTriplets : List UInt8 → List Triplet
  | a :: b :: rest => ⟨PACKET_DATA_FLAG, a, b⟩ :: dataTriplets rest
  | _ => []

/-- The triplets of a packet. -/
def CaptionPacket.triplets (p : CaptionPacket) : List Triplet :=
  match p.bytes with
  | a :: b :: rest => ⟨PACKET_START_FLAG, a, b⟩ :: dataTriplets rest
  | _ => []

/-- The triplets of the caption channel: those of packets, from the first start on. -/
def channel (ts : List Triplet) : List Triplet :=
  (ts.filter fun u => u.flag = PACKET_START_FLAG ∨ u.flag = PACKET_DATA_FLAG).dropWhile
    fun u => u.flag = PACKET_DATA_FLAG

/-- A call of `_DtvCC_ParsePicUsrData`: triplets and what lies behind them in memory. -/
structure Call where
  triplets : List Triplet
  behind : List UInt8 := []
  pos : 0 < triplets.length := by decide
  le : triplets.length ≤ 31 := by decide
deriving DecidableEq

/-- The decoder as a machine that takes calls. -/
def receiver : Machine Obj Call (List Event) where
  step o c :=
    parsePicUsrData (tripletBytes c.triplets ++ c.behind) (tripletBytes c.triplets).length o

/-! ## The packets that triplets make -/

/-- A packet that has all of its bytes is complete. -/
def finish (bs : List UInt8) : List UInt8 × List (List UInt8) :=
  if bs.length = packetSize (get8 bs 0) then ([], [bs]) else (bs, [])

/-- The bytes of the packet in progress behind a triplet, and the packets that end with it. -/
def assemble (pend : List UInt8) (u : Triplet) : List UInt8 × List (List UInt8) :=
  if u.flag = PACKET_START_FLAG then
    ((finish [u.data1, u.data2]).1,
      (if pend = [] then [] else [pend]) ++ (finish [u.data1, u.data2]).2)
  else if u.flag = PACKET_DATA_FLAG ∧ pend ≠ [] then finish (pend ++ [u.data1, u.data2])
  else (pend, [])

/-- `assemble` along a list of triplets. -/
def assembleAll : List UInt8 → List Triplet → List UInt8 × List (List UInt8)
  | pend, [] => (pend, [])
  | pend, u :: ts =>
    let r := assemble pend u
    let rest := assembleAll r.1 ts
    (rest.1, r.2 ++ rest.2)

/-- The flags behind which no byte is taken. -/
def TakesNone (pend : List UInt8) (u : Triplet) : Prop :=
  u.flag = PACKET_END_FLAG1 ∨ u.flag = PACKET_END_FLAG2 ∨ u.flag = PACKET_DATA_FLAG ∧ pend = []

/-- A triplet that is not part of a packet, the first byte of which is taken for a flag behind
    which two bytes are passed over. -/
def Harmless (pend : List UInt8) (u : Triplet) : Prop :=
  u.flag ≠ PACKET_START_FLAG ∧ (u.flag = PACKET_DATA_FLAG → pend = []) ∧
    u.data1 ∉ [PACKET_START_FLAG, PACKET_DATA_FLAG, PACKET_END_FLAG1, PACKET_END_FLAG2]

instance (pend : List UInt8) (u : Triplet) : Decidable (TakesNone pend u) :=
  inferInstanceAs (Decidable (_ ∨ _))

instance (pend : List UInt8) (u : Triplet) : Decidable (Harmless pend u) :=
  inferInstanceAs (Decidable (_ ∧ _))

/-- From a flag on behind which no byte is taken, a call has harmless triplets only. -/
def Aligned : List UInt8 → List Triplet → Prop
  | _, [] => True
  | pend, u :: ts =>
    if TakesNone pend u then ∀ v ∈ u :: ts, Harmless pend v else Aligned (assemble pend u).1 ts

instance decidableAligned : (pend : List UInt8) → (ts : List Triplet) →
    Decidable (Aligned pend ts)
  | _, [] => inferInstanceAs (Decidable True)
  | pend, u :: ts =>
    have := decidableAligned (assemble pend u).1 ts
    inferInstanceAs (Decidable (if TakesNone pend u then _ else _))

/-- Every call is aligned. -/
def AlignedCalls : List UInt8 → List Call → Prop
  | _, [] => True
  | pend, c :: calls =>
    Aligned pend c.triplets ∧ AlignedCalls (assembleAll pend c.triplets).1 calls

instance decidableAlignedCalls : (pend : List UInt8) → (calls : List Call) →
    Decidable (AlignedCalls pend calls)
  | _, [] => inferInstanceAs (Decidable True)
  | pend, c :: calls =>
    have := decidableAlignedCalls (assembleAll pend c.triplets).1 calls
    inferInstanceAs (Decidable (_ ∧ _))

theorem assembleAll_append (pend : List UInt8) (ts us : List Triplet) :
    assembleAll pend (ts ++ us) =
      ((assembleAll (assembleAll pend ts).1 us).1,
        (assembleAll pend ts).2 ++ (assembleAll (assembleAll pend ts).1 us).2) := by
  induction ts generalizing pend with
  | nil => rfl
  | cons u ts ih => simp [assembleAll, ih]

/-- A harmless triplet has no part in a packet. -/
theorem assembleAll_harmless {pend : List UInt8} {ts : List Triplet}
    (h : ∀ u ∈ ts, Harmless pend u) : assembleAll pend ts = (pend, []) := by
  induction ts with
  | nil => rfl
  | cons u ts ih =>
    obtain ⟨hstart, hdata, -⟩ := h u List.mem_cons_self
    have hstep : assemble pend u = (pend, []) := by
      unfold assemble
      rw [if_neg hstart, if_neg fun hd => hd.2 (hdata hd.1)]
    simp only [assembleAll, hstep, ih fun v hv => h v (List.mem_cons_of_mem _ hv), List.nil_append]

/-! ## The triplets of packets -/

theorem get8_append_zero {pend : List UInt8} (hpend : pend ≠ []) (bs : List UInt8) :
    get8 (pend ++ bs) 0 = get8 pend 0 := by
  cases pend with
  | nil => exact absurd rfl hpend
  | cons b pend => rfl

theorem assembleAll_data (pend rest : List UInt8) (hpend : pend ≠ []) (hrest : rest ≠ [])
    (hsize : (pend ++ rest).length = packetSize (get8 pend 0)) (heven : rest.length % 2 = 0) :
    assembleAll pend (dataTriplets rest) = ([], [pend ++ rest]) := by
  induction rest using dataTriplets.induct generalizing pend with
  | case1 a b rest ih =>
    have hstep : assemble pend ⟨PACKET_DATA_FLAG, a, b⟩ = finish (pend ++ [a, b]) := by
      unfold assemble
      rw [if_neg (by simp only; decide), if_pos ⟨rfl, hpend⟩]
    have hhead : get8 (pend ++ [a, b]) 0 = get8 pend 0 := get8_append_zero hpend _
    simp only [List.length_append, List.length_cons] at hsize heven
    rw [dataTriplets, assembleAll, hstep, finish, hhead]
    -- the packet ends with this triplet, or with a later one
    by_cases hnil : rest = []
    · subst hnil
      rw [if_pos (by simpa using hsize)]
      rfl
    · have hpos := List.length_pos_iff.mpr hnil
      rw [if_neg (by simp only [List.length_append, List.length_cons, List.length_nil]; omega)]
      have hne : pend ++ [a, b] ≠ [] := by simp
      simp only [ih (pend ++ [a, b]) hne hnil
        (by rw [hhead]; simp only [List.length_append, List.length_cons, List.length_nil]; omega)
        (by omega), List.nil_append, List.append_assoc, List.cons_append]
  -- an even number of bytes does not end with a single one
  | case2 rest hshort =>
    cases rest with
    | nil => exact absurd rfl hrest
    | cons a rest =>
      cases rest with
      | nil => simp at heven
      | cons b rest => exact absurd rfl (hshort a b rest)

/-- The triplets of a packet make that packet. -/
theorem assembleAll_packet (p : CaptionPacket) : assembleAll [] p.triplets = ([], [p.bytes]) := by
  have hsize : p.bytes.length = packetSize p.header := p.size_eq
  have htwo := packetSize_pos p.header
  have heven := packetSize_even p.header
  have hhead : get8 p.bytes 0 = p.header := rfl
  unfold CaptionPacket.triplets
  -- a packet has at least its header and one more byte
  match hbytes : p.bytes with
  | [] =>
    rw [hbytes, List.length_nil] at hsize
    omega
  | [_] =>
    rw [hbytes, List.length_singleton] at hsize
    omega
  | a :: b :: rest =>
    have hheader : a = p.header := by rw [← hhead, hbytes]; rfl
    rw [hbytes, List.length_cons, List.length_cons] at hsize
    have hstep : assemble [] ⟨PACKET_START_FLAG, a, b⟩ = finish [a, b] := by
      unfold assemble
      rw [if_pos rfl, if_pos rfl, List.nil_append]
    have hget : get8 [a, b] 0 = p.header := hheader
    simp only [assembleAll, hstep, finish, hget]
    -- complete with the first triplet, or with the ones that follow
    by_cases hnil : rest = []
    · subst hnil
      rw [if_pos (by simpa using hsize)]
      rfl
    · have hpos := List.length_pos_iff.mpr hnil
      rw [if_neg (by simp only [List.length_cons, List.length_nil]; omega)]
      simp only [assembleAll_data [a, b] rest (by simp) hnil
        (by rw [hget]; simp only [List.length_append, List.length_cons, List.length_nil]; omega)
        (by omega), List.nil_append, List.cons_append]

theorem assembleAll_packets (packets : List CaptionPacket) :
    assembleAll [] (packets.flatMap CaptionPacket.triplets) =
      ([], packets.map CaptionPacket.bytes) := by
  induction packets with
  | nil => rfl
  | cons p packets ih =>
    simp [assembleAll_append, assembleAll_packet, ih]

theorem assembleAll_filter (pend : List UInt8) (ts : List Triplet) :
    assembleAll pend
        (ts.filter fun u => u.flag = PACKET_START_FLAG ∨ u.flag = PACKET_DATA_FLAG) =
      assembleAll pend ts := by
  induction ts generalizing pend with
  | nil => rfl
  | cons u ts ih =>
    by_cases hflag : u.flag = PACKET_START_FLAG ∨ u.flag = PACKET_DATA_FLAG
    · rw [List.filter_cons_of_pos (by simpa using hflag), assembleAll, assembleAll, ih]
    · rw [not_or] at hflag
      have hstep : assemble pend u = (pend, []) := by
        unfold assemble
        rw [if_neg hflag.1, if_neg fun hd => hflag.2 hd.1]
      rw [List.filter_cons_of_neg (by simpa using hflag), assembleAll, hstep, ih]
      rfl

theorem assembleAll_dropWhile (ts : List Triplet) :
    assembleAll [] (ts.dropWhile fun u => u.flag = PACKET_DATA_FLAG) = assembleAll [] ts := by
  induction ts with
  | nil => rfl
  | cons u ts ih =>
    by_cases hflag : u.flag = PACKET_DATA_FLAG
    · have hstep : assemble [] u = ([], []) := by
        unfold assemble
        rw [if_neg (by rw [hflag]; decide), if_neg fun hd => hd.2 rfl]
      rw [List.dropWhile_cons_of_pos (by simpa using hflag), ih, assembleAll, hstep]
      rfl
    · rw [List.dropWhile_cons_of_neg (by simpa using hflag)]

/-- Triplets of other flags and triplets before the first start have no part in a packet. -/
theorem assembleAll_channel (ts : List Triplet) :
    assembleAll [] (channel ts) = assembleAll [] ts := by
  rw [channel, assembleAll_dropWhile, assembleAll_filter]

/-! ## The decoder and the packet in progress -/

/-- The decoder of service `svc` runs, with no service block in progress. -/
structure Obj.Serves (o : Obj) (svc : Nat) : Prop where
  started : o.u8IsStart = true
  ended : o.bServiceBlockEnded = true
  curSize : o.stServiceBlock.u8CurSize = 0
  service : o.u32ServiceType = svc
  room : o.stPacket.au8PacketData.length = 128

theorem Obj.Serves.between {o : Obj} {svc : Nat} (h : o.Serves svc) : o.Between o.stPacket svc :=
  ⟨h.started, h.ended, h.curSize, h.service, rfl⟩

/-- The first bytes of a packet are stored. -/
structure Obj.Stored (o : Obj) (bs : List UInt8) : Prop where
  started : o.stPacket.bStart = true
  size : o.stPacket.u8CurSize = bs.length
  data : o.stPacket.au8PacketData.take bs.length = bs
  total : o.stPacket.u8TotalSize = packetSize (get8 bs 0)
  pos : 0 < bs.length
  even : bs.length % 2 = 0
  le : bs.length ≤ packetSize (get8 bs 0)

/-- No packet is in progress. -/
structure Obj.Idle (o : Obj) : Prop where
  started : o.stPacket.bStart = false
  size : o.stPacket.u8CurSize = 0

/-- `pend` is what the decoder has of the packet in progress. -/
structure Obj.Receives (o : Obj) (svc : Nat) (pend : List UInt8) : Prop where
  serves : o.Serves svc
  idle : pend = [] → o.Idle
  stored : pend ≠ [] → o.Stored pend ∧ pend.length < packetSize (get8 pend 0)

theorem memcpy_take (dst src : List UInt8) {off : Nat} (hoff : off ≤ dst.length) :
    (memcpy dst off src).take (off + src.length) = dst.take off ++ src := by
  have hlen : (dst.take off).length = off := by
    rw [List.length_take]
    omega
  rw [memcpy, List.take_left']
  rw [List.length_append, hlen]

theorem length_memcpy (dst src : List UInt8) {off : Nat} (hoff : off + src.length ≤ dst.length) :
    (memcpy dst off src).length = dst.length := by
  simp only [memcpy, List.length_append, List.length_take, List.length_drop]
  omega

/-- Two bytes are put into the packet. -/
theorem storePacket_two {o : Obj} (bs : List UInt8) (a b : UInt8)
    (hsize : o.stPacket.u8CurSize = bs.length)
    (hdata : o.stPacket.au8PacketData.take bs.length = bs)
    (hroom : bs.length + 2 ≤ o.stPacket.au8PacketData.length) :
    ((o.storePacket a).storePacket b).stPacket.u8CurSize = (bs ++ [a, b]).length ∧
      ((o.storePacket a).storePacket b).stPacket.au8PacketData.take (bs ++ [a, b]).length =
        bs ++ [a, b] ∧
      ((o.storePacket a).storePacket b).stPacket.au8PacketData.length =
        o.stPacket.au8PacketData.length := by
  have hfirst : (memcpy o.stPacket.au8PacketData bs.length [a]).take (bs.length + 1) =
      bs ++ [a] := by
    rw [← hdata]
    have := memcpy_take o.stPacket.au8PacketData [a] (show bs.length ≤ _ by omega)
    rwa [hdata] at this ⊢
  have hlen : (memcpy o.stPacket.au8PacketData bs.length [a]).length =
      o.stPacket.au8PacketData.length := length_memcpy _ _ (by simp only [List.length_singleton]; omega)
  have hsecond := memcpy_take (memcpy o.stPacket.au8PacketData bs.length [a]) [b]
    (show bs.length + 1 ≤ _ by omega)
  rw [hfirst, List.append_assoc] at hsecond
  simp only [Obj.storePacket, hsize, List.length_append, List.length_cons, List.length_nil]
  exact ⟨trivial, hsecond, by rw [length_memcpy _ _ (by simp only [List.length_singleton]; omega), hlen]⟩

/-- What packets put into the service queue of service `svc`. -/
def served (svc : Nat) (packets : List CaptionPacket) : List Event :=
  (delivered svc (packets.flatMap CaptionPacket.blocks)).map Event.put

/-- A packet that is full is parsed, and none is in progress behind it. -/
theorem endPacket_packet (p : CaptionPacket) {o : Obj} {svc : Nat} (hserves : o.Serves svc)
    (hstored : o.Stored p.bytes) :
    ∃ o' : Obj, o'.Receives svc [] ∧ endPacket o = (o', served svc [p]) := by
  have hsize : p.bytes.length = packetSize p.header := p.size_eq
  have htotal : o.stPacket.u8TotalSize = p.bytes.length := by rw [hstored.total, hsize]; rfl
  obtain ⟨o₁, hbetween, hparse⟩ := parsePacket_packet p
    (o.stPacket.au8PacketData.drop p.bytes.length) hserves.between htotal
  have hsplit : o.stPacket.au8PacketData =
      p.bytes ++ o.stPacket.au8PacketData.drop p.bytes.length := by
    conv_lhs => rw [← List.take_append_drop p.bytes.length o.stPacket.au8PacketData, hstored.data]
  rw [← hsplit, ← hstored.size] at hparse
  refine ⟨{ o₁ with stPacket := {}, stServiceBlock := {} },
    ⟨⟨hbetween.started, hbetween.ended, rfl, hbetween.service, rfl⟩, fun _ => ⟨rfl, rfl⟩,
      fun h => absurd rfl h⟩, ?_⟩
  unfold endPacket
  rw [hparse]
  simp only [hbetween.packet]
  rw [if_pos (by rw [hstored.size, htotal])]
  simp [served]

/-- Behind two bytes a packet is parsed if they were its last ones. -/
theorem endIfFull_stored {o : Obj} {svc : Nat} {bs : List UInt8} {packets : List CaptionPacket}
    (hserves : o.Serves svc) (hstored : o.Stored bs)
    (hfinish : (finish bs).2 = packets.map CaptionPacket.bytes) :
    ∃ o' : Obj, o'.Receives svc (finish bs).1 ∧ endIfFull o = (o', served svc packets) := by
  have hpos := hstored.pos
  have hne : bs ≠ [] := List.length_pos_iff.mp hpos
  unfold finish at *
  unfold endIfFull
  rw [hstored.size, hstored.total]
  split at hfinish
  · rename_i hfull
    rw [if_pos hfull, if_pos ⟨hpos, hfull⟩]
    obtain ⟨p, rfl, hp⟩ : ∃ p, packets = [p] ∧ bs = p.bytes := by
      match packets, hfinish with
      | [p], hfinish => exact ⟨p, rfl, by simpa using hfinish⟩
    subst hp
    exact endPacket_packet p hserves hstored
  · rename_i hfull
    have hle := hstored.le
    rw [if_neg hfull, if_neg fun h => hfull h.2]
    have hnil : packets = [] := by simpa using hfinish.symm
    subst hnil
    exact ⟨o, ⟨hserves, fun h => absurd h hne, fun _ => ⟨hstored, Nat.lt_of_le_of_ne hle hfull⟩⟩, rfl⟩

/-! ## The flags -/

theorem checkPacketSequenceNo_frame (o : Obj) :
    checkPacketSequenceNo o =
      { o with
        s32LastSeqenceNo := (checkPacketSequenceNo o).s32LastSeqenceNo
        stServiceQueue := (checkPacketSequenceNo o).stServiceQueue } := by
  unfold checkPacketSequenceNo
  split
  · rfl
  · split
    · simp only
      split <;> rfl
    · rfl

/-- Behind a flag that has two bytes stored, the packet is parsed if they were its last ones. -/
theorem endIfFull_taken {o : Obj} {svc : Nat} {bs : List UInt8} {packets : List CaptionPacket}
    (hserves : o.Serves svc) (hstored : o.Stored bs)
    (hfinish : (finish bs).2 = packets.map CaptionPacket.bytes) :
    ∃ o' : Obj, o'.Receives svc (finish bs).1 ∧
      ((endIfFull o).1, (endIfFull o).2, some 2) = (o', served svc packets, some 2) := by
  obtain ⟨o', hreceives, hend⟩ := endIfFull_stored hserves hstored hfinish
  exact ⟨o', hreceives, by rw [hend]⟩

/-- A start flag between two packets. -/
theorem startPacket_idle {o : Obj} {svc : Nat} (hreceives : o.Receives svc []) (a b : UInt8)
    (q : List UInt8) (n : Nat) {packets : List CaptionPacket}
    (hfinish : (finish [a, b]).2 = packets.map CaptionPacket.bytes) :
    ∃ o' : Obj, o'.Receives svc (finish [a, b]).1 ∧
      startPacket (a :: b :: q) (n + 2) o = (o', served svc packets, some 2) := by
  have hserves := hreceives.serves
  have hsize := (hreceives.idle rfl).size
  have htwo := packetSize_pos a
  have hget : get8 (a :: b :: q) 0 = a := rfl
  have hget1 : get8 (a :: b :: q) 1 = b := rfl
  unfold startPacket
  rw [hsize]
  simp only [Nat.lt_irrefl, if_false, hget, hget1, List.nil_append]
  rw [checkPacketSequenceNo_frame]
  simp only [hsize]
  rw [if_neg (by simp only [MAX_DTVCC_PACKET_LEN]; omega)]
  obtain ⟨-, -, hroom⟩ := storePacket_two [] a b hsize rfl (by rw [hserves.room]; decide)
  rw [hserves.room] at hroom
  apply endIfFull_taken _ _ hfinish
  · exact ⟨hserves.started, hserves.ended, hserves.curSize, hserves.service,
      by simpa [Obj.storePacket, hsize] using hroom⟩
  · exact ⟨rfl, by simp [Obj.storePacket], by simp [Obj.storePacket, memcpy], rfl, Nat.two_pos, by simp, htwo⟩

/-- A data flag within a packet. -/
theorem continuePacket_stored {o : Obj} {svc : Nat} {pend : List UInt8} (hpend : pend ≠ [])
    (hreceives : o.Receives svc pend) (a b : UInt8) (q : List UInt8)
    {packets : List CaptionPacket}
    (hfinish : (finish (pend ++ [a, b])).2 = packets.map CaptionPacket.bytes) :
    ∃ o' : Obj, o'.Receives svc (finish (pend ++ [a, b])).1 ∧
      continuePacket (a :: b :: q) o = (o', served svc packets, some 2) := by
  have hserves := hreceives.serves
  obtain ⟨hst, hlt⟩ := hreceives.stored hpend
  have hhead : get8 (pend ++ [a, b]) 0 = get8 pend 0 := get8_append_zero hpend _
  have hsize := hst.size
  have htotal := hst.total
  have hroom := packetSize_le (get8 pend 0)
  have heven := hst.even
  have hsizeEven := packetSize_even (get8 pend 0)
  have hget : get8 (a :: b :: q) 0 = a := rfl
  have hget1 : get8 (a :: b :: q) 1 = b := rfl
  obtain ⟨hcur, hdata, hlen⟩ := storePacket_two (o := o) pend a b hsize hst.data
    (by rw [hserves.room]; omega)
  rw [hserves.room] at hlen
  -- Sizes are even: the first of the two bytes never ends a packet.
  have hone : ¬(0 < (o.storePacket a).stPacket.u8CurSize ∧
      (o.storePacket a).stPacket.u8CurSize = (o.storePacket a).stPacket.u8TotalSize) := by
    simp only [Obj.storePacket, hsize, htotal]
    omega
  unfold continuePacket
  rw [if_pos hst.started, hsize, htotal, if_pos hlt]
  simp only [hget, hget1, if_neg hone]
  apply endIfFull_taken _ _ hfinish
  · exact ⟨hserves.started, hserves.ended, hserves.curSize, hserves.service, hlen⟩
  · refine ⟨hst.started, hcur, hdata, by rw [hhead]; exact htotal, ?_, ?_, ?_⟩
    · simp
    · simp only [List.length_append, List.length_cons, List.length_nil]
      omega
    · rw [hhead]
      simp only [List.length_append, List.length_cons, List.length_nil]
      omega

/-- What a flag does whose bytes are taken. -/
theorem dispatchFlag_taken {o : Obj} {svc : Nat} {pend : List UInt8}
    (hreceives : o.Receives svc pend) (u : Triplet) (hu : ¬TakesNone pend u) (q : List UInt8)
    (n : Nat) {packets : List CaptionPacket}
    (hpackets : (assemble pend u).2 = packets.map CaptionPacket.bytes) :
    ∃ o' : Obj, o'.Receives svc (assemble pend u).1 ∧
      dispatchFlag u.flag (u.data1 :: u.data2 :: q) (n + 2) o =
        (o', served svc packets, some 2) := by
  unfold TakesNone at hu
  unfold assemble at *
  unfold dispatchFlag
  by_cases hstart : u.flag = PACKET_START_FLAG
  · rw [if_pos hstart] at hpackets ⊢
    rw [if_pos hstart]
    by_cases hpend : pend = []
    · subst hpend
      exact startPacket_idle hreceives _ _ q n (by simpa using hpackets)
    · -- A start before its end leaves a packet that is too short.
      exfalso
      obtain ⟨-, hlt⟩ := hreceives.stored hpend
      rw [if_neg hpend] at hpackets
      match packets, hpackets with
      | p :: _, hpackets =>
        have hp : pend = p.bytes := by simpa using (List.cons.inj hpackets).1
        have hsize : p.bytes.length = packetSize p.header := p.size_eq
        have hhead : get8 p.bytes 0 = p.header := rfl
        rw [hp, hsize, hhead] at hlt
        exact Nat.lt_irrefl _ hlt
  · rw [if_neg hstart] at hpackets ⊢
    rw [if_neg hstart]
    by_cases hdata : u.flag = PACKET_DATA_FLAG
    · have hpend : pend ≠ [] := fun h => hu (.inr (.inr ⟨hdata, h⟩))
      rw [if_pos ⟨hdata, hpend⟩] at hpackets ⊢
      rw [if_pos hdata]
      exact continuePacket_stored hpend hreceives _ _ q hpackets
    · rw [if_neg fun h => hdata h.1] at hpackets ⊢
      rw [if_neg hdata, if_neg fun h => hu (h.imp_right .inl)]
      have hnil : packets = [] := by simpa using hpackets.symm
      subst hnil
      exact ⟨o, hreceives, rfl⟩

/-- What a flag does behind which no byte is taken. -/
theorem dispatchFlag_none {o : Obj} {svc : Nat} {pend : List UInt8}
    (hreceives : o.Receives svc pend) (u : Triplet) (hu : TakesNone pend u) (q : List UInt8)
    (n : Nat) : dispatchFlag u.flag q n o = (o, [], some 0) := by
  have hpad : padPacket o = (o, [], some 0) := by
    unfold padPacket
    rw [if_neg]
    rintro ⟨hpos, hle⟩
    by_cases hpend : pend = []
    · have := (hreceives.idle hpend).size
      omega
    · obtain ⟨hst, hlt⟩ := hreceives.stored hpend
      have hsize := hst.size
      have htotal := hst.total
      omega
  unfold dispatchFlag
  rcases hu with hflag | hflag | ⟨hflag, hpend⟩
  · rw [hflag, if_neg (by decide), if_neg (by decide), if_pos (.inl rfl), hpad]
  · rw [hflag, if_neg (by decide), if_neg (by decide), if_pos (.inr rfl), hpad]
  · rw [hflag, if_neg (by decide), if_pos rfl]
    unfold continuePacket
    rw [(hreceives.idle hpend).started]
    rfl

/-! ## Calls -/

theorem length_tripletBytes (ts : List Triplet) : (tripletBytes ts).length = 3 * ts.length := by
  induction ts with
  | nil => rfl
  | cons u ts ih =>
    simp only [tripletBytes, List.flatMap_cons, List.length_append, List.length_cons,
      List.length_nil] at ih ⊢
    omega

theorem tripletBytes_cons (u : Triplet) (ts : List Triplet) (behind : List UInt8) :
    tripletBytes (u :: ts) ++ behind =
      u.flag :: u.data1 :: u.data2 :: (tripletBytes ts ++ behind) := rfl

theorem picUsrDataLoop_zero (fuel : Nat) (p : List UInt8) (o : Obj) :
    picUsrDataLoop fuel p 0 o = (o, []) := by
  cases fuel with
  | zero => rfl
  | succ fuel => rw [picUsrDataLoop, if_pos rfl]

/-- A round of the loop. -/
theorem picUsrDataLoop_succ {fuel left taken : Nat} {b : UInt8} {q : List UInt8} {o o' : Obj}
    {es : List Event} (h : dispatchFlag b q left o = (o', es, some taken)) :
    picUsrDataLoop (fuel + 1) (b :: q) (left + 1) o =
      ((picUsrDataLoop fuel (q.drop taken) (left - taken) o').1,
        es ++ (picUsrDataLoop fuel (q.drop taken) (left - taken) o').2) := by
  have hget : get8 (b :: q) 0 = b := rfl
  rw [picUsrDataLoop, if_neg (by omega)]
  simp only [hget, List.drop_succ_cons, List.drop_zero, Nat.add_sub_cancel, h,
    Nat.add_comm 1 taken, Nat.add_sub_add_right]

/-- Read one byte too late, harmless triplets are passed over. -/
theorem picUsrDataLoop_shifted {pend : List UInt8} (u : Triplet) (ts : List Triplet)
    (behind : List UInt8) (o : Obj) (hharmless : ∀ v ∈ u :: ts, Harmless pend v) (fuel : Nat) :
    picUsrDataLoop fuel (u.data1 :: u.data2 :: (tripletBytes ts ++ behind)) (3 * ts.length + 2) o =
      (o, []) := by
  induction fuel generalizing u ts with
  | zero => rfl
  | succ fuel ih =>
    obtain ⟨-, -, hflag⟩ := hharmless u List.mem_cons_self
    simp only [List.mem_cons, List.not_mem_nil, or_false, not_or] at hflag
    obtain ⟨hstart, hdata, hend1, hend2⟩ := hflag
    -- two bytes are taken for one that means nothing, so the loop stays out of step
    have hdispatch : dispatchFlag u.data1 (u.data2 :: (tripletBytes ts ++ behind))
        (3 * ts.length + 1) o = (o, [], some 2) := by
      unfold dispatchFlag
      rw [if_neg hstart, if_neg hdata, if_neg fun h => h.elim hend1 hend2]
    rw [picUsrDataLoop_succ hdispatch]
    cases ts with
    | nil =>
      simp only [List.length_nil, Nat.mul_zero, Nat.zero_add, Nat.reduceSub, picUsrDataLoop_zero,
        List.append_nil]
    | cons v ts =>
      have hleft : 3 * (v :: ts).length + 1 - 2 = 3 * ts.length + 2 := by
        rw [List.length_cons]
        omega
      rw [tripletBytes_cons, hleft]
      simp only [List.drop_succ_cons, List.drop_zero,
        ih v ts fun w hw => hharmless w (List.mem_cons_of_mem _ hw), List.append_nil]

theorem served_append (svc : Nat) (ps qs : List CaptionPacket) :
    served svc (ps ++ qs) = served svc ps ++ served svc qs := by
  simp [served, delivered]

/-- The loop over the triplets of an aligned call. -/
theorem picUsrDataLoop_aligned {svc : Nat} (ts : List Triplet) (behind : List UInt8)
    {o : Obj} {pend : List UInt8} (hreceives : o.Receives svc pend) (haligned : Aligned pend ts)
    {packets : List CaptionPacket}
    (hpackets : (assembleAll pend ts).2 = packets.map CaptionPacket.bytes)
    {fuel : Nat} (hfuel : 3 * ts.length ≤ fuel) :
    ∃ o' : Obj, o'.Receives svc (assembleAll pend ts).1 ∧
      picUsrDataLoop fuel (tripletBytes ts ++ behind) (3 * ts.length) o =
        (o', served svc packets) := by
  induction ts generalizing o pend packets fuel with
  | nil =>
    have hnil : packets = [] := by simpa [assembleAll] using hpackets.symm
    subst hnil
    exact ⟨o, hreceives, picUsrDataLoop_zero fuel _ o⟩
  | cons u ts ih =>
    rw [List.length_cons] at hfuel
    obtain ⟨fuel, rfl⟩ : ∃ k, fuel = k + 1 := ⟨fuel - 1, by omega⟩
    have hleft : 3 * (u :: ts).length = 3 * ts.length + 2 + 1 := by
      rw [List.length_cons]
      omega
    rw [tripletBytes_cons, hleft]
    rw [Aligned] at haligned
    by_cases hnone : TakesNone pend u
    · -- From here on every flag of the call is read one byte too late.
      rw [if_pos hnone] at haligned
      have hkeep := assembleAll_harmless haligned
      rw [hkeep] at hpackets ⊢
      have hnil : packets = [] := by simpa using hpackets.symm
      subst hnil
      refine ⟨o, hreceives, ?_⟩
      rw [picUsrDataLoop_succ (dispatchFlag_none hreceives u hnone _ _), Nat.sub_zero,
        List.drop_zero, picUsrDataLoop_shifted u ts behind o haligned]
      rfl
    · rw [if_neg hnone] at haligned
      rw [assembleAll] at hpackets ⊢
      obtain ⟨first, others, rfl, hfirst, hothers⟩ := List.map_eq_append_iff.mp hpackets.symm
      obtain ⟨o₁, hreceives₁, hdispatch⟩ :=
        dispatchFlag_taken hreceives u hnone (tripletBytes ts ++ behind) (3 * ts.length) hfirst.symm
      obtain ⟨o₂, hreceives₂, hloop⟩ :=
        ih hreceives₁ haligned hothers.symm (show 3 * ts.length ≤ fuel by omega)
      refine ⟨o₂, hreceives₂, ?_⟩
      rw [picUsrDataLoop_succ hdispatch, Nat.add_sub_cancel]
      simp only [List.drop_succ_cons, List.drop_zero, hloop, served_append]

/-- A call of an aligned run. -/
theorem receiver_step {svc : Nat} (c : Call) {o : Obj} {pend : List UInt8}
    (hreceives : o.Receives svc pend) (haligned : Aligned pend c.triplets)
    {packets : List CaptionPacket}
    (hpackets : (assembleAll pend c.triplets).2 = packets.map CaptionPacket.bytes) :
    (receiver.step o c).1.Receives svc (assembleAll pend c.triplets).1 ∧
      (receiver.step o c).2 = served svc packets := by
  obtain ⟨o', hreceives', hloop⟩ :=
    picUsrDataLoop_aligned c.triplets c.behind hreceives haligned hpackets
      (Nat.le_refl (3 * c.triplets.length))
  have hstep : receiver.step o c = (o', served svc packets) := by
    show picUsrDataLoop _ _ _ _ = _
    rw [length_tripletBytes, hloop]
  rw [hstep]
  exact ⟨hreceives', rfl⟩

/-- The outputs of an aligned run are those of the packets that its triplets make. -/
theorem receiver_outputs {svc : Nat} (calls : List Call) {o : Obj} {pend : List UInt8}
    (hreceives : o.Receives svc pend) (haligned : AlignedCalls pend calls)
    {packets : List CaptionPacket}
    (hpackets : (assembleAll pend (calls.flatMap Call.triplets)).2 =
      packets.map CaptionPacket.bytes) :
    (receiver.outputs o calls).flatten = served svc packets := by
  induction calls generalizing o pend packets with
  | nil =>
    have hnil : packets = [] := by simpa [assembleAll] using hpackets.symm
    subst hnil
    rfl
  | cons c calls ih =>
    rw [List.flatMap_cons, assembleAll_append] at hpackets
    obtain ⟨first, others, rfl, hfirst, hothers⟩ := List.map_eq_append_iff.mp hpackets.symm
    obtain ⟨hreceives₁, hout⟩ := receiver_step c hreceives haligned.1 hfirst.symm
    rw [Machine.outputs_cons, List.flatten_cons, hout, ih hreceives₁ haligned.2 hothers.symm,
      served_append]

/-! ## The contract -/

/-- The data of the service blocks goes to the queue, in order and once, and nothing else does,
    as long as the calls are aligned. -/
theorem services_delivered {o : Obj} {svc : Nat} (hserves : o.Serves svc) (hidle : o.Idle)
    (packets : List CaptionPacket) (calls : List Call)
    (hchannel : channel (calls.flatMap Call.triplets) = packets.flatMap CaptionPacket.triplets)
    (haligned : AlignedCalls [] calls) :
    (receiver.outputs o calls).flatten =
      (delivered svc (packets.flatMap CaptionPacket.blocks)).map Event.put := by
  apply receiver_outputs calls ⟨hserves, fun _ => hidle, fun h => absurd rfl h⟩ haligned
  rw [← assembleAll_channel, hchannel, assembleAll_packets]

/-- A packet with a block for service 1, one for service 2 and a null block. -/
def packetAB : CaptionPacket where
  header := 0x44
  blocks := [⟨0x22, none, [0x41, 0x42], by decide, by decide, by decide, by decide⟩,
    ⟨0x41, none, [0x43], by decide, by decide, by decide, by decide⟩]
  nulls := [0, 0]
  null_of_mem := by decide +kernel
  size_eq := by decide +kernel

/-- A packet in two calls, among padding and field data. -/
theorem services_delivered_two :
    (receiver.outputs { u8IsStart := true }
        [⟨[⟨0xfe, 1, 2⟩, ⟨0xfa, 0, 0⟩], [], by decide, by decide⟩,
          ⟨[⟨0xfc, 0xff, 0⟩, ⟨0xff, 0x44, 0x22⟩, ⟨0xfe, 0x41, 0x42⟩], [], by decide, by decide⟩,
          ⟨[⟨0xfe, 0x41, 0x43⟩, ⟨0xfd, 1, 1⟩, ⟨0xfe, 0, 0⟩, ⟨0xfa, 0, 0⟩], [], by decide,
            by decide⟩]).flatten = [.put [0x41, 0x42]] :=
  @services_delivered _ 1 ⟨rfl, rfl, rfl, rfl, rfl⟩ ⟨rfl, rfl⟩ [packetAB] _
    (by decide +kernel) (by decide +kernel)

/-- With a padding triplet in front of it in its call, a packet is lost: the function takes no
    byte behind the padding flag, so the flags behind it are passed over. -/
theorem padding_loses_packet :
    ¬∀ (o : Obj) (svc : Nat) (packets : List CaptionPacket) (calls : List Call),
      o.Serves svc → o.Idle →
      channel (calls.flatMap Call.triplets) = packets.flatMap CaptionPacket.triplets →
      (receiver.outputs o calls).flatten =
        (delivered svc (packets.flatMap CaptionPacket.blocks)).map Event.put := by
  intro h
  have hlost := h { u8IsStart := true } 1 [packetAB]
    [⟨⟨0xfa, 0, 0⟩ :: packetAB.triplets, [], by decide, by decide⟩] ⟨rfl, rfl, rfl, rfl, rfl⟩
    ⟨rfl, rfl⟩ (by decide +kernel)
  revert hlost
  decide +kernel

end Tntsat.Cc708
