import Tntsat.Native.RecHeader

/-!
# The bytes behind a start code

The header of a record should hold the bytes behind the start code: what is left of its
packet, and then the payload of the packets of the same PID that follow, around the end of
the recording buffer.

Each packet hands over its payload or as much of it as is still needed, so the loop copies
a prefix of the payloads of the packets it passes, and the second call goes on where the
first one has stopped.  The branch that would count a chunk twice is never taken: a packet
that holds as much as is needed has been left before.

## Key results

- `getRemainStc_eq`: what is copied from the packets, and the number that is returned.
- `copyHeader_eq`: the bytes that the header is filled with.
-/

namespace Tntsat.RecHeader

open DemuxSw (TsPacket byteAt dmxTsPacketLen)

/-- The payload of a packet. -/
def payload (ts : TsPacket) : List UInt8 :=
  if adaptationControl ts = 1 then ts.bytes.drop 4
  else if adaptationControl ts = 3 then ts.bytes.drop (4 + 1 + (byteAt ts.bytes 4).toNat)
  else []

/-- The payload bytes of a PID in these packets. -/
def payloads (pid : Nat) (packets : List TsPacket) : List UInt8 :=
  (packets.filter fun ts => pidOf ts = pid).flatMap payload

/-- The packets start with their sync byte. -/
def Synced (packets : List TsPacket) : Prop := ∀ ts ∈ packets, byteAt ts.bytes 0 = 0x47

variable {pid : Nat} {ts : TsPacket} {packets : List TsPacket}

@[simp] theorem payloads_nil : payloads pid [] = [] := rfl

theorem payloads_append (packets' : List TsPacket) :
    payloads pid (packets ++ packets') = payloads pid packets ++ payloads pid packets' := by
  simp [payloads]

theorem payloads_cons_of_ne (hpid : pidOf ts ≠ pid) :
    payloads pid (ts :: packets) = payloads pid packets := by
  rw [payloads, List.filter_cons_of_neg (by simpa using hpid)]
  rfl

theorem payloads_cons (hpid : pidOf ts = pid) :
    payloads pid (ts :: packets) = payload ts ++ payloads pid packets := by
  rw [payloads, List.filter_cons_of_pos (by simpa using hpid), List.flatMap_cons]
  rfl

/-- A packet that holds as many payload bytes as are needed. -/
theorem take_payloads_cons (hpid : pidOf ts = pid) {need : Nat} (h : need ≤ (payload ts).length) :
    (payloads pid (ts :: packets)).take need = (payload ts).take need := by
  rw [payloads_cons hpid, List.take_append_of_le_length h]

/-- What is copied is a prefix of the payloads, and the number of bytes copied is
    returned. -/
theorem getRemainStc_eq (pid buf : Nat) (hsync : Synced packets) (m : Memory UInt8)
    (cpyed : Nat) {need : Nat} (hpos : 0 < need) (hneed : need ≤ 184) :
    getRemainStc pid buf packets m cpyed need =
      (m.write (buf + cpyed) ((payloads pid packets).take need),
        cpyed + ((payloads pid packets).take need).length) := by
  induction packets generalizing m cpyed need with
  | nil => simp [getRemainStc]
  | cons ts packets ih =>
    have hrest : Synced packets := fun p hp => hsync p (List.mem_cons_of_mem _ hp)
    have hlen : ts.bytes.length = 188 := ts.length_eq
    rw [getRemainStc, if_neg (by simpa using hsync ts (List.mem_cons_self ..))]
    by_cases hpid : pidOf ts = pid
    · rw [if_neg (by simpa using hpid)]
      by_cases hone : adaptationControl ts = 1
      · -- no adaptation field
        have hpay : payload ts = ts.bytes.drop 4 := if_pos hone
        have hle : need ≤ (payload ts).length := by
          rw [hpay, List.length_drop]
          omega
        rw [if_pos hone, take_payloads_cons hpid hle, List.length_take_of_le hle, hpay]
      rw [if_neg hone]
      by_cases hthree : adaptationControl ts = 3
      · -- the payload is what the adaptation field leaves
        have hpay : payload ts = ts.bytes.drop (4 + 1 + (byteAt ts.bytes 4).toNat) := by
          rw [payload, if_neg hone, if_pos hthree]
        have hsize : (payload ts).length = 188 - (4 + 1 + (byteAt ts.bytes 4).toNat) := by
          rw [hpay, List.length_drop, hlen]
        rw [if_pos hthree]
        dsimp only
        split
        · have hnil : payload ts = [] := List.eq_nil_of_length_eq_zero (by omega)
          rw [ih hrest m cpyed hpos hneed, payloads_cons hpid, hnil, List.nil_append]
        split
        · have hle : need ≤ (payload ts).length := by omega
          rw [take_payloads_cons hpid hle, List.length_take_of_le hle, hpay]
        · -- the packet holds less than is needed
          have htmp : (if 188 - (4 + 1 + (byteAt ts.bytes 4).toNat) > need then need
              else 188 - (4 + 1 + (byteAt ts.bytes 4).toNat)) = (payload ts).length := by
            rw [if_neg (by omega), hsize]
          have htake : (payload ts).take need = payload ts := List.take_of_length_le (by omega)
          rw [htmp, if_neg (by omega), ← hpay, List.take_length, ih hrest _ _ (by omega) (by omega),
            payloads_cons hpid, ← Nat.add_assoc, Memory.write_append, List.take_append, htake,
            List.length_append, Nat.add_assoc]
      · have hpay : payload ts = [] := by rw [payload, if_neg hone, if_neg hthree]
        rw [if_neg hthree, ih hrest m cpyed hpos hneed, payloads_cons hpid, hpay, List.nil_append]
    · rw [if_pos (by simpa using hpid), ih hrest m cpyed hpos hneed, payloads_cons_of_ne hpid]

theorem cpyLen_le (vc1 : Bool) : cpyLen vc1 ≤ 12 := by cases vc1 <;> decide

/-- A call of the function for some of the packets of the buffer. -/
theorem getRemainStc_call {vc1 : Bool} (hsync : Synced packets) (pid buf : Nat)
    (passed : List TsPacket) (m : Memory UInt8) (need : Nat) (hsub : passed ⊆ packets)
    (hpos : 0 < need) (hneed : need ≤ cpyLen vc1) :
    getRemainStc pid buf passed m 0 need =
      (m.write buf ((payloads pid passed).take need),
        ((payloads pid passed).take need).length) := by
  have hmax := cpyLen_le vc1
  have h := getRemainStc_eq pid buf (fun ts hts => hsync ts (hsub hts)) m 0 hpos
    (Nat.le_trans hneed (by omega))
  rwa [Nat.add_zero, Nat.zero_add] at h

/-- The header holds what is left of the packet behind the start code and then the payload
    of its PID in the packets that follow, around the end of the buffer; each call copies
    the first `need` of these bytes, or all there are, and returns their number. -/
theorem copyHeader_eq (vc1 : Bool) (packets : List TsPacket) (hsync : Synced packets)
    (pnum : Fin packets.length) (poff : Fin 188) (u8ptr : Nat) (m : Memory UInt8) :
    copyHeader vc1 packets pnum poff u8ptr m =
      m.write u8ptr ((packets[pnum].bytes.drop poff ++
        payloads (pidOf packets[pnum]) (packets.drop (pnum + 1) ++ packets.take pnum)).take
          (cpyLen vc1)) ∧
    ∀ (pid buf : Nat) (passed : List TsPacket) (m : Memory UInt8) (need : Nat),
      passed ⊆ packets → 0 < need → need ≤ cpyLen vc1 →
      getRemainStc pid buf passed m 0 need =
        (m.write buf ((payloads pid passed).take need), ((payloads pid passed).take need).length)
    := by
  refine ⟨?_, getRemainStc_call hsync⟩
  have hcall := @getRemainStc_call packets vc1 hsync
  have hlen : (packets[pnum].bytes.drop poff).length = 188 - poff := by
    rw [List.length_drop, packets[pnum].length_eq]
    rfl
  unfold copyHeader
  dsimp only
  rw [show packets.get pnum = packets[pnum] from rfl]
  generalize hrest : packets[pnum].bytes.drop poff = rest at hlen ⊢
  generalize hpid : pidOf packets[pnum] = pid
  rw [payloads_append]
  by_cases hmore : 188 - poff < cpyLen vc1
  · -- the bytes are spread over several packets
    have hfirst : (if cpyLen vc1 < 188 - poff then cpyLen vc1 else 188 - poff) = rest.length := by
      rw [if_neg (by omega), hlen]
    rw [hfirst, if_pos (by omega), List.take_length,
      hcall _ _ _ _ _ (List.drop_subset ..) (by omega) (by omega)]
    dsimp only
    rw [Memory.write_append, List.take_append, List.take_of_length_le (l := rest) (by omega)]
    generalize payloads pid (packets.drop (pnum + 1)) = behind
    split
    · -- and around the end of the buffer
      rename_i hshort
      have hall : behind.length < cpyLen vc1 - rest.length := by
        rw [List.length_take] at hshort
        omega
      rw [List.take_of_length_le (Nat.le_of_lt hall),
        hcall _ _ _ _ _ (List.take_subset ..) (by omega) (by omega), Nat.add_assoc,
        ← List.length_append, Memory.write_append, List.take_append,
        List.take_of_length_le (l := behind) (by omega), List.append_assoc]
    · rename_i hfull
      have hall : cpyLen vc1 - rest.length ≤ behind.length := by
        rw [List.length_take] at hfull
        omega
      rw [List.take_append_of_le_length hall]
  · have hfirst : (if cpyLen vc1 < 188 - poff then cpyLen vc1 else 188 - poff) = cpyLen vc1 := by
      split <;> omega
    rw [hfirst, if_neg (by omega), List.take_append_of_le_length (by omega)]

/-- A packet of this PID whose payload starts behind an adaptation field of `len` bytes. -/
def samplePacket (pid len : UInt8) : TsPacket where
  bytes := [0x47, 0, pid, 0x30, len] ++ List.replicate 183 pid
  length_eq := by rw [List.length_append, List.length_replicate]; rfl

/-- The last of three packets, with packets of two PIDs before it. -/
def samplePackets : List TsPacket := [samplePacket 1 5, samplePacket 2 5, samplePacket 1 180]

theorem samplePackets_synced : Synced samplePackets := by
  intro ts hts
  obtain rfl | rfl | rfl : ts = samplePacket 1 5 ∨ ts = samplePacket 2 5 ∨
      ts = samplePacket 1 180 := by simpa [samplePackets] using hts
  all_goals rfl

/-- A memory without anything in it. -/
def blank : Memory UInt8 := fun _ => 0

theorem copyHeader_eq_sample :
    copyHeader false samplePackets ⟨2, by decide⟩ 184 0 blank =
      blank.write 0 ((samplePackets[2].bytes.drop 184 ++
        payloads (pidOf samplePackets[2]) (samplePackets.drop 3 ++ samplePackets.take 2)).take
          (cpyLen false)) :=
  (copyHeader_eq false samplePackets samplePackets_synced ⟨2, by decide⟩ 184 0 blank).1

end Tntsat.RecHeader
