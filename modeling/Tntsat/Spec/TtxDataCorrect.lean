import Mathlib.Algebra.Group.Nat.Defs
import Mathlib.Data.List.Forall2
import Tntsat.Native.TtxData

/-!
# The teletext packets are put together

Whole PES packets are cut into pieces and injected one after another.  `TTX_DataRecv_Inject` asks
for as many bytes as the length field says, and goes on by as many, while a packet is six bytes
longer than that.

## Key results

- `inject_waits`, `inject_whole`: what an injection does that ends inside of a packet or with it
- `reassembled`: runs without a packet end inside of an injection parse the packets as they were
-/

namespace Tntsat.TtxData

open SubtData (byteAt pesPayloadLength)

/-! ## Packets -/

/-- What follows the length field of a packet. -/
structure Packet where
  payload : List UInt8
deriving DecidableEq

/-- The length is one that the receiver takes. -/
def Packet.WellFormed (p : Packet) : Prop := 1 ≤ p.payload.length ∧ p.payload.length ≤ 16384

instance (p : Packet) : Decidable p.WellFormed := inferInstanceAs (Decidable (_ ∧ _))

/-- The start code and the length field. -/
def Packet.header (p : Packet) : List UInt8 :=
  [0x00, 0x00, 0x01, 0xbd, .ofNat (p.payload.length / 256), .ofNat p.payload.length]

/-- The bytes of a packet. -/
def Packet.bytes (p : Packet) : List UInt8 := p.header ++ p.payload

/-- The packets that are complete within the first `n` bytes. -/
def completed : Nat → List Packet → List Packet
  | _, [] => []
  | n, p :: packets =>
    if p.bytes.length ≤ n then p :: completed (n - p.bytes.length) packets else []

theorem length_bytes (p : Packet) : p.bytes.length = 6 + p.payload.length := by
  rw [Packet.bytes, List.length_append]
  rfl

theorem completed_of_lt {n : Nat} {p : Packet} (h : n < p.bytes.length) (packets : List Packet) :
    completed n (p :: packets) = [] := if_neg (Nat.not_le.mpr h)

/-- A packet is parsed from bytes that begin with all of it. -/
def ParsedWhole (call : List UInt8) (p : Packet) : Prop := p.bytes <+: call

/-- What is buffered when an injection has been received. -/
def pending (r : DataRecv) (pu8Data : List UInt8) : List UInt8 := (receive r pu8Data).au8PesBuffer

/-- The tail of a packet does not look like a packet that has to be waited for or parsed. -/
def Harmless (tail : List UInt8) : Prop :=
  ttxCheckPes tail = true → pesPayloadLength tail = 0 ∨ 16384 < pesPayloadLength tail

instance (tail : List UInt8) : Decidable (Harmless tail) := inferInstanceAs (Decidable (_ → _))

/-- The injection ends with a packet whose last six bytes are harmless, or in front of its last
    six bytes. -/
def EndsWithPacket (r : DataRecv) (pu8Data : List UInt8) : Prop :=
  (pending r pu8Data).length < 6 ∨
    (pending r pu8Data).length < pesPayloadLength (pending r pu8Data) ∨
    (pending r pu8Data).length = 6 + pesPayloadLength (pending r pu8Data) ∧
      Harmless ((pending r pu8Data).drop (pesPayloadLength (pending r pu8Data)))

instance (r : DataRecv) (pu8Data : List UInt8) : Decidable (EndsWithPacket r pu8Data) :=
  inferInstanceAs (Decidable (_ ∨ _))

theorem pesPayloadLength_header {p : Packet} (hp : p.WellFormed) (rest : List UInt8) :
    ttxCheckPes (p.header ++ rest) = true ∧
      pesPayloadLength (p.header ++ rest) = p.payload.length := by
  obtain ⟨-, hlen⟩ := hp
  refine ⟨rfl, ?_⟩
  have hhigh : p.payload.length / 256 < 2 ^ 8 := by omega
  have hlow : p.payload.length % 256 < 2 ^ 8 := Nat.mod_lt _ (by decide)
  show (UInt8.ofNat (p.payload.length / 256)).toNat <<< 8 |||
    (UInt8.ofNat p.payload.length).toNat = p.payload.length
  rw [UInt8.toNat_ofNat', UInt8.toNat_ofNat', Nat.mod_eq_of_lt hhigh,
    ← Nat.shiftLeft_add_eq_or_of_lt hlow, Nat.shiftLeft_eq]
  exact Nat.div_add_mod' _ _

/-! ## One injection -/

/-- Nothing is cut off. -/
theorem pending_eq {r : DataRecv} {pu8Data : List UInt8}
    (hroom : r.au8PesBuffer.length + pu8Data.length ≤ TTX_MAX_PES_PACKET_LEN) :
    pending r pu8Data = r.au8PesBuffer ++ pu8Data := by
  show r.au8PesBuffer ++ pu8Data.take (ite _ _ _) = r.au8PesBuffer ++ pu8Data
  rw [if_neg (Nat.not_lt.mpr hroom), List.take_length]

theorem inject_eq {r : DataRecv} {pu8Data : List UInt8} (hne : pu8Data ≠ []) :
    (inject r pu8Data).1.au8PesBuffer =
        (injectLoop (pending r pu8Data).length (pending r pu8Data)).1 ∧
      (inject r pu8Data).2 = (injectLoop (pending r pu8Data).length (pending r pu8Data)).2 := by
  rw [inject, if_neg hne]
  exact ⟨rfl, rfl⟩

/-- Less than six bytes are kept. -/
theorem injectLoop_short {p : List UInt8} (fuel : Nat) (hshort : p.length < 6) :
    injectLoop fuel p = (p, []) := by
  cases fuel with
  | zero => rfl
  | succ fuel => rw [injectLoop, if_pos hshort]

/-- A packet of which less is there than its length field says is kept. -/
theorem injectLoop_waits {p : List UInt8} (fuel : Nat) (hcheck : ttxCheckPes p = true)
    (hlen : pesPayloadLength p ≤ 16384) (hshort : p.length < pesPayloadLength p) :
    injectLoop fuel p = (p, []) := by
  cases fuel with
  | zero => rfl
  | succ fuel =>
    by_cases hsix : p.length < 6
    · exact injectLoop_short _ hsix
    · rw [injectLoop, if_neg hsix, if_pos hcheck]
      dsimp only
      have hmax : TTX_MAX_PES_PACKET_LEN >>> 2 = 16384 := by decide
      rw [hmax, if_neg (Nat.not_lt.mpr hlen), if_pos hshort]

/-- Six bytes that are harmless are dropped. -/
theorem injectLoop_harmless {tail : List UInt8} (fuel : Nat) (hlen : tail.length = 6)
    (htail : Harmless tail) : injectLoop (fuel + 1) tail = ([], []) := by
  rw [injectLoop, if_neg (by omega)]
  split
  · rename_i hcheck
    dsimp only
    have hmax : TTX_MAX_PES_PACKET_LEN >>> 2 = 16384 := by decide
    rw [hmax]
    rcases htail hcheck with hzero | hlong
    · rw [hzero, if_neg (by omega), if_neg (by omega), if_pos rfl]
    · rw [if_pos hlong]
  · rfl

/-- A whole packet is parsed, and nothing is kept of it. -/
theorem injectLoop_whole {p : List UInt8} (hcheck : ttxCheckPes p = true)
    (hlow : 1 ≤ pesPayloadLength p) (hhigh : pesPayloadLength p ≤ 16384)
    (hlen : p.length = 6 + pesPayloadLength p) (htail : Harmless (p.drop (pesPayloadLength p))) :
    injectLoop p.length p = ([], [p]) := by
  have hfuel : p.length = (pesPayloadLength p - 1 + 5) + 1 + 1 := by omega
  have hmax : TTX_MAX_PES_PACKET_LEN >>> 2 = 16384 := by decide
  have hsix : (p.drop (pesPayloadLength p)).length = 6 := by
    rw [List.length_drop]
    omega
  rw [hfuel, injectLoop, if_neg (by omega), if_pos hcheck]
  dsimp only
  rw [hmax, if_neg (by omega), if_neg (by omega), if_neg (by omega),
    injectLoop_harmless _ hsix htail]

/-- An injection that ends inside of a packet keeps what there is, and one that ends with it parses
    it. -/
theorem inject_step {r : DataRecv} {pu8Data rest : List UInt8} {p : Packet}
    {packets : List Packet} (hp : p.WellFormed) (hstart : r.au8PesBuffer.length < p.bytes.length)
    (hstream : r.au8PesBuffer ++ pu8Data ++ rest = p.bytes ++ packets.flatMap Packet.bytes)
    (hne : pu8Data ≠ []) (hlen : pu8Data.length ≤ 32768) (hends : EndsWithPacket r pu8Data) :
    ((inject r pu8Data).2 = [] ∧ (inject r pu8Data).1.au8PesBuffer = r.au8PesBuffer ++ pu8Data ∧
        (r.au8PesBuffer ++ pu8Data).length < p.bytes.length) ∨
      ((inject r pu8Data).2 = [p.bytes] ∧ (inject r pu8Data).1.au8PesBuffer = [] ∧
        r.au8PesBuffer ++ pu8Data = p.bytes) := by
  have hbytes := length_bytes p
  obtain ⟨hlow, hhigh⟩ := id hp
  obtain ⟨hbuf, hcalls⟩ := inject_eq (r := r) hne
  have hroom : r.au8PesBuffer.length + pu8Data.length ≤ TTX_MAX_PES_PACKET_LEN := by
    rw [TTX_MAX_PES_PACKET_LEN]
    omega
  rw [EndsWithPacket] at hends
  rw [pending_eq hroom] at hbuf hcalls hends
  generalize r.au8PesBuffer ++ pu8Data = b at hstream hbuf hcalls hends
  by_cases hshort : b.length < 6
  · rw [injectLoop_short _ hshort] at hbuf hcalls
    exact .inl ⟨hcalls, hbuf, by omega⟩
  · -- the header is there, so the length is known
    have hprefix : b <+: p.header ++ (p.payload ++ packets.flatMap Packet.bytes) :=
      ⟨rest, by rw [hstream, Packet.bytes, List.append_assoc]⟩
    obtain ⟨behind, rfl⟩ : p.header <+: b :=
      List.prefix_of_prefix_length_le (List.prefix_append _ _) hprefix (Nat.le_of_not_lt hshort)
    obtain ⟨hcheck, hfield⟩ := pesPayloadLength_header hp behind
    rw [hfield] at hends
    rcases hends with hsix | hwaits | ⟨hwhole, htail⟩
    · exact absurd hsix hshort
    · rw [injectLoop_waits _ hcheck (by omega) (by omega)] at hbuf hcalls
      exact .inl ⟨hcalls, hbuf, by omega⟩
    · rw [injectLoop_whole hcheck (by omega) (by omega) (by omega) (by rw [hfield]; exact htail)]
        at hbuf hcalls
      have heq : p.header ++ behind = p.bytes := by
        have hbytes' : p.bytes <+: p.bytes ++ packets.flatMap Packet.bytes :=
          List.prefix_append _ _
        rw [← hstream] at hbytes'
        exact (List.prefix_of_prefix_length_le (List.prefix_append _ rest) hbytes'
          (by omega)).eq_of_length (by omega)
      rw [heq] at hcalls
      exact .inr ⟨hcalls, hbuf, heq⟩

/-! ## Runs -/

/-- The packets that are complete by then have been parsed, each once and as a whole, and no
    others. -/
def Reassembled (packets : List Packet) (injected : List (List UInt8)) : Prop :=
  List.Forall₂ ParsedWhole (machine.outputs create injected).flatten
    (completed injected.flatten.length packets)

/-- The buffer is written within its bounds. -/
def NoOverrun (chunks : List (List UInt8)) : Prop :=
  machine.Always (fun r pu8Data => (pending r pu8Data).length ≤ TTX_MAX_PES_PACKET_LEN) create
    chunks

/-- The buffer is never overrun, whatever is injected. -/
theorem noOverrun (chunks : List (List UInt8)) : NoOverrun chunks :=
  (Machine.always_of_invariant (I := fun _ => True) (P := fun _ _ => True)
    (fun r pu8Data _ _ => ⟨(receive r pu8Data).fits, trivial⟩) trivial
    (machine.always_true create chunks)).1

/-- From any point of the stream: what is buffered is the beginning of the next packet. -/
theorem outputs_parsed {packets : List Packet} (hpackets : ∀ p ∈ packets, p.WellFormed)
    {injected : List (List UInt8)} (hchunks : ∀ c ∈ injected, c ≠ [] ∧ c.length ≤ 32768)
    {r : DataRecv} (hstart : ∀ p ∈ packets.head?, r.au8PesBuffer.length < p.bytes.length)
    {rest : List UInt8}
    (hstream : r.au8PesBuffer ++ injected.flatten ++ rest = packets.flatMap Packet.bytes)
    (hends : machine.Always EndsWithPacket r injected) :
    List.Forall₂ ParsedWhole (machine.outputs r injected).flatten
      (completed (r.au8PesBuffer.length + injected.flatten.length) packets) := by
  induction injected generalizing r packets with
  -- nothing was injected, and what is buffered is less than a packet
  | nil =>
    have hnone : completed r.au8PesBuffer.length packets = [] := by
      cases packets with
      | nil => rfl
      | cons p packets => exact completed_of_lt (hstart p rfl) packets
    simp [hnone]
  | cons c injected ih =>
    obtain ⟨⟨hne, hlen⟩, hchunks⟩ := List.forall_mem_cons.mp hchunks
    obtain ⟨hc, hends⟩ := hends
    have hsplit : r.au8PesBuffer ++ (c :: injected).flatten ++ rest =
        r.au8PesBuffer ++ c ++ (injected.flatten ++ rest) := by simp
    rw [hsplit] at hstream
    cases packets with
    | nil =>
      -- the chunk holds bytes, so there is a packet they belong to
      have hnil := congrArg List.length hstream
      have hpos := List.length_pos_of_ne_nil hne
      simp only [List.length_append, List.flatMap_nil, List.length_nil] at hnil
      omega
    | cons p packets =>
      obtain ⟨hp, hpackets'⟩ := List.forall_mem_cons.mp hpackets
      rw [List.flatMap_cons] at hstream
      rw [Machine.outputs_cons, List.flatten_cons]
      rcases inject_step hp (hstart p rfl) hstream hne hlen hc with
        ⟨hcalls, hbuf, hinside⟩ | ⟨hcalls, hbuf, hwhole⟩
      -- the chunk ends inside the packet: it is buffered and nothing is parsed
      · have htail := ih hpackets hchunks (r := (inject r c).1)
          (by
            rw [hbuf]
            rintro q ⟨⟩
            exact hinside)
          (by rw [hbuf, List.append_assoc]; exact hstream) hends
        rw [hbuf, List.length_append] at htail
        show List.Forall₂ ParsedWhole ((inject r c).2 ++ _) _
        rw [hcalls, List.flatten_cons, List.length_append, ← Nat.add_assoc]
        exact htail
      -- the chunk ends with the packet: it is parsed, and the buffer is empty
      · rw [hwhole] at hstream
        have htail := ih hpackets' hchunks (r := (inject r c).1)
          (by
            rw [hbuf]
            intro q _
            rw [length_bytes, List.length_nil]
            omega)
          (by rw [hbuf, List.nil_append]; exact List.append_cancel_left hstream) hends
        rw [hbuf, List.length_nil, Nat.zero_add] at htail
        have hsize : r.au8PesBuffer.length + (c :: injected).flatten.length =
            p.bytes.length + injected.flatten.length := by
          rw [← hwhole]
          simp [Nat.add_assoc]
        show List.Forall₂ ParsedWhole ((inject r c).2 ++ _) _
        rw [hcalls, hsize, completed, if_pos (Nat.le_add_right _ _), Nat.add_sub_cancel_left]
        exact .cons List.prefix_rfl htail

/-- In a run none of whose injections goes on behind the end of a packet, or stops within the last
    six bytes of one, the packets are parsed as they were, each when its last byte is there; and
    the buffer is never overrun. -/
theorem reassembled {packets : List Packet} (hpackets : ∀ p ∈ packets, p.WellFormed)
    {chunks : List (List UInt8)} (hcut : chunks.flatten = packets.flatMap Packet.bytes)
    (hchunks : ∀ c ∈ chunks, c ≠ [] ∧ c.length ≤ 32768)
    (hends : machine.Always EndsWithPacket create chunks) :
    (∀ injected, injected <+: chunks → Reassembled packets injected) ∧ NoOverrun chunks := by
  refine ⟨fun injected hinjected => ?_, noOverrun chunks⟩
  obtain ⟨others, rfl⟩ := hinjected
  have hstream : create.au8PesBuffer ++ injected.flatten ++ others.flatten =
      packets.flatMap Packet.bytes := by
    rw [← hcut, List.flatten_append]
    rfl
  have hparsed := outputs_parsed hpackets (fun c hc => hchunks c (List.mem_append_left _ hc))
    (fun p _ => by
      show 0 < p.bytes.length
      rw [length_bytes]
      omega)
    hstream ((Machine.Always.append machine).mp hends).1
  rw [show create.au8PesBuffer.length = 0 from rfl, Nat.zero_add] at hparsed
  exact hparsed

/-- Two packets, the second one in three pieces. -/
theorem reassembled_two :
    (∀ injected, injected <+: [Packet.bytes ⟨[1, 2]⟩, [0x00, 0x00, 0x01], [0xbd, 0x00],
        [0x09, 1, 2, 3, 4, 5, 6, 7, 8, 9]] →
      Reassembled [⟨[1, 2]⟩, ⟨[1, 2, 3, 4, 5, 6, 7, 8, 9]⟩] injected) ∧
    NoOverrun [Packet.bytes ⟨[1, 2]⟩, [0x00, 0x00, 0x01], [0xbd, 0x00],
        [0x09, 1, 2, 3, 4, 5, 6, 7, 8, 9]] :=
  reassembled (by decide) (by decide) (by decide) (by decide)

/-- Of two packets in one injection only the first one is parsed. -/
theorem second_lost :
    ¬ Reassembled [⟨[1]⟩, ⟨[2]⟩] [Packet.bytes ⟨[1]⟩ ++ Packet.bytes ⟨[2]⟩] := by
  intro h
  exact absurd h.length_eq (by decide)

end Tntsat.TtxData
