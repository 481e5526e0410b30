import Tntsat.Spec.TsStartCode
import Tntsat.ForStd.Machine

/-!
# Pictures in packets

A picture header ends two bytes behind its start code, with the byte of its `picture_coding_type`,
and a packet boundary may cut it anywhere. `x_check_frame_type1` keeps the last four elementary
bytes of a packet for the next one, which sees start codes that are cut; a header of which only the
last byte is missing needs five, and one of which only the first byte is there needs a ninth byte of
`temp`.

## Key results

- `check_packet`: what a packet reports, and when this is right
- `pictures_reported_iff`: along every run, each packet with one picture header at most reports it
  in exactly the runs whose packets are regular
-/

namespace Tntsat.TsSequence

/-! ## Packets -/

/-- A transport packet that carries elementary bytes, in memory with at least two bytes behind it.
-/
structure TsPacket where
  /-- the transport header with its adaptation field -/
  header : List UInt8
  /-- the header of a PES packet that begins here -/
  pes : List UInt8
  chunk : List UInt8
  behind : List UInt8
  length_eq : header.length + pes.length + chunk.length = 188
  eight_le : 8 ≤ chunk.length
  two_le : 2 ≤ behind.length
  sync : header[0]? = some 0x47
  start : ∃ flags : UInt8, header[1]? = some flags ∧ (flags &&& 0x40 = 0x40 ↔ pes ≠ [])
  adaptation : ∃ control : UInt8, header[3]? = some control ∧
    ((control &&& 0x30) >>> 4 = 1 ∧ header.length = 4 ∨
      (control &&& 0x30) >>> 4 = 3 ∧ ∃ l : UInt8, header[4]? = some l ∧ header.length = l.toNat + 5)
  pes_length : pes ≠ [] → ∃ l : UInt8, pes[8]? = some l ∧ pes.length = l.toNat + 9

/-- The packet and what lies behind it. -/
def TsPacket.bytes (pk : TsPacket) : List UInt8 :=
  pk.header ++ (pk.pes ++ (pk.chunk ++ pk.behind))

/-- The elementary stream of some packets. -/
def streamOf (packets : List TsPacket) : List UInt8 := packets.flatMap TsPacket.chunk

/-- The parameters that are kept between calls. -/
structure Carried where
  head_frame_type : List UInt8 := [0xff, 0xff, 0xff, 0xff]
  pic_struct : UInt8 := 0

/-- Calls of `x_check_frame_type1`, each for one packet. -/
def pictureMachine : Machine Carried TsPacket (Option FrameCheck) where
  step s pk :=
    match xCheckFrameType1 (loadsOf pk.bytes) 0 s.head_frame_type s.pic_struct 188 with
    | some c => (⟨c.head_frame_type, c.pic_struct⟩, some c)
    | none => (s, none)

/-! ## Reports -/

/-- The header of a picture ends with byte `q` of a payload that comes behind the elementary bytes
`before`. -/
def Ends (before chunk : List UInt8) (q : Nat) : Prop :=
  q < chunk.length ∧ 5 ≤ before.length + q ∧ PictureAt (before ++ chunk) (before.length + q - 5)

/-- A call reports the header of a picture that ends in its packet, and nothing where none ends. -/
structure Reports (before chunk : List UInt8) (result : Option FrameCheck) : Prop where
  picture : ∀ q, Ends before chunk q →
    result.bind FrameCheck.pictureCodingType = (chunk[q]?).map codingType
  nothing : (∀ q, ¬ Ends before chunk q) →
    result.bind FrameCheck.pictureCodingType = some 0

/-- At most one picture header ends in the packet. -/
def OneHeader (before chunk : List UInt8) : Prop :=
  ∀ q q', Ends before chunk q → Ends before chunk q' → q = q'

/-- The four elementary bytes that are kept. -/
def carriedBytes (before : List UInt8) : List UInt8 :=
  ([0xff, 0xff, 0xff, 0xff] ++ before).drop before.length

/-- The scan meets a group start code: no start code is cut at the beginning of the payload, the
payload does not begin with a group start code, and one comes before the first picture start code.
-/
structure GroupMet (before : List UInt8) (pk : TsPacket) : Prop where
  not_cut : ∀ k < 4, ¬ PictureAt (carriedBytes before ++ pk.chunk) k ∧
    ¬ GopAt (carriedBytes before ++ pk.chunk) k
  not_first : ¬ GopAt pk.chunk 0
  group : ∃ g, 1 ≤ g ∧ g ≤ pk.chunk.length - 3 ∧ GopAt (pk.chunk ++ pk.behind) g ∧
    ∀ i < g, ¬ PictureAt (pk.chunk ++ pk.behind) i

/-- A packet whose report is right. -/
structure Regular (before : List UInt8) (pk : TsPacket) : Prop where
  /-- no start code is cut behind its first byte -/
  not_cut : ¬ Ends before pk.chunk 4
  /-- a group start code that is met comes with an I picture -/
  group : GroupMet before pk →
    ∃ q, Ends before pk.chunk q ∧ (pk.chunk[q]?).map codingType = some iFrame
  /-- else no header has only its last byte in the packet, or stands behind a group start code with
  which the payload begins; a type of 0 is forbidden -/
  seen : ¬ GroupMet before pk → ∀ q, Ends before pk.chunk q → q = 0 ∨ 5 ≤ q ∧ GopAt pk.chunk 0 →
    (pk.chunk[q]?).map codingType = some 0

variable {before : List UInt8} {pk : TsPacket}

/-! ## Headers -/

namespace TsPacket

theorem reads_bytes (pk : TsPacket) : Reads (loadsOf pk.bytes) 0 pk.bytes := reads_loadsOf _

/-- A byte of the transport header. -/
theorem header_byte (pk : TsPacket) {k : Nat} {b : UInt8} (h : pk.header[k]? = some b) :
    loadsOf pk.bytes (0 + k) = some b := by
  rw [pk.reads_bytes k, bytes, List.getElem?_append_left (List.getElem?_eq_some_iff.mp h).1, h]

/-- A byte of the PES header. -/
theorem pes_byte (pk : TsPacket) {k : Nat} {b : UInt8} (h : pk.pes[k]? = some b) :
    loadsOf pk.bytes (0 + pk.header.length + k) = some b := by
  have hget : pk.bytes[pk.header.length + k]? = some b := by
    rw [bytes, List.getElem?_append_right (by omega), Nat.add_sub_cancel_left,
      List.getElem?_append_left (List.getElem?_eq_some_iff.mp h).1, h]
  rw [← hget, ← pk.reads_bytes, Int.natCast_add, Int.add_assoc]

/-- The payload and what lies behind it. -/
theorem reads_chunk (pk : TsPacket) :
    Reads (loadsOf pk.bytes) (pk.header.length + pk.pes.length : Nat) (pk.chunk ++ pk.behind) := by
  intro k
  have hget := pk.reads_bytes (pk.header.length + pk.pes.length + k)
  rw [bytes, List.getElem?_append_right (by omega), Nat.add_assoc, Nat.add_sub_cancel_left,
    List.getElem?_append_right (by omega), Nat.add_sub_cancel_left] at hget
  rw [← hget]
  congr 1
  omega

/-- The payload begins behind the headers. -/
theorem check_eq (pk : TsPacket) (head : List UInt8) (pic_struct : UInt8) :
    xCheckFrameType1 (loadsOf pk.bytes) 0 head pic_struct 188 =
      checkPayload (loadsOf pk.bytes) (pk.header.length + pk.pes.length : Nat)
        (pk.chunk.length : Nat) head pic_struct := by
  obtain ⟨flags, hflags, hstart⟩ := pk.start
  obtain ⟨control, hcontrol, hadaptation⟩ := pk.adaptation
  have hlen := pk.length_eq
  have height := pk.eight_le
  -- the unit start flag says whether a PES header is there
  have hunit : payloadUnitStart (loadsOf pk.bytes) 0 = some (decide (pk.pes ≠ [])) := by
    have hsync : loadsOf pk.bytes 0 = some 0x47 := pk.header_byte pk.sync
    rw [payloadUnitStart, expect_some hsync, if_pos rfl]
    have hbyte : loadsOf pk.bytes (0 + 1) = some flags := pk.header_byte hflags
    rw [hbyte]
    simp only [Option.map_some, hstart]
  -- the TS header is as long as its adaptation field says
  have hpes : pesPacketStart (loadsOf pk.bytes) 0 = some (pk.header.length : Int) := by
    have hbyte : loadsOf pk.bytes (0 + 3) = some control := pk.header_byte hcontrol
    rw [pesPacketStart, hbyte, Option.bind_some]
    rcases hadaptation with ⟨hone, hfour⟩ | ⟨hthree, l, hl, hheader⟩
    · rw [hone, if_neg (by decide), hfour]
      rfl
    · have hbyte : loadsOf pk.bytes (0 + 4) = some l := pk.header_byte hl
      have hlong : (l + 5).toNat = l.toNat + 5 := by
        rw [UInt8.toNat_add]
        show (l.toNat + 5) % 256 = _
        omega
      rw [hthree, if_pos (by decide), hbyte, Option.map_some, hlong, hheader, Int.zero_add]
  rw [xCheckFrameType1, hunit, hpes]
  simp only [Option.bind_eq_bind, Option.bind_some]
  -- what is left of the 188 bytes
  have hpayload : u32OfInt (188 - ((pk.header.length : Int) - 0)) = 188 - pk.header.length := by
    rw [u32OfInt_of_nonneg (by omega) (by omega)]
    omega
  rw [hpayload, if_pos (by omega)]
  by_cases hempty : pk.pes = []
  -- without a PES header the payload is the chunk
  · rw [if_neg (by simp [hempty]), hempty, s32_of_range (by omega) (by omega)]
    rw [hempty, List.length_nil] at hlen
    rw [show 188 - pk.header.length = pk.chunk.length by omega]
    rfl
  -- with one the chunk starts behind it, where its length byte says
  · obtain ⟨l, hl, hpeslen⟩ := pk.pes_length hempty
    have hbyte : loadsOf pk.bytes ((pk.header.length : Int) + 8) = some l := by
      rw [← pk.pes_byte hl, Int.zero_add]
      rfl
    have hlong : (l + 9).toNat = l.toNat + 9 := by
      rw [UInt8.toNat_add]
      show (l.toNat + 9) % 256 = _
      omega
    rw [if_pos (by simpa using hempty), pesDataStart, hbyte, Option.map_some, Option.bind_some,
      hlong, ← hpeslen]
    congr 1
    omega

end TsPacket

/-! ## Carried bytes -/

theorem length_carriedBytes (before : List UInt8) : (carriedBytes before).length = 4 := by
  rw [carriedBytes, List.length_drop, List.length_append]
  show 4 + before.length - before.length = 4
  omega

/-- What is carried behind a payload are its last bytes. -/
theorem carriedBytes_append (before : List UInt8) {chunk : List UInt8} (hlen : 4 ≤ chunk.length) :
    carriedBytes (before ++ chunk) = chunk.drop (chunk.length - 4) := by
  rw [carriedBytes, ← List.append_assoc, List.length_append, List.drop_append, List.length_append]
  have hall : before.length + chunk.length ≥ [0xff, 0xff, 0xff, (0xff : UInt8)].length +
      before.length := by
    show 4 + before.length ≤ _
    omega
  rw [List.drop_eq_nil_of_le (by rw [List.length_append]; exact hall), List.nil_append]
  congr 1
  show before.length + chunk.length - (4 + before.length) = _
  omega

/-- A header whose start code lies in the payload. -/
theorem ends_inside {chunk : List UInt8} {q : Nat} (hq : 5 ≤ q) :
    Ends before chunk q ↔ q < chunk.length ∧ PictureAt chunk (q - 5) := by
  have hpos : before.length + q - 5 = before.length + (q - 5) := by omega
  rw [Ends, hpos, PictureAt, PictureAt, codeAt_append_right]
  exact and_congr_right fun _ => and_iff_right (by omega)

/-- A header whose start code begins in the carried bytes. -/
theorem ends_carried {chunk : List UInt8} (hlen : 8 ≤ chunk.length) {k : Nat} (hk : k < 4) :
    Ends before chunk (k + 1) ↔ PictureAt (carriedBytes before ++ chunk) k := by
  have hwhole : carriedBytes before ++ chunk =
      ([0xff, 0xff, 0xff, 0xff] ++ (before ++ chunk)).drop before.length := by
    rw [← List.append_assoc]
    refine (List.drop_append_of_le_length ?_).symm
    rw [List.length_append]
    omega
  rw [hwhole, PictureAt, codeAt_drop, Ends, and_iff_right (by omega : k + 1 < chunk.length)]
  by_cases hfirst : 4 ≤ before.length + k
  · rw [and_iff_right (by omega)]
    have hpos : before.length + k = [0xff, 0xff, 0xff, (0xff : UInt8)].length +
        (before.length + (k + 1) - 5) := by
      show _ = 4 + _
      omega
    rw [hpos, PictureAt, codeAt_append_right]
  · -- the first of the four bytes is one of those that the caller has put there
    refine iff_of_false (fun h => hfirst (by omega)) fun h => ?_
    have hff : ([0xff, 0xff, 0xff, 0xff] ++ (before ++ chunk))[before.length + k]? = some 0xff := by
      rw [List.getElem?_append_left (by show _ < 4; omega)]
      have hcases : before.length + k = 0 ∨ before.length + k = 1 ∨ before.length + k = 2 ∨
          before.length + k = 3 := by omega
      rcases hcases with h0 | h0 | h0 | h0 <;> rw [h0] <;> rfl
    rw [h.1] at hff
    exact absurd hff (by decide)

/-- The start codes in `temp` are those that are cut. -/
theorem codeAt_temp {last : UInt8} {carried chunk behind : List UInt8}
    (hcarried : carried.length = 4) (hlen : 8 ≤ chunk.length) {k : Nat} (hk : k < 4) :
    CodeAt last (carried ++ (chunk ++ behind).take 4) k ↔ CodeAt last (carried ++ chunk) k := by
  have htake : (chunk ++ behind).take 4 = chunk.take 4 :=
    List.take_append_of_le_length (by omega)
  have hsplit : carried ++ chunk = (carried ++ chunk.take 4) ++ chunk.drop 4 := by
    rw [List.append_assoc, List.take_append_drop]
  rw [htake, hsplit]
  refine (codeAt_append_left ?_).symm
  rw [List.length_append, List.length_take]
  omega

/-- The search of the carried bytes. -/
theorem searchCarried (test : Int → Option Bool) (behind : List UInt8)
    {carried chunk : List UInt8} (hcarried : carried.length = 4) (hlen : 8 ≤ chunk.length)
    {last : UInt8}
    (htest : ∀ k : Nat, k < 4 → test k =
      some (decide (CodeAt last (carried ++ (chunk ++ behind).take 4) k))) :
    searchLoop (fun k => test k) 4 0 =
      some ((List.range' 0 4).find? fun k => decide (CodeAt last (carried ++ chunk) k)) := by
  rw [searchLoop_eq (p := fun k => decide (CodeAt last (carried ++ chunk) k))]
  intro k _ hk
  rw [htest k (by omega), decide_eq_decide.mpr (codeAt_temp hcarried hlen (by omega))]

/-- A group start code is cut at the beginning of the payload. -/
def GopCut (before chunk : List UInt8) : Prop := ∃ k < 4, GopAt (carriedBytes before ++ chunk) k

/-- What `x_check_frame_type1` does with a packet, by what it finds. -/
inductive Checked (before : List UInt8) (pk : TsPacket) (c : FrameCheck) : Prop
  /-- a picture start code that is cut -/
  | carried (k : Nat) (hk : k < 4) (hat : PictureAt (carriedBytes before ++ pk.chunk) k)
      (htype : c.pictureCodingType = if k = 3 then none else (pk.chunk[k + 1]?).map codingType)
  /-- a group start code at the beginning -/
  | first (hcut : ∀ k < 4, ¬ PictureAt (carriedBytes before ++ pk.chunk) k)
      (hgop : GopAt pk.chunk 0) (htype : c.pictureCodingType = some 0)
  /-- the scan -/
  | scanned (hcut : ∀ k < 4, ¬ PictureAt (carriedBytes before ++ pk.chunk) k)
      (hgop : ¬ GopAt pk.chunk 0) (s : Scan)
      (hscan : Scanned (pk.chunk ++ pk.behind) (pk.chunk.length - 3) s) (type : UInt8)
      (htype : (if s.is_picture_start_code = true ∧ s.i + 5 < pk.chunk.length then
        (pk.chunk[s.i + 5]?).map codingType else some 0) = some type) (gopCut : Bool)
      (hgopCut : gopCut = true ↔ GopCut before pk.chunk)
      (hresult : c.pictureCodingType = some (markGop type gopCut s.have_gop).2)

theorem check_packet_cases (before : List UInt8) (pk : TsPacket) (pic_struct : UInt8) :
    ∃ c, xCheckFrameType1 (loadsOf pk.bytes) 0 (carriedBytes before) pic_struct 188 = some c ∧
      c.head_frame_type = carriedBytes (before ++ pk.chunk) ∧ Checked before pk c := by
  have height := pk.eight_le
  have hbehind := pk.two_le
  have hreads := pk.reads_chunk
  have hcarried := length_carriedBytes before
  have htemp := reads_loadsOf (carriedBytes before ++ (pk.chunk ++ pk.behind).take 4)
  have hlen : ((pk.chunk.length : Nat) : Int) + 2 ≤ (pk.chunk ++ pk.behind).length := by
    rw [List.length_append]
    omega
  have hfirst := hreads.loadBytes_eq (n := 4) (by rw [List.length_append]; omega)
  have hlast : loadBytes (loadsOf pk.bytes) ((pk.header.length + pk.pes.length : Nat) +
      (pk.chunk.length : Nat) - 4) 4 = some (carriedBytes (before ++ pk.chunk)) := by
    have hdrop := (hreads.drop (pk.chunk.length - 4)).loadBytes_eq (n := 4)
      (by rw [List.length_drop, List.length_append]; omega)
    rw [List.drop_append_of_le_length (by omega), List.take_append_of_le_length
      (by rw [List.length_drop]; omega), ← carriedBytes_append before (by omega),
      List.take_of_length_le (Nat.le_of_eq (length_carriedBytes _))] at hdrop
    rw [← hdrop]
    congr 1
    omega
  have htemplen : (carriedBytes before ++ (pk.chunk ++ pk.behind).take 4).length = 8 := by
    rw [List.length_append, List.length_take, List.length_append]
    omega
  have hpicture := searchCarried
    (isPictureStartCode (loadsOf (carriedBytes before ++ (pk.chunk ++ pk.behind).take 4)))
    pk.behind hcarried height fun k hk => by rw [← htemp.picture_eq (by omega), Int.zero_add]
  have hgroup := searchCarried
    (isGopStartCode (loadsOf (carriedBytes before ++ (pk.chunk ++ pk.behind).take 4)))
    pk.behind hcarried height fun k hk => by rw [← htemp.gop_eq (by omega), Int.zero_add]
  obtain ⟨v, hv⟩ := hreads.parseIf_returns
    ((List.range' 0 4).find? fun k =>
      decide (GopAt (carriedBytes before ++ pk.chunk) k)).isSome _ hlen pic_struct
  rw [pk.check_eq, checkPayload, hfirst, hlast]
  simp only [Option.bind_eq_bind, Option.bind_some]
  rw [checkCarried, hpicture, hgroup]
  simp only [Option.bind_eq_bind, Option.bind_some, hv]
  rcases find_four (p := fun k => PictureAt (carriedBytes before ++ pk.chunk) k) with
    ⟨hnone, hcut⟩ | ⟨k, hsome, hk, hat, -⟩
  · -- no picture start code is cut
    obtain ⟨gopCut, hgopCut, hgopCut_iff⟩ : ∃ gopCut, ((List.range' 0 4).find? fun k =>
        decide (GopAt (carriedBytes before ++ pk.chunk) k)).isSome = gopCut ∧
        (gopCut = true ↔ GopCut before pk.chunk) := by
      refine ⟨_, rfl, ?_⟩
      rcases find_four (p := fun k => GopAt (carriedBytes before ++ pk.chunk) k) with
        ⟨hnone, hno⟩ | ⟨k, hsome, hk, hat, -⟩
      · rw [hnone]
        exact iff_of_false Bool.false_ne_true fun ⟨k, hk, hat⟩ => hno k hk hat
      · rw [hsome]
        exact iff_of_true rfl ⟨k, hk, hat⟩
    rw [hnone, hgopCut, checkScanned]
    by_cases hgop : GopAt pk.chunk 0
    · have hgop' : GopAt (pk.chunk ++ pk.behind) 0 := (codeAt_append_left (by omega)).mpr hgop
      rw [hreads.scan_gop hgop']
      refine ⟨_, rfl, rfl, .first hcut hgop ?_⟩
      cases gopCut <;> rfl
    · have hgop' : ¬ GopAt (pk.chunk ++ pk.behind) 0 := fun h =>
        hgop ((codeAt_append_left (by omega)).mp h)
      obtain ⟨s, hs, hscan⟩ := hreads.scan_returns pk.chunk.length
        (by rw [List.length_append]; omega) (by omega) hgop' v
      obtain ⟨type, htype⟩ : ∃ type, (if s.is_picture_start_code = true ∧
          s.i + 5 < pk.chunk.length then (pk.chunk[s.i + 5]?).map codingType else some 0) =
            some type := by
        split
        case isTrue hin =>
          rw [List.getElem?_eq_getElem hin.2]
          exact ⟨_, rfl⟩
        case isFalse => exact ⟨0, rfl⟩
      have hscanned : scannedType (loadsOf pk.bytes) (pk.header.length + pk.pes.length : Nat)
          (pk.chunk.length : Nat) s = some type := by
        rw [← htype, scannedType]
        by_cases hin : s.is_picture_start_code = true ∧ s.i + 5 < pk.chunk.length
        · have hbyte : loadsOf pk.bytes ((pk.header.length + pk.pes.length : Nat) + s.i + 5) =
              pk.chunk[s.i + 5]? := by
            rw [Int.add_assoc]
            exact (hreads (s.i + 5)).trans (List.getElem?_append_left hin.2)
          rw [if_pos ⟨hin.1, by omega⟩, if_pos hin, hbyte]
        · rw [if_neg fun h => hin ⟨h.1, by omega⟩, if_neg hin]
      simp only [hs, Option.bind_eq_bind, Option.bind_some, hscanned]
      exact ⟨_, rfl, rfl, .scanned hcut hgop s hscan type htype gopCut hgopCut_iff rfl⟩
  · -- one is cut
    obtain ⟨w, hw⟩ := hreads.parser_returns hlen
    rw [hsome]
    simp only [hw, Option.bind_some]
    refine ⟨_, rfl, rfl, .carried k hk hat ?_⟩
    show ((carriedBytes before ++ (pk.chunk ++ pk.behind).take 4)[k + 5]?).map codingType = _
    split
    case isTrue hthree =>
      rw [List.getElem?_eq_none (by omega)]
      rfl
    case isFalse hthree =>
      rw [List.getElem?_append_right (by omega), List.getElem?_take_of_lt (by omega),
        List.getElem?_append_left (by omega), hcarried]
      rfl

/-! ## Right reports -/

theorem markGop_snd (type : UInt8) (gopCut have_gop : Bool) :
    (markGop type gopCut have_gop).2 =
      if gopCut = false ∧ have_gop = true then iFrame else type := by
  unfold markGop
  cases gopCut <;> cases have_gop <;> by_cases htype : type = iFrame <;> simp [htype]

/-- A cut start code is one header, and no other ends in its packet. -/
theorem reports_carried {c : FrameCheck} (hone : OneHeader before pk.chunk) {k : Nat} (hk : k < 4)
    (hat : PictureAt (carriedBytes before ++ pk.chunk) k)
    (htype : c.pictureCodingType = if k = 3 then none else (pk.chunk[k + 1]?).map codingType) :
    Reports before pk.chunk (some c) ↔ Regular before pk := by
  have hends : Ends before pk.chunk (k + 1) := (ends_carried pk.eight_le hk).mpr hat
  by_cases hthree : k = 3
  · -- the type is taken from behind `temp`
    subst hthree
    refine iff_of_false (fun h => ?_) fun h => h.not_cut hends
    have hwrong := h.picture 4 hends
    have height := pk.eight_le
    rw [Option.bind_some, htype, if_pos rfl, List.getElem?_eq_getElem (by omega)] at hwrong
    exact absurd hwrong (by simp)
  · refine iff_of_true ⟨fun q hq => ?_, fun hnone => absurd hends (hnone _)⟩
      ⟨fun hfour => ?_, ?_, ?_⟩
    · rw [← hone _ _ hends hq, Option.bind_some, htype, if_neg hthree]
    · have heq := hone _ _ hends hfour
      omega
    · exact fun hgroup => absurd hat (hgroup.not_cut k hk).1
    · rintro - q hq (rfl | ⟨hfive, -⟩)
      · have heq := hone _ _ hends hq
        omega
      · have heq := hone _ _ hends hq
        omega

/-- Where no picture start code is cut, a header begins and ends in the payload, or only its last
byte is there. -/
theorem ends_of_not_cut (hcut : ∀ k < 4, ¬ PictureAt (carriedBytes before ++ pk.chunk) k) {q : Nat}
    (hq : Ends before pk.chunk q) : q = 0 ∨ 5 ≤ q := by
  by_contra hout
  have hk : q - 1 < 4 := by omega
  refine hcut (q - 1) hk ((ends_carried pk.eight_le hk).mp ?_)
  rwa [show q - 1 + 1 = q by omega]

/-- A payload that begins with a group start code reports nothing. -/
theorem reports_first {c : FrameCheck}
    (hcut : ∀ k < 4, ¬ PictureAt (carriedBytes before ++ pk.chunk) k) (hgop : GopAt pk.chunk 0)
    (htype : c.pictureCodingType = some 0) :
    Reports before pk.chunk (some c) ↔ Regular before pk := by
  have hmet : ¬ GroupMet before pk := fun h => h.not_first hgop
  constructor
  · intro h
    refine ⟨fun hfour => ?_, fun hyes => absurd hyes hmet, fun _ q hq _ => ?_⟩
    · have hpos := ends_of_not_cut hcut hfour
      omega
    · rw [← h.picture q hq, Option.bind_some, htype]
  · intro h
    refine ⟨fun q hq => ?_, fun _ => htype⟩
    have hseen : q = 0 ∨ 5 ≤ q ∧ GopAt pk.chunk 0 :=
      (ends_of_not_cut hcut hq).imp_right fun hfive => ⟨hfive, hgop⟩
    rw [h.seen hmet q hq hseen, Option.bind_some, htype]

/-- What the scan reports. -/
theorem reports_scanned {c : FrameCheck} (hone : OneHeader before pk.chunk)
    (hcut : ∀ k < 4, ¬ PictureAt (carriedBytes before ++ pk.chunk) k) (hgop : ¬ GopAt pk.chunk 0)
    {s : Scan} (hscan : Scanned (pk.chunk ++ pk.behind) (pk.chunk.length - 3) s) {type : UInt8}
    (htype : (if s.is_picture_start_code = true ∧ s.i + 5 < pk.chunk.length then
      (pk.chunk[s.i + 5]?).map codingType else some 0) = some type) {gopCut : Bool}
    (hgopCut : gopCut = true ↔ GopCut before pk.chunk)
    (hresult : c.pictureCodingType = some (markGop type gopCut s.have_gop).2) :
    Reports before pk.chunk (some c) ↔ Regular before pk := by
  have height := pk.eight_le
  have hmet : GroupMet before pk ↔ gopCut = false ∧ s.have_gop = true := by
    rw [← Bool.not_eq_true gopCut, hgopCut, hscan.gop]
    constructor
    · exact fun h => ⟨fun ⟨k, hk, hat⟩ => (h.not_cut k hk).2 hat, h.group⟩
    · exact fun h => ⟨fun k hk => ⟨hcut k hk, fun hat => h.1 ⟨k, hk, hat⟩⟩, hgop, h.2⟩
  have hnotFour : ¬ Ends before pk.chunk 4 := fun hfour => by
    have hpos := ends_of_not_cut hcut hfour
    omega
  rw [markGop_snd] at hresult
  by_cases hin : s.is_picture_start_code = true ∧ s.i + 5 < pk.chunk.length
  · -- the header that the scan has found
    have hends : Ends before pk.chunk (s.i + 5) := by
      rw [ends_inside (by omega), Nat.add_sub_cancel]
      exact ⟨hin.2, (codeAt_append_left (by omega)).mp (hscan.found hin.1).1⟩
    rw [if_pos hin] at htype
    by_cases hgroup : gopCut = false ∧ s.have_gop = true
    · rw [if_pos hgroup] at hresult
      constructor
      · intro h
        have hright := h.picture _ hends
        rw [Option.bind_some, hresult] at hright
        exact ⟨hnotFour, fun _ => ⟨_, hends, hright.symm⟩, fun hno => absurd (hmet.mpr hgroup) hno⟩
      · intro h
        obtain ⟨q, hq, hI⟩ := h.group (hmet.mpr hgroup)
        refine ⟨fun q' hq' => ?_, fun hnone => absurd hends (hnone _)⟩
        rw [hone q' q hq' hq, hI, Option.bind_some, hresult]
    · rw [if_neg hgroup] at hresult
      refine iff_of_true ⟨fun q hq => ?_, fun hnone => absurd hends (hnone _)⟩
        ⟨hnotFour, fun h => absurd (hmet.mp h) hgroup, ?_⟩
      · rw [hone q _ hq hends, htype, Option.bind_some, hresult]
      · rintro - q hq (rfl | ⟨-, hfirst⟩)
        · have heq := hone _ _ hends hq
          omega
        · exact absurd hfirst hgop
  · rw [if_neg hin] at htype
    have hzero : type = 0 := (Option.some.inj htype).symm
    -- at most the last byte of a header is in the payload
    have hends : ∀ q, Ends before pk.chunk q → q = 0 := by
      intro q hq
      refine (ends_of_not_cut hcut hq).resolve_right fun hfive => ?_
      obtain ⟨hlt, hat⟩ := (ends_inside hfive).mp hq
      have hat' : PictureAt (pk.chunk ++ pk.behind) (q - 5) :=
        (codeAt_append_left (by omega)).mpr hat
      cases hfound : s.is_picture_start_code with
      | true =>
        obtain ⟨-, -, hbefore⟩ := hscan.found hfound
        have hle : s.i ≤ q - 5 := by
          by_contra hgt
          exact hbefore (q - 5) (by omega) hat'
        exact hin ⟨hfound, by omega⟩
      | false => exact hscan.notFound hfound (q - 5) (by omega) hat'
    by_cases hgroup : gopCut = false ∧ s.have_gop = true
    · -- the group start code is reported
      rw [if_pos hgroup] at hresult
      constructor
      · intro h
        refine ⟨hnotFour, fun _ => ?_, fun hno => absurd (hmet.mpr hgroup) hno⟩
        by_cases hzero : Ends before pk.chunk 0
        · have hright := h.picture 0 hzero
          rw [Option.bind_some, hresult] at hright
          exact ⟨0, hzero, hright.symm⟩
        · have hwrong := h.nothing fun q hq => hzero (hends q hq ▸ hq)
          rw [Option.bind_some, hresult] at hwrong
          exact absurd (Option.some.inj hwrong) (by decide)
      · intro h
        obtain ⟨q, hq, hI⟩ := h.group (hmet.mpr hgroup)
        refine ⟨fun q' hq' => ?_, fun hnone => absurd hq (hnone _)⟩
        rw [hone q' q hq' hq, hI, Option.bind_some, hresult]
    · rw [if_neg hgroup, hzero] at hresult
      constructor
      · intro h
        refine ⟨hnotFour, fun hm => absurd (hmet.mp hm) hgroup, fun _ q hq _ => ?_⟩
        rw [← h.picture q hq, Option.bind_some, hresult]
      · intro h
        refine ⟨fun q hq => ?_, fun _ => hresult⟩
        rw [h.seen (fun hm => hgroup (hmet.mp hm)) q hq (Or.inl (hends q hq)), Option.bind_some,
          hresult]

/-- A packet in which one picture header ends at most is reported rightly iff it is regular. -/
theorem check_packet {before : List UInt8} {pk : TsPacket} {pic_struct : UInt8}
    (hone : OneHeader before pk.chunk) :
    Reports before pk.chunk
        (xCheckFrameType1 (loadsOf pk.bytes) 0 (carriedBytes before) pic_struct 188) ↔
      Regular before pk := by
  obtain ⟨c, hc, -, hchecked⟩ := check_packet_cases before pk pic_struct
  rw [hc]
  cases hchecked with
  | carried k hk hat htype => exact reports_carried hone hk hat htype
  | first hcut hgop htype => exact reports_first hcut hgop htype
  | scanned hcut hgop s hscan type htype gopCut hgopCut hresult =>
    exact reports_scanned hone hcut hgop hscan htype hgopCut hresult

/-! ## Runs -/

/-- The last four elementary bytes are kept along a run. -/
theorem head_of_run (packets : List TsPacket) (before : List UInt8) {s : Carried}
    (hs : s.head_frame_type = carriedBytes before) :
    (pictureMachine.final s packets).head_frame_type =
      carriedBytes (before ++ streamOf packets) := by
  induction packets generalizing s before with
  | nil =>
    rw [streamOf, List.flatMap_nil, List.append_nil]
    exact hs
  | cons pk packets ih =>
    obtain ⟨c, hc, hhead, -⟩ := check_packet_cases before pk s.pic_struct
    rw [Machine.final_cons]
    have hstep : (pictureMachine.step s pk).1 = ⟨c.head_frame_type, c.pic_struct⟩ := by
      show (match xCheckFrameType1 (loadsOf pk.bytes) 0 s.head_frame_type s.pic_struct 188 with
        | some c => ((⟨c.head_frame_type, c.pic_struct⟩ : Carried), some c)
        | none => (s, none)).1 = _
      rw [hs, hc]
    have hnext := ih (before ++ pk.chunk) (s := (pictureMachine.step s pk).1)
      (by rw [hstep]; exact hhead)
    rw [hnext, streamOf, streamOf, List.flatMap_cons, List.append_assoc]

/-- What the call for a packet of a run returns. -/
def resultAt (pre : List TsPacket) (pk : TsPacket) : Option FrameCheck :=
  (pictureMachine.step (pictureMachine.final {} pre) pk).2

theorem resultAt_eq (pre : List TsPacket) (pk : TsPacket) :
    ∃ pic_struct, resultAt pre pk =
      xCheckFrameType1 (loadsOf pk.bytes) 0 (carriedBytes (streamOf pre)) pic_struct 188 := by
  have hhead := head_of_run pre [] (s := {}) rfl
  rw [List.nil_append] at hhead
  refine ⟨(pictureMachine.final {} pre).pic_struct, ?_⟩
  rw [← hhead]
  show (match xCheckFrameType1 (loadsOf pk.bytes) 0 (pictureMachine.final {} pre).head_frame_type
    (pictureMachine.final {} pre).pic_struct 188 with
      | some c => ((⟨c.head_frame_type, c.pic_struct⟩ : Carried), some c)
      | none => (pictureMachine.final {} pre, none)).2 = _
  split
  case h_1 c hc => exact hc.symm
  case h_2 hc => exact hc.symm

/-- Each packet of a run in which one picture header ends at most reports it, or reports nothing
where none ends, in exactly the runs in which these packets are regular. -/
theorem pictures_reported_iff (packets : List TsPacket) :
    (∀ pre pk post, packets = pre ++ pk :: post → OneHeader (streamOf pre) pk.chunk →
        Reports (streamOf pre) pk.chunk (resultAt pre pk)) ↔
      ∀ pre pk post, packets = pre ++ pk :: post → OneHeader (streamOf pre) pk.chunk →
        Regular (streamOf pre) pk := by
  have hpacket : ∀ pre pk, OneHeader (streamOf pre) pk.chunk →
      (Reports (streamOf pre) pk.chunk (resultAt pre pk) ↔ Regular (streamOf pre) pk) := by
    intro pre pk hone
    obtain ⟨pic_struct, hresult⟩ := resultAt_eq pre pk
    rw [hresult]
    exact check_packet hone
  constructor
  · exact fun h pre pk post heq hone => (hpacket pre pk hone).mp (h pre pk post heq hone)
  · exact fun h pre pk post heq hone => (hpacket pre pk hone).mpr (h pre pk post heq hone)

/-- A packet without adaptation field and PES header, in front of another. -/
def plainPacket (chunk : List UInt8) (hlen : chunk.length = 184) : TsPacket where
  header := [0x47, 0x00, 0x31, 0x10]
  pes := []
  chunk := chunk
  behind := [0x47, 0x00]
  length_eq := by rw [hlen]; rfl
  eight_le := by rw [hlen]; decide
  two_le := by decide
  sync := rfl
  start := ⟨0x00, rfl, by decide⟩
  adaptation := ⟨0x10, rfl, Or.inl ⟨by decide, rfl⟩⟩
  pes_length := fun h => absurd rfl h

/-- An I picture of which only the last byte of the header is in the second packet. -/
def cutHeader : List TsPacket :=
  [plainPacket (List.replicate 179 0xff ++ [0x00, 0x00, 0x01, 0x00, 0x00])
      (by rw [List.length_append, List.length_replicate]; rfl),
    plainPacket (0x08 :: List.replicate 183 0xff) (by rw [List.length_cons, List.length_replicate])]

/-- It is not reported. -/
theorem cutHeader_missed :
    ¬ ∀ pre pk post, cutHeader = pre ++ pk :: post → OneHeader (streamOf pre) pk.chunk →
      Reports (streamOf pre) pk.chunk (resultAt pre pk) := by
  intro h
  have hends : Ends (streamOf [cutHeader[0]]) cutHeader[1].chunk 0 :=
    ⟨by decide +kernel, by decide +kernel, by decide +kernel⟩
  have hresult : (resultAt [cutHeader[0]] cutHeader[1]).bind FrameCheck.pictureCodingType =
      some 0 := by
    decide +kernel
  have hzero : ∀ q, Ends (streamOf [cutHeader[0]]) cutHeader[1].chunk q → q = 0 := by
    intro q hq
    have hcut : ∀ k < 4,
        ¬ PictureAt (carriedBytes (streamOf [cutHeader[0]]) ++ cutHeader[1].chunk) k := by
      decide +kernel
    refine (ends_of_not_cut hcut hq).resolve_right fun hfive => ?_
    have hmem := List.mem_of_getElem? ((ends_inside hfive).mp hq).2.1
    exact absurd hmem (by decide +kernel)
  have hone : OneHeader (streamOf [cutHeader[0]]) cutHeader[1].chunk := fun q q' hq hq' =>
    (hzero q hq).trans (hzero q' hq').symm
  have hwrong := (h [cutHeader[0]] cutHeader[1] [] rfl hone).picture 0 hends
  rw [hresult] at hwrong
  exact absurd hwrong (by decide)

end Tntsat.TsSequence
