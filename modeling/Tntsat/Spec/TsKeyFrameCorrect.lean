import Tntsat.Native.TsKeyFrame
import Tntsat.Spec.TsCheckReads

/-!
# Where `ts_seq_get_vkey_frame` reads and writes

The search moves `p_data` where the sync is lost, while `packet_index` goes on, and looks for the
next sync byte without a look at the end of the buffer; so the packets that it visits may lie behind
the buffer. The copy reads nothing but bytes of the buffer, since the packet at which it ends has
been searched whole, but writes whatever the packets carry.

## Key results

- `searchStep_isSome_iff`: a round of the search
- `copyLoop_isSome_iff`: the copy
- `vkey_inside_iff`: the whole function
-/

namespace Tntsat.TsSequence

variable {buf : List UInt8} {vpid : Int}

/-! ## The search -/

/-- The PID in the header of a packet. -/
def pidAt (buf : List UInt8) (a : Nat) : Nat :=
  (buf.getD (a + 2) 0).toNat ||| (buf.getD (a + 1) 0 &&& 0x1F).toNat <<< 8

/-- The address that a round of the search begins at. -/
def VkeySearch.address (s : VkeySearch) : Nat := s.p_data + s.packet_index * 188

/-- What is asked of a round of the search. Its first byte and the product in its address are in
range; where the sync is lost, the next sync byte or the byte at which the count is up lies in the
buffer; and a packet of the PID is checked inside. -/
structure RoundInside (buf : List UInt8) (vpid : Int) (s : VkeySearch) : Prop where
  product : s.packet_index * 188 < 2147483648
  first : s.address < buf.length
  resync : buf.getD s.address 0 ≠ 0x47 → ∃ r, s.i + r ≤ 188 ∧ s.address + r < buf.length ∧
    (buf.getD (s.address + r) 0 = 0x47 ∨ s.i + r = 188)
  pid : buf.getD s.address 0 = 0x47 → s.address + 2 < buf.length
  packet : buf.getD s.address 0 = 0x47 → (pidAt buf s.address : Int) = vpid →
    CheckInside buf s.head_frame_type s.address

/-- What the rounds of the search keep. -/
structure SearchKeeps (L : Nat) (s : VkeySearch) : Prop where
  head : s.head_frame_type.length = 4
  count : s.i ≤ 188
  /-- nothing is carried into the first packet -/
  carried : s.packet_index = 0 → s.head_frame_type = [0xff, 0xff, 0xff, 0xff]
  start_eq : s.p_data_start = s.first_kframe_addr
  start : ∀ k, s.first_kframe_addr = some k → 0 ≤ k ∧ k < L
  first : s.vkey_first_flag = true → s.first_kframe_addr.isSome = true
  third : s.vkey_third_flag = true → 0 ≤ s.p_data_end ∧ s.p_data_end + 188 ≤ L

theorem searchKeeps_initial (L : Nat) : SearchKeeps L {} where
  head := rfl
  count := Nat.zero_le _
  carried := fun _ => rfl
  start_eq := rfl
  start := fun k hk => by cases hk
  first := fun h => by cases h
  third := fun h => by cases h

theorem tsPid_isSome_iff {a : Nat} :
    (tsPid (loadsOf buf) a).isSome = true ↔ a + 2 < buf.length := by
  have hlo : loadsOf buf ((a : Int) + 2) = buf[a + 2]? := loadsOf_nat buf (a + 2)
  have hhi : loadsOf buf ((a : Int) + 1) = buf[a + 1]? := loadsOf_nat buf (a + 1)
  rw [tsPid, hlo, hhi, bind_isSome_iff]
  simp only [Option.isSome_map, isSome_getElem?, exists_and_right]
  rw [← Option.isSome_iff_exists, isSome_getElem?]
  omega

theorem tsPid_eq {a : Nat} (ha : a + 2 < buf.length) :
    tsPid (loadsOf buf) a = some (pidAt buf a) := by
  have hlo : loadsOf buf ((a : Int) + 2) = some (buf.getD (a + 2) 0) := loadsOf_getD ha
  have hhi : loadsOf buf ((a : Int) + 1) = some (buf.getD (a + 1) 0) :=
    loadsOf_getD (Nat.lt_of_succ_lt ha)
  rw [tsPid, hlo, hhi]
  rfl

/-- The loop that looks for a sync byte reads up to the first one, or until its count is up. -/
theorem resyncLoop_isSome_iff (rounds a i : Nat) :
    (resyncLoop (loadsOf buf) rounds a i).isSome = true ↔
      ∃ r ≤ rounds, a + r < buf.length ∧ (buf.getD (a + r) 0 = 0x47 ∨ r = rounds) := by
  induction rounds generalizing a i with
  | zero =>
    rw [resyncLoop, loadsOf_nat, Option.isSome_map, isSome_getElem?]
    constructor
    -- the last round reads its byte whatever it is
    · exact fun h => ⟨0, Nat.le_refl 0, h, Or.inr rfl⟩
    · rintro ⟨r, hr, hlt, -⟩
      omega
  | succ rounds ih =>
    rw [resyncLoop]
    by_cases ha : a < buf.length
    · rw [loadsOf_getD ha, Option.bind_some]
      by_cases hsync : buf.getD a 0 = 0x47
      -- a sync byte ends the search
      · simp only [hsync, ne_eq, not_true_eq_false, if_false]
        exact iff_of_true rfl ⟨0, Nat.zero_le _, ha, Or.inl hsync⟩
      -- otherwise the search goes on with the byte behind
      · rw [if_pos hsync]
        have hnext := ih (a + 1) (i + 1)
        rw [show ((a + 1 : Nat) : Int) = a + 1 from rfl] at hnext
        rw [hnext]
        constructor
        · rintro ⟨r, hr, hlt, hend⟩
          refine ⟨r + 1, by omega, by omega, ?_⟩
          rw [← Nat.add_assoc, Nat.add_right_comm]
          exact hend.imp_right (congrArg (· + 1))
        · rintro ⟨r, hr, hlt, hend⟩
          cases r with
          | zero => exact absurd (hend.resolve_right (by omega)) hsync
          | succ r =>
            refine ⟨r, by omega, by omega, ?_⟩
            rw [Nat.add_right_comm]
            exact hend.imp_right (by omega)
    · rw [loadsOf_nat, List.getElem?_eq_none (by omega)]
      refine iff_of_false (by simp) ?_
      rintro ⟨r, -, hlt, -⟩
      omega

theorem resyncLoop_le {ld : Loads} {rounds i n : Nat} {a : Int}
    (h : resyncLoop ld rounds a i = some n) : n ≤ i + rounds := by
  induction rounds generalizing a i with
  | zero =>
    obtain ⟨b, -, rfl⟩ := Option.map_eq_some_iff.mp h
    exact Nat.le_refl _
  | succ rounds ih =>
    obtain ⟨b, -, hb⟩ := Option.bind_eq_some_iff.mp h
    split at hb
    · have hle := ih hb
      omega
    · cases hb
      omega

theorem videoPacket_isSome_iff {a : Nat} {s : VkeySearch} (hhead : s.head_frame_type.length = 4)
    (ha : a + 1 < buf.length) :
    (videoPacket (loadsOf buf) a s).isSome = true ↔ CheckInside buf s.head_frame_type a := by
  rw [← check_isSome_iff hhead ha s.pic_struct, videoPacket, bind_isSome_iff, bind_isSome_iff]
  simp only [Option.isSome_map]

/-- A round of the search stays in the buffer iff it meets `RoundInside`. -/
theorem searchStep_isSome_iff {s : VkeySearch} (hs : SearchKeeps buf.length s) :
    (searchStep (loadsOf buf) vpid s).isSome = true ↔ RoundInside buf vpid s := by
  rw [searchStep]
  by_cases hproduct : 2147483648 ≤ s.packet_index * 188
  · rw [if_pos hproduct]
    exact iff_of_false (by simp) fun h => absurd h.product (by omega)
  rw [if_neg hproduct]
  change ((loadsOf buf (s.address : Nat)).bind _).isSome = true ↔ _
  by_cases hfirst : s.address < buf.length
  case neg =>
    rw [loadsOf_nat, List.getElem?_eq_none (by omega)]
    exact iff_of_false (by simp) fun h => hfirst h.first
  rw [loadsOf_getD hfirst, Option.bind_some]
  by_cases hsync : buf.getD s.address 0 = 0x47
  · -- a packet
    rw [if_neg (not_not.mpr hsync)]
    change ((tsPid (loadsOf buf) s.address).bind _).isSome = true ↔ _
    by_cases hpid : s.address + 2 < buf.length
    case neg =>
      have hnone : tsPid (loadsOf buf) s.address = none := by
        rw [← Option.not_isSome_iff_eq_none, tsPid_isSome_iff]
        exact hpid
      rw [hnone]
      exact iff_of_false (by simp) fun h => hpid (h.pid hsync)
    rw [tsPid_eq hpid, Option.bind_some]
    have hround : ((pidAt buf s.address : Int) = vpid →
        CheckInside buf s.head_frame_type s.address) ↔ RoundInside buf vpid s := by
      constructor
      · exact fun h => ⟨by omega, hfirst, fun hne => absurd hsync hne, fun _ => hpid, fun _ => h⟩
      · exact fun h => h.packet hsync
    rw [← hround]
    by_cases hvpid : (pidAt buf s.address : Int) = vpid
    · have hvideo := videoPacket_isSome_iff (s := { s with packet_index := s.packet_index + 1 })
        hs.head (by omega : s.address + 1 < buf.length)
      rw [if_pos hvpid, forall_prop_of_true hvpid]
      exact hvideo
    · rw [if_neg hvpid]
      exact iff_of_true rfl fun h => absurd h hvpid
  · -- the sync is lost
    rw [if_pos hsync, Option.isSome_map]
    change (resyncLoop (loadsOf buf) (188 - s.i) s.address s.i).isSome = true ↔ _
    have hcount := hs.count
    rw [resyncLoop_isSome_iff]
    constructor
    · rintro ⟨r, hr, hlt, hend⟩
      exact ⟨by omega, hfirst, fun _ => ⟨r, by omega, hlt, hend.imp_right (by omega)⟩,
        fun h => absurd h hsync, fun h => absurd h hsync⟩
    · intro h
      obtain ⟨r, hr, hlt, hend⟩ := h.resync hsync
      exact ⟨r, by omega, hlt, hend.imp_right (by omega)⟩

/-! ### What a packet leaves -/

variable {ld : Loads}

/-- Without a group start code in the carried bytes none is reported from there. -/
theorem markGop_lt (type : UInt8) (have_gop : Bool) : (markGop type false have_gop).1 < 4 := by
  rw [markGop, if_neg (by simp), if_neg (by simp)]
  split
  · exact (by decide : 3 < 4)
  split
  · exact (by decide : 2 < 4)
  split
  · exact (by decide : 1 < 4)
  · exact (by decide : 0 < 4)

/-- A group start code is reported from the packet before only if it begins in the carried bytes. -/
theorem checkCarried_keeps {d len : Int} {temp head : List UInt8} (htemp : temp.length = 8)
    {pic_struct : UInt8} {c : FrameCheck}
    (h : checkCarried ld d len temp head pic_struct = some c) :
    c.head_frame_type = head ∧ (4 ≤ c.iframe_with_gop → ∃ k < 4, GopAt temp k) := by
  have hgop := searchTemp htemp (isGopStartCode (loadsOf temp)) fun k hk =>
    (reads_loadsOf temp).gop_eq hk
  rw [checkCarried] at h
  simp only [Option.bind_eq_bind, hgop, Option.bind_some] at h
  obtain ⟨picture, -, h⟩ := Option.bind_eq_some_iff.mp h
  obtain ⟨v, -, h⟩ := Option.bind_eq_some_iff.mp h
  cases picture with
  | some k =>
    obtain ⟨w, -, hc⟩ := Option.bind_eq_some_iff.mp h
    cases hc
    exact ⟨rfl, fun hfour => absurd hfour (by decide : ¬ 4 ≤ 2)⟩
  | none =>
    obtain ⟨s, -, h⟩ := Option.bind_eq_some_iff.mp h
    obtain ⟨type, -, hc⟩ := Option.bind_eq_some_iff.mp h
    cases hc
    refine ⟨rfl, fun hfour => ?_⟩
    rcases find_four (p := fun k => GopAt temp k) with ⟨hnone, -⟩ | ⟨k, -, hk, hat, -⟩
    · rw [hnone] at hfour
      have hlt := markGop_lt type s.have_gop
      exact absurd hfour (Nat.not_le_of_lt hlt)
    · exact ⟨k, hk, hat⟩

/-- What the check of a packet leaves: four bytes, a picture only where the packet lies in the
buffer, and a group start code from the packet before only where bytes of one were carried. -/
structure CheckKeeps (buf head : List UInt8) (a : Nat) (c : FrameCheck) : Prop where
  kept : c.head_frame_type.length = 4
  picture : c.pictureCodingType = some 0 ∨ a + 188 ≤ buf.length
  carried : head = [0xff, 0xff, 0xff, 0xff] → c.iframe_with_gop < 4

theorem checkPayload_keeps {a : Nat} {d len : Int} {head : List UInt8} (hhead : head.length = 4)
    (hlast : d + len = a + 188) {pic_struct : UInt8} {c : FrameCheck}
    (h : checkPayload (loadsOf buf) d len head pic_struct = some c) : CheckKeeps buf head a c := by
  obtain ⟨first, hfirst, h⟩ := Option.bind_eq_some_iff.mp h
  obtain ⟨next, hnext, h⟩ := Option.bind_eq_some_iff.mp h
  have htemp : (head ++ first).length = 8 := by
    rw [List.length_append, hhead, length_loadBytes hfirst]
  obtain ⟨hc, hgop⟩ := checkCarried_keeps htemp h
  refine ⟨by rw [hc, length_loadBytes hnext], Or.inr ?_, ?_⟩
  · have hin := (reads_drop buf (a + 184)).loadBytes_isSome_iff 4
    rw [show ((a + 184 : Nat) : Int) = d + len - 4 by omega, hnext, List.length_drop] at hin
    have hle := hin.mp rfl
    omega
  · rintro rfl
    by_contra hge
    obtain ⟨k, hk, hat⟩ := hgop (Nat.le_of_not_lt hge)
    have hzero := hat.1
    rw [List.getElem?_append_left hk] at hzero
    have hmem := List.mem_of_getElem? hzero
    exact absurd hmem (by decide)

theorem check_keeps {a : Nat} {head : List UInt8} (hhead : head.length = 4) {pic_struct : UInt8}
    {c : FrameCheck} (h : xCheckFrameType1 (loadsOf buf) a head pic_struct 188 = some c) :
    CheckKeeps buf head a c := by
  obtain ⟨start_bit, -, h⟩ := Option.bind_eq_some_iff.mp h
  obtain ⟨p, hp, h⟩ := Option.bind_eq_some_iff.mp h
  have hheader : HeaderInside buf a := pesPacketStart_isSome_iff.mp (by rw [hp]; rfl)
  rw [pesPacketStart_eq hheader] at hp
  cases hp
  have hlt := tsHeaderLen_lt buf a
  dsimp only at h
  by_cases hpayload : u32OfInt (188 - (((a + tsHeaderLen buf a : Nat) : Int) - a)) ≥ 4
  case neg =>
    rw [if_neg hpayload] at h
    cases h
    exact ⟨hhead, Or.inl rfl, fun _ => Nat.zero_lt_succ 3⟩
  rw [if_pos hpayload] at h
  split at h
  · obtain ⟨d, -, h⟩ := Option.bind_eq_some_iff.mp h
    exact checkPayload_keeps hhead (by omega) h
  · refine checkPayload_keeps hhead ?_ h
    rw [s32_u32OfInt (by omega) (by omega)]
    omega

/-! ### What the rounds keep -/

variable {L : Nat} {s : VkeySearch}

theorem SearchKeeps.startAt (hs : SearchKeeps L s) {a : Int} (h0 : 0 ≤ a) (hlt : a < L) :
    SearchKeeps L (s.startAt a) where
  head := hs.head
  count := hs.count
  carried := hs.carried
  start_eq := rfl
  start := fun k hk => by
    cases hk
    exact ⟨h0, hlt⟩
  first := fun _ => rfl
  third := hs.third

theorem SearchKeeps.setFirst (hs : SearchKeeps L s) (hsome : s.first_kframe_addr.isSome = true) :
    SearchKeeps L { s with vkey_first_flag := true } where
  head := hs.head
  count := hs.count
  carried := hs.carried
  start_eq := hs.start_eq
  start := hs.start
  first := fun _ => hsome
  third := hs.third

theorem SearchKeeps.mpegFrame (hs : SearchKeeps L s) {a : Nat} {type : UInt8} {n : Nat}
    (ha : a < L) (hpicture : isPictureType type = true → a + 188 ≤ L) (hback : 4 ≤ n → 188 ≤ a) :
    SearchKeeps L (mpegFrame a type n s) := by
  have hbefore : 4 ≤ n → SearchKeeps L (s.startAt ((a : Int) - 188)) := fun hn => by
    have hle := hback hn
    exact hs.startAt (by omega) (by omega)
  have hhere : SearchKeeps L (s.startAt a) := hs.startAt (by omega) (by omega)
  rw [TsSequence.mpegFrame]
  split
  · -- the first picture
    split
    case isTrue hn => exact (hbefore (by omega)).setFirst rfl
    split
    case isTrue hn => exact hbefore (by omega)
    split
    case isTrue => exact hhere.setFirst rfl
    split
    case isTrue hn => exact hs.setFirst (hs.start_eq ▸ hn.2)
    split
    case isTrue => exact hhere
    case isFalse => exact hs
  split
  · exact ⟨hs.head, hs.count, hs.carried, hs.start_eq, hs.start, hs.first, hs.third⟩
  split
  case isTrue hthird =>
    have hle := hpicture hthird.1
    refine ⟨hs.head, hs.count, hs.carried, hs.start_eq, hs.start, hs.first, fun _ => ?_⟩
    exact ⟨Int.natCast_nonneg a, by show (a : Int) + 188 ≤ L; omega⟩
  case isFalse => exact hs

theorem SearchKeeps.videoPacket (hs : SearchKeeps buf.length s) {a : Nat} {s' : VkeySearch}
    (ha : a < buf.length) (hindex : s.packet_index ≠ 0)
    (hback : s.head_frame_type ≠ [0xff, 0xff, 0xff, 0xff] → 188 ≤ a)
    (h : videoPacket (loadsOf buf) a s = some s') : SearchKeeps buf.length s' := by
  obtain ⟨c, hc, h⟩ := Option.bind_eq_some_iff.mp h
  obtain ⟨type, htype, rfl⟩ := Option.map_eq_some_iff.mp h
  have hkeeps := check_keeps hs.head hc
  have hnext : SearchKeeps buf.length
      { s with head_frame_type := c.head_frame_type, pic_struct := c.pic_struct } :=
    ⟨hkeeps.kept, hs.count, fun h => absurd h hindex, hs.start_eq, hs.start, hs.first, hs.third⟩
  refine hnext.mpegFrame ha (fun hpic => ?_) fun hfour => hback fun hhead => ?_
  · refine hkeeps.picture.resolve_left fun hzero => ?_
    rw [htype] at hzero
    cases hzero
    exact absurd hpic (by decide)
  · exact absurd (hkeeps.carried hhead) (Nat.not_lt_of_le hfour)

theorem SearchKeeps.step (hs : SearchKeeps buf.length s) {s' : VkeySearch}
    (h : searchStep (loadsOf buf) vpid s = some s') : SearchKeeps buf.length s' := by
  have hround : RoundInside buf vpid s := (searchStep_isSome_iff hs).mp (by rw [h]; rfl)
  rw [searchStep, if_neg (by have hlt := hround.product; omega)] at h
  obtain ⟨b, -, h⟩ := Option.bind_eq_some_iff.mp h
  split at h
  · obtain ⟨i, hi, rfl⟩ := Option.map_eq_some_iff.mp h
    have hle := resyncLoop_le hi
    have hcount := hs.count
    exact ⟨hs.head, by show i ≤ 188; omega, fun h => absurd h (Nat.succ_ne_zero _), hs.start_eq,
      hs.start, hs.first, hs.third⟩
  obtain ⟨pid, -, h⟩ := Option.bind_eq_some_iff.mp h
  have hnext : SearchKeeps buf.length { s with packet_index := s.packet_index + 1 } :=
    ⟨hs.head, hs.count, fun h => absurd h (Nat.succ_ne_zero _), hs.start_eq, hs.start, hs.first,
      hs.third⟩
  split at h
  · refine hnext.videoPacket hround.first (Nat.succ_ne_zero _) (fun hhead => ?_) h
    have hpos : s.packet_index ≠ 0 := fun hzero => hhead (hs.carried hzero)
    rw [VkeySearch.address]
    omega
  · cases h
    exact hnext

/-! ## The copy -/

instance (buf : List UInt8) (a : Nat) : Decidable (NoPayload buf a) :=
  inferInstanceAs (Decidable (_ ∧ _))

/-- The elementary bytes that the copy takes from a packet. -/
def elementaryOf (buf : List UInt8) (a : Nat) : List UInt8 :=
  if UnitStart buf a ∧ NoPayload buf a then []
  else (buf.drop (payloadStart buf a)).take (a + 188 - payloadStart buf a)

/-- What a packet of the copy does: the bytes are written behind those before, where they fit. -/
def Writes (size : Nat) (c : EsCopy) (bytes : List UInt8) (o : Option EsCopy) : Prop :=
  ∃ data_len, o =
    if (c.es ++ bytes).length ≤ size then
      some { c with data_len := data_len, es := c.es ++ bytes }
    else
      none

variable {a size : Nat} {c : EsCopy}

theorem writes_nil (hes : c.es.length ≤ size) : Writes size c [] (some c) := by
  refine ⟨c.data_len, ?_⟩
  rw [List.append_nil, if_pos hes]

/-- The bytes from the end of the headers to the end of the packet. -/
theorem writes_copyPayload (ha : a + 188 ≤ buf.length)
    (hsome : ¬ (UnitStart buf a ∧ NoPayload buf a)) {n : Nat} {len : Int}
    (hn : n = payloadStart buf a) (hlen : len = a + 188 - n) :
    Writes size c (elementaryOf buf a) (copyPayload (loadsOf buf) size n len c) := by
  have hbytes : loadBytes (loadsOf buf) n len.toNat = some (elementaryOf buf a) := by
    rw [elementaryOf, if_neg hsome, (reads_drop buf n).loadBytes_eq
      (by rw [List.length_drop]; omega : len.toNat ≤ (buf.drop n).length), ← hn]
    congr 2
    omega
  refine ⟨u32OfInt (c.data_len + len), ?_⟩
  rw [copyPayload, hbytes, Option.bind_some, List.length_append]

/-- The copy of a packet that lies in the buffer with the one behind it. -/
theorem writes_copyPacket (ha : a + 376 ≤ buf.length) (hc : c.p_data_start = a)
    (hes : c.es.length ≤ size) :
    Writes size c (elementaryOf buf a) (copyPacket (loadsOf buf) size c) := by
  have hlt := tsHeaderLen_lt buf a
  have hheader : HeaderInside buf a := ⟨by omega, fun _ => by omega⟩
  have hts : ((a + tsHeaderLen buf a : Nat) : Int) - a = tsHeaderLen buf a := by omega
  rw [copyPacket, hc, payloadUnitStart_eq (by omega), pesPacketStart_eq hheader]
  simp only [Option.bind_eq_bind, Option.bind_some, hts, decide_eq_true_eq, payload_ge_iff]
  by_cases hunit : UnitStart buf a
  · rw [if_pos hunit]
    by_cases hno : NoPayload buf a
    · rw [if_neg (not_not.mpr hno), elementaryOf, if_pos ⟨hunit, hno⟩]
      exact writes_nil hes
    · -- the PES header may end behind the packet, but not behind the next one
      rw [if_pos hno, pesDataStart_eq _ (by omega : a + tsHeaderLen buf a + 8 < buf.length),
        Option.bind_some]
      refine writes_copyPayload (by omega) (fun h => hno h.2) ?_ (by omega)
      rw [payloadStart, pesHeaderLen, if_pos hunit]
  · rw [if_neg hunit]
    refine writes_copyPayload (by omega) (fun h => hunit h.1) ?_ (by omega)
    rw [payloadStart, pesHeaderLen, if_neg hunit, Nat.add_zero]

/-- The elementary bytes that a round of the copy takes. -/
def takenFrom (buf : List UInt8) (vpid : Int) (a : Nat) : List UInt8 :=
  if (pidAt buf a : Int) = vpid then elementaryOf buf a else []

theorem writes_copyStep (ha : a + 376 ≤ buf.length) (vpid mid : Int) (hc : c.p_data_start = a)
    (hes : c.es.length ≤ size) :
    ∃ next : EsCopy, next.p_data_start = (a + 188 : Nat) ∧
      next.es = c.es ++ takenFrom buf vpid a ∧
      copyStep (loadsOf buf) vpid size mid c =
        if next.es.length ≤ size then some next else none := by
  obtain ⟨marked, hstart, hbytes, hmarked⟩ : ∃ marked : EsCopy, marked.p_data_start = a ∧
      marked.es = c.es ∧ (if c.p_data_start ≥ mid ∧ !c.mid_pos_flay then
        { c with mid_pos_flay := true, data_mid_len := c.data_len } else c) = marked := by
    refine ⟨_, ?_, ?_, rfl⟩ <;> split <;> first | exact hc | rfl
  have hwrites : Writes size marked (takenFrom buf vpid a)
      (if (pidAt buf a : Int) = vpid then copyPacket (loadsOf buf) size marked
        else some marked) := by
    rw [takenFrom]
    split
    · exact writes_copyPacket ha hstart (by rwa [hbytes])
    · exact writes_nil (by rwa [hbytes])
  obtain ⟨data_len, hwrites⟩ := hwrites
  rw [hbytes] at hwrites
  refine ⟨⟨(a + 188 : Nat), data_len, marked.data_mid_len, marked.mid_pos_flay, _⟩, rfl, rfl, ?_⟩
  rw [copyStep, hmarked, hstart, tsPid_eq (by omega), Option.bind_some, hwrites]
  split
  · rw [Option.map_some, hstart]
    rfl
  · rfl

/-- The elementary bytes of the packets of the PID among `n` packets. -/
def elementary (buf : List UInt8) (vpid : Int) (a : Nat) : Nat → List UInt8
  | 0 => []
  | n + 1 => takenFrom buf vpid a ++ elementary buf vpid (a + 188) n

/-- The copy runs through iff the elementary bytes fit in their buffer. -/
theorem writes_copyLoop (buf : List UInt8) (vpid mid : Int) {a : Nat} (n : Nat)
    (ha : 0 < n → a + 188 * n + 188 ≤ buf.length)
    (hc : c.p_data_start = a) (hes : c.es.length ≤ size) :
    ∃ last : EsCopy, last.es = c.es ++ elementary buf vpid a n ∧
      checkedLoop (copyStep (loadsOf buf) vpid size mid) (fun _ => false) n c =
        if last.es.length ≤ size then some last else none := by
  induction n generalizing a c with
  | zero =>
    refine ⟨c, (List.append_nil _).symm, ?_⟩
    rw [checkedLoop, if_pos hes]
  | succ n ih =>
    have hlast := ha (Nat.succ_pos n)
    obtain ⟨next, hstart, hbytes, hstep⟩ :=
      writes_copyStep (by omega : a + 376 ≤ buf.length) vpid mid hc hes
    rw [checkedLoop, hstep, elementary, ← List.append_assoc, ← hbytes]
    by_cases hfits : next.es.length ≤ size
    · rw [if_pos hfits, Option.bind_some, if_neg Bool.false_ne_true]
      exact ih (fun _ => by omega) hstart hfits
    · -- what does not fit once does not fit with more behind it
      refine ⟨{ next with es := next.es ++ elementary buf vpid (a + 188) n }, rfl, ?_⟩
      rw [if_neg hfits, Option.bind_none, if_neg]
      rw [List.length_append]
      omega

/-! ## The whole function -/

/-- The function ends without a read or a write outside, and the address that it returns lies in the
buffer. -/
def StaysInside (buf : List UInt8) (es_data_buffer_size : Nat) (o : Option VkeyFrame) : Prop :=
  ∃ r, o = some r ∧ r.es.length ≤ es_data_buffer_size ∧
    (r.result = true → r.first_kframe_addr.isSome = true) ∧
    ∀ k, r.first_kframe_addr = some k → 0 ≤ k ∧ k < buf.length

/-- The rounds of the search stay in the buffer. -/
def SearchInside (buf : List UInt8) (vpid : Int) : Prop :=
  ∀ s ∈ loopHeads (searchStep (loadsOf buf) vpid) VkeySearch.found (buf.length / 188) {},
    RoundInside buf vpid s

/-- From the first packet of a key frame to the third picture, the elementary bytes fit in their
buffer. -/
def CopyFits (buf : List UInt8) (es_data_buffer_size : Nat) (vpid : Int) : Prop :=
  ∀ s, searchPackets (loadsOf buf) vpid buf.length = some s → s.found = true →
    ∀ start : Nat, s.p_data_start = some (start : Int) →
      (elementary buf vpid start ((s.p_data_end - start) / 188).toNat).length ≤ es_data_buffer_size

theorem searchPackets_isSome_iff :
    (searchPackets (loadsOf buf) vpid buf.length).isSome = true ↔ SearchInside buf vpid :=
  checkedLoop_isSome_iff (I := SearchKeeps buf.length) (fun _ hs => searchStep_isSome_iff hs)
    (fun _ _ hs h => hs.step h) (searchKeeps_initial _)

theorem searchPackets_keeps {s : VkeySearch}
    (h : searchPackets (loadsOf buf) vpid buf.length = some s) : SearchKeeps buf.length s :=
  checkedLoop_invariant (fun _ _ hs h => hs.step h) (searchKeeps_initial _) h

/-- `ts_seq_get_vkey_frame` stays in its buffers iff the rounds of its search do, and what it copies
fits. -/
theorem vkey_inside_iff (buf : List UInt8) (es_data_buffer_size : Nat) (vpid : Int) :
    StaysInside buf es_data_buffer_size
        (tsSeqGetVkeyFrame (loadsOf buf) buf.length es_data_buffer_size vpid) ↔
      SearchInside buf vpid ∧ CopyFits buf es_data_buffer_size vpid := by
  rw [tsSeqGetVkeyFrame, ← searchPackets_isSome_iff, CopyFits]
  cases hsearch : searchPackets (loadsOf buf) vpid buf.length with
  | none => simp [StaysInside]
  | some s =>
    have hkeeps := searchPackets_keeps hsearch
    rw [Option.bind_some]
    by_cases hfound : s.found = true
    -- a key frame was found: its packets are copied
    · obtain ⟨⟨hfirst, -⟩, hthird⟩ :
          (s.vkey_first_flag = true ∧ s.vkey_second_flag = true) ∧ s.vkey_third_flag = true := by
        simpa only [VkeySearch.found, Bool.and_eq_true] using hfound
      obtain ⟨hend, hlast⟩ := hkeeps.third hthird
      obtain ⟨k, hk⟩ := Option.isSome_iff_exists.mp (hkeeps.first hfirst)
      obtain ⟨hnonneg, -⟩ := hkeeps.start k hk
      obtain ⟨start, rfl⟩ := Int.eq_ofNat_of_zero_le hnonneg
      have hstart : s.p_data_start = some (start : Int) := hkeeps.start_eq.trans hk
      -- the copy runs out of the buffer just when the bytes are too many for it
      obtain ⟨last, hbytes, hcopy⟩ := writes_copyLoop buf vpid s.p_data_mid
        ((s.p_data_end - start) / 188).toNat (c := ⟨start, 0, 0, false, []⟩) (fun hpos => by omega)
        rfl (Nat.zero_le es_data_buffer_size)
      rw [if_pos hfound, hstart, Option.bind_some, hcopy]
      constructor
      · rintro ⟨r, hr, hle, -⟩
        obtain ⟨c, hc, rfl⟩ := Option.map_eq_some_iff.mp hr
        split at hc
        · cases hc
          rw [hbytes] at hle
          refine ⟨rfl, ?_⟩
          rintro _ ⟨⟩ - start' hstart'
          rw [hstart] at hstart'
          cases hstart'
          exact hle
        · cases hc
      · rintro ⟨-, hfits⟩
        have hle : last.es.length ≤ es_data_buffer_size := by
          rw [hbytes]
          exact hfits s rfl hfound start hstart
        rw [if_pos hle]
        exact ⟨_, rfl, hle, fun _ => hkeeps.first hfirst, hkeeps.start⟩
    -- none was found: nothing is copied
    · rw [if_neg hfound]
      refine iff_of_true ⟨_, rfl, Nat.zero_le _, fun h => absurd h Bool.false_ne_true, hkeeps.start⟩
        ⟨rfl, ?_⟩
      rintro _ ⟨⟩ hf
      exact absurd hf hfound

/-- In 188 bytes without a sync byte the loop that looks for one reads the byte behind them. -/
theorem vkey_leaves_buffer :
    ¬ ∀ (buf : List UInt8) (es_data_buffer_size : Nat) (vpid : Int),
      StaysInside buf es_data_buffer_size
        (tsSeqGetVkeyFrame (loadsOf buf) buf.length es_data_buffer_size vpid) := by
  intro h
  obtain ⟨r, hr, -⟩ := h (List.replicate 188 0x00) 4096 0x100
  have hnone : tsSeqGetVkeyFrame (loadsOf (List.replicate 188 0x00)) 188 4096 0x100 = none :=
    Option.isNone_iff_eq_none.mp (by decide +kernel)
  rw [List.length_replicate, hnone] at hr
  cases hr

end Tntsat.TsSequence
