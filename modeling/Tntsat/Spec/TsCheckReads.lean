import Tntsat.Spec.TsStartCode

/-!
# What `x_check_frame_type1` reads

A packet may have headers that reach behind its end, and it may be the last of its buffer. The
conditions here say exactly when `x_check_frame_type1` reads nothing but bytes of the buffer and of
its own array.

## Key results

- `scan_isSome_iff`: the scan for start codes
- `check_isSome_iff`: the whole function
-/

namespace Tntsat.TsSequence

variable {ld : Loads} {base : Int} {l : List UInt8}

/-! ## The scan -/

/-- The rounds of the scan from position `i` to `n`: the extension behind a group start code is read
only inside, and where the data ends with the first three bytes of a start code, one byte lies
behind it. -/
structure ScanInside (l : List UInt8) (len : Int) (i n : Nat) : Prop where
  extension : ∀ g, i < g → g ≤ n → GopAt l g → (∀ k, i < k → k < g → ¬ PictureAt l k) →
    ExtensionInside (l.drop g) (len - g)
  last : i < n → (∀ k, i < k → k < n → ¬ PictureAt l k) → PrefixAt l n → n + 3 < l.length

theorem Reads.parseIf_isSome_iff (h : Reads ld base l) (c : Bool) {len : Int}
    (hlen : len ≤ l.length) (pic_struct : UInt8) :
    (parseIf c ld base len pic_struct).isSome = true ↔ (c = true → ExtensionInside l len) := by
  cases c with
  | true => simp [parseIf, h.parser_isSome_iff hlen]
  | false => simp [parseIf]

theorem bind_isSome_iff {α β : Type} {o : Option α} {f : α → Option β} :
    (o.bind f).isSome = true ↔ ∃ a, o = some a ∧ (f a).isSome = true := by
  cases o <;> simp

/-- One round, and the rounds behind it. -/
theorem scanInside_succ {len : Int} (i r : Nat) :
    ScanInside l len i (i + 1 + r) ↔
      (r = 0 → PrefixAt l (i + 1) → i + 1 + 3 < l.length) ∧
      (GopAt l (i + 1) → ExtensionInside (l.drop (i + 1)) (len - (i + 1 : Nat))) ∧
      (¬ PictureAt l (i + 1) → ScanInside l len (i + 1) (i + 1 + r)) := by
  constructor
  -- the rounds behind `i + 1` matter only without a picture start code there
  · intro h
    refine ⟨fun hr hpre => ?_, fun hgop => ?_, fun hpic => ⟨fun g hg hgn hgop hbefore => ?_,
      fun hlt hbefore => ?_⟩⟩
    · subst hr
      exact h.last (by omega) (fun k _ _ => by omega) hpre
    · exact h.extension (i + 1) (by omega) (by omega) hgop fun k _ _ => by omega
    · refine h.extension g (by omega) hgn hgop fun k hk hkg => ?_
      rcases Nat.lt_or_eq_of_le hk with hlt | rfl
      · exact hbefore k hlt hkg
      · exact hpic
    · refine h.last (by omega) fun k hk hkn => ?_
      rcases Nat.lt_or_eq_of_le hk with hlt | rfl
      · exact hbefore k hlt hkn
      · exact hpic
  · rintro ⟨hlast, hgop, hrest⟩
    refine ⟨fun g hg hgn hat hbefore => ?_, fun _ hbefore hpre => ?_⟩
    -- a group start code at `i + 1`, or in a later round
    · rcases Nat.lt_or_eq_of_le hg with hlt | rfl
      · exact (hrest (hbefore (i + 1) (by omega) hlt)).extension g hlt hgn hat fun k hk hkg =>
          hbefore k (by omega) hkg
      · exact hgop hat
    · by_cases hr : r = 0
      · subst hr
        exact hlast rfl hpre
      · exact (hrest (hbefore (i + 1) (by omega) (by omega))).last (by omega)
          (fun k hk hkn => hbefore k (by omega) hkn) hpre

/-- The rounds of the scan, where the data lies in the buffer. -/
theorem scanLoop_isSome_iff (h : Reads ld base l) {len : Int} (hlen : len ≤ l.length)
    (rounds i : Nat) (have_gop : Bool) (pic_struct : UInt8)
    (hrounds : rounds = 0 ∨ (i + rounds + 3 : Int) = len) :
    (scanLoop ld base len rounds i have_gop pic_struct).isSome = true ↔
      ScanInside l len i (i + rounds) := by
  induction rounds generalizing i have_gop pic_struct with
  | zero => exact iff_of_true rfl ⟨fun g hg hgi => by omega, fun hlt => by omega⟩
  | succ rounds ih =>
    have hlt : i + 1 + 2 < l.length := by omega
    rw [show i + (rounds + 1) = i + 1 + rounds by omega, scanInside_succ, scanLoop]
    by_cases hlast : PrefixAt l (i + 1) → i + 1 + 3 < l.length
    · have hpicture : isPictureStartCode ld (base + (i + 1 : Nat)) =
          some (decide (PictureAt l (i + 1))) := h.code_eq hlt hlast
      have hgop : isGopStartCode ld (base + (i + 1 : Nat)) = some (decide (GopAt l (i + 1))) :=
        h.code_eq hlt hlast
      have hparse := (h.drop (i + 1)).parseIf_isSome_iff (decide (GopAt l (i + 1)))
        (by rw [List.length_drop]; omega : len - (i + 1 : Nat) ≤ (l.drop (i + 1)).length) pic_struct
      rw [decide_eq_true_iff] at hparse
      rw [hpicture, hgop, and_iff_right fun _ => hlast, ← hparse]
      simp only [Option.bind_eq_bind, Option.bind_some]
      rw [bind_isSome_iff, Option.isSome_iff_exists]
      have hnext : ∀ v, (if decide (PictureAt l (i + 1)) = true then
          some ⟨true, i + 1, have_gop || decide (GopAt l (i + 1)), v⟩
          else scanLoop ld base len rounds (i + 1) (have_gop || decide (GopAt l (i + 1))) v).isSome
            = true ↔ (¬ PictureAt l (i + 1) → ScanInside l len (i + 1) (i + 1 + rounds)) := by
        intro v
        rw [← ih (i + 1) (have_gop || decide (GopAt l (i + 1))) v (by omega)]
        by_cases hpic : PictureAt l (i + 1) <;> simp [hpic]
      simp only [hnext, exists_and_right]
    · -- the byte behind the data is read
      obtain ⟨hpre, hout⟩ := Classical.not_imp.mp hlast
      have hzero : rounds = 0 := by omega
      have hbyte : ld (base + (i + 1 : Nat) + 3) = none := by
        rw [Int.add_assoc]
        exact (h (i + 1 + 3)).trans (List.getElem?_eq_none (by omega))
      have hnone : isPictureStartCode ld (base + (i + 1 : Nat)) = none := by
        rw [isPictureStartCode, h.startCode_eq hlt, if_pos hpre, expect, hbyte]
        rfl
      rw [hnone]
      exact iff_of_false (by simp) fun hand => hout (hand.1 hzero hpre)

/-- The scan, where the data and four bytes lie in the buffer. -/
theorem scan_isSome_iff (h : Reads ld base l) (hfour : 4 ≤ l.length) {len : Int}
    (hlen : len ≤ l.length) (pic_struct : UInt8) :
    (scan ld base len pic_struct).isSome = true ↔
      (¬ PictureAt l 0 → ¬ GopAt l 0 → ScanInside l len 0 (len - 3).toNat) := by
  have hfirst : isPictureStartCode ld base = some (decide (PictureAt l 0)) := by
    rw [← h.picture_eq (by omega)]
    exact congrArg _ (Int.add_zero base).symm
  have hsecond : isGopStartCode ld base = some (decide (GopAt l 0)) := by
    rw [← h.gop_eq (by omega)]
    exact congrArg _ (Int.add_zero base).symm
  rw [scan, hfirst, hsecond]
  simp only [Option.bind_eq_bind, Option.bind_some]
  by_cases hpic : PictureAt l 0
  · simp [hpic]
  · by_cases hgop : GopAt l 0
    · simp [hgop]
    · have hloop := scanLoop_isSome_iff h hlen (len - 3).toNat 0 false pic_struct (by omega)
      rw [Nat.zero_add] at hloop
      simp [hpic, hgop, hloop]

/-! ## The payload -/

/-- What is asked of the carried bytes and the payload: no picture start code is cut behind its
first byte, the extension is read only inside, and so is the scan. -/
structure CarriedInside (temp l : List UInt8) (len : Int) : Prop where
  not_cut : (∀ k < 3, ¬ PictureAt temp k) → ¬ PictureAt temp 3
  extension : (∃ k < 4, GopAt temp k ∨ PictureAt temp k) → ExtensionInside l len
  scan : (∀ k < 4, ¬ PictureAt temp k) → ¬ PictureAt l 0 → ¬ GopAt l 0 →
    ScanInside l len 0 (len - 3).toNat

theorem searchTemp {temp : List UInt8} (htemp : temp.length = 8) {last : UInt8}
    (test : Int → Option Bool)
    (htest : ∀ k : Nat, k + 3 < temp.length → test (0 + k) = some (decide (CodeAt last temp k))) :
    searchLoop (fun k => test k) 4 0 =
      some ((List.range' 0 4).find? fun k => decide (CodeAt last temp k)) := by
  refine searchLoop_eq 4 0 fun k _ hk => ?_
  rw [← htest k (by omega), Int.zero_add]

/-- The type that the scan has found lies in the data. -/
theorem scannedType_isSome (h : Reads ld base l) {len : Int} (hlen : len ≤ l.length) (s : Scan) :
    (scannedType ld base len s).isSome = true := by
  rw [scannedType]
  split
  case isTrue hin =>
    have hbyte : ld (base + s.i + 5) = l[s.i + 5]? := by
      rw [Int.add_assoc]
      exact h (s.i + 5)
    rw [Option.isSome_map, hbyte, isSome_getElem?]
    have hlt := hin.2
    omega
  case isFalse => rfl

theorem checkScanned_isSome_iff (h : Reads ld base l) (hfour : 4 ≤ l.length) {len : Int}
    (hlen : len ≤ l.length) (gopCut : Bool) (head : List UInt8) (pic_struct : UInt8) :
    ((checkScanned ld base len gopCut head pic_struct).bind
        FrameCheck.pictureCodingType).isSome = true ↔
      (¬ PictureAt l 0 → ¬ GopAt l 0 → ScanInside l len 0 (len - 3).toNat) := by
  rw [← scan_isSome_iff h hfour hlen pic_struct, checkScanned]
  cases hscan : scan ld base len pic_struct with
  | none => simp
  | some s =>
    obtain ⟨type, htype⟩ := Option.isSome_iff_exists.mp (scannedType_isSome h hlen s)
    simp [htype]

theorem checkCarried_isSome_iff (h : Reads ld base l) (hfour : 4 ≤ l.length) {len : Int}
    (hlen : len ≤ l.length) {temp : List UInt8} (htemp : temp.length = 8) (head : List UInt8)
    (pic_struct : UInt8) :
    ((checkCarried ld base len temp head pic_struct).bind
        FrameCheck.pictureCodingType).isSome = true ↔ CarriedInside temp l len := by
  have hpicture := searchTemp htemp (isPictureStartCode (loadsOf temp)) fun k hk =>
    (reads_loadsOf temp).picture_eq hk
  have hgop := searchTemp htemp (isGopStartCode (loadsOf temp)) fun k hk =>
    (reads_loadsOf temp).gop_eq hk
  have hparse := h.parseIf_isSome_iff
    ((List.range' 0 4).find? fun k => decide (GopAt temp k)).isSome hlen pic_struct
  -- a group start code among the carried bytes makes the code look for the extension
  have hgopSome : ((List.range' 0 4).find? fun k => decide (GopAt temp k)).isSome = true ↔
      ∃ k < 4, GopAt temp k := by
    rcases find_four (p := fun k => GopAt temp k) with ⟨hnone, hno⟩ | ⟨k, hsome, hk, hat, -⟩
    · rw [hnone]
      exact iff_of_false Bool.false_ne_true fun ⟨k, hk, hat⟩ => hno k hk hat
    · rw [hsome]
      exact iff_of_true rfl ⟨k, hk, hat⟩
  rw [hgopSome] at hparse
  rw [checkCarried, hpicture, hgop]
  simp only [Option.bind_eq_bind, Option.bind_some]
  rw [Option.bind_assoc, bind_isSome_iff]
  rcases find_four (p := fun k => PictureAt temp k) with ⟨hnone, hcut⟩ | ⟨k, hsome, hk, hat, hfirst⟩
  -- no picture start code is carried over: the payload is scanned too
  · simp only [hnone, checkScanned_isSome_iff h hfour hlen, exists_and_right]
    rw [← Option.isSome_iff_exists, hparse]
    constructor
    · rintro ⟨hext, hscan⟩
      refine ⟨fun _ => hcut 3 (by omega), fun ⟨k, hk, hat⟩ => ?_, fun _ => hscan⟩
      exact hext ⟨k, hk, hat.resolve_right (hcut k hk)⟩
    · exact fun hinside => ⟨fun ⟨k, hk, hat⟩ => hinside.extension ⟨k, hk, Or.inl hat⟩,
        hinside.scan hcut⟩
  -- one is carried over: its coding type is read from the bytes put behind it
  · have hparser := h.parser_isSome_iff hlen
    have htype : ((temp[k + 5]?).map codingType).isSome = true ↔ k ≠ 3 := by
      rw [Option.isSome_map, isSome_getElem?, htemp]
      omega
    have hrest : (((mpegPictureCodingExtensionParser ld base len).bind fun pic_struct =>
        some (⟨(temp[k + 5]?).map codingType, 2, head, pic_struct⟩ : FrameCheck)).bind
          FrameCheck.pictureCodingType).isSome = true ↔ ExtensionInside l len ∧ k ≠ 3 := by
      rw [Option.bind_assoc, bind_isSome_iff, ← hparser, Option.isSome_iff_exists, ← htype]
      simp
    simp only [hsome, hrest, exists_and_right]
    rw [← Option.isSome_iff_exists, hparse]
    constructor
    · rintro ⟨-, hext, hthree⟩
      exact ⟨fun hno => absurd hat (hno k (by omega)), fun _ => hext,
        fun hcut => absurd hat (hcut k hk)⟩
    · intro hinside
      have hext := hinside.extension ⟨k, hk, Or.inr hat⟩
      refine ⟨fun _ => hext, hext, ?_⟩
      rintro rfl
      exact hinside.not_cut hfirst hat

/-! ## Headers -/

variable {buf : List UInt8} {a : Nat}

/-- The length of a transport header with its adaptation field, an 8-bit sum. -/
def tsHeaderLen (buf : List UInt8) (a : Nat) : Nat :=
  if (buf.getD (a + 3) 0 &&& 0x30) >>> 4 ≥ 2 then (buf.getD (a + 4) 0 + 5).toNat else 4

/-- A packet begins a PES packet. -/
def UnitStart (buf : List UInt8) (a : Nat) : Prop :=
  buf.getD a 0 = 0x47 ∧ buf.getD (a + 1) 0 &&& 0x40 = 0x40

instance (buf : List UInt8) (a : Nat) : Decidable (UnitStart buf a) :=
  inferInstanceAs (Decidable (_ ∧ _))

/-- The length of the PES header, an 8-bit sum. -/
def pesHeaderLen (buf : List UInt8) (a : Nat) : Nat :=
  if UnitStart buf a then (buf.getD (a + tsHeaderLen buf a + 8) 0 + 9).toNat else 0

/-- The address behind the headers. -/
def payloadStart (buf : List UInt8) (a : Nat) : Nat :=
  a + tsHeaderLen buf a + pesHeaderLen buf a

/-- The transport header lies in the buffer. -/
structure HeaderInside (buf : List UInt8) (a : Nat) : Prop where
  control : a + 3 < buf.length
  adaptation : (buf.getD (a + 3) 0 &&& 0x30) >>> 4 ≥ 2 → a + 4 < buf.length

/-- Fewer than four bytes are left behind the transport header. -/
def NoPayload (buf : List UInt8) (a : Nat) : Prop :=
  184 < tsHeaderLen buf a ∧ tsHeaderLen buf a ≤ 188

/-- What is asked of a packet of the video PID. -/
structure CheckInside (buf head : List UInt8) (a : Nat) : Prop where
  header : HeaderInside buf a
  pes : ¬ NoPayload buf a → UnitStart buf a → a + tsHeaderLen buf a + 8 < buf.length
  first : ¬ NoPayload buf a → payloadStart buf a + 4 ≤ buf.length
  packet : ¬ NoPayload buf a → a + 188 ≤ buf.length
  payload : ¬ NoPayload buf a →
    CarriedInside (head ++ (buf.drop (payloadStart buf a)).take 4) (buf.drop (payloadStart buf a))
      (a + 188 - payloadStart buf a)

theorem loadsOf_nat (buf : List UInt8) (n : Nat) : loadsOf buf n = buf[n]? := by
  rw [loadsOf, if_pos (by omega)]
  rfl

theorem loadsOf_getD {n : Nat} (hn : n < buf.length) : loadsOf buf n = some (buf.getD n 0) := by
  rw [loadsOf_nat, List.getD_eq_getElem?_getD, List.getElem?_eq_getElem hn]
  rfl

theorem reads_drop (buf : List UInt8) (n : Nat) : Reads (loadsOf buf) n (buf.drop n) := by
  have h := (reads_loadsOf buf).drop n
  rwa [Int.zero_add] at h

theorem tsHeaderLen_lt (buf : List UInt8) (a : Nat) : tsHeaderLen buf a < 256 := by
  rw [tsHeaderLen]
  split
  · exact UInt8.toNat_lt _
  · omega

theorem payloadUnitStart_eq (ha : a + 1 < buf.length) :
    payloadUnitStart (loadsOf buf) a = some (decide (UnitStart buf a)) := by
  have hflags : loadsOf buf ((a : Int) + 1) = some (buf.getD (a + 1) 0) := loadsOf_getD ha
  rw [payloadUnitStart, expect_some (loadsOf_getD (by omega)), hflags]
  unfold UnitStart
  split
  case isTrue hsync => simp only [hsync, true_and, Option.map_some]
  case isFalse hsync => simp only [hsync, false_and, decide_false]

theorem pesPacketStart_isSome_iff :
    (pesPacketStart (loadsOf buf) a).isSome = true ↔ HeaderInside buf a := by
  have hbyte : loadsOf buf ((a : Int) + 3) = buf[a + 3]? := loadsOf_nat buf (a + 3)
  have hlen : loadsOf buf ((a : Int) + 4) = buf[a + 4]? := loadsOf_nat buf (a + 4)
  rw [pesPacketStart, hbyte, hlen]
  by_cases hin : a + 3 < buf.length
  · have hget : buf.getD (a + 3) 0 = buf[a + 3] := by
      rw [List.getD_eq_getElem?_getD, List.getElem?_eq_getElem hin]
      rfl
    rw [List.getElem?_eq_getElem hin, Option.bind_some]
    by_cases hge : (buf[a + 3] &&& 0x30) >>> 4 ≥ 2
    · rw [if_pos hge, Option.isSome_map, isSome_getElem?]
      exact ⟨fun hlt => ⟨hin, fun _ => hlt⟩, fun h => h.adaptation (hget ▸ hge)⟩
    · rw [if_neg hge]
      exact iff_of_true rfl ⟨hin, fun h => absurd (hget ▸ h) hge⟩
  · rw [List.getElem?_eq_none (by omega)]
    exact iff_of_false (by simp) fun h => hin h.control

theorem pesPacketStart_eq (h : HeaderInside buf a) :
    pesPacketStart (loadsOf buf) a = some ((a + tsHeaderLen buf a : Nat) : Int) := by
  have hcontrol : loadsOf buf ((a : Int) + 3) = some (buf.getD (a + 3) 0) := loadsOf_getD h.control
  rw [pesPacketStart, hcontrol, Option.bind_some, tsHeaderLen]
  split
  case isTrue hge =>
    have hlen : loadsOf buf ((a : Int) + 4) = some (buf.getD (a + 4) 0) :=
      loadsOf_getD (h.adaptation hge)
    rw [hlen]
    rfl
  case isFalse => rfl

theorem pesDataStart_isSome_iff (n : Nat) :
    (pesDataStart (loadsOf buf) n).isSome = true ↔ n + 8 < buf.length := by
  have hbyte : loadsOf buf ((n : Int) + 8) = buf[n + 8]? := loadsOf_nat buf (n + 8)
  rw [pesDataStart, Option.isSome_map, hbyte, isSome_getElem?]

/-! ## The whole function -/

theorem payload_ge_iff :
    u32OfInt (188 - (tsHeaderLen buf a : Int)) ≥ 4 ↔ ¬ NoPayload buf a := by
  have hlt := tsHeaderLen_lt buf a
  unfold NoPayload u32OfInt
  omega

theorem checkPayload_isSome_iff {head : List UInt8} (hhead : head.length = 4) {d : Nat}
    (pic_struct : UInt8) :
    ((checkPayload (loadsOf buf) d (a + 188 - d) head pic_struct).bind
        FrameCheck.pictureCodingType).isSome = true ↔
      d + 4 ≤ buf.length ∧ a + 188 ≤ buf.length ∧
        CarriedInside (head ++ (buf.drop d).take 4) (buf.drop d) (a + 188 - d) := by
  have hreads := reads_drop buf d
  have hfirst := hreads.loadBytes_isSome_iff 4
  have hlast := (reads_drop buf (a + 184)).loadBytes_isSome_iff 4
  have haddr : (d : Int) + (a + 188 - d) - 4 = (a + 184 : Nat) := by omega
  rw [List.length_drop] at hfirst hlast
  rw [checkPayload, haddr]
  simp only [Option.bind_eq_bind]
  rw [Option.bind_assoc, bind_isSome_iff]
  by_cases hd : d + 4 ≤ buf.length
  -- the first four bytes of the payload can be read
  · rw [and_iff_right hd, hreads.loadBytes_eq (by rw [List.length_drop]; omega)]
    by_cases hpk : a + 188 ≤ buf.length
    -- and so can the last four of the packet
    · obtain ⟨next, hnext⟩ := Option.isSome_iff_exists.mp (hlast.mpr (by omega))
      have hinside := checkCarried_isSome_iff hreads (by rw [List.length_drop]; omega)
        (by rw [List.length_drop]; omega : ((a : Int) + 188 - d) ≤ (buf.drop d).length)
        (by rw [List.length_append, List.length_take, List.length_drop]; omega :
          (head ++ (buf.drop d).take 4).length = 8) next pic_struct
      rw [and_iff_right hpk, ← hinside, hnext]
      simp
    · have hnone : loadBytes (loadsOf buf) (a + 184 : Nat) 4 = none := by
        rw [← Option.not_isSome_iff_eq_none, hlast]
        omega
      rw [hnone]
      simp [hpk]
  · have hnone : loadBytes (loadsOf buf) d 4 = none := by
      rw [← Option.not_isSome_iff_eq_none, hfirst]
      omega
    rw [hnone]
    simp [hd]

theorem pesDataStart_eq (n : Nat) (h : n + 8 < buf.length) :
    pesDataStart (loadsOf buf) n = some ((n + (buf.getD (n + 8) 0 + 9).toNat : Nat) : Int) := by
  have hbyte : loadsOf buf ((n : Int) + 8) = some (buf.getD (n + 8) 0) := loadsOf_getD h
  rw [pesDataStart, hbyte]
  rfl

/-- `x_check_frame_type1` on a packet whose first two bytes lie in the buffer. -/
theorem check_isSome_iff {head : List UInt8} (hhead : head.length = 4) (ha : a + 1 < buf.length)
    (pic_struct : UInt8) :
    ((xCheckFrameType1 (loadsOf buf) a head pic_struct 188).bind
        FrameCheck.pictureCodingType).isSome = true ↔ CheckInside buf head a := by
  have hlt := tsHeaderLen_lt buf a
  rw [xCheckFrameType1, payloadUnitStart_eq ha]
  simp only [Option.bind_eq_bind, Option.bind_some]
  by_cases hheader : HeaderInside buf a
  · have hts : ((a + tsHeaderLen buf a : Nat) : Int) - a = tsHeaderLen buf a := by omega
    rw [pesPacketStart_eq hheader, Option.bind_some, hts]
    -- an adaptation field that fills the packet leaves nothing to read
    by_cases hno : NoPayload buf a
    · rw [if_neg (by rw [payload_ge_iff]; exact not_not.mpr hno)]
      exact iff_of_true rfl ⟨hheader, fun h => absurd hno h, fun h => absurd hno h,
        fun h => absurd hno h, fun h => absurd hno h⟩
    · rw [if_pos (payload_ge_iff.mpr hno)]
      -- with a payload the rest is decided by where it starts
      have hinside : ∀ d : Nat, payloadStart buf a = d →
          (UnitStart buf a → a + tsHeaderLen buf a + 8 < buf.length) →
          (CheckInside buf head a ↔ d + 4 ≤ buf.length ∧ a + 188 ≤ buf.length ∧
            CarriedInside (head ++ (buf.drop d).take 4) (buf.drop d) (a + 188 - d)) := by
        rintro d rfl hpes
        constructor
        · exact fun h => ⟨h.first hno, h.packet hno, h.payload hno⟩
        · exact fun h => ⟨hheader, fun _ => hpes, fun _ => h.1, fun _ => h.2.1, fun _ => h.2.2⟩
      by_cases hunit : UnitStart buf a
      -- behind a PES header, whose length byte is read first
      · rw [if_pos (decide_eq_true hunit)]
        by_cases hpes : a + tsHeaderLen buf a + 8 < buf.length
        · rw [pesDataStart_eq _ hpes, Option.bind_some, hinside _ rfl fun _ => hpes, payloadStart,
            pesHeaderLen, if_pos hunit, ← checkPayload_isSome_iff hhead pic_struct]
          congr! 4
          omega
        · have hnone : pesDataStart (loadsOf buf) (a + tsHeaderLen buf a : Nat) = none := by
            rw [← Option.not_isSome_iff_eq_none, pesDataStart_isSome_iff]
            exact hpes
          rw [hnone]
          exact iff_of_false (by simp) fun h => hpes (h.pes hno hunit)
      -- or behind the TS header
      · rw [if_neg (by simpa using hunit), hinside _ rfl fun h => absurd h hunit, payloadStart,
          pesHeaderLen, if_neg hunit, s32_u32OfInt (by omega) (by omega)]
        simp only [Nat.add_zero]
        rw [← checkPayload_isSome_iff hhead pic_struct]
        congr! 4
        omega
  -- the TS header itself is cut off
  · have hnone : pesPacketStart (loadsOf buf) a = none := by
      rw [← Option.not_isSome_iff_eq_none, pesPacketStart_isSome_iff]
      exact hheader
    rw [hnone]
    exact iff_of_false (by simp) fun h => hheader h.header

end Tntsat.TsSequence
