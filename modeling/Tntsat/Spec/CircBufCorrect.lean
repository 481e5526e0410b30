import Tntsat.Native.CircBuf

/-!
# A read of the audio circular buffer is a read of a ring

`ringRead` says what a read is for: it takes the first `k` unread bytes in cyclic
order and moves the read position behind them.  `CIRC_BUF_Read` is that, with `k`
the smaller of the request and `CIRC_BUF_QueryBusy`, as long as the sum of the
read position and the request fits a `ulong`.  A sum that does not fit looks small
to both comparisons, and the request is taken for one that ends before the write
position or the end of the buffer.

## Key results

- `circBufRead_eq`, `circBufReads_eq`: reads in terms of the ring
- `readsExactly_iff`: exactly when a read is one
- `readsExactly_long64`: with a 64-bit `ulong` it always is
- `port_delivers`: captures and reads in any order
-/

namespace Tntsat.CircBuf

/-! ## `ulong` -/

theorem LongMode.le_size (m : LongMode) : 4294967296 ≤ m.size := by
  cases m <;> decide

theorem LongMode.ulong_of_lt {m : LongMode} {n : Nat} (h : n < m.size) : m.ulong n = n :=
  Nat.mod_eq_of_lt h

theorem LongMode.sub_of_le {m : LongMode} {a b : Nat} (hle : b ≤ a) (ha : a < m.size) :
    m.sub a b = a - b := by
  unfold LongMode.sub LongMode.ulong
  rw [show a + m.size - b = a - b + m.size by omega, Nat.add_mod_right, Nat.mod_eq_of_lt (by omega)]

/-- Only a 32-bit sum of a position and a length can be too large. -/
theorem LongMode.size_of_le {m : LongMode} {a b : Nat} (ha : a < 4294967296) (hb : b < 4294967296)
    (h : m.size ≤ a + b) : m.size = 4294967296 := by
  cases m with
  | long32 => rfl
  | long64 => simp only [LongMode.size] at h; omega

/-! ## The ring -/

/-- The number of unread bytes. -/
def CircBufS.busy (pstCb : CircBufS) : Nat :=
  if pstCb.pu32Read ≤ pstCb.pu32Write then pstCb.pu32Write - pstCb.pu32Read
  else pstCb.u32Lenght - (pstCb.pu32Read - pstCb.pu32Write)

/-- The read position `k` bytes further on. -/
def CircBufS.advance (pstCb : CircBufS) (k : Nat) : CircBufS :=
  { pstCb with pu32Read := (pstCb.pu32Read + k) % pstCb.u32Lenght }

/-- The first `k` unread bytes are taken out. -/
def ringRead (mem : Memory UInt8) (pstCb : CircBufS) (k : Nat) : ReadResult where
  pstCb := pstCb.advance k
  data := mem.readRing pstCb.pu8Data pstCb.u32Lenght pstCb.pu32Read k
  ret := k

theorem circBufQueryBusy_eq (m : LongMode) {pstCb : CircBufS} (h : pstCb.InRange) :
    circBufQueryBusy m pstCb = pstCb.busy := by
  have hr := h.read_lt
  have hw := h.write_lt
  have hlen := pstCb.lenght_lt
  have hsize := m.le_size
  simp only [circBufQueryBusy, CircBufS.busy]
  split
  · rw [LongMode.sub_of_le ‹_› (by omega), u32_of_lt (by omega)]
  · rw [LongMode.sub_of_le (a := pstCb.pu32Read) (by omega) (by omega),
      LongMode.sub_of_le (by omega) (by omega), u32_of_lt (by omega)]

theorem CircBufS.busy_lt {pstCb : CircBufS} (h : pstCb.InRange) :
    pstCb.busy < pstCb.u32Lenght := by
  have hr := h.read_lt
  have hw := h.write_lt
  unfold CircBufS.busy
  split <;> omega

/-- The read position stays inside. -/
theorem CircBufS.InRange.advance {pstCb : CircBufS} (h : pstCb.InRange) (k : Nat) :
    (pstCb.advance k).InRange where
  read_lt := Nat.mod_lt _ (Nat.zero_lt_of_lt h.read_lt)
  write_lt := h.write_lt

/-- What was taken out is no longer unread. -/
theorem CircBufS.busy_advance {pstCb : CircBufS} (h : pstCb.InRange) {k : Nat}
    (hk : k ≤ pstCb.busy) : (pstCb.advance k).busy = pstCb.busy - k := by
  have hr := h.read_lt
  have hw := h.write_lt
  have hlt := busy_lt h
  have hpos : (pstCb.advance k).pu32Read = if pstCb.pu32Read + k < pstCb.u32Lenght
      then pstCb.pu32Read + k else pstCb.pu32Read + k - pstCb.u32Lenght :=
    wrap_eq (show pstCb.pu32Read + k < pstCb.u32Lenght + pstCb.u32Lenght by omega)
  have hwrite : (pstCb.advance k).pu32Write = pstCb.pu32Write := rfl
  have hlen : (pstCb.advance k).u32Lenght = pstCb.u32Lenght := rfl
  simp only [busy, hpos, hwrite, hlen] at hk hlt ⊢
  by_cases hrw : pstCb.pu32Read ≤ pstCb.pu32Write
  · simp only [if_pos hrw] at hk ⊢
    rw [if_pos (show pstCb.pu32Read + k < pstCb.u32Lenght by omega), if_pos (by omega)]
    omega
  · -- the position may pass the end, and then it is at most the write position
    simp only [if_neg hrw] at hk ⊢
    split <;> split <;> omega

@[simp] theorem CircBufS.advance_zero {pstCb : CircBufS} (h : pstCb.InRange) :
    pstCb.advance 0 = pstCb := by
  simp only [CircBufS.advance, Nat.add_zero, Nat.mod_eq_of_lt h.read_lt]

theorem CircBufS.advance_advance (pstCb : CircBufS) (j k : Nat) :
    (pstCb.advance j).advance k = pstCb.advance (j + k) := by
  simp only [CircBufS.advance, Nat.mod_add_mod, Nat.add_assoc]

/-- Two reads in a row are one. -/
theorem ringRead_add (mem : Memory UInt8) (pstCb : CircBufS) (j k : Nat) :
    ringRead mem pstCb (j + k) =
      { pstCb := (ringRead mem (pstCb.advance j) k).pstCb
        data := (ringRead mem pstCb j).data ++ (ringRead mem (pstCb.advance j) k).data
        ret := (ringRead mem pstCb j).ret + (ringRead mem (pstCb.advance j) k).ret } := by
  simp only [ringRead, CircBufS.advance_advance, Memory.readRing_add]
  simp only [CircBufS.advance, Memory.readRing_mod]

/-! ## One read -/

/-- A read of one segment that ends inside the buffer or exactly at its end. -/
theorem circBufRead_single {m : LongMode} {pstCb : CircBufS} {u32Len k : Nat}
    (mem : Memory UInt8) (h : pstCb.InRange)
    (hsegs : rdSegments m pstCb u32Len = (⟨pstCb.pu32Read, k⟩, ⟨0, 0⟩))
    (hk : pstCb.pu32Read + k ≤ pstCb.u32Lenght) :
    circBufRead m mem pstCb u32Len = ringRead mem pstCb k := by
  have hr := h.read_lt
  have hlen := pstCb.lenght_lt
  have hsize := m.le_size
  have hret : u32 (m.ulong (k + 0)) = k := by
    rw [Nat.add_zero, LongMode.ulong_of_lt (by omega), u32_of_lt (by omega)]
  have hcopied : copyLoop m mem pstCb.pu8Data [⟨pstCb.pu32Read, k⟩, ⟨0, 0⟩] pstCb.pu32Read =
      (mem.readRing pstCb.pu8Data pstCb.u32Lenght pstCb.pu32Read k, pstCb.pu32Read + k) := by
    rw [Memory.readRing_eq_read mem _ hk]
    by_cases hk0 : k = 0
    · simp [copyLoop, hk0]
    · simp [copyLoop, hk0, LongMode.ulong_of_lt (show pstCb.pu32Read + k < m.size by omega)]
  simp only [circBufRead, hsegs, hcopied, hret, wrap_end (Nat.zero_lt_of_lt hr) hk]
  rfl

/-- A read of two segments, the first up to the end of the buffer. -/
theorem circBufRead_double {m : LongMode} {pstCb : CircBufS} {u32Len j : Nat}
    (mem : Memory UInt8) (h : pstCb.InRange)
    (hsegs : rdSegments m pstCb u32Len =
      (⟨pstCb.pu32Read, pstCb.u32Lenght - pstCb.pu32Read⟩, ⟨0, j⟩))
    (hj : j ≤ pstCb.pu32Read) :
    circBufRead m mem pstCb u32Len =
      ringRead mem pstCb (pstCb.u32Lenght - pstCb.pu32Read + j) := by
  have hr := h.read_lt
  have hlen := pstCb.lenght_lt
  have hsize := m.le_size
  have hret : u32 (m.ulong (pstCb.u32Lenght - pstCb.pu32Read + j)) =
      pstCb.u32Lenght - pstCb.pu32Read + j := by
    rw [LongMode.ulong_of_lt (by omega), u32_of_lt (by omega)]
  have hfirst : pstCb.u32Lenght - pstCb.pu32Read ≠ 0 := by omega
  have hend : m.ulong (pstCb.pu32Read + (pstCb.u32Lenght - pstCb.pu32Read)) = pstCb.u32Lenght := by
    rw [Nat.add_sub_cancel' (Nat.le_of_lt hr), LongMode.ulong_of_lt (by omega)]
  have hdata : mem.readRing pstCb.pu8Data pstCb.u32Lenght pstCb.pu32Read
      (pstCb.u32Lenght - pstCb.pu32Read + j) =
      mem.read (pstCb.pu8Data + pstCb.pu32Read) (pstCb.u32Lenght - pstCb.pu32Read) ++
        mem.read pstCb.pu8Data j := by
    rw [Memory.readRing_eq_read_append mem _ (by omega) (by omega) (by omega),
      Nat.add_sub_cancel_left]
  have hpos : (pstCb.pu32Read + (pstCb.u32Lenght - pstCb.pu32Read + j)) % pstCb.u32Lenght = j := by
    rw [← Nat.add_assoc, Nat.add_sub_cancel' (Nat.le_of_lt hr), Nat.add_mod_left,
      Nat.mod_eq_of_lt (by omega)]
  simp only [circBufRead, hsegs, hret, ringRead, CircBufS.advance, hdata, hpos]
  by_cases hj0 : j = 0
  · -- the second segment is empty, so the position is the end of the first
    simp [copyLoop, hfirst, hend, hj0]
  · simp [copyLoop, hfirst, hj0, LongMode.ulong_of_lt (show j < m.size by omega),
      show j ≠ pstCb.u32Lenght by omega]

/-- A read whose position and length add up to a `ulong` takes what there is, up
    to the length. -/
theorem circBufRead_eq {m : LongMode} {pstCb : CircBufS} {u32Len : Nat} (mem : Memory UInt8)
    (h : pstCb.InRange) (hlt : pstCb.pu32Read + u32Len < m.size) :
    circBufRead m mem pstCb u32Len = ringRead mem pstCb (min u32Len pstCb.busy) := by
  have hr := h.read_lt
  have hw := h.write_lt
  have hlen := pstCb.lenght_lt
  have hsize := m.le_size
  have hsum := LongMode.ulong_of_lt hlt
  unfold CircBufS.busy
  by_cases hrw : pstCb.pu32Read ≤ pstCb.pu32Write
  · rw [if_pos hrw]
    by_cases hn : pstCb.pu32Read + u32Len ≤ pstCb.pu32Write
    · -- more is there than was asked for
      rw [Nat.min_eq_left (by omega)]
      apply circBufRead_single mem h _ (by omega)
      simp only [rdSegments, if_pos hrw, hsum, if_pos hn]
    · rw [Nat.min_eq_right (by omega)]
      apply circBufRead_single mem h _ (by omega)
      simp only [rdSegments, if_pos hrw, hsum, if_neg hn,
        LongMode.sub_of_le hrw (show pstCb.pu32Write < m.size by omega)]
  · rw [if_neg hrw]
    by_cases hn : pstCb.pu32Read + u32Len ≤ pstCb.u32Lenght
    · -- the request ends before the fold
      rw [Nat.min_eq_left (by omega)]
      apply circBufRead_single mem h _ hn
      simp only [rdSegments, if_neg hrw, hsum, if_pos hn]
    · have hfirst := LongMode.sub_of_le (m := m) (Nat.le_of_lt hr) (by omega)
      have hsecond := LongMode.sub_of_le (m := m) (a := u32Len)
        (b := pstCb.u32Lenght - pstCb.pu32Read) (by omega) (by omega)
      rw [show min u32Len (pstCb.u32Lenght - (pstCb.pu32Read - pstCb.pu32Write)) =
        pstCb.u32Lenght - pstCb.pu32Read +
          if pstCb.pu32Write < u32Len - (pstCb.u32Lenght - pstCb.pu32Read) then pstCb.pu32Write
          else u32Len - (pstCb.u32Lenght - pstCb.pu32Read) by split <;> omega]
      apply circBufRead_double mem h
      · simp only [rdSegments, if_neg hrw, hsum, if_neg hn, hfirst, hsecond]
      · split <;> omega

/-! ## Several reads -/

/-- Reads of several lengths take what one read of their sum takes. -/
theorem circBufReads_eq {m : LongMode} (mem : Memory UInt8) (lens : List Nat)
    {pstCb : CircBufS} (h : pstCb.InRange) (hlt : pstCb.pu32Read + lens.sum < m.size) :
    circBufReads m mem pstCb lens = ringRead mem pstCb (min lens.sum pstCb.busy) := by
  induction lens generalizing pstCb with
  | nil =>
    rw [List.sum_nil, Nat.zero_min]
    simp [circBufReads, ringRead, CircBufS.advance_zero h]
  | cons n lens ih =>
    rw [List.sum_cons] at hlt ⊢
    have hk : min n pstCb.busy ≤ pstCb.busy := Nat.min_le_right _ _
    -- the position grows by at most what was asked for
    have hpos : (pstCb.advance (min n pstCb.busy)).pu32Read ≤ pstCb.pu32Read + n :=
      Nat.le_trans (Nat.mod_le _ _) (by omega)
    have hrest := ih (h.advance (min n pstCb.busy)) (by omega)
    rw [CircBufS.busy_advance h hk] at hrest
    rw [show min (n + lens.sum) pstCb.busy =
      min n pstCb.busy + min lens.sum (pstCb.busy - min n pstCb.busy) by omega, ringRead_add]
    simp only [circBufReads, circBufRead_eq mem h (show pstCb.pu32Read + n < m.size by omega)]
    rw [show (ringRead mem pstCb (min n pstCb.busy)).pstCb =
      pstCb.advance (min n pstCb.busy) from rfl, hrest]

/-! ## When a read is exact -/

/-- The read takes the smaller of what was asked for and what is unread, the read
    position is left that many bytes further on and inside the buffer, and reads of
    the same total do the same. -/
structure ReadsExactly (m : LongMode) (mem : Memory UInt8) (pstCb : CircBufS) (u32Len : Nat) :
    Prop where
  data : (circBufRead m mem pstCb u32Len).data =
    mem.readRing pstCb.pu8Data pstCb.u32Lenght pstCb.pu32Read
      (min u32Len (circBufQueryBusy m pstCb))
  ret : (circBufRead m mem pstCb u32Len).ret = min u32Len (circBufQueryBusy m pstCb)
  pos : (circBufRead m mem pstCb u32Len).pstCb =
    pstCb.advance (circBufRead m mem pstCb u32Len).ret
  inRange : (circBufRead m mem pstCb u32Len).pstCb.InRange
  splits : ∀ lens : List Nat, lens.sum = u32Len →
    circBufReads m mem pstCb lens = circBufRead m mem pstCb u32Len

theorem readsExactly_of_lt {m : LongMode} (mem : Memory UInt8) {pstCb : CircBufS} {u32Len : Nat}
    (h : pstCb.InRange) (hlt : pstCb.pu32Read + u32Len < m.size) :
    ReadsExactly m mem pstCb u32Len := by
  have hread := circBufRead_eq mem h hlt
  have hbusy := circBufQueryBusy_eq m h
  exact {
    data := by rw [hread, hbusy]; rfl
    ret := by rw [hread, hbusy]; rfl
    pos := by rw [hread]; rfl
    inRange := by rw [hread]; exact h.advance _
    splits := by
      intro lens hlens
      subst hlens
      rw [hread, circBufReads_eq mem lens h hlt] }

/-- When the sum does not fit, the whole request is one segment and the position
    behind it is the sum without its top bit. -/
theorem circBufRead_of_wrap {m : LongMode} (mem : Memory UInt8) {pstCb : CircBufS} {u32Len : Nat}
    (h : pstCb.InRange) (hn : u32Len < 4294967296) (hge : m.size ≤ pstCb.pu32Read + u32Len) :
    (circBufRead m mem pstCb u32Len).ret = u32Len ∧
      (circBufRead m mem pstCb u32Len).pstCb.pu32Read =
        pstCb.pu32Read + u32Len - 4294967296 := by
  have hr := h.read_lt
  have hlen := pstCb.lenght_lt
  have hsize := LongMode.size_of_le (by omega) hn hge
  rw [hsize] at hge
  have hsum : m.ulong (pstCb.pu32Read + u32Len) = pstCb.pu32Read + u32Len - 4294967296 := by
    unfold LongMode.ulong
    rw [hsize, Nat.mod_eq_sub_mod hge, Nat.mod_eq_of_lt (by omega)]
  have hsegs : rdSegments m pstCb u32Len = (⟨pstCb.pu32Read, u32Len⟩, ⟨0, 0⟩) := by
    simp only [rdSegments, hsum]
    by_cases hrw : pstCb.pu32Read ≤ pstCb.pu32Write
    · rw [if_pos hrw, if_pos (by omega)]
    · rw [if_neg hrw, if_pos (by omega)]
  have hret : u32 (m.ulong u32Len) = u32Len := by
    rw [LongMode.ulong_of_lt (by omega), u32_of_lt hn]
  have hne : pstCb.pu32Read + u32Len - 4294967296 ≠ pstCb.u32Lenght := by omega
  simp [circBufRead, hsegs, hret, copyLoop, hsum, hne, show u32Len ≠ 0 by omega]

/-- The audio buffer is read exactly when the sum of the read position and the
    request fits a `ulong`. -/
theorem readsExactly_iff (m : LongMode) (mem : Memory UInt8) (pstCb : CircBufS) (u32Len : Nat)
    (h : pstCb.InRange) (hn : u32Len < 4294967296) :
    ReadsExactly m mem pstCb u32Len ↔ pstCb.pu32Read + u32Len < m.size := by
  constructor
  · intro hx
    by_contra hge
    have hr := h.read_lt
    have hw := h.write_lt
    have hlen := pstCb.lenght_lt
    have hsize := LongMode.size_of_le (m := m) (by omega) hn (by omega)
    obtain ⟨hret, hpos⟩ := circBufRead_of_wrap mem h hn (Nat.le_of_not_lt hge)
    have hmin := hx.ret
    rw [hret, circBufQueryBusy_eq m h] at hmin
    have hle : u32Len ≤ pstCb.busy := by omega
    -- all of the request is there, so the right position is one turn back, not 2³²
    have hadv := congrArg CircBufS.pu32Read hx.pos
    have hbusy := CircBufS.busy_lt h
    rw [hpos, hret] at hadv
    simp only [CircBufS.advance] at hadv
    rw [wrap_eq (by omega)] at hadv
    split at hadv <;> omega
  · exact readsExactly_of_lt mem h

/-- The buffer of the runs below: 16 bytes, of which 4 are unread. -/
def fourUnread : CircBufS where
  pu32Write := 8
  pu32Read := 4
  pu8Data := 0
  u32Lenght := 16
  lenght_lt := by decide

theorem fourUnread_inRange : fourUnread.InRange := ⟨by decide, by decide⟩

/-- A request for ten bytes of the four, with a 32-bit `ulong`. -/
theorem readsExactly_ten : fourUnread.pu32Read + 10 < LongMode.long32.size ∧
    ReadsExactly .long32 (fun a => UInt8.ofNat a) fourUnread 10 :=
  ⟨by decide, (readsExactly_iff .long32 _ fourUnread 10 fourUnread_inRange (by decide)).mpr
    (by decide)⟩

/-- A request for 4294967294 bytes of the four is met in full. -/
theorem reads_past_busy : fourUnread.InRange ∧ circBufQueryBusy .long32 fourUnread = 4 ∧
    ∀ mem, (circBufRead .long32 mem fourUnread 4294967294).ret = 4294967294 ∧
      ¬ ReadsExactly .long32 mem fourUnread 4294967294 := by
  have hret : ∀ mem, (circBufRead .long32 mem fourUnread 4294967294).ret = 4294967294 := by
    intro mem
    rfl
  have hbusy : circBufQueryBusy .long32 fourUnread = 4 := by decide
  refine ⟨fourUnread_inRange, hbusy, ?_⟩
  intro mem
  constructor
  · exact hret mem
  · intro hx
    have hmin := hx.ret
    rw [hret mem, hbusy] at hmin
    exact absurd hmin (by decide)

/-- With a 64-bit `ulong` every read is exact. -/
theorem readsExactly_long64 (mem : Memory UInt8) {pstCb : CircBufS} {u32Len : Nat}
    (h : pstCb.InRange) (hn : u32Len < 4294967296) : ReadsExactly .long64 mem pstCb u32Len := by
  have hr := h.read_lt
  have hlen := pstCb.lenght_lt
  apply readsExactly_of_lt mem h
  simp only [LongMode.size]
  omega

/-! ## Captures and reads in any order -/

/-- The write position is behind the unread bytes. -/
theorem CircBufS.write_eq {pstCb : CircBufS} (h : pstCb.InRange) :
    pstCb.pu32Write = (pstCb.pu32Read + pstCb.busy) % pstCb.u32Lenght := by
  have hr := h.read_lt
  have hw := h.write_lt
  have hlt := busy_lt h
  rw [wrap_eq (by omega)]
  unfold CircBufS.busy
  split <;> split <;> omega

theorem CircBufS.busy_eq_of_write {pstCb : CircBufS} (h : pstCb.InRange) {k : Nat}
    (hk : k < pstCb.u32Lenght)
    (hwrite : pstCb.pu32Write = (pstCb.pu32Read + k) % pstCb.u32Lenght) : pstCb.busy = k := by
  have hr := h.read_lt
  rw [wrap_eq (by omega)] at hwrite
  unfold CircBufS.busy
  split at hwrite <;> split <;> omega

/-- A capture that leaves one byte free moves the write position behind it. -/
theorem circBufWriteVsb_eq {m : LongMode} {pstCb : CircBufS} {u32Len : Nat} (h : pstCb.InRange)
    (hroom : pstCb.busy + u32Len < pstCb.u32Lenght) (hlt : pstCb.pu32Write + u32Len < m.size) :
    circBufWriteVsb m pstCb u32Len =
      ({ pstCb with pu32Write := (pstCb.pu32Write + u32Len) % pstCb.u32Lenght }, u32Len) := by
  have hr := h.read_lt
  have hw := h.write_lt
  have hlen := pstCb.lenght_lt
  have hsize := m.le_size
  have hsum := LongMode.ulong_of_lt hlt
  have hret (j k : Nat) (hjk : j + k = u32Len) : u32 (m.ulong (j + k)) = u32Len := by
    rw [hjk, LongMode.ulong_of_lt (by omega), u32_of_lt (by omega)]
  have hsingle (hsegs : wtSegments m pstCb u32Len = (⟨pstCb.pu32Write, u32Len⟩, ⟨0, 0⟩))
      (hle : pstCb.pu32Write + u32Len ≤ pstCb.u32Lenght) :
      circBufWriteVsb m pstCb u32Len =
        ({ pstCb with pu32Write := (pstCb.pu32Write + u32Len) % pstCb.u32Lenght }, u32Len) := by
    have hmove : moveLoop m [⟨pstCb.pu32Write, u32Len⟩, ⟨0, 0⟩] pstCb.pu32Write =
        pstCb.pu32Write + u32Len := by
      by_cases h0 : u32Len = 0
      · simp [moveLoop, h0]
      · simp [moveLoop, h0, hsum]
    simp only [circBufWriteVsb, hsegs, hmove, hret u32Len 0 (Nat.add_zero _),
      wrap_end (Nat.zero_lt_of_lt hr) hle]
  unfold CircBufS.busy at hroom
  by_cases hrw : pstCb.pu32Read ≤ pstCb.pu32Write
  · by_cases hle : pstCb.pu32Write + u32Len ≤ pstCb.u32Lenght
    · exact hsingle (by simp only [wtSegments, if_pos hrw, hsum, if_pos hle]) hle
    · rw [if_pos hrw] at hroom
      have hfirst := LongMode.sub_of_le (m := m) (Nat.le_of_lt hw) (by omega)
      have hsecond := LongMode.sub_of_le (m := m) (a := u32Len)
        (b := pstCb.u32Lenght - pstCb.pu32Write) (by omega) (by omega)
      have hsegs : wtSegments m pstCb u32Len =
          (⟨pstCb.pu32Write, pstCb.u32Lenght - pstCb.pu32Write⟩,
            ⟨0, u32Len - (pstCb.u32Lenght - pstCb.pu32Write)⟩) := by
        simp only [wtSegments, if_pos hrw, hsum, if_neg hle, hfirst, hsecond]
      have hmove : moveLoop m [⟨pstCb.pu32Write, pstCb.u32Lenght - pstCb.pu32Write⟩,
          ⟨0, u32Len - (pstCb.u32Lenght - pstCb.pu32Write)⟩] pstCb.pu32Write =
            u32Len - (pstCb.u32Lenght - pstCb.pu32Write) := by
        simp only [moveLoop, if_pos (show pstCb.u32Lenght - pstCb.pu32Write ≠ 0 by omega),
          if_pos (show u32Len - (pstCb.u32Lenght - pstCb.pu32Write) ≠ 0 by omega), Nat.zero_add]
        exact LongMode.ulong_of_lt (by omega)
      have hpos : (pstCb.pu32Write + u32Len) % pstCb.u32Lenght =
          u32Len - (pstCb.u32Lenght - pstCb.pu32Write) := by
        rw [wrap_eq (by omega), if_neg (by omega)]
        omega
      simp only [circBufWriteVsb, hsegs, hmove, hpos, hret (pstCb.u32Lenght - pstCb.pu32Write)
        (u32Len - (pstCb.u32Lenght - pstCb.pu32Write)) (by omega),
        if_neg (show u32Len - (pstCb.u32Lenght - pstCb.pu32Write) ≠ pstCb.u32Lenght by omega)]
  · rw [if_neg hrw] at hroom
    exact hsingle (by simp only [wtSegments, if_neg hrw]) (by omega)

/-- The bytes of a port that wait for a read. -/
def Port.unread (s : Port) : List UInt8 :=
  s.mem.readRing s.stCB.pu8Data s.stCB.u32Lenght s.stCB.pu32Read s.stCB.busy

/-- What the port relies on: the hardware leaves one byte free, and no sum leaves a `ulong`. -/
def Fits (m : LongMode) (s : Port) : PortEvent → Prop
  | .capture bs => s.stCB.busy + bs.length < s.stCB.u32Lenght ∧
      s.stCB.pu32Write + bs.length < m.size
  | .read n => s.stCB.pu32Read + n < m.size

instance (m : LongMode) (s : Port) : (e : PortEvent) → Decidable (Fits m s e)
  | .capture bs => inferInstanceAs (Decidable (s.stCB.busy + bs.length < s.stCB.u32Lenght ∧
      s.stCB.pu32Write + bs.length < m.size))
  | .read n => inferInstanceAs (Decidable (s.stCB.pu32Read + n < m.size))

/-- Captured bytes join the end of those that wait. -/
theorem capture_unread {m : LongMode} {s : Port} (h : s.stCB.InRange) {bs : List UInt8}
    (hfits : Fits m s (.capture bs)) :
    ((portMachine m).step s (.capture bs)).1.stCB.InRange ∧
      ((portMachine m).step s (.capture bs)).1.unread = s.unread ++ bs := by
  obtain ⟨hroom, hlt⟩ := hfits
  have hwrite := CircBufS.write_eq h
  have hpos : 0 < s.stCB.u32Lenght := Nat.zero_lt_of_lt h.read_lt
  have hcb := congrArg Prod.fst (circBufWriteVsb_eq h hroom hlt)
  have hin : CircBufS.InRange
      { s.stCB with pu32Write := (s.stCB.pu32Write + bs.length) % s.stCB.u32Lenght } :=
    ⟨h.read_lt, Nat.mod_lt _ hpos⟩
  have hbusy : CircBufS.busy
      { s.stCB with pu32Write := (s.stCB.pu32Write + bs.length) % s.stCB.u32Lenght } =
        s.stCB.busy + bs.length := by
    refine CircBufS.busy_eq_of_write hin hroom ?_
    change (s.stCB.pu32Write + bs.length) % s.stCB.u32Lenght = _
    rw [hwrite, Nat.mod_add_mod, Nat.add_assoc]
  simp only [portMachine, hcb, Port.unread, hbusy]
  refine ⟨hin, ?_⟩
  rw [hwrite]
  exact Memory.readRing_writeRing s.mem bs h.read_lt (Nat.le_of_lt hroom)

/-- A read takes the first of those that wait. -/
theorem read_unread {m : LongMode} {s : Port} (h : s.stCB.InRange) {n : Nat}
    (hfits : Fits m s (.read n)) :
    ((portMachine m).step s (.read n)).1.stCB.InRange ∧
      s.unread = ((portMachine m).step s (.read n)).2.2 ++
        ((portMachine m).step s (.read n)).1.unread ∧
      ((portMachine m).step s (.read n)).2.2.length = min n s.unread.length := by
  have hk : min n s.stCB.busy ≤ s.stCB.busy := Nat.min_le_right _ _
  have hread := circBufRead_eq s.mem h hfits
  have hbusy := CircBufS.busy_advance h hk
  have hsplit : s.stCB.busy = min n s.stCB.busy + (s.stCB.busy - min n s.stCB.busy) := by omega
  simp only [portMachine, hread, ringRead, Port.unread]
  refine ⟨h.advance _, ?_, ?_⟩
  · rw [hbusy]
    conv_lhs => rw [hsplit, Memory.readRing_add]
    simp only [CircBufS.advance, Memory.readRing_mod]
  · rw [Memory.length_readRing, Memory.length_readRing]

/-- Over any order of captures and reads, every captured byte is delivered once and in the order
    of the capture, or still waits, and a read delivers all it asked for if so much waits. -/
theorem port_delivers {m : LongMode} {s : Port} {es : List PortEvent} (h : s.stCB.InRange)
    (hrun : (portMachine m).Always (Fits m) s es) :
    s.unread ++ (((portMachine m).outputs s es).map Prod.fst).flatten =
        (((portMachine m).outputs s es).map Prod.snd).flatten ++
          ((portMachine m).final s es).unread ∧
      (portMachine m).Always (fun s e => ∀ n, e = .read n →
        ((portMachine m).step s e).2.2.length = min n s.unread.length) s es := by
  induction es generalizing s with
  | nil =>
    simp only [Machine.outputs_nil, Machine.final_nil, List.map_nil, List.flatten_nil,
      List.append_nil, List.nil_append, Machine.always_nil, and_self]
  | cons e es ih =>
    obtain ⟨hfits, hrest⟩ := hrun
    rw [Machine.outputs_cons, Machine.final_cons, List.map_cons, List.map_cons, List.flatten_cons,
      List.flatten_cons]
    cases e with
    | capture bs =>
      obtain ⟨hin, hunread⟩ := capture_unread h hfits
      obtain ⟨hall, hreads⟩ := ih hin hrest
      refine ⟨?_, ⟨fun n hn => ?_, hreads⟩⟩
      · rw [hunread, List.append_assoc] at hall
        exact hall
      · cases hn
    | read n =>
      obtain ⟨hin, hunread, hlength⟩ := read_unread h hfits
      obtain ⟨hall, hreads⟩ := ih hin hrest
      refine ⟨?_, ⟨fun n' hn => ?_, hreads⟩⟩
      · rw [hunread, List.append_assoc, List.append_assoc, ← hall]
        rfl
      · cases hn
        exact hlength

/-- A port with the four bytes, and a capture over the end of its buffer between two reads. -/
def fourPort : Port := ⟨fourUnread, fun a => UInt8.ofNat a⟩

def wrappingRun : List PortEvent :=
  [.read 3, .capture [21, 22, 23, 24, 25, 26, 27, 28, 29, 30], .read 100]

theorem port_delivers_wrapping :
    ((portMachine .long32).outputs fourPort wrappingRun).map Prod.snd =
        [[4, 5, 6], [], [7, 21, 22, 23, 24, 25, 26, 27, 28, 29, 30]] ∧
      fourPort.unread ++ (((portMachine .long32).outputs fourPort wrappingRun).map Prod.fst).flatten =
        (((portMachine .long32).outputs fourPort wrappingRun).map Prod.snd).flatten ++
          ((portMachine .long32).final fourPort wrappingRun).unread ∧
      (portMachine .long32).Always (fun s e => ∀ n, e = .read n →
        ((portMachine .long32).step s e).2.2.length = min n s.unread.length) fourPort wrappingRun :=
  ⟨by decide, port_delivers (s := fourPort) fourUnread_inRange
    (by decide : (portMachine .long32).Always (Fits .long32) fourPort wrappingRun)⟩

end Tntsat.CircBuf
