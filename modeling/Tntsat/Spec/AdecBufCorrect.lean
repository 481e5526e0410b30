import Tntsat.Native.AdecBuf

/-!
# Packets in the audio ES buffer

The unread packets lie one behind the other from `esRd` on, up to `esWt`; when
the last write did not fit before the end of the buffer, they lie from `esRd` up
to a gap at the end and from the head up to `esWt`, which then is below `esRd`
(`Layout`).  The strict comparisons of `check_es_buf` keep `esWt` off `esRd`, so
the second copy of `adec_es_write` never runs.

## Key results

- `placeEs_eq`: where an accepted packet goes
- `Layout.write`, `Layout.take`: one packet joins, one packet leaves
- `es_ring_safe`: regions and indices over whole runs
-/

namespace Tntsat.AdecBuf

/-! ## Descriptors -/

/-- The descriptor indices are in range. -/
structure PktOk (b : AdecEsBuf) : Prop where
  pktCnt_lt : b.pktCnt < 4294967296
  pktRd_lt : b.pktRd < max b.pktCnt 1
  pktWt_lt : b.pktWt < max b.pktCnt 1

/-- The number of unread packets, without the remainder. -/
theorem PktOk.count_eq {b : AdecEsBuf} (h : PktOk b) :
    b.count = if b.pktWt ≥ b.pktRd then b.pktWt - b.pktRd else b.pktWt + b.pktCnt - b.pktRd := by
  have hrd := h.pktRd_lt
  have hwt := h.pktWt_lt
  unfold AdecEsBuf.count
  by_cases hpos : b.pktCnt = 0
  · rw [hpos, Nat.mod_zero]
    split <;> omega
  · split
    · rw [show b.pktWt + b.pktCnt - b.pktRd = b.pktWt - b.pktRd + b.pktCnt by omega,
        Nat.add_mod_right, Nat.mod_eq_of_lt (by omega)]
    · exact Nat.mod_eq_of_lt (by omega)

/-- `check_es_pkt` accepts when the packet leaves one descriptor free. -/
theorem PktOk.checkEsPkt_iff {b : AdecEsBuf} (h : PktOk b) :
    checkEsPkt b = true ↔ b.count + 1 < b.pktCnt := by
  have hrd := h.pktRd_lt
  have hwt := h.pktWt_lt
  have hcnt := h.pktCnt_lt
  rw [h.count_eq]
  simp only [checkEsPkt, decide_eq_true_eq]
  split
  · rw [u32sub_of_le (by omega) hcnt]
    omega
  · omega

/-- The writer's index is the one behind the unread packets. -/
theorem PktOk.pktWt_eq {b : AdecEsBuf} (h : PktOk b) (hpos : 0 < b.pktCnt) :
    b.pktWt = (b.pktRd + b.count) % b.pktCnt := by
  have hrd := h.pktRd_lt
  have hwt := h.pktWt_lt
  rw [h.count_eq]
  split
  · rw [Nat.mod_eq_of_lt (by omega)]
    omega
  · rw [show b.pktRd + (b.pktWt + b.pktCnt - b.pktRd) = b.pktWt + b.pktCnt by omega,
      Nat.add_mod_right, Nat.mod_eq_of_lt (by omega)]

/-- Writing the descriptor at `pktWt` does not touch the unread ones. -/
theorem PktOk.readRing_update {b : AdecEsBuf} (h : PktOk b) (p : AdecEsPkt) :
    (b.esPkt.set b.pktWt p).readRing 0 b.pktCnt b.pktRd b.count = b.unread := by
  apply Memory.readRing_congr
  intro k hk
  have hpos : 0 < b.pktCnt := by
    by_contra hc
    have hcount := h.count_eq
    have hrd := h.pktRd_lt
    have hwt := h.pktWt_lt
    split at hcount <;> omega
  have hlt : b.count < b.pktCnt := Nat.mod_lt _ hpos
  apply Memory.set_of_ne
  rw [Nat.zero_add, h.pktWt_eq hpos]
  exact wrap_ne hk (by omega)

/-! ## Where a packet goes -/

/-- The byte indices are in range. -/
structure EsOk (b : AdecEsBuf) : Prop where
  esBufSize_lt : b.esBufSize < 4294967296
  esRd_lt : b.esRd < max b.esBufSize 1
  esWt_lt : b.esWt < max b.esBufSize 1

/-- `n` bytes at `wt` touch neither unread bytes nor the end of the buffer, and
    leave a byte free before `rd`. -/
def Fits (rd wt size n : Nat) : Prop :=
  rd ≤ wt ∧ n + wt < size + rd ∧ wt + n ≤ size ∨ wt < rd ∧ wt + n < rd

/-- What `check_es_buf` decides: to refuse, to write at `esWt`, or to skip the
    end of the buffer. -/
theorem EsOk.checkEsBuf_cases {b : AdecEsBuf} (h : EsOk b) {n : Nat} (hn : 0 < n) :
    checkEsBuf b n = (b.setFlag 0, false) ∨
    (checkEsBuf b n = (b.setFlag 0, true) ∧ Fits b.esRd b.esWt b.esBufSize n) ∨
    (checkEsBuf b n = ({ b.setFlag 0 with esWt := 0 }.setFlag 1, true) ∧
      b.esRd ≤ b.esWt ∧ b.esBufSize < b.esWt + n ∧ n < b.esRd) := by
  have hsize := h.esBufSize_lt
  have hrd := h.esRd_lt
  have hwt := h.esWt_lt
  unfold checkEsBuf Fits
  rw [if_neg (by omega)]
  simp only [AdecEsBuf.setFlag_esBufSize]
  by_cases hle : b.esRd ≤ b.esWt
  · have hused : u32sub b.esBufSize (b.esWt - b.esRd) = b.esBufSize - (b.esWt - b.esRd) :=
      u32sub_of_le (by omega) hsize
    have hright : u32sub b.esBufSize b.esWt = b.esBufSize - b.esWt :=
      u32sub_of_le (by omega) hsize
    simp only [ge_iff_le, if_pos hle, hused, hright]
    by_cases hfull : b.esBufSize - (b.esWt - b.esRd) ≤ n
    · left
      rw [if_pos hfull]
    · rw [if_neg hfull]
      by_cases hend : n ≤ b.esBufSize - b.esWt
      · -- room before the end of the buffer
        right; left
        rw [if_pos hend]
        exact ⟨rfl, .inl ⟨hle, by omega, by omega⟩⟩
      · rw [if_neg hend]
        by_cases hhead : b.esRd > n
        · -- room at the head only
          right; right
          rw [if_pos hhead]
          exact ⟨rfl, hle, by omega, hhead⟩
        · left
          rw [if_neg hhead]
  · simp only [ge_iff_le, if_neg hle]
    by_cases hfull : b.esRd - b.esWt ≤ n
    · left
      rw [if_pos hfull]
    · right; left
      rw [if_neg hfull, if_pos (by omega)]
      exact ⟨rfl, .inr ⟨by omega, by omega⟩⟩

/-- A packet that fits is copied in one piece. -/
theorem copyEs_eq {b : AdecEsBuf} (hsize : b.esBufSize < 4294967296)
    (hrd : b.esRd < max b.esBufSize 1) (mem : Memory UInt8) {data : List UInt8}
    (hfits : Fits b.esRd b.esWt b.esBufSize data.length) :
    copyEs b mem data = (mem.write (b.dataPhy + b.esWt) data, b.esWt + data.length) := by
  unfold copyEs
  rcases hfits with ⟨hle, -, hend⟩ | ⟨hlt, hroom⟩
  · rw [if_pos hle, u32sub_of_le (by omega) hsize]
    simp only
    rw [if_pos (by omega), u32_of_lt (by omega)]
  · rw [if_neg (by omega), u32_of_lt (by omega)]

/-! ## Layout of the unread packets -/

/-- How the regions of the unread packets lie in the buffer. -/
inductive Layout (rd wt size : Nat) : List Span → Prop
  /-- in one row from `rd` to `wt` -/
  | straight {ss : List Span} (hlt : wt < max size 1) (h : Contig rd ss wt) : Layout rd wt size ss
  /-- from `rd` to a gap at the end, then from the head to `wt` -/
  | wrapped {ss₁ ss₂ : List Span} {x : Nat} (hwt : wt < rd) (hrd : rd < size)
      (h₁ : Contig rd ss₁ x) (hx : x ≤ size) (h₂ : Contig 0 ss₂ wt)
      (hgap : ss₂ = [] → x = size) : Layout rd wt size (ss₁ ++ ss₂)

namespace Layout

variable {rd wt size : Nat} {ss : List Span}

theorem rd_lt (h : Layout rd wt size ss) : rd < max size 1 := by
  cases h with
  | straight hlt h => exact Nat.lt_of_le_of_lt h.le hlt
  | wrapped hwt hrd => omega

theorem wt_lt (h : Layout rd wt size ss) : wt < max size 1 := by
  cases h with
  | straight hlt => exact hlt
  | wrapped hwt hrd => omega

/-- Regions are not empty and inside the buffer. -/
theorem mem (h : Layout rd wt size ss) {s : Span} (hs : s ∈ ss) : 0 < s.len ∧ s.stop ≤ size := by
  cases h with
  | straight hlt h =>
    obtain ⟨hpos, -, hstop⟩ := h.mem hs
    exact ⟨hpos, by unfold Span.stop at *; omega⟩
  | wrapped hwt hrd h₁ hx h₂ hgap =>
    rcases List.mem_append.mp hs with hs | hs
    · obtain ⟨hpos, -, hstop⟩ := h₁.mem hs
      exact ⟨hpos, by omega⟩
    · obtain ⟨hpos, -, hstop⟩ := h₂.mem hs
      exact ⟨hpos, by omega⟩

/-- Regions do not overlap. -/
theorem disjoint (h : Layout rd wt size ss) : ss.Pairwise Span.Disjoint := by
  cases h with
  | straight hlt h => exact h.ordered.imp .inl
  | wrapped hwt hrd h₁ hx h₂ hgap =>
    apply List.pairwise_append.mpr
    refine ⟨h₁.ordered.imp .inl, h₂.ordered.imp .inl, fun s hs t ht => ?_⟩
    -- what lies at the head ends before `rd`
    have hstart := (h₁.mem hs).2.1
    have hstop := (h₂.mem ht).2.2
    exact .inr (by omega)

/-- A ring with unread packets is not seen as empty. -/
theorem wt_ne_rd (h : Layout rd wt size ss) (hne : ss ≠ []) : wt ≠ rd := by
  cases h with
  | straight hlt h => exact Nat.ne_of_gt (h.lt hne)
  | wrapped hwt => exact Nat.ne_of_lt hwt

/-- A packet is written where it fits. -/
theorem write (h : Layout rd wt size ss) {n : Nat} (hn : 0 < n) (hfits : Fits rd wt size n) :
    Layout rd ((wt + n) % size) size (ss ++ [{ start := wt, len := n }]) := by
  cases h with
  | straight hlt h =>
    have hle := h.le
    have hsnoc : Contig rd (ss ++ [{ start := wt, len := n }]) (wt + n) :=
      Contig.concat (s := { start := wt, len := n }) h hn
    rcases hfits with ⟨-, hroom, hend⟩ | ⟨hlt', -⟩
    · by_cases hexact : wt + n = size
      · -- up to the last byte of the buffer: `wt` wraps to the head
        rw [hexact, Nat.mod_self, ← List.append_nil (ss ++ _)]
        rw [hexact] at hsnoc
        exact .wrapped (by omega) (by omega) hsnoc (Nat.le_refl _) (.nil 0) fun _ => rfl
      · rw [Nat.mod_eq_of_lt (by omega)]
        exact .straight (by omega) hsnoc
    · omega
  | wrapped hwt hrd h₁ hx h₂ hgap =>
    rcases hfits with ⟨hle, -, -⟩ | ⟨-, hroom⟩
    · omega
    · rw [Nat.mod_eq_of_lt (by omega), List.append_assoc]
      refine .wrapped hroom hrd h₁ hx (Contig.concat (s := { start := wt, len := n }) h₂ hn) ?_
      intro hnil
      exact absurd hnil (by simp)

/-- A packet that only fits at the head is written there. -/
theorem writeHead (h : Layout rd wt size ss) {n : Nat} (hn : 0 < n) (hle : rd ≤ wt)
    (hroom : n < rd) : Layout rd (n % size) size (ss ++ [{ start := 0, len := n }]) := by
  cases h with
  | straight hlt h =>
    rw [Nat.mod_eq_of_lt (by omega)]
    refine .wrapped hroom (by omega) h (by omega) ?_ fun hnil => nomatch hnil
    have hhead := Contig.concat (s := { start := 0, len := n }) (.nil 0) hn
    rwa [Span.stop, Nat.zero_add, List.nil_append] at hhead
  | wrapped hwt => omega

/-- The oldest packet is taken. -/
theorem take {s : Span} (h : Layout rd wt size (s :: ss)) : Layout (s.stop % size) wt size ss := by
  generalize hss : s :: ss = all at h
  cases h with
  | straight hlt h =>
    subst hss
    have hstop := (h.mem List.mem_cons_self).2.2
    have hpos := (h.mem List.mem_cons_self).1
    rw [Nat.mod_eq_of_lt (by unfold Span.stop at *; omega)]
    exact .straight hlt h.tail.2
  | @wrapped ss₁ ss₂ x hwt hrd h₁ hx h₂ hgap =>
    cases ss₁ with
    | nil =>
      -- nothing is left before the gap: the packet is the first one at the head
      cases h₁
      rw [List.nil_append] at hss
      subst hss
      have hstop := (h₂.mem List.mem_cons_self).2.2
      rw [Nat.mod_eq_of_lt (by omega)]
      exact .straight (by omega) h₂.tail.2
    | cons s' ss₁ =>
      obtain ⟨rfl, rfl⟩ := List.cons.inj hss
      obtain ⟨hstart, htail⟩ := h₁.tail
      have hpos := (h₁.mem List.mem_cons_self).1
      have hle := htail.le
      by_cases hend : s.stop = size
      · -- the packet ended with the buffer: what is left lies at the head
        rw [hend, Nat.mod_self]
        have hnil : ss₁ = [] := by
          by_contra hne
          have := htail.lt hne
          omega
        subst hnil
        exact .straight (by omega) h₂
      · rw [Nat.mod_eq_of_lt (by omega)]
        exact .wrapped (by unfold Span.stop at *; omega) (by omega) htail hx h₂ hgap

end Layout

/-! ## One step -/

/-- What `adec_es_write` leaves when it stores a packet at `pos`. -/
def stored (s : State) (pos : Nat) (data : List UInt8) (pkt : AdecEsPkt) : State where
  esBuf := { s.esBuf with
    esWt := (pos + data.length) % s.esBuf.esBufSize
    esPkt := s.esBuf.esPkt.set s.esBuf.pktWt pkt
    pktWt := (s.esBuf.pktWt + 1) % s.esBuf.pktCnt }
  mem := s.mem.write (s.esBuf.dataPhy + pos) data

/-- Where `adec_es_write` may store `n` bytes. -/
def PlacedAt (b : AdecEsBuf) (n pos : Nat) : Prop :=
  pos = b.esWt ∧ Fits b.esRd b.esWt b.esBufSize n ∨ pos = 0 ∧ b.esRd ≤ b.esWt ∧ n < b.esRd

/-- A write is refused, or stores its packet where there is room. -/
theorem adecEsWrite_cases {s : State} (hes : EsOk s.esBuf) (hpkt : PktOk s.esBuf) (src : Nat)
    (data : List UInt8) (pts ptsValid : Nat) :
    (∃ b, (b = s.esBuf ∨ b = s.esBuf.setFlag 0) ∧
      adecEsWrite s src data pts ptsValid = ({ s with esBuf := b }, -1)) ∨
    ∃ pos pkt, 0 < data.length ∧ s.esBuf.count + 1 < s.esBuf.pktCnt ∧
      PlacedAt s.esBuf data.length pos ∧ pkt.span = { start := pos, len := data.length } ∧
      adecEsWrite s src data pts ptsValid = (stored s pos data pkt, (data.length : Int)) := by
  unfold adecEsWrite
  by_cases hparam : src = 0 ∨ data.length = 0
  · rw [if_pos hparam]
    exact .inl ⟨s.esBuf, .inl rfl, rfl⟩
  rw [if_neg hparam]
  by_cases hphy : s.esBuf.dataPhy = 0
  · rw [if_pos hphy]
    exact .inl ⟨s.esBuf, .inl rfl, rfl⟩
  rw [if_neg hphy]
  by_cases hcheck : checkEsPkt s.esBuf = true
  · have hcount := hpkt.checkEsPkt_iff.mp hcheck
    have hn : 0 < data.length := by omega
    have hlt := hpkt.pktCnt_lt
    have hwt := hpkt.pktWt_lt
    have hpktWt : u32 (s.esBuf.pktWt + 1) = s.esBuf.pktWt + 1 := u32_of_lt (by omega)
    rw [if_pos hcheck]
    rcases hes.checkEsBuf_cases hn with hb | ⟨hb, hfits⟩ | ⟨hb, hle, hend, hhead⟩
    · rw [hb]
      exact .inl ⟨_, .inr rfl, rfl⟩
    · -- at `esWt`
      right
      have hcopy := copyEs_eq (b := s.esBuf.setFlag 0) hes.esBufSize_lt hes.esRd_lt s.mem hfits
      let pkt := describe ((s.esBuf.setFlag 0).esPkt s.esBuf.pktWt) s.esBuf.esWt data.length pts
        ptsValid
      refine ⟨s.esBuf.esWt, pkt, hn, hcount, .inl ⟨rfl, hfits⟩, rfl, ?_⟩
      rw [hb]
      simp only [hcopy]
      simp only [stored, pkt, AdecEsBuf.setFlag, Memory.set_set, hpktWt]
    · -- at the head
      right
      have hfits : Fits s.esBuf.esRd 0 s.esBuf.esBufSize data.length := .inr (by omega)
      have hcopy := copyEs_eq (b := { s.esBuf.setFlag 0 with esWt := 0 }.setFlag 1)
        hes.esBufSize_lt hes.esRd_lt s.mem hfits
      let pkt := describe (({ s.esBuf.setFlag 0 with esWt := 0 }.setFlag 1).esPkt s.esBuf.pktWt) 0
        data.length pts ptsValid
      refine ⟨0, pkt, hn, hcount, .inr ⟨rfl, hle, hhead⟩, rfl, ?_⟩
      rw [hb]
      simp only [hcopy]
      simp only [stored, pkt, AdecEsBuf.setFlag, Memory.set_set, hpktWt]
  · rw [if_neg hcheck]
    exact .inl ⟨s.esBuf, .inl rfl, rfl⟩

/-- What holds between any two steps. -/
structure Inv (b : AdecEsBuf) : Prop where
  esBufSize_lt : b.esBufSize < 4294967296
  pkt : PktOk b
  layout : Layout b.esRd b.esWt b.esBufSize (b.unread.map AdecEsPkt.span)

theorem Inv.es {b : AdecEsBuf} (h : Inv b) : EsOk b where
  esBufSize_lt := h.esBufSize_lt
  esRd_lt := h.layout.rd_lt
  esWt_lt := h.layout.wt_lt

/-- The flag of the descriptor at `pktWt` is not the one of an unread packet. -/
theorem Inv.setFlag {b : AdecEsBuf} (h : Inv b) (flag : Nat) :
    (b.setFlag flag).unread = b.unread ∧ Inv (b.setFlag flag) := by
  have hunread : (b.setFlag flag).unread = b.unread := h.pkt.readRing_update _
  refine ⟨hunread, ⟨h.esBufSize_lt, ⟨h.pkt.pktCnt_lt, h.pkt.pktRd_lt, h.pkt.pktWt_lt⟩, ?_⟩⟩
  rw [hunread]
  exact h.layout

/-- The unread packets after a write. -/
theorem PktOk.unread_stored {s : State} (h : PktOk s.esBuf)
    (hroom : s.esBuf.count + 1 < s.esBuf.pktCnt) (pos : Nat) (data : List UInt8)
    (pkt : AdecEsPkt) :
    (stored s pos data pkt).esBuf.unread = s.esBuf.unread ++ [pkt] ∧
    PktOk (stored s pos data pkt).esBuf ∧
    (stored s pos data pkt).esBuf.pktWt ≠ s.esBuf.pktRd := by
  have hpos : 0 < s.esBuf.pktCnt := by omega
  have hrd := h.pktRd_lt
  have hwt := h.pktWt_lt
  have hpktWt : (s.esBuf.pktWt + 1) % s.esBuf.pktCnt < s.esBuf.pktCnt := Nat.mod_lt _ hpos
  have hok : PktOk (stored s pos data pkt).esBuf :=
    ⟨h.pktCnt_lt, hrd, Nat.lt_of_lt_of_le hpktWt (Nat.le_max_left _ _)⟩
  -- the index of the writer wraps at most once
  have hwrap : (s.esBuf.pktWt + 1) % s.esBuf.pktCnt =
      if s.esBuf.pktWt + 1 < s.esBuf.pktCnt then s.esBuf.pktWt + 1
      else s.esBuf.pktWt + 1 - s.esBuf.pktCnt := wrap_eq (by omega)
  have hwt' : (stored s pos data pkt).esBuf.pktWt =
      if s.esBuf.pktWt + 1 < s.esBuf.pktCnt then s.esBuf.pktWt + 1
      else s.esBuf.pktWt + 1 - s.esBuf.pktCnt := hwrap
  have hrd' : (stored s pos data pkt).esBuf.pktRd = s.esBuf.pktRd := rfl
  have hcnt' : (stored s pos data pkt).esBuf.pktCnt = s.esBuf.pktCnt := rfl
  have hcount' : (stored s pos data pkt).esBuf.count = s.esBuf.count + 1 := by
    have hnew := hok.count_eq
    have hold := h.count_eq
    split at hold <;> split at hnew <;> split at hwt' <;> omega
  refine ⟨?_, hok, ?_⟩
  · unfold AdecEsBuf.unread
    rw [hcount', Memory.readRing_add]
    congr 1
    · exact h.readRing_update pkt
    · show [(s.esBuf.esPkt.set s.esBuf.pktWt pkt) (0 + (s.esBuf.pktRd + s.esBuf.count + 0) %
        s.esBuf.pktCnt)] = [pkt]
      rw [Nat.zero_add, Nat.add_zero, ← h.pktWt_eq hpos, Memory.set_self]
  · show (s.esBuf.pktWt + 1) % s.esBuf.pktCnt ≠ s.esBuf.pktRd
    have hold := h.count_eq
    split at hold <;> split at hwrap <;> omega

/-- The bytes of a packet. -/
def AdecEsPkt.bytes (p : AdecEsPkt) (s : State) : List UInt8 :=
  s.mem.read (s.esBuf.dataPhy + p.esRd) p.size

/-- What a write must do: be refused and change no unread packet, or append one
    packet that holds its bytes, leave those of the others alone and not make the
    ring look empty. -/
def WriteOk (s : State) (data : List UInt8) (r : State × Int) : Prop :=
  (r.2 = -1 → r.1.esBuf.unread = s.esBuf.unread) ∧
  (r.2 ≠ -1 → ∃ p : AdecEsPkt, r.1.esBuf.unread = s.esBuf.unread ++ [p] ∧
    p.size = data.length ∧ p.span.stop ≤ r.1.esBuf.esBufSize ∧ p.bytes r.1 = data ∧
    (∀ q ∈ s.esBuf.unread, q.bytes r.1 = q.bytes s) ∧
    r.1.esBuf.esWt ≠ r.1.esBuf.esRd ∧ r.1.esBuf.pktWt ≠ r.1.esBuf.pktRd)

/-- What a step must do; the consumer gets the oldest packet. -/
def StepOk (s : State) : Step → Prop
  | .write src data pts ptsValid => WriteOk s data (adecEsWrite s src data pts ptsValid)
  | .take => s.esBuf.unread = (takePkt s.esBuf).2.toList ++ (takePkt s.esBuf).1.unread

/-- What must hold in a state: the regions of the unread packets are inside the
    buffer and disjoint, and a ring with unread packets does not look empty. -/
structure RingOk (b : AdecEsBuf) : Prop where
  inside : ∀ p ∈ b.unread, 0 < p.size ∧ p.esRd + p.size ≤ b.esBufSize
  disjoint : b.unread.Pairwise fun p q => p.span.Disjoint q.span
  notEmpty : b.unread ≠ [] → b.esWt ≠ b.esRd

theorem Inv.ringOk {b : AdecEsBuf} (h : Inv b) : RingOk b where
  inside _ hp := h.layout.mem (List.mem_map_of_mem hp)
  disjoint := List.pairwise_map.mp h.layout.disjoint
  notEmpty hne := h.layout.wt_ne_rd (fun hnil => hne (List.map_eq_nil_iff.mp hnil))

/-- The layout after a write. -/
theorem Inv.layout_stored {s : State} (h : Inv s.esBuf) {pos : Nat} {data : List UInt8}
    (hn : 0 < data.length) (hplace : PlacedAt s.esBuf data.length pos) :
    Layout s.esBuf.esRd ((pos + data.length) % s.esBuf.esBufSize) s.esBuf.esBufSize
      (s.esBuf.unread.map AdecEsPkt.span ++ [{ start := pos, len := data.length }]) := by
  rcases hplace with ⟨rfl, hfits⟩ | ⟨rfl, hle, hhead⟩
  · exact h.layout.write hn hfits
  · rw [Nat.zero_add]
    exact h.layout.writeHead hn hle hhead

/-- One write. -/
theorem write_ok {s : State} (h : Inv s.esBuf) (src : Nat) (data : List UInt8)
    (pts ptsValid : Nat) : WriteOk s data (adecEsWrite s src data pts ptsValid) ∧
      Inv (adecEsWrite s src data pts ptsValid).1.esBuf := by
  rcases adecEsWrite_cases h.es h.pkt src data pts ptsValid with
    ⟨b, hb, hw⟩ | ⟨pos, pkt, hn, hroom, hplace, hspan, hw⟩
  · -- refused
    rw [hw]
    rcases hb with rfl | rfl
    · exact ⟨⟨fun _ => rfl, fun hne => absurd rfl hne⟩, h⟩
    · exact ⟨⟨fun _ => (h.setFlag 0).1, fun hne => absurd rfl hne⟩, (h.setFlag 0).2⟩
  · -- accepted: the packet lies behind the others, and they do not overlap
    obtain ⟨hunread, hpkt, hpktWt⟩ := h.pkt.unread_stored hroom pos data pkt
    have hlayout := h.layout_stored hn hplace
    have hinv : Inv (stored s pos data pkt).esBuf := by
      refine ⟨h.esBufSize_lt, hpkt, ?_⟩
      rw [hunread, List.map_append, List.map_cons, List.map_nil, hspan]
      exact hlayout
    have hstart : pkt.esRd = pos := congrArg Span.start hspan
    have hsize : pkt.size = data.length := congrArg Span.len hspan
    rw [hw]
    refine ⟨⟨fun hc => absurd hc (by omega), fun _ => ⟨pkt, hunread, hsize, ?_, ?_, ?_, ?_, hpktWt⟩⟩,
      hinv⟩
    · exact (hinv.layout.mem (List.mem_map_of_mem (hunread ▸ List.mem_append_right _
        (List.mem_singleton_self pkt)))).2
    · show (s.mem.write _ data).read (s.esBuf.dataPhy + pkt.esRd) pkt.size = data
      rw [hstart, hsize, Memory.read_write_self]
    · intro q hq
      show (s.mem.write (s.esBuf.dataPhy + pos) data).read (s.esBuf.dataPhy + q.esRd) q.size =
        s.mem.read (s.esBuf.dataPhy + q.esRd) q.size
      apply Memory.read_write_disjoint
      have hdisj := (List.pairwise_append.mp hlayout.disjoint).2.2 _ (List.mem_map_of_mem hq) _
        (List.mem_singleton_self _)
      simp only [Span.Disjoint, Span.stop, AdecEsPkt.span] at hdisj
      omega
    · apply hinv.layout.wt_ne_rd
      rw [hunread]
      simp

/-- One step of the consumer. -/
theorem take_ok {b : AdecEsBuf} (h : Inv b) :
    b.unread = (takePkt b).2.toList ++ (takePkt b).1.unread ∧ Inv (takePkt b).1 := by
  have hcount := h.pkt.count_eq
  have hrd := h.pkt.pktRd_lt
  have hwt := h.pkt.pktWt_lt
  unfold takePkt
  by_cases hempty : b.pktRd = b.pktWt
  · rw [if_pos hempty]
    exact ⟨rfl, h⟩
  · rw [if_neg hempty]
    have hpos : 0 < b.pktCnt := by omega
    -- the packet at `pktRd` is the first of the unread ones
    have hsucc : b.count = b.count - 1 + 1 := by split at hcount <;> omega
    have hhead : b.unread = b.esPkt b.pktRd ::
        b.esPkt.readRing 0 b.pktCnt ((b.pktRd + 1) % b.pktCnt) (b.count - 1) := by
      unfold AdecEsBuf.unread
      rw [Memory.readRing_mod]
      conv_lhs => rw [hsucc, Nat.add_comm, Memory.readRing_add]
      show [b.esPkt (0 + (b.pktRd + 0) % b.pktCnt)] ++ _ = _
      rw [Nat.add_zero, Nat.zero_add, Nat.mod_eq_of_lt (by omega)]
      rfl
    have hpktRd : (b.pktRd + 1) % b.pktCnt < b.pktCnt := Nat.mod_lt _ hpos
    have hwrap : (b.pktRd + 1) % b.pktCnt =
        if b.pktRd + 1 < b.pktCnt then b.pktRd + 1 else b.pktRd + 1 - b.pktCnt :=
      wrap_eq (by omega)
    let b' : AdecEsBuf := { b with
      esRd := ((b.esPkt b.pktRd).esRd + (b.esPkt b.pktRd).size) % b.esBufSize
      pktRd := (b.pktRd + 1) % b.pktCnt }
    have hpkt : PktOk b' :=
      ⟨h.pkt.pktCnt_lt, Nat.lt_of_lt_of_le hpktRd (Nat.le_max_left _ _), hwt⟩
    have hcount' : b'.count = b.count - 1 := by
      have hnew := hpkt.count_eq
      have hrd' : b'.pktRd = (b.pktRd + 1) % b.pktCnt := rfl
      have hwt' : b'.pktWt = b.pktWt := rfl
      have hcnt' : b'.pktCnt = b.pktCnt := rfl
      split at hcount <;> split at hnew <;> split at hwrap <;> omega
    have hunread : b'.unread =
        b.esPkt.readRing 0 b.pktCnt ((b.pktRd + 1) % b.pktCnt) (b.count - 1) := by
      unfold AdecEsBuf.unread
      rw [hcount']
    refine ⟨?_, h.esBufSize_lt, hpkt, ?_⟩
    · show b.unread = b.esPkt b.pktRd :: b'.unread
      rw [hunread]
      exact hhead
    · have hlayout := h.layout
      rw [hhead, List.map_cons, ← hunread] at hlayout
      exact hlayout.take

/-- One step keeps the invariant. -/
theorem step_ok {s : State} (h : Inv s.esBuf) (i : Step) :
    StepOk s i ∧ Inv (machine.step s i).1.esBuf := by
  cases i with
  | write src data pts ptsValid => exact write_ok h src data pts ptsValid
  | take => exact take_ok h

/-! ## Runs -/

theorem inv_clear {b : AdecEsBuf} (hsize : b.esBufSize < 4294967296)
    (hcnt : b.pktCnt < 4294967296) : Inv (adecEsBufClear b) where
  esBufSize_lt := hsize
  pkt := ⟨hcnt, Nat.lt_of_lt_of_le Nat.one_pos (Nat.le_max_right _ _),
    Nat.lt_of_lt_of_le Nat.one_pos (Nat.le_max_right _ _)⟩
  layout := by
    have hcount : (adecEsBufClear b).count = 0 := by
      show (0 + b.pktCnt - 0) % b.pktCnt = 0
      rw [Nat.zero_add, Nat.sub_zero, Nat.mod_self]
    have hunread : (adecEsBufClear b).unread = [] := by
      unfold AdecEsBuf.unread
      rw [hcount, Memory.readRing_zero]
    rw [hunread]
    exact .straight (Nat.lt_of_lt_of_le Nat.one_pos (Nat.le_max_right _ _)) (.nil 0)

/-- From a cleared buffer of any size with any number of descriptors, every write
    and every consumer step of every run does what it must, and the regions of the
    unread packets are sound in every state reached. -/
theorem es_ring_safe (s : State) (hsize : s.esBuf.esBufSize < 4294967296)
    (hcnt : s.esBuf.pktCnt < 4294967296) (steps : List Step) :
    machine.Always StepOk { s with esBuf := adecEsBufClear s.esBuf } steps ∧
    RingOk (machine.final { s with esBuf := adecEsBufClear s.esBuf } steps).esBuf := by
  have hclear : Inv (adecEsBufClear s.esBuf) := inv_clear hsize hcnt
  obtain ⟨hsteps, hfinal⟩ := Machine.always_of_invariant (M := machine)
    (I := fun s => Inv s.esBuf) (P := fun _ _ => True) (Q := StepOk)
    (fun _ i h _ => step_ok h i) (s := { s with esBuf := adecEsBufClear s.esBuf }) hclear
    (machine.always_true _ steps)
  exact ⟨hsteps, hfinal.ringOk⟩

/-- A buffer of 10 bytes with 4 descriptors. -/
def smallBuf : State where
  esBuf := { pktRd := 0, pktWt := 0, pktCnt := 4, esPkt := fun _ => {}, esRd := 0, esWt := 0
             esBufSize := 10, dataPhy := 0x1000 }
  mem := fun _ => 0

/-- The third packet does not fit before the end and goes to the head. -/
def skippingRun : List Step :=
  [.write 0x8000 [1, 2, 3, 4] 0 1, .write 0x8000 [5, 6, 7, 8] 1 1, .take,
    .write 0x8000 [9, 10, 11] 2 1, .take]

theorem es_ring_safe_skippingRun :
    machine.Always StepOk { smallBuf with esBuf := adecEsBufClear smallBuf.esBuf } skippingRun ∧
    RingOk (machine.final { smallBuf with esBuf := adecEsBufClear smallBuf.esBuf }
      skippingRun).esBuf :=
  es_ring_safe smallBuf (by decide) (by decide) skippingRun

end Tntsat.AdecBuf
