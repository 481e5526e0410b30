import Tntsat.Native.FlashReadonly
import Tntsat.Spec.NandLimit

/-!
# Read-only partitions are protected by the order of the table

A request on a read-only partition is to be refused, before anything is done, and no
other request.  The loops test every partition they come to, so that what decides is
the first read-only partition of the table and what lies in front of it: a request
behind it is refused wherever it lies, and one that starts in front of it is refused
too late if it reaches it, after the writable part has been erased or written.

## Key results

- `spiLoop_iff`: the exact condition for SPI
- `pass_refused_iff`: when a pass over NAND comes to a read-only partition
- `readonly_iff`: the exact condition for each of the four functions
-/

namespace Tntsat.FlashReadonly

open NandRaw

variable {σ : Type} {c : NandRawCtrl} {readonly : MtdPartition → Bool}

/-- A range of bytes intersects a read-only partition. -/
def Touches (parts : List MtdPartition) (readonly : MtdPartition → Bool) (start len : Nat) : Prop :=
  ∃ ptn ∈ parts, readonly ptn = true ∧ max ptn.start start < min (ptn.end + 1) (start + len)

instance (parts : List MtdPartition) (start len : Nat) : Decidable (Touches parts readonly start len) :=
  inferInstanceAs (Decidable (∃ ptn ∈ parts, _))

/-- The request is refused for a read-only partition iff it touches one, and then nothing has
    been done. -/
def RefusesExactly (r : Option (Ended σ)) (touches : Prop) (untouched : σ → Prop) : Prop :=
  ((∃ s, r = some (.refused s)) ↔ touches) ∧ ∀ s, r = some (.refused s) → untouched s

/-- A request that is not refused. -/
theorem refusesExactly_ended {r : Option (Ended σ)} {touches : Prop} {untouched : σ → Prop}
    (h : ∀ s, r ≠ some (.refused s)) : RefusesExactly r touches untouched ↔ ¬ touches := by
  constructor
  · intro hr ht
    obtain ⟨s, hs⟩ := hr.1.mpr ht
    exact h s hs
  · intro ht
    exact ⟨iff_of_false (fun ⟨s, hs⟩ => h s hs) ht, fun s hs => absurd hs (h s)⟩

/-- A request that is refused before anything is done. -/
theorem refusesExactly_refused {touches : Prop} {untouched : σ → Prop} {s : σ}
    (h : untouched s) : RefusesExactly (some (.refused s)) touches untouched ↔ touches := by
  constructor
  · intro hr
    exact hr.1.mp ⟨s, rfl⟩
  · intro ht
    refine ⟨iff_of_true ⟨s, rfl⟩ ht, fun s' hs => ?_⟩
    cases hs
    exact h

/-- The first read-only partition, with what lies in front of it and behind it. -/
theorem firstReadonly_split {parts : List MtdPartition} {r : MtdPartition}
    (h : parts.find? readonly = some r) :
    ∃ pre post, parts = pre ++ r :: post ∧ readonly r = true ∧
      ∀ ptn ∈ pre, readonly ptn = false := by
  obtain ⟨hr, pre, post, hsplit, hpre⟩ := List.find?_eq_some_iff_append.mp h
  exact ⟨pre, post, hsplit, hr, fun ptn hmem => by simpa using hpre ptn hmem⟩

theorem not_touches {parts : List MtdPartition} (h : parts.find? readonly = none) (start len : Nat) :
    ¬ Touches parts readonly start len := by
  rintro ⟨ptn, hmem, hro, -⟩
  exact List.find?_eq_none.mp h ptn hmem hro

/-! ## SPI -/

/-- The partitions hold the bytes from one address up to another, without a gap. -/
def Spans : List MtdPartition → Nat → Nat → Prop
  | [], first, last => first = last
  | ptn :: rest, first, last =>
    ptn.start = first ∧ first < ptn.end ∧ Spans rest (ptn.end + 1) last

/-- What every partition of a table keeps to. -/
theorem Spans.bounds {parts : List MtdPartition} {first last : Nat} (h : Spans parts first last)
    {ptn : MtdPartition} (hmem : ptn ∈ parts) :
    first ≤ ptn.start ∧ ptn.start < ptn.end ∧ ptn.end < last := by
  have hle : ∀ {parts : List MtdPartition} {first}, Spans parts first last → first ≤ last := by
    intro parts
    induction parts with
    | nil => exact fun h => Nat.le_of_eq h
    | cons ptn rest ih =>
      rintro first ⟨rfl, hlt, hrest⟩
      have hend := ih hrest
      omega
  induction parts generalizing first with
  | nil => cases hmem
  | cons q rest ih =>
    obtain ⟨rfl, hlt, hrest⟩ := h
    rcases List.mem_cons.mp hmem with rfl | hmem
    · have hend := hle hrest
      omega
    · have hptn := ih hrest hmem
      omega

/-- A partition the loop serves the request in: its last byte is never served. -/
def Serves (ptn : MtdPartition) (offset : Nat) : Prop := ptn.start ≤ offset ∧ offset < ptn.end

instance (ptn : MtdPartition) (offset : Nat) : Decidable (Serves ptn offset) :=
  inferInstanceAs (Decidable (_ ∧ _))

/-- The driver's call leaves the request as it is. -/
structure SpiCall.Issues (call : SpiCall) : Prop where
  offset : ∀ s n, (call s n).1.offset = s.offset
  len : ∀ s n, (call s n).1.len = s.len
  issued : ∀ s n, (call s n).1.issued = s.issued ++ [(s.offset, n)]

theorem memErase_issues (fails : Nat → Bool) : (memErase fails).Issues :=
  ⟨fun _ _ => rfl, fun _ _ => rfl, fun _ _ => rfl⟩

theorem memWrite_issues (fails : Nat → Bool) : (memWrite fails).Issues :=
  ⟨fun _ _ => rfl, fun _ _ => rfl, fun _ _ => rfl⟩

variable {call : SpiCall}

/-- One partition of the loop. -/
theorem spiLoop_cons (ptn : MtdPartition) (rest : List MtdPartition) {s : SpiState}
    (hlen : s.len ≠ 0) : spiLoop readonly call (ptn :: rest) s =
      if readonly ptn then .refused s
      else if Serves ptn s.offset then
        if (call s (chunk ptn s)).2 then
          spiLoop readonly call rest ((call s (chunk ptn s)).1.advance (chunk ptn s))
        else .ended (call s (chunk ptn s)).1 mtFailure
      else spiLoop readonly call rest s := by
  rw [spiLoop, if_neg hlen]
  cases readonly ptn with
  | true => rfl
  | false =>
    simp only [Bool.false_eq_true, if_false]
    split
    · rename_i hserves
      rw [if_pos (show Serves ptn s.offset from hserves)]
      rcases hcall : call s (chunk ptn s) with ⟨s', _ | _⟩ <;> simp
    · rename_i hserves
      rw [if_neg (show ¬ Serves ptn s.offset from hserves)]

/-- A request that lies in no writable partition in front of the first read-only one is
    refused there. -/
theorem spiLoop_unserved (pre post : List MtdPartition) {r : MtdPartition} {s : SpiState}
    (hlen : s.len ≠ 0) (hr : readonly r = true)
    (hpre : ∀ ptn ∈ pre, readonly ptn = false ∧ ¬ Serves ptn s.offset) :
    spiLoop readonly call (pre ++ r :: post) s = .refused s := by
  induction pre with
  | nil =>
    rw [List.nil_append, spiLoop_cons _ _ hlen, if_pos hr]
  | cons ptn rest ih =>
    obtain ⟨hro, hserves⟩ := hpre ptn List.mem_cons_self
    rw [List.cons_append, spiLoop_cons _ _ hlen, hro, if_neg Bool.false_ne_true, if_neg hserves]
    exact ih fun q hq => hpre q (List.mem_cons_of_mem _ hq)

/-- Where no partition is read-only, nothing is refused. -/
theorem spiLoop_writable {parts : List MtdPartition} (h : ∀ ptn ∈ parts, ¬ readonly ptn = true)
    (s s' : SpiState) : spiLoop readonly call parts s ≠ .refused s' := by
  induction parts generalizing s with
  | nil => exact fun h => nomatch h
  | cons ptn rest ih =>
    have hrest : ∀ p ∈ rest, ¬ readonly p = true := fun p hp => h p (List.mem_cons_of_mem _ hp)
    by_cases hlen : s.len = 0
    · rw [spiLoop, if_pos hlen]
      exact fun h => nomatch h
    · rw [spiLoop_cons _ _ hlen, if_neg (h ptn List.mem_cons_self)]
      split
      · split
        · exact ih hrest _
        · exact fun h => nomatch h
      · exact ih hrest s

/-- What has been issued stays issued. -/
theorem spiLoop_issued (hcall : call.Issues) (parts : List MtdPartition) {s s' : SpiState}
    (h : spiLoop readonly call parts s = .refused s') (hs : s.issued ≠ []) : s'.issued ≠ [] := by
  induction parts generalizing s with
  | nil => cases h
  | cons ptn rest ih =>
    by_cases hlen : s.len = 0
    · rw [spiLoop, if_pos hlen] at h
      cases h
    · rw [spiLoop_cons _ _ hlen] at h
      split at h
      · cases h
        exact hs
      · split at h
        · split at h
          · apply ih h
            simp [SpiState.advance, hcall.issued]
          · cases h
        · exact ih h hs

/-- A request that starts in a writable partition is refused too late, if at all. -/
theorem spiLoop_late (hcall : call.Issues) {parts : List MtdPartition} {first last : Nat}
    (hspans : Spans parts first last) {s s' : SpiState} (hlen : s.len ≠ 0)
    (hserved : ∃ q ∈ parts, Serves q s.offset)
    (hro : ∀ ptn ∈ parts, readonly ptn = true → s.offset < ptn.start)
    (h : spiLoop readonly call parts s = .refused s') : s'.issued ≠ [] := by
  induction parts generalizing first with
  | nil =>
    obtain ⟨q, hq, -⟩ := hserved
    cases hq
  | cons ptn rest ih =>
    obtain ⟨q, hq, hserves⟩ := hserved
    rw [spiLoop_cons _ _ hlen] at h
    split at h
    · -- a read-only partition lies behind the start of the request
      rename_i hptn
      have hlt := hro ptn List.mem_cons_self hptn
      have hqs := (hspans.bounds hq).1
      have hstart := hspans.1
      have hqo := hserves.1
      omega
    · split at h
      · split at h
        · apply spiLoop_issued hcall rest h
          simp [SpiState.advance, hcall.issued]
        · cases h
      · rename_i hnot
        have hq' : q ∈ rest := by
          rcases List.mem_cons.mp hq with rfl | hq
          · exact absurd hserves hnot
          · exact hq
        exact ih hspans.2.2 ⟨q, hq', hserves⟩ (fun p hp => hro p (List.mem_cons_of_mem _ hp)) h

/-- A request that starts in a writable partition and ends in front of all read-only ones is
    not refused. -/
theorem spiLoop_served (hcall : call.Issues) {parts : List MtdPartition} {first last : Nat}
    (hspans : Spans parts first last) {s : SpiState}
    (hserved : s.len ≠ 0 → ∃ q ∈ parts, Serves q s.offset)
    (hro : ∀ ptn ∈ parts, readonly ptn = true → s.offset + s.len ≤ ptn.start) (s' : SpiState) :
    spiLoop readonly call parts s ≠ .refused s' := by
  induction parts generalizing first s with
  | nil => exact fun h => nomatch h
  | cons ptn rest ih =>
    obtain ⟨hstart, -, hrest⟩ := id hspans
    have hro' : ∀ p ∈ rest, readonly p = true → s.offset + s.len ≤ p.start := fun p hp =>
      hro p (List.mem_cons_of_mem _ hp)
    by_cases hlen : s.len = 0
    · rw [spiLoop, if_pos hlen]
      exact fun h => nomatch h
    · obtain ⟨q, hq, hserves⟩ := hserved hlen
      rw [spiLoop_cons _ _ hlen]
      split
      · rename_i hptn
        have hle := hro ptn List.mem_cons_self hptn
        have hqs := (hspans.bounds hq).1
        have hqo := hserves.1
        omega
      · split
        · rename_i hhere
          split
          · cases rest with
            | nil => exact fun h => nomatch h
            | cons q' rest =>
              apply ih hrest
              · -- the rest of the request starts with the next partition
                intro hleft
                refine ⟨q', List.mem_cons_self, ?_⟩
                obtain ⟨hq', hlt, -⟩ := hrest
                simp only [SpiState.advance, hcall.offset, hcall.len, chunk, Serves] at *
                split at hleft
                · rename_i hgt
                  rw [if_pos hgt]
                  omega
                · omega
              · intro p hp hptn
                have hle := hro' p hp hptn
                simp only [SpiState.advance, hcall.offset, hcall.len, chunk]
                split <;> omega
          · exact fun h => nomatch h
        · rename_i hnot
          have hq' : q ∈ rest := by
            rcases List.mem_cons.mp hq with rfl | hq
            · exact absurd hserves hnot
            · exact hq
          exact ih hrest (fun _ => ⟨q, hq', hserves⟩) hro'

/-- Which requests are refused exactly: one that the loop serves before it comes to the first
    read-only partition must end there; any other one is refused, and must touch one. -/
def SpiHolds (parts : List MtdPartition) (readonly : MtdPartition → Bool) (start len : Nat) : Prop :=
  ∀ r, parts.find? readonly = some r →
    ((start < r.start ∧ ∃ ptn ∈ parts, Serves ptn start) → start + len ≤ r.start) ∧
    (¬ (start < r.start ∧ ∃ ptn ∈ parts, Serves ptn start) → Touches parts readonly start len)

/-- Nothing has been erased or written. -/
def SpiState.Untouched (data : Memory UInt8) (s : SpiState) : Prop := s.data = data ∧ s.issued = []

/-- The partitions in front of the first read-only one lie in front of it. -/
theorem Spans.split {pre post : List MtdPartition} {r : MtdPartition} {first last : Nat}
    (h : Spans (pre ++ r :: post) first last) :
    Spans pre first r.start ∧ Spans (r :: post) r.start last := by
  induction pre generalizing first with
  | nil =>
    obtain ⟨rfl, hrest⟩ := h
    exact ⟨rfl, rfl, hrest⟩
  | cons q pre ih =>
    obtain ⟨hrest, hr⟩ := ih h.2.2
    exact ⟨⟨h.1, h.2.1, hrest⟩, hr⟩

theorem spiLoop_iff (hcall : call.Issues) {parts : List MtdPartition} {first last : Nat}
    (hspans : Spans parts first last) {s : SpiState} (hlen : s.len ≠ 0) (hs : s.issued = []) :
    RefusesExactly (some (spiLoop readonly call parts s))
      (Touches parts readonly s.offset s.len) (SpiState.Untouched s.data) ↔
        SpiHolds parts readonly s.offset s.len := by
  cases hfind : parts.find? readonly with
  | none =>
    -- no partition is read-only
    have hended : ∀ s', some (spiLoop readonly call parts s) ≠ some (.refused s') := fun s' h =>
      spiLoop_writable (List.find?_eq_none.mp hfind) s s' (Option.some.inj h)
    rw [refusesExactly_ended hended]
    refine iff_of_true (not_touches hfind _ _) fun r hr => ?_
    rw [hfind] at hr
    cases hr
  | some r =>
    obtain ⟨pre, post, rfl, hr, hpre⟩ := firstReadonly_split hfind
    obtain ⟨hfront, hbehind⟩ := hspans.split
    have hrlt := hbehind.2.1
    -- every read-only partition lies at the first one or behind it
    have hro : ∀ ptn ∈ pre ++ r :: post, readonly ptn = true → r.start ≤ ptn.start := by
      intro ptn hmem hptn
      rcases List.mem_append.mp hmem with hmem | hmem
      · rw [hpre ptn hmem] at hptn
        cases hptn
      · exact (hbehind.bounds hmem).1
    have hholds : SpiHolds (pre ++ r :: post) readonly s.offset s.len ↔
        ((s.offset < r.start ∧ ∃ ptn ∈ pre ++ r :: post, Serves ptn s.offset) →
          s.offset + s.len ≤ r.start) ∧
        (¬ (s.offset < r.start ∧ ∃ ptn ∈ pre ++ r :: post, Serves ptn s.offset) →
          Touches (pre ++ r :: post) readonly s.offset s.len) := by
      constructor
      · exact fun h => h r hfind
      · intro h r' hr'
        rw [hfind] at hr'
        cases hr'
        exact h
    rw [hholds]
    by_cases hserved : s.offset < r.start ∧ ∃ ptn ∈ pre ++ r :: post, Serves ptn s.offset
    · simp only [hserved, and_self, not_true_eq_false, forall_const, false_imp_iff, and_true]
      by_cases hend : s.offset + s.len ≤ r.start
      · -- all of it lies in front
        have hended : ∀ s', some (spiLoop readonly call (pre ++ r :: post) s) ≠
            some (.refused s') := by
          intro s' h
          apply spiLoop_served hcall hspans (fun _ => hserved.2) _ s' (Option.some.inj h)
          intro ptn hmem hptn
          exact Nat.le_trans hend (hro ptn hmem hptn)
        rw [refusesExactly_ended hended]
        refine iff_of_true ?_ hend
        rintro ⟨ptn, hmem, hptn, hlt⟩
        have hle := hro ptn hmem hptn
        omega
      · -- it reaches the first read-only partition
        refine iff_of_false (fun hexact => ?_) hend
        have htouch : Touches (pre ++ r :: post) readonly s.offset s.len := by
          refine ⟨r, by simp, hr, ?_⟩
          omega
        obtain ⟨s', hs'⟩ := hexact.1.mpr htouch
        have hlate := spiLoop_late hcall hspans hlen hserved.2 (fun ptn hmem hptn =>
          Nat.lt_of_lt_of_le hserved.1 (hro ptn hmem hptn)) (Option.some.inj hs')
        exact hlate (hexact.2 s' hs').2
    · -- the loop comes to the first read-only partition with nothing done
      have hloop : spiLoop readonly call (pre ++ r :: post) s = .refused s := by
        apply spiLoop_unserved pre post hlen hr
        intro ptn hmem
        refine ⟨hpre ptn hmem, fun hserves => hserved ⟨?_, ptn, by simp [hmem], hserves⟩⟩
        have hlt := (hfront.bounds hmem).2.2
        exact Nat.lt_trans hserves.2 hlt
      rw [hloop, refusesExactly_refused ⟨rfl, hs⟩]
      simp only [hserved, not_false_eq_true, false_imp_iff, true_and, forall_const]

/-- A length that is cut at the end of the flash touches the same partitions. -/
theorem touches_cut {parts : List MtdPartition} {start len last : Nat}
    (hend : ∀ ptn ∈ parts, ptn.end < last) :
    Touches parts readonly start (if start + len > last then last - start else len) ↔
      Touches parts readonly start len := by
  apply exists_congr
  intro ptn
  apply and_congr_right
  intro hmem
  have hlt := hend ptn hmem
  split
  · rw [show max ptn.start start < min (ptn.end + 1) (start + (last - start)) ↔
      max ptn.start start < min (ptn.end + 1) (start + len) by omega]
  · exact Iff.rfl

/-- Which erase requests `spi_raw_erase` refuses exactly. -/
def SpiEraseExact (c : NandRawCtrl) (readonly : MtdPartition → Bool) (start len : Nat) : Prop :=
  if start ≥ c.size ∨ len = 0 ∨ start % c.blocksize ≠ 0 ∨ len % c.blocksize ≠ 0 then
    ¬ Touches c.partition readonly start len
  else SpiHolds c.partition readonly start len

/-- Which write requests `spi_raw_write` refuses exactly. -/
def SpiWriteExact (c : NandRawCtrl) (readonly : MtdPartition → Bool) (start len : Nat) : Prop :=
  if start ≥ c.size ∨ len = 0 then ¬ Touches c.partition readonly start len
  else SpiHolds c.partition readonly start len

theorem spiRawErase_iff {first : Nat} (hspans : Spans c.partition first c.size)
    (data : Memory UInt8) (fails : Nat → Bool) (start len : Nat) :
    RefusesExactly (some (spiRawErase c readonly data fails start len))
      (Touches c.partition readonly start len) (SpiState.Untouched data) ↔
        SpiEraseExact c readonly start len := by
  rw [spiRawErase, SpiEraseExact]
  split
  · exact refusesExactly_ended fun s h => nomatch h
  · rename_i hvalid
    have hends : ∀ ptn ∈ c.partition, ptn.end < c.size := fun ptn hmem => (hspans.bounds hmem).2.2
    have hloop := @spiLoop_iff readonly _ (memErase_issues fails) _ _ _ hspans
      { data := data, offset := start,
        len := if start + len > c.size then c.size - start else len }
      (by dsimp only; split <;> omega) rfl
    dsimp only at hloop ⊢
    rw [touches_cut hends] at hloop
    rw [hloop]
    -- the length that is left reaches as many partitions
    apply forall_congr'
    intro r
    apply imp_congr_right
    intro hr
    have hlt := hends r (List.mem_of_find?_eq_some hr)
    have hrs := (hspans.bounds (List.mem_of_find?_eq_some hr)).2.1
    rw [touches_cut hends]
    have hle : start + (if start + len > c.size then c.size - start else len) ≤ r.start ↔
        start + len ≤ r.start := by
      split <;> omega
    rw [hle]

theorem spiRawWrite_iff {first : Nat} (hspans : Spans c.partition first c.size)
    (data : Memory UInt8) (fails : Nat → Bool) (start : Nat) (buffer : List UInt8) :
    RefusesExactly (some (spiRawWrite c readonly data fails start buffer))
      (Touches c.partition readonly start buffer.length) (SpiState.Untouched data) ↔
        SpiWriteExact c readonly start buffer.length := by
  rw [spiRawWrite, SpiWriteExact]
  split
  · exact refusesExactly_ended fun s h => nomatch h
  · rename_i hvalid
    rw [not_or] at hvalid
    exact spiLoop_iff (memWrite_issues fails) hspans
      (s := { data := data, buffer := buffer, offset := start, len := buffer.length }) hvalid.2 rfl

/-! ## NAND -/

section Nand

variable {P : Pass σ} {K : Nat → Prop} {need : Nat → Nat → Nat}

/-- One partition of the loop. -/
theorem pass_cons (openaddr limit_len : Nat) (ptn : MtdPartition) (rest : List MtdPartition)
    (s : σ) (offset : Nat) {len : Nat} (hlen : len ≠ 0) (hptn : readonly ptn = false) :
    pass c readonly P openaddr limit_len (ptn :: rest) s offset len =
      match walkPartition c P openaddr limit_len ptn (ptn.size / c.blocksize + 1) s offset len with
      | some (.at s offset len) => pass c readonly P openaddr limit_len rest s offset len
      | w => w.map .walked := by
  have hwritable : ¬ readonly ptn = true := by
    rw [hptn]
    exact Bool.false_ne_true
  exact (if_neg hlen).trans (if_neg hwritable)

/-- In front of the first read-only partition, a pass is a walk. -/
theorem pass_append (openaddr limit_len : Nat) {pre : List MtdPartition}
    (parts : List MtdPartition) (hpre : ∀ ptn ∈ pre, readonly ptn = false) (s : σ) (offset len : Nat) :
    pass c readonly P openaddr limit_len (pre ++ parts) s offset len =
      match NandRaw.walk c P openaddr limit_len pre s offset len with
      | some (.at s offset len) => pass c readonly P openaddr limit_len parts s offset len
      | w => w.map .walked := by
  induction pre generalizing s offset len with
  | nil => rfl
  | cons ptn rest ih =>
    by_cases hlen : len = 0
    · subst hlen
      rw [walk_zero]
      cases parts <;> simp [pass]
    · rw [List.cons_append, pass_cons _ _ _ _ _ _ hlen (hpre ptn List.mem_cons_self),
        NandRaw.walk_cons _ _ _ _ _ _ hlen]
      rcases walkPartition c P openaddr limit_len ptn (ptn.size / c.blocksize + 1) s offset len with
        _ | ⟨s', offset', len'⟩ | s' | ⟨s', ret⟩
      · rfl
      · exact ih (fun q hq => hpre q (List.mem_cons_of_mem _ hq)) s' offset' len'
      · rfl
      · rfl

/-- Where no partition is read-only, a pass is a walk over the whole table. -/
theorem pass_writable (openaddr limit_len : Nat) {parts : List MtdPartition}
    (h : ∀ ptn ∈ parts, readonly ptn = false) (s : σ) (offset len : Nat) :
    pass c readonly P openaddr limit_len parts s offset len =
      (NandRaw.walk c P openaddr limit_len parts s offset len).map .walked := by
  have happ := pass_append (P := P) (c := c) openaddr limit_len [] h s offset len
  rw [List.append_nil] at happ
  rw [happ]
  rcases NandRaw.walk c P openaddr limit_len parts s offset len with
    _ | ⟨s', offset', len'⟩ | s' | ⟨s', ret⟩ <;> rfl

/-- On a table without read-only partitions `nand_raw_erase` is the erase of all partitions. -/
theorem nandRawErase_writable (h : ∀ ptn ∈ c.partition, readonly ptn = false) (nand : Nand)
    (fails : Nat → Bool) (start len openaddr limit_len : Nat) :
    nandRawErase c readonly nand fails start len openaddr limit_len =
      (NandRaw.nandRawErase c nand fails start len openaddr limit_len).map fun r =>
        .ended r.1 r.2 := by
  rw [nandRawErase, NandRaw.nandRawErase]
  split
  · rfl
  · dsimp only
    rw [pass_writable _ _ h, Option.map_map, Option.map_map]
    congr 1
    funext w
    cases w <;> rfl

/-- And `nand_raw_write` the write to all of them. -/
theorem nandRawWrite_writable (h : ∀ ptn ∈ c.partition, readonly ptn = false) (nand : Nand)
    (start : Nat) (buffer : List UInt8) (openaddr limit_len : Nat) (write_oob : Bool) :
    nandRawWrite c readonly nand start buffer openaddr limit_len write_oob =
      (NandRaw.nandRawWrite c nand start buffer openaddr limit_len write_oob).map fun r =>
        .ended r.1 r.2 := by
  rw [nandRawWrite, NandRaw.nandRawWrite]
  split
  · rfl
  · rw [pass_writable _ _ h, Option.map_map, Option.map_map]
    congr 1
    funext w
    cases w <;> rfl

/-- Where the table is cut at the first read-only partition. -/
theorem contiguous_split {pre post : List MtdPartition} {r : MtdPartition} {first last : Nat}
    (h : Contiguous c (pre ++ r :: post) first last) :
    ∃ m, r.start = m * c.blocksize ∧ Contiguous c pre first m ∧ Contiguous c (r :: post) m last := by
  induction pre generalizing first with
  | nil => exact ⟨first, h.1.start_eq, rfl, h⟩
  | cons q pre ih =>
    obtain ⟨m, hstart, hpre, hpost⟩ := ih h.2
    exact ⟨m, hstart, ⟨h.1, hpre⟩, hpost⟩

variable {f : FlashInfo} {first last o e : Nat}

/-- A pass comes to the first read-only partition, which starts with block `m`, iff the good
    blocks in front of it and of the limit do not suffice and the limit does not stop it. -/
theorem pass_refused_iff (hP : P.Lawful c K need) (h : Opened c f first last o e)
    {pre post : List MtdPartition} {r : MtdPartition} (htable : c.partition = pre ++ r :: post)
    (hr : readonly r = true) (hpre : ∀ ptn ∈ pre, readonly ptn = false) {m : Nat}
    (hcov : Contiguous c pre first m) {b : Nat} (hob : o ≤ b) {s : σ} {k len : Nat} (hk : K k)
    (hlen : len ≠ 0) (hfit : SkipsFit c (P.bad s) b e (need k len)) (s' : σ) :
    pass c readonly P f.open_addr f.limit_len c.partition s (b * c.blocksize + k) len =
        some (.refused s') ↔
      (∃ k' len', tour c.blocksize P.block (goods (P.bad s) b (min m e)) s k len =
        .short s' k' len') ∧ ¬ TableStops c pre P.limitFirst (P.bad s) e b m := by
  have hsub : ∀ ptn ∈ pre, ptn ∈ c.partition := fun ptn hmem => by simp [htable, hmem]
  have hfirst := Nat.le_trans h.first_le hob
  have hwalk := walk_spec hP h.le hcov hsub hfirst hob hk hlen hfit
  have hlim := walk_limited_iff hP h.le hcov hsub hfirst hob hk hlen hfit
  have hpass := pass_append (c := c) (P := P) f.open_addr f.limit_len (r :: post) hpre s
    (b * c.blocksize + k) len
  rw [← htable] at hpass
  rw [hpass, h.open_eq, h.limit_eq]
  revert hwalk hlim
  cases htour : tour c.blocksize P.block (goods (P.bad s) b (min m e)) s k len with
  | done s₁ =>
    rintro ⟨offset', hw⟩ -
    rw [hw]
    simp [pass]
  | failed s₁ ret =>
    intro hw _
    have hw : _ = some (Walk.failed s₁ ret) := hw
    rw [hw]
    simp
  | short s₁ k₁ len₁ =>
    obtain ⟨⟨-, hlen₁⟩, -⟩ := tour_short hP hk htour
    rintro (⟨offset', hw⟩ | hw) hlim
    · -- the walk comes to the read-only partition
      have hnot := hlim trivial
      rw [hw] at hnot
      have hgoes := fun ht => not_limited_at (hnot.mpr ht)
      rw [hw]
      simp only [pass, hlen₁, if_false, hr, if_true, Option.some.injEq, Passed.refused.injEq]
      constructor
      · rintro rfl
        exact ⟨⟨k₁, len₁, rfl⟩, hgoes⟩
      · rintro ⟨⟨k', len', heq⟩, -⟩
        cases heq
        rfl
    · -- the limit stops it
      have hstops := (hlim trivial).mp ⟨s₁, hw⟩
      rw [hw]
      simp [hstops]

/-- Which requests a pass refuses exactly.  `gs` are the good blocks from the start of the
    request up to the first read-only partition, or up to the limit, and `few` says that
    they do not suffice.  A request that touches a read-only partition must meet no good
    block on the way; any other one must find enough of them, or meet the limit. -/
def NandHolds (c : NandRawCtrl) (readonly : MtdPartition → Bool) (limitFirst : Bool)
    (bad : Nat → Bool) (e start : Nat) (touches : Prop) (few : List Nat → Prop) : Prop :=
  ∀ r, c.partition.find? readonly = some r →
    let b := start / c.blocksize
    let m := r.start / c.blocksize
    let gs := goods bad b (min m e)
    let stops := TableStops c (c.partition.takeWhile fun ptn => !readonly ptn) limitFirst bad e b m
    (touches → gs = [] ∧ ¬ stops) ∧ (¬ touches → ¬ few gs ∨ stops)

/-- The bad blocks of a flash are in no partition a run of 4 GiB. -/
def NoLongRun (c : NandRawCtrl) (bad : Nat → Bool) : Prop := ∀ x, ¬ LongRun c bad x

/-- A call that is refused where its pass is, and has done nothing there iff it has met no good
    block. -/
theorem nandHolds_iff (hP : P.Lawful c K need) (h : Opened c f first last o e) {b : Nat}
    (hob : o ≤ b) {s : σ} {k len : Nat} (hk : K k) (hkb : k < c.blocksize) (hlen : len ≠ 0)
    (hrun : NoLongRun c (P.bad s)) {res : Option (Ended σ)}
    (hres : ∀ s', res = some (.refused s') ↔
      pass c readonly P f.open_addr f.limit_len c.partition s (b * c.blocksize + k) len =
        some (.refused s'))
    {untouched : σ → Prop} {few : List Nat → Prop} (hnil : few [])
    (htour : ∀ gs, (∀ g ∈ gs, P.bad s g = false) →
      ((tour c.blocksize P.block gs s k len).IsShort ↔ few gs) ∧
      ∀ s' k' len', tour c.blocksize P.block gs s k len = .short s' k' len' →
        (untouched s' ↔ gs = []))
    {touches : Prop} (hnone : c.partition.find? readonly = none → ¬ touches) :
    RefusesExactly res touches untouched ↔
      NandHolds c readonly P.limitFirst (P.bad s) e (b * c.blocksize + k) touches few := by
  cases hfind : c.partition.find? readonly with
  | none =>
    -- no partition is read-only
    have hended : ∀ s', res ≠ some (.refused s') := by
      intro s' hs'
      have hpass := (hres s').mp hs'
      have hall : ∀ ptn ∈ c.partition, readonly ptn = false := fun ptn hmem => by
        simpa using List.find?_eq_none.mp hfind ptn hmem
      rw [pass_writable _ _ hall] at hpass
      simp at hpass
    rw [refusesExactly_ended hended]
    refine iff_of_true (hnone hfind) fun r hr => ?_
    rw [hfind] at hr
    cases hr
  | some r =>
    obtain ⟨pre, post, htable, hr, hpre⟩ := firstReadonly_split hfind
    obtain ⟨m, hstart, hcov, -⟩ := contiguous_split (htable ▸ h.contiguous)
    have hb : (b * c.blocksize + k) / c.blocksize = b := by
      rw [Nat.add_comm, Nat.add_mul_div_right _ _ (blocksize_pos c), Nat.div_eq_of_lt hkb,
        Nat.zero_add]
    have hm : r.start / c.blocksize = m := by
      rw [hstart, Nat.mul_div_cancel _ (blocksize_pos c)]
    have htake : (c.partition.takeWhile fun ptn => !readonly ptn) = pre := by
      rw [htable, List.takeWhile_append_of_pos (fun ptn hmem => by simp [hpre ptn hmem]),
        List.takeWhile_cons, hr]
      simp
    have hgood : ∀ g ∈ goods (P.bad s) b (min m e), P.bad s g = false := fun g hg =>
      (mem_goods.mp hg).2
    obtain ⟨hshort, hdone⟩ := htour _ hgood
    have hpass := pass_refused_iff hP h htable hr hpre hcov hob hk hlen (fun x _ _ _ => hrun x)
    have hholds : NandHolds c readonly P.limitFirst (P.bad s) e (b * c.blocksize + k) touches few ↔
        (touches → goods (P.bad s) b (min m e) = [] ∧
          ¬ TableStops c pre P.limitFirst (P.bad s) e b m) ∧
        (¬ touches → ¬ few (goods (P.bad s) b (min m e)) ∨
          TableStops c pre P.limitFirst (P.bad s) e b m) := by
      constructor
      · intro hall
        have hone := hall r hfind
        rwa [hb, hm, htake] at hone
      · intro hone r' hr'
        rw [hfind] at hr'
        cases hr'
        rw [hb, hm, htake]
        exact hone
    rw [hholds]
    have hrefused : (∃ s', res = some (.refused s')) ↔
        few (goods (P.bad s) b (min m e)) ∧ ¬ TableStops c pre P.limitFirst (P.bad s) e b m := by
      rw [← hshort]
      constructor
      · rintro ⟨s', hs'⟩
        obtain ⟨⟨k', len', ht⟩, hgoes⟩ := (hpass s').mp ((hres s').mp hs')
        rw [ht]
        exact ⟨trivial, hgoes⟩
      · rintro ⟨hsh, hgoes⟩
        cases ht : tour c.blocksize P.block (goods (P.bad s) b (min m e)) s k len with
        | short s₁ k' len' =>
          exact ⟨s₁, (hres s₁).mpr ((hpass s₁).mpr ⟨⟨k', len', ht⟩, hgoes⟩)⟩
        | done s₁ => exact absurd hsh (by rw [ht]; exact id)
        | failed s₁ ret => exact absurd hsh (by rw [ht]; exact id)
    by_cases ht : touches
    · simp only [ht, not_true_eq_false, false_imp_iff, and_true, forall_const]
      constructor
      · intro hexact
        obtain ⟨s', hs'⟩ := hexact.1.mpr trivial
        obtain ⟨⟨k', len', hto⟩, hgoes⟩ := (hpass s').mp ((hres s').mp hs')
        exact ⟨(hdone s' k' len' hto).mp (hexact.2 _ hs'), hgoes⟩
      · rintro ⟨hgs, hgoes⟩
        refine ⟨iff_of_true (hrefused.mpr ⟨hgs ▸ hnil, hgoes⟩) trivial, fun s' hs' => ?_⟩
        obtain ⟨⟨k', len', hto⟩, -⟩ := (hpass s').mp ((hres s').mp hs')
        exact (hdone s' k' len' hto).mpr hgs
    · simp only [ht, false_imp_iff, true_and, not_false_eq_true, forall_const]
      constructor
      · intro hexact
        have hnot := mt hexact.1.mp id
        rw [hrefused] at hnot
        exact (not_and_or.mp hnot).imp_right not_not.mp
      · intro hor
        have hnot : ¬ ∃ s', res = some (.refused s') := by
          rw [hrefused]
          exact fun h => hor.elim (fun hfew => hfew h.1) h.2
        exact ⟨iff_of_false hnot id, fun s' hs' => absurd ⟨s', hs'⟩ hnot⟩

/-- Where an erase is not through, and whether it has done anything by then. -/
theorem eraseTour_short (fails : Nat → Bool) (gs : List Nat) (n : Nat) {s : EraseState}
    (hgood : ∀ g ∈ gs, s.nand.bad g = false) (hs : s.erased = []) :
    ((tour c.blocksize (erasePass c fails).block gs s 0 (n * c.blocksize)).IsShort ↔
      gs.length < n) ∧
    ∀ s' k' len', tour c.blocksize (erasePass c fails).block gs s 0 (n * c.blocksize) =
      .short s' k' len' → (s'.nand = s.nand ∧ s'.erased = [] ↔ gs = []) := by
  have hpos := blocksize_pos c
  have hshort : ∀ (gs : List Nat) (n : Nat) (s : EraseState),
      (tour c.blocksize (erasePass c fails).block gs s 0 (n * c.blocksize)).IsShort ↔
        gs.length < n := by
    intro gs
    induction gs with
    | nil =>
      intro n s
      rcases Nat.eq_zero_or_pos n with rfl | hn
      · rw [Nat.zero_mul, tour_zero]
        exact iff_of_false id (Nat.lt_irrefl 0)
      · rw [tour_nil (Nat.ne_of_gt (Nat.mul_pos hn hpos))]
        exact iff_of_true trivial hn
    | cons g gs ih =>
      intro n s
      rcases n with _ | n
      · rw [Nat.zero_mul, tour_zero]
        exact iff_of_false id (Nat.not_lt_zero _)
      · have hlen : (n + 1) * c.blocksize ≠ 0 := Nat.ne_of_gt (Nat.mul_pos (Nat.succ_pos n) hpos)
        have hblock : (erasePass c fails).block s (g * c.blocksize + 0) ((n + 1) * c.blocksize) = _ :=
          eraseBlock_start fails s g _
        simp only [tour, hlen, if_false, hblock]
        rw [Nat.succ_mul, Nat.add_sub_cancel, ih, List.length_cons]
        omega
  refine ⟨hshort gs n s, fun s' k' len' htour => ?_⟩
  have hlt : gs.length < n := by
    rw [← hshort gs n s, htour]
    trivial
  cases gs with
  | nil =>
    rw [tour_nil (Nat.ne_of_gt (Nat.mul_pos hlt hpos))] at htour
    cases htour
    exact iff_of_true ⟨rfl, hs⟩ rfl
  | cons g gs =>
    refine iff_of_false ?_ (List.cons_ne_nil g gs)
    rintro ⟨hnand, herased⟩
    obtain ⟨s₁, hends, hblocks⟩ := eraseTour_spec (c := c) fails (g :: gs) n s
    have heq : s₁ = s' := by
      rcases hends with ⟨_, _, ht⟩ | ht
      · rw [htour] at ht
        cases ht
        rfl
      · rw [htour] at ht
        cases ht
    subst heq
    have hmem : g ∈ (g :: gs).take n := by
      rw [List.take_of_length_le (Nat.le_of_lt hlt)]
      exact List.mem_cons_self
    -- the first block has been erased, or is marked bad
    cases hf : fails g with
    | true =>
      have hbad := hblocks.bad_eq g
      rw [hnand, hgood g List.mem_cons_self, hf, decide_eq_true hmem] at hbad
      cases hbad
    | false =>
      have hin := hblocks.erased
      rw [herased, hs, List.nil_append] at hin
      have hg : g ∈ ((g :: gs).take n).filter fun i => !fails i :=
        List.mem_filter.mpr ⟨hmem, by rw [hf]; rfl⟩
      rw [← hin] at hg
      cases hg

/-- Which erase requests `nand_raw_erase` refuses exactly. -/
def NandEraseExact (c : NandRawCtrl) (readonly : MtdPartition → Bool) (bad : Nat → Bool)
    (e start len : Nat) : Prop :=
  if start ≥ c.size ∨ len = 0 ∨ start % c.blocksize ≠ 0 ∨ len % c.blocksize ≠ 0 then
    ¬ Touches c.partition readonly start len
  else
    NandHolds c readonly true bad e start (Touches c.partition readonly start len)
      fun gs => gs.length < len / c.blocksize

/-- Which write requests `nand_raw_write` refuses exactly; the bytes for the OOB area do not
    count as addresses. -/
def NandWriteExact (c : NandRawCtrl) (readonly : MtdPartition → Bool) (bad : Nat → Bool)
    (e start : Nat) (buffer : List UInt8) (write_oob : Bool) : Prop :=
  let len := if write_oob then lenWithoutOob c buffer.length else buffer.length
  if start ≥ c.size ∨ buffer.length = 0 ∨ start % c.pagesize ≠ 0 ∨
      (write_oob ∧ buffer.length % (c.pagesize + oobused) ≠ 0) ∨ nandPageBufSize < c.pagesize then
    ¬ Touches c.partition readonly start len
  else
    NandHolds c readonly false bad e start (Touches c.partition readonly start len)
      fun gs => Overflows c write_oob buffer (capacity c gs (start % c.blocksize))

/-- Nothing has been erased. -/
def NotErased (nand : Nand) (s : EraseState) : Prop := s.nand = nand ∧ s.erased = []

/-- Nothing has been programmed. -/
def NotProgrammed (nand : Nand) (s : WriteState) : Prop := s.nand = nand ∧ s.programmed = []

theorem nandRawWrite_iff (h : Opened c f first last o e) (nand : Nand) {start : Nat}
    (hstart : f.open_addr ≤ start) (buffer : List UInt8) (write_oob : Bool)
    (hrun : NoLongRun c nand.bad) :
    RefusesExactly (nandRawWrite c readonly nand start buffer f.open_addr f.limit_len write_oob)
      (Touches c.partition readonly start
        (if write_oob then lenWithoutOob c buffer.length else buffer.length))
      (NotProgrammed nand) ↔ NandWriteExact c readonly nand.bad e start buffer write_oob := by
  have hbs := blocksize_pos c
  have hoob : ¬ nandOobBufSize < oobused := by decide
  rw [nandRawWrite, NandWriteExact]
  simp only [hoob, and_false, false_or]
  split
  · exact refusesExactly_ended fun s h => nomatch h
  · rename_i hvalid
    simp only [not_or, not_and, not_not] at hvalid
    obtain ⟨-, hlen, hpage, hmod, -⟩ := hvalid
    -- the start as a block and an offset in it
    obtain ⟨b, k, hk, rfl⟩ : ∃ b k, PageStart c k ∧ start = b * c.blocksize + k := by
      have hdvd : c.pagesize ∣ c.blocksize := Nat.pow_dvd_pow 2 h.page_le
      refine ⟨start / c.blocksize, start % c.blocksize, ⟨?_, Nat.mod_lt _ hbs⟩,
        (Nat.div_add_mod' start c.blocksize).symm⟩
      rw [Nat.mod_mod_of_dvd _ hdvd]
      exact hpage
    -- the write does not start in front of what is open
    have hob : o ≤ b := by
      rw [h.open_eq] at hstart
      by_contra hlt
      have hle := Nat.mul_le_mul_right c.blocksize (show b + 1 ≤ o by omega)
      have hkb := hk.2
      rw [Nat.succ_mul] at hle
      omega
    rw [Nat.mul_add_mod_self_right, Nat.mod_eq_of_lt hk.2]
    apply nandHolds_iff (s := { nand := nand, buffer := buffer })
      (lawful_writePass_pages h.pageshift_pos h.page_le write_oob) h hob hk hk.2 hlen hrun
    · intro s'
      cases pass c readonly (writePass c write_oob) f.open_addr f.limit_len c.partition
        { nand := nand, buffer := buffer } (b * c.blocksize + k) buffer.length with
      | none => simp
      | some w =>
        rcases w with s₁ | (⟨s₁, _, _⟩ | s₁ | ⟨s₁, _⟩) <;> simp
    · exact ⟨Nat.zero_le _, by rw [capacity, Nat.zero_mul]; exact Nat.pos_of_ne_zero hlen⟩
    · intro gs _
      obtain ⟨hshort, hdone⟩ := writeTour_short (s := { nand := nand, buffer := buffer }) h.page_le
        write_oob gs hk (by rintro rfl; exact hmod rfl)
      refine ⟨hshort, fun s' k' len' ht => ?_⟩
      obtain ⟨hnil, hcons⟩ := hdone s' k' len' ht
      constructor
      · intro hnot
        by_contra hgs
        exact hcons hgs hnot.2
      · intro hgs
        rw [hnil hgs]
        exact ⟨rfl, rfl⟩
    · exact fun hnone => not_touches hnone _ _

theorem nandRawErase_iff (h : Opened c f first last o e) (nand : Nand) (fails : Nat → Bool)
    {start : Nat} (hstart : f.open_addr ≤ start) (len : Nat) (hrun : NoLongRun c nand.bad) :
    RefusesExactly (nandRawErase c readonly nand fails start len f.open_addr f.limit_len)
      (Touches c.partition readonly start len) (NotErased nand) ↔
        NandEraseExact c readonly nand.bad e start len := by
  have hbs := blocksize_pos c
  rw [nandRawErase, NandEraseExact]
  split
  · exact refusesExactly_ended fun s h => nomatch h
  · rename_i hvalid
    simp only [not_or, not_not, Nat.not_le] at hvalid
    obtain ⟨hlt, hlen, hsm, hlm⟩ := hvalid
    obtain ⟨b, rfl⟩ : ∃ b, start = b * c.blocksize :=
      ⟨start / c.blocksize, (Nat.div_mul_cancel (Nat.dvd_of_mod_eq_zero hsm)).symm⟩
    obtain ⟨n, rfl⟩ : ∃ n, len = n * c.blocksize :=
      ⟨len / c.blocksize, (Nat.div_mul_cancel (Nat.dvd_of_mod_eq_zero hlm)).symm⟩
    have hob : o ≤ b := by
      rw [h.open_eq] at hstart
      exact Nat.le_of_mul_le_mul_right hstart hbs
    have hbl : b < last := by
      rw [h.size_eq] at hlt
      exact Nat.lt_of_mul_lt_mul_right hlt
    have hn : 0 < n := Nat.pos_of_ne_zero fun hz => hlen (by rw [hz, Nat.zero_mul])
    -- the length is cut at the end of the flash
    have hcut : (if b * c.blocksize + n * c.blocksize > c.size then c.size - b * c.blocksize
        else n * c.blocksize) = min n (last - b) * c.blocksize := by
      rw [h.size_eq, ← Nat.sub_mul, ← Nat.add_mul]
      split
      · rename_i hgt
        have hgt := Nat.lt_of_mul_lt_mul_right hgt
        rw [Nat.min_eq_right (by omega)]
      · rename_i hle
        have hle := Nat.le_of_mul_le_mul_right (Nat.le_of_not_lt hle) hbs
        rw [Nat.min_eq_left (by omega)]
    have hmin : 0 < min n (last - b) := by omega
    dsimp only
    rw [hcut, Nat.mul_div_cancel _ hbs]
    have hiff : ∀ res : Option (Ended EraseState),
        (∀ s', res = some (.refused s') ↔ pass c readonly (erasePass c fails) f.open_addr
          f.limit_len c.partition { nand := nand } (b * c.blocksize + 0)
            (min n (last - b) * c.blocksize) = some (.refused s')) →
        (RefusesExactly res (Touches c.partition readonly (b * c.blocksize) (n * c.blocksize))
          (NotErased nand) ↔ NandHolds c readonly true nand.bad e (b * c.blocksize + 0)
            (Touches c.partition readonly (b * c.blocksize) (n * c.blocksize))
              fun gs => gs.length < min n (last - b)) := by
      intro res hres
      apply nandHolds_iff (s := { nand := nand }) (lawful_erasePass h fails) h hob rfl hbs
        (Nat.ne_of_gt (Nat.mul_pos hmin hbs)) hrun hres hmin
      · intro gs hgs
        exact eraseTour_short fails gs _ hgs rfl
      · exact fun hnone => not_touches hnone _ _
    rw [hiff _ fun s' => ?_]
    · apply forall_congr'
      intro r
      apply imp_congr_right
      intro hr
      dsimp only
      -- there are no more good blocks than are left of the flash
      have hfew : (goods nand.bad ((b * c.blocksize + 0) / c.blocksize)
          (min (r.start / c.blocksize) e)).length < min n (last - b) ↔
          (goods nand.bad ((b * c.blocksize) / c.blocksize)
            (min (r.start / c.blocksize) e)).length < n := by
        obtain ⟨pb, pe, hptn, -, hpe⟩ := h.contiguous.blocks (List.mem_of_find?_eq_some hr)
        have hle := length_goods_le nand.bad b (min (r.start / c.blocksize) e)
        have hlt := hptn.lt
        rw [hptn.start_eq, Nat.mul_div_cancel _ hbs] at hle ⊢
        rw [Nat.add_zero, Nat.mul_div_cancel _ hbs]
        omega
      rw [hfew]
      rfl
    · rw [Nat.add_zero]
      cases pass c readonly (erasePass c fails) f.open_addr f.limit_len c.partition
        { nand := nand } (b * c.blocksize) (min n (last - b) * c.blocksize) with
      | none => simp
      | some w =>
        rcases w with s₁ | (⟨s₁, _, _⟩ | s₁ | ⟨s₁, _⟩) <;> simp

/-- A NAND table and an SPI table, with any partitions read-only: which requests the four
    functions refuse exactly. -/
theorem readonly_iff (readonly : MtdPartition → Bool) (h : Opened c f first last o e)
    {cs : NandRawCtrl} {base : Nat} (hspans : Spans cs.partition base cs.size) :
    (∀ nand fails start len, f.open_addr ≤ start → NoLongRun c nand.bad →
      (RefusesExactly (nandRawErase c readonly nand fails start len f.open_addr f.limit_len)
        (Touches c.partition readonly start len) (NotErased nand) ↔
          NandEraseExact c readonly nand.bad e start len)) ∧
    (∀ nand start buffer write_oob, f.open_addr ≤ start → NoLongRun c nand.bad →
      (RefusesExactly (nandRawWrite c readonly nand start buffer f.open_addr f.limit_len write_oob)
        (Touches c.partition readonly start
          (if write_oob then lenWithoutOob c buffer.length else buffer.length))
        (NotProgrammed nand) ↔ NandWriteExact c readonly nand.bad e start buffer write_oob)) ∧
    (∀ data fails start len,
      RefusesExactly (some (spiRawErase cs readonly data fails start len))
        (Touches cs.partition readonly start len) (SpiState.Untouched data) ↔
          SpiEraseExact cs readonly start len) ∧
    ∀ data fails start buffer,
      RefusesExactly (some (spiRawWrite cs readonly data fails start buffer))
        (Touches cs.partition readonly start buffer.length) (SpiState.Untouched data) ↔
          SpiWriteExact cs readonly start buffer.length := by
  refine ⟨?_, ?_, ?_, ?_⟩
  · intro nand fails start len hstart hrun
    exact nandRawErase_iff h nand fails hstart len hrun
  · intro nand start buffer write_oob hstart hrun
    exact nandRawWrite_iff h nand hstart buffer write_oob hrun
  · intro data fails start len
    exact spiRawErase_iff hspans data fails start len
  · intro data fails start buffer
    exact spiRawWrite_iff hspans data fails start buffer

end Nand

/-- Two blocks, each in a partition of its own. -/
def twoParts : NandRawCtrl where
  size := 2 * 2 ^ 12
  pageshift := 9
  blockshift := 12
  partition := [{ start := 0, «end» := 2 ^ 12 - 1 }, { start := 2 ^ 12, «end» := 2 * 2 ^ 12 - 1 }]

/-- A handle on both. -/
def twoHandle : FlashInfo := { open_addr := 0, limit_len := 2 * 2 ^ 12 }

theorem twoParts_opened : Opened twoParts twoHandle 0 2 0 2 where
  pageshift_pos := by decide
  page_le := by decide
  blockshift_lt := by decide
  contiguous := ⟨⟨by decide, by decide, by decide⟩, ⟨by decide, by decide, by decide⟩,
    show 2 * 2 ^ 12 / 2 ^ 12 = 2 by decide⟩
  size_eq := by decide
  first_le := Nat.le_refl 0
  open_eq := by decide
  limit_eq := by decide
  le := by decide
  le_last := by decide

theorem twoParts_spans : Spans twoParts.partition 0 twoParts.size :=
  ⟨rfl, by decide, rfl, by decide, rfl⟩

/-- An erase of both blocks, where the second one is read-only. -/
theorem readonly_second :
    RefusesExactly (nandRawErase twoParts (fun ptn => ptn.start ≠ 0) written (fun _ => false) 0
      (2 * 2 ^ 12) twoHandle.open_addr twoHandle.limit_len)
      (Touches twoParts.partition (fun ptn => ptn.start ≠ 0) 0 (2 * 2 ^ 12)) (NotErased written) ↔
        NandEraseExact twoParts (fun ptn => ptn.start ≠ 0) written.bad 2 0 (2 * 2 ^ 12) := by
  apply (readonly_iff (fun ptn => ptn.start ≠ 0) twoParts_opened twoParts_spans).1
  · decide
  · -- no block is bad
    rintro x ⟨-, -, -, -, hrun⟩
    cases hrun 0 (by decide)

/-- The blocks that a refused erase has erased. -/
def erasedWhenRefused : Option (Ended EraseState) → List Nat
  | some (.refused s) => s.erased
  | _ => []

/-- An SPI erase behind a read-only partition is refused; a NAND erase that reaches one is
    refused after its first block. -/
theorem refuses_wrongly :
    (¬ RefusesExactly (some (spiRawErase twoParts (fun ptn => ptn.start = 0) (fun _ => 0)
      (fun _ => false) (2 ^ 12) (2 ^ 12)))
      (Touches twoParts.partition (fun ptn => ptn.start = 0) (2 ^ 12) (2 ^ 12))
      (SpiState.Untouched fun _ => 0)) ∧
    ¬ RefusesExactly (nandRawErase twoParts (fun ptn => ptn.start ≠ 0) written (fun _ => false) 0
      (2 * 2 ^ 12) 0 (2 * 2 ^ 12))
      (Touches twoParts.partition (fun ptn => ptn.start ≠ 0) 0 (2 * 2 ^ 12))
      (NotErased written) := by
  constructor
  · intro hexact
    have htouch := hexact.1.mp ⟨_, rfl⟩
    revert htouch
    decide
  · intro hexact
    obtain ⟨s, hs⟩ := hexact.1.mpr (by decide)
    have herased : erasedWhenRefused (nandRawErase twoParts (fun ptn => ptn.start ≠ 0) written
        (fun _ => false) 0 (2 * 2 ^ 12) 0 (2 * 2 ^ 12)) = [0] := by decide +kernel
    rw [hs] at herased
    cases (hexact.2 s hs).2.symm.trans herased

end Tntsat.FlashReadonly
